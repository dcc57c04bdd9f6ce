import TriadLang.Proofs.Token.Partition
import TriadLang.Proofs.Token.Regex

/-!
# Tokens written out again

The lexemes of a text are written one after another, with a separator behind each but
the last.  A separator begins with a blank, and blanks and comments follow it.  Each
lexeme is then cut off by the blank behind it, and the rest of the separator holds no
token, so the tokens are read back where their lexemes were written.

The blank is needed.  Without it a minus in front of `>` would become an arrow, and a
slash in front of a comment would begin another comment.
-/

namespace TriadLang

theorem Skipped.lexes {gap after : List Char} (h : Skipped gap after) {offset : Nat}
    {ts : List Token} (hr : Lexes (offset + byteLength gap) after ts) :
    Lexes offset (gap ++ after) ts := by
  induction h generalizing offset with
  | nil => exact hr
  | blank hc _ ih =>
    rw [byteLength_cons, ← Nat.add_assoc] at hr
    exact .blank (isBlank_iff.2 hc) (ih hr)
  | @lineComment body gap after hb hend _ ih =>
    have hsplit : '/' :: '/' :: (body ++ gap) = ('/' :: '/' :: body) ++ gap := rfl
    rw [hsplit, byteLength_append, ← Nat.add_assoc] at hr
    rw [hsplit, List.append_assoc]
    refine .skip (.lineComment (fun c hc => ?_) (fun c hc => ?_)) (ih hr)
    · rw [bne_iff_ne]
      rintro rfl
      exact hb hc
    · rw [hend c hc]
      rfl
  | @blockComment body gap after hb _ ih =>
    have hsplit : '/' :: '*' :: (body ++ '*' :: '/' :: gap) =
        ('/' :: '*' :: (body ++ ['*', '/'])) ++ gap := by
      simp only [List.cons_append, List.append_assoc, List.nil_append]
    rw [hsplit, byteLength_append, ← Nat.add_assoc] at hr
    rw [hsplit, List.append_assoc]
    refine .skip (.blockComment ?_) (ih hr)
    rw [Rule.toCommentEnd?_body hb [], List.length_append]
    rfl

/-- Blanks and comments, in any order.  A comment that begins with two slashes ends
with its newline. -/
inductive Filler : List Char → Prop where
  | nil : Filler []
  | blank {c : Char} {gap : List Char} (hc : c = ' ' ∨ c = '\t' ∨ c = '\r' ∨ c = '\n')
      (h : Filler gap) : Filler (c :: gap)
  | lineComment {body gap : List Char} (hb : '\n' ∉ body) (h : Filler gap) :
      Filler ('/' :: '/' :: (body ++ '\n' :: gap))
  | blockComment {body gap : List Char} (hb : ¬ ['*', '/'] <:+: body) (h : Filler gap) :
      Filler ('/' :: '*' :: (body ++ '*' :: '/' :: gap))

/-- A blank, and then blanks and comments. -/
def Separator (sep : List Char) : Prop :=
  ∃ c gap, sep = c :: gap ∧ (c = ' ' ∨ c = '\t' ∨ c = '\r' ∨ c = '\n') ∧ Filler gap

theorem Filler.skipped {gap : List Char} (h : Filler gap) (after : List Char) :
    Skipped gap after := by
  induction h with
  | nil => exact .nil
  | blank hc _ ih => exact .blank hc ih
  | lineComment hb _ ih =>
    refine .lineComment hb ?_ (.blank (by decide) ih)
    rintro c ⟨⟩
    rfl
  | blockComment hb _ ih => exact .blockComment hb ih

theorem Separator.skipped {sep : List Char} (h : Separator sep) (after : List Char) :
    Skipped sep after := by
  obtain ⟨c, gap, rfl, hc, hgap⟩ := h
  exact .blank hc (hgap.skipped after)

theorem Separator.isBlank_head {sep : List Char} (h : Separator sep) (rest : List Char) :
    ∀ c ∈ (sep ++ rest).head?, Rule.isBlank c := by
  obtain ⟨d, gap, rfl, hd, -⟩ := h
  rintro c ⟨⟩
  exact isBlank_iff.2 hd

namespace Token

/-- The same token with its lexeme at another byte offset. -/
def movedTo (t : Token) (offset : Nat) : Token :=
  ⟨t.kind, t.lexeme, ⟨offset, offset + byteLength t.lexeme.toList⟩⟩

/-- The lexemes of some tokens, with a separator behind each but the last. -/
def respaced : (Nat → List Char) → List Token → List Char
  | _, [] => []
  | _, [t] => t.lexeme.toList
  | sep, t :: u :: ts => t.lexeme.toList ++ (sep 0 ++ respaced (fun n => sep (n + 1)) (u :: ts))

/-- The tokens where `respaced` writes their lexemes, from a byte offset on. -/
def placed : (Nat → List Char) → Nat → List Token → List Token
  | _, _, [] => []
  | sep, offset, t :: ts =>
    t.movedTo offset :: placed (fun n => sep (n + 1))
      (offset + byteLength t.lexeme.toList + byteLength (sep 0)) ts

theorem words_placed (sep : Nat → List Char) (offset : Nat) (ts : List Token) :
    (placed sep offset ts).map (fun t => (t.kind, t.lexeme)) =
      ts.map fun t => (t.kind, t.lexeme) := by
  induction ts generalizing sep offset with
  | nil => rfl
  | cons t ts ih =>
    rw [placed, List.map_cons, List.map_cons, ih]
    rfl

/-- In front of a blank or the end, a lexeme is read as its token. -/
theorem lexes_movedTo {t : Token} (hk : t.kind ≠ .eof) (hf : t.kind.Fits t.lexeme)
    {rest : List Char} (hr : ∀ c ∈ rest.head?, Rule.isBlank c) {offset : Nat} {ts : List Token}
    (h : Lexes (offset + byteLength t.lexeme.toList) rest ts) :
    Lexes offset (t.lexeme.toList ++ rest) (t.movedTo offset :: ts) := by
  obtain ⟨k, hc, hkind⟩ := exists_cut_of_fits hf hk hr
  have htoken : Token.ofChars k t.lexeme.toList offset = t.movedTo offset := by
    rw [Token.ofChars, String.ofList_toList, hkind, movedTo]
  rw [← htoken]
  exact .token hc h

theorem lexes_respaced {ts : List Token} (hf : ∀ t ∈ ts, t.kind ≠ .eof ∧ t.kind.Fits t.lexeme)
    {sep : Nat → List Char} (hsep : ∀ n, n + 1 < ts.length → Separator (sep n)) (offset : Nat) :
    Lexes offset (respaced sep ts) (placed sep offset ts) := by
  induction ts generalizing sep offset with
  | nil => exact .nil offset
  | cons t ts ih =>
    obtain ⟨hk, hfits⟩ := hf t List.mem_cons_self
    cases ts with
    | nil =>
      have h := lexes_movedTo hk hfits (by simp) (.nil (offset + byteLength t.lexeme.toList))
      rwa [List.append_nil] at h
    | cons u ts =>
      have hfirst : Separator (sep 0) := hsep 0 (by simp)
      have hrest := ih (fun t ht => hf t (List.mem_cons_of_mem _ ht))
        (fun n hn => hsep (n + 1) (Nat.succ_lt_succ hn))
        (offset + byteLength t.lexeme.toList + byteLength (sep 0))
      exact lexes_movedTo hk hfits (hfirst.isBlank_head _) ((hfirst.skipped _).lexes hrest)

end Token

/-- The lexemes of a text can be written out again with any separators between them:
the tokens are the same, each where its lexeme was written. -/
theorem tokenize_respaced {src : String} {ts : List Token} (h : tokenize src = .ok ts)
    {sep : Nat → List Char} (hsep : ∀ n, n + 2 < ts.length → Separator (sep n)) :
    ∃ us, ts = us ++ [.eof (byteLength src.toList)] ∧
      tokenize (String.ofList (Token.respaced sep us)) =
        .ok (Token.placed sep 0 us ++ [.eof (byteLength (Token.respaced sep us))]) ∧
      (Token.placed sep 0 us ++ [Token.eof (byteLength (Token.respaced sep us))]).map
        (fun t : Token => (t.kind, t.lexeme)) = ts.map (fun t => (t.kind, t.lexeme)) ∧
      ∀ t ∈ Token.placed sep 0 us, t.span.Selects (Token.respaced sep us) t.lexeme.toList := by
  obtain ⟨us, hus, rfl⟩ := tokenize_eq_ok_iff_lexes.1 h
  have hlex : Lexes 0 (Token.respaced sep us) (Token.placed sep 0 us) := by
    refine Token.lexes_respaced hus.forall_fits (fun n hn => hsep n ?_) 0
    rw [List.length_append, List.length_singleton]
    omega
  refine ⟨us, rfl, ?_, ?_, fun t ht => (hlex.forall_standsIn t ht).selects⟩
  · exact tokenize_eq_ok_iff_lexes.2 ⟨_, by rwa [String.toList_ofList], by rw [String.toList_ofList]⟩
  · rw [List.map_append, List.map_append, Token.words_placed]
    rfl

/-- The opening of a comment that is not closed stays two signs, although comments come
between them, and what looks like a comment in a string stays there. -/
theorem tokenize_respaced_open_comment :
    tokenize "a/*\"//é\"" = .ok [⟨.ident, "a", ⟨0, 1⟩⟩, ⟨.slash, "/", ⟨1, 2⟩⟩, ⟨.star, "*", ⟨2, 3⟩⟩,
        ⟨.text, "\"//é\"", ⟨3, 9⟩⟩, .eof 9] ∧
      Separator [' ', '/', '*', '}', '"', 'é', '*', '/', '/', '/', '\n'] ∧
      tokenize "a /*\x7d\"é*///\n/ /*\x7d\"é*///\n* /*\x7d\"é*///\n\"//é\"" =
        .ok [⟨.ident, "a", ⟨0, 1⟩⟩, ⟨.slash, "/", ⟨13, 14⟩⟩, ⟨.star, "*", ⟨26, 27⟩⟩,
          ⟨.text, "\"//é\"", ⟨39, 45⟩⟩, .eof 45] := by
  have htok : tokenize "a/*\"//é\"" = .ok [⟨.ident, "a", ⟨0, 1⟩⟩, ⟨.slash, "/", ⟨1, 2⟩⟩,
      ⟨.star, "*", ⟨2, 3⟩⟩, ⟨.text, "\"//é\"", ⟨3, 9⟩⟩, .eof 9] := ok_of_toOption (by decide +kernel)
  have hbody : ¬ ['*', '/'] <:+: ['}', '"', 'é'] := by decide
  have hline : Filler ['/', '/', '\n'] := .lineComment (List.not_mem_nil) .nil
  have hsep : Separator [' ', '/', '*', '}', '"', 'é', '*', '/', '/', '/', '\n'] :=
    ⟨' ', _, rfl, Or.inl rfl, .blockComment hbody hline⟩
  refine ⟨htok, hsep, ?_⟩
  obtain ⟨us, hus, hres, -⟩ := tokenize_respaced htok fun _ _ => hsep
  have hlength : byteLength "a/*\"//é\"".toList = 9 := by decide +kernel
  rw [hlength] at hus
  have hlexemes : [⟨.ident, "a", ⟨0, 1⟩⟩, ⟨.slash, "/", ⟨1, 2⟩⟩, ⟨.star, "*", ⟨2, 3⟩⟩,
      ⟨.text, "\"//é\"", ⟨3, 9⟩⟩] ++ [Token.eof 9] = us ++ [Token.eof 9] := hus
  obtain rfl := List.append_cancel_right hlexemes
  have htext : String.ofList (Token.respaced (fun _ => [' ', '/', '*', '}', '"', 'é', '*', '/', '/',
      '/', '\n']) [⟨.ident, "a", ⟨0, 1⟩⟩, ⟨.slash, "/", ⟨1, 2⟩⟩, ⟨.star, "*", ⟨2, 3⟩⟩,
      ⟨.text, "\"//é\"", ⟨3, 9⟩⟩]) = "a /*\x7d\"é*///\n/ /*\x7d\"é*///\n* /*\x7d\"é*///\n\"//é\"" := by
    decide +kernel
  rw [← htext, hres]
  exact congrArg Except.ok (by decide +kernel)

end TriadLang
