import TriadLang.Proofs.Token.Partition
import TriadLang.Proofs.Token.Regex

/-!
# Where no rule applies

What a text looks like at whose front no rule applies: it begins with a character
that belongs to no chunk, with half of a sign, or with the quote of a string that
is not closed.  A comment that is not closed is not among them, since its opening
is two signs.

The lexer fails exactly if it comes to such a place (`tokenize_fails_iff`).  It goes
no further from there, so the place is the first one of its sort.
-/

namespace TriadLang

/-- The characters with which a chunk of a text can begin, letters and digits apart. -/
def Rule.marks : List Char :=
  ['_', ' ', '\t', '\r', '\n', '"', '&', '|', ':', ';', ',', '.', '(', ')', '{', '}', '[', ']',
    '=', '!', '<', '>', '+', '-', '*', '/', '%']

def Rule.canBegin (c : Char) : Bool :=
  c.isAlphanum || marks.contains c

/-- What comes after the opening quote of a string that is not closed.  A backslash
is read together with the character after it, which must not be a newline. -/
inductive OpenString : List Char → Prop where
  | atEnd : OpenString []
  | backslash : OpenString ['\\']
  | newline {cs : List Char} : OpenString ('\\' :: '\n' :: cs)
  | escape {c : Char} {cs : List Char} (hc : c ≠ '\n') (h : OpenString cs) :
      OpenString ('\\' :: c :: cs)
  | plain {c : Char} {cs : List Char} (hq : c ≠ '"') (hs : c ≠ '\\') (h : OpenString cs) :
      OpenString (c :: cs)

/-- The texts at whose front no rule applies. -/
inductive Unreadable : List Char → Prop where
  | stray {c : Char} {cs : List Char} (hc : Rule.canBegin c = false) : Unreadable (c :: cs)
  | ampersand {cs : List Char} (h : cs.head? ≠ some '&') : Unreadable ('&' :: cs)
  | bar {cs : List Char} (h : cs.head? ≠ some '|') : Unreadable ('|' :: cs)
  | string {cs : List Char} (h : OpenString cs) : Unreadable ('"' :: cs)

theorem openString_iff {cs : List Char} :
    OpenString cs ↔ Rule.toClosingQuote? false cs = none := by
  induction cs using Rule.string_induction with
  | nil => exact iff_of_true .atEnd rfl
  | quote cs =>
    refine iff_of_false ?_ (by simp [Rule.toClosingQuote?])
    rintro (_ | _ | _ | _ | ⟨hq, -, -⟩)
    exact hq rfl
  | lone => exact iff_of_true .backslash rfl
  | newline cs => exact iff_of_true .newline rfl
  | escape c cs hc ih =>
    rw [Rule.toClosingQuote?_escape hc, Option.map_eq_none_iff, ← ih]
    constructor
    · rintro (_ | _ | _ | ⟨-, h⟩ | ⟨-, hs, -⟩)
      · exact absurd rfl hc
      · exact h
      · exact absurd rfl hs
    · exact .escape hc
  | plain c cs hq hs ih =>
    rw [Rule.toClosingQuote?_plain hq hs, Option.map_eq_none_iff, ← ih]
    constructor
    · rintro (_ | _ | _ | _ | ⟨-, -, h⟩)
      · exact absurd rfl hs
      · exact absurd rfl hs
      · exact absurd rfl hs
      · exact h
    · exact .plain hq hs

namespace Rule

theorem canBegin_cases {c : Char} (h : canBegin c) :
    isWordStart c ∨ c.isDigit ∨ isBlank c ∨ c = '"' ∨ c = '&' ∨ c = '|' ∨
      ∃ k ∈ Kind.signs, k.spelling.toList = [c] := by
  have hmarks : marks.all fun c => isWordStart c || isBlank c || c == '"' || c == '&' ||
      c == '|' || Kind.signs.any (·.spelling.toList == [c]) := by decide
  rw [canBegin, Bool.or_eq_true, List.contains_iff_mem] at h
  rcases h with h | h
  · rw [Char.isAlphanum, Bool.or_eq_true] at h
    rcases h with h | h
    · exact Or.inl (by rw [isWordStart, h, Bool.true_or])
    · exact Or.inr (Or.inl h)
  · have hc := List.all_eq_true.1 hmarks c h
    simp only [Bool.or_eq_true, beq_iff_eq, List.any_eq_true, or_assoc] at hc
    exact hc.imp_right Or.inr

theorem canBegin_of_isWordStart {c : Char} (h : isWordStart c) : canBegin c := by
  rw [isWordStart, Bool.or_eq_true, beq_iff_eq] at h
  rcases h with h | rfl
  · rw [canBegin, Char.isAlphanum, h, Bool.true_or, Bool.true_or]
  · decide

theorem canBegin_of_isDigit {c : Char} (h : c.isDigit) : canBegin c := by
  rw [canBegin, Char.isAlphanum, h, Bool.or_true, Bool.true_or]

theorem canBegin_of_isBlank {c : Char} (h : isBlank c) : canBegin c := by
  rcases isBlank_iff.1 h with rfl | rfl | rfl | rfl <;> decide

end Rule

/-- A text is readable if it begins with a character of a sort that leaves out the
three characters after which more has to be looked at. -/
theorem not_unreadable_of_sort {p : Char → Bool} (hp : ∀ c, p c → Rule.canBegin c)
    (ha : p '&' = false) (hb : p '|' = false) (hq : p '"' = false) {c : Char} {cs : List Char}
    (hc : p c) : ¬ Unreadable (c :: cs) := by
  rintro (hno | _ | _ | _)
  · rw [hp c hc] at hno
    cases hno
  · rw [ha] at hc
    cases hc
  · rw [hb] at hc
    cases hc
  · rw [hq] at hc
    cases hc

theorem not_unreadable_slash (cs : List Char) : ¬ Unreadable ('/' :: cs) := by
  refine not_unreadable_of_sort (p := (· == '/')) ?_ rfl rfl rfl rfl
  intro c hc
  rw [eq_of_beq hc]
  decide

theorem Kind.not_unreadable_spelling {k : Kind} (hk : k ∈ signs) (rest : List Char) :
    ¬ Unreadable (k.spelling.toList ++ rest) := by
  have hbegin : ∀ k ∈ signs, k.spelling.toList.head?.all Rule.canBegin := by decide
  have hand : ∀ k ∈ signs, k.spelling.toList.head? = some '&' → k.spelling.toList = ['&', '&'] := by
    decide
  have hor : ∀ k ∈ signs, k.spelling.toList.head? = some '|' → k.spelling.toList = ['|', '|'] := by
    decide
  obtain ⟨d, ds, hs, -, -, -, hq⟩ := Rule.exists_head_sign hk
  have hd := hbegin k hk
  have hand := hand k hk
  have hor := hor k hk
  rw [hs] at hd hand hor ⊢
  rintro (hno | h | h | _)
  · rw [List.head?_cons, Option.all_some, hno] at hd
    cases hd
  · rw [(List.cons.inj (hand rfl)).2] at h
    exact h rfl
  · rw [(List.cons.inj (hor rfl)).2] at h
    exact h rfl
  · exact hq rfl

theorem Cut.not_unreadable {kind? : Option Kind} {cs rest : List Char} (h : Cut kind? cs rest) :
    ¬ Unreadable (cs ++ rest) := by
  cases h with
  | blanks hn hcs _ =>
    obtain ⟨c, cs, rfl⟩ := List.exists_cons_of_ne_nil hn
    exact not_unreadable_of_sort (fun _ => Rule.canBegin_of_isBlank) rfl rfl rfl
      (hcs c List.mem_cons_self)
  | lineComment _ _ => exact not_unreadable_slash _
  | blockComment _ => exact not_unreadable_slash _
  | sign hk _ => exact Kind.not_unreadable_spelling hk rest
  | digits hn hcs _ =>
    obtain ⟨c, cs, rfl⟩ := List.exists_cons_of_ne_nil hn
    exact not_unreadable_of_sort (fun _ => Rule.canBegin_of_isDigit) rfl rfl rfl
      (hcs c List.mem_cons_self)
  | string hcs =>
    rintro (hno | _ | _ | h)
    · cases hno
    · have hopen : Rule.toClosingQuote? false (_ ++ rest) = none := openString_iff.1 h
      rw [Rule.toClosingQuote?_append hcs rest] at hopen
      cases hopen
  | word hc _ _ => exact not_unreadable_of_sort (fun _ => Rule.canBegin_of_isWordStart) rfl rfl rfl hc

theorem unreadable_of_length_eq_zero {c : Char} {cs : List Char}
    (h : ∀ r ∈ Rule.table, r.length (c :: cs) = 0) : Unreadable (c :: cs) := by
  have hsign : ∀ k ∈ Kind.signs, ¬ k.spelling.toList <+: c :: cs := by
    intro k hk hp
    obtain ⟨d, ds, hs, -⟩ := Rule.exists_head_sign hk
    have hmem : Rule.sign k ∈ Rule.table := by
      have hmap := List.mem_map_of_mem (f := Rule.sign) (Rule.mem_signOrder.2 hk)
      simp [Rule.table_eq, hmap]
    have hzero := h _ hmem
    rw [Rule.length_sign, if_pos hp, hs] at hzero
    cases hzero
  cases hbegin : Rule.canBegin c with
  | false => exact .stray hbegin
  | true =>
    rcases Rule.canBegin_cases hbegin with hc | hc | hc | rfl | rfl | rfl | ⟨k, hk, hs⟩
    · have hword := h Rule.word (by simp [Rule.table_eq])
      simp [Rule.word, hc] at hword
    · have hdigits := h Rule.digits (by simp [Rule.table_eq])
      simp [Rule.digits, hc] at hdigits
    · have hblanks := h Rule.blanks (by simp [Rule.table_eq])
      simp [Rule.blanks, hc] at hblanks
    · have hstring := h Rule.string (by simp [Rule.table_eq])
      refine .string (openString_iff.2 ?_)
      cases hquote : Rule.toClosingQuote? false cs with
      | none => rfl
      | some n => simp [Rule.string, hquote] at hstring
    · refine .ampersand fun hhead => ?_
      obtain ⟨rest, rfl⟩ := List.head?_eq_some_iff.1 hhead
      exact hsign .andAnd (by decide) (List.prefix_append ['&', '&'] rest)
    · refine .bar fun hhead => ?_
      obtain ⟨rest, rfl⟩ := List.head?_eq_some_iff.1 hhead
      exact hsign .orOr (by decide) (List.prefix_append ['|', '|'] rest)
    · exact absurd (hs ▸ List.prefix_append [c] cs) (hsign k hk)

/-- No rule applies at the front of a text exactly if the text is unreadable. -/
theorem Rule.first?_eq_none_iff {text : List Char} (hn : text ≠ []) :
    first? text = none ↔ Unreadable text := by
  obtain ⟨c, cs, rfl⟩ := List.exists_cons_of_ne_nil hn
  constructor
  · intro h
    refine unreadable_of_length_eq_zero fun r hr => ?_
    simpa using List.find?_eq_none.1 h r hr
  · intro h
    cases hf : first? (c :: cs) with
    | none => rfl
    | some r =>
      obtain ⟨chunk, rest, htext, hc⟩ := cut_of_first? hf
      rw [htext] at h
      exact absurd h hc.not_unreadable

theorem Unreadable.ne_nil {text : List Char} (h : Unreadable text) : text ≠ [] := by
  cases h <;> exact List.cons_ne_nil _ _

theorem cuts_concat {tail : List Char} {p : Piece} {ps : List Piece} :
    Cuts tail (ps ++ [p]) ↔ Cuts (p.chars ++ tail) ps ∧ Cut p.kind? p.chars tail := by
  induction ps with
  | nil => simp [Cuts, Piece.text]
  | cons q ps ih =>
    have htext : Piece.text (ps ++ [p]) ++ tail = Piece.text ps ++ (p.chars ++ tail) := by
      simp [Piece.text]
    rw [List.cons_append, Cuts, Cuts, htext, ih, and_assoc]

namespace Lexer

variable {src : String} {l : Lexer}

theorem Visits.exists_cuts (h : Visits src l) : ∃ ps, Cuts l.rest ps ∧
    src.toList = Piece.text ps ++ l.rest ∧ l.offset = byteLength (Piece.text ps) := by
  induction h with
  | start => exact ⟨[], True.intro, rfl, rfl⟩
  | @step l r _ hr ih =>
    obtain ⟨ps, hps, htext, ho⟩ := ih
    obtain ⟨cs, rest, hrest, hc⟩ := Rule.cut_of_first? hr
    obtain ⟨r', hr', -, hlen⟩ := Rule.exists_first?_of_cut hc
    rw [← hrest, hr, Option.some.injEq] at hr'
    subst hr'
    have hl : l.advance (r.length l.rest) = ⟨rest, l.offset + byteLength cs⟩ := by
      obtain ⟨text, offset⟩ := l
      subst hrest
      rw [hlen, advance_append]
    rw [hl]
    rw [hrest] at hps htext
    refine ⟨ps ++ [⟨r.kind?, cs⟩], cuts_concat.2 ⟨hps, hc⟩, ?_, ?_⟩
    · simp [Piece.text, htext]
    · simp [Piece.text, ho, byteLength_append]

theorem Visits.tokenize_eq_error (h : Visits src l) (hu : Unreadable l.rest) :
    ∃ c cs, l.rest = c :: cs ∧ tokenize src = .error (.unexpectedChar c l.offset) := by
  obtain ⟨ps, hps, htext, ho⟩ := h.exists_cuts
  have hnone := (Rule.first?_eq_none_iff hu.ne_nil).2 hu
  obtain ⟨c, cs, hrest⟩ := List.exists_cons_of_ne_nil hu.ne_nil
  refine ⟨c, cs, hrest, ?_⟩
  rw [hrest] at hps htext hnone
  rw [tokenize, ofSource, htext, drain_of_cuts hps, Nat.zero_add, ← ho,
    drain_of_next_error (next_of_first?_eq_none hnone _)]

end Lexer

theorem exists_unreadable_of_tokenize_eq_error {src : String} {fault : LexFault}
    (h : tokenize src = .error fault) :
    ∃ l c cs, Lexer.Visits src l ∧ l.rest = c :: cs ∧ Unreadable l.rest ∧
      fault = .unexpectedChar c l.offset := by
  obtain ⟨l, hvisits, hnone, c, cs, hrest, hf⟩ := Lexer.Visits.start.exists_stuck_of_drain h
  have hne : l.rest ≠ [] := by
    rw [hrest]
    exact List.cons_ne_nil c cs
  exact ⟨l, c, cs, hvisits, hrest, (Rule.first?_eq_none_iff hne).1 hnone, hf⟩

/-- A comment that is not closed is read as two signs. -/
theorem Lexer.next_of_open_comment {cs : List Char} (h : ¬ ['*', '/'] <:+: cs) (offset : Nat) :
    (⟨'/' :: '*' :: cs, offset⟩ : Lexer).next =
        (.ok ⟨.slash, "/", ⟨offset, offset + 1⟩⟩, ⟨'*' :: cs, offset + 1⟩) ∧
      (⟨'*' :: cs, offset + 1⟩ : Lexer).next =
        (.ok ⟨.star, "*", ⟨offset + 1, offset + 2⟩⟩, ⟨cs, offset + 2⟩) := by
  have hends : Kind.slash.Ends ('*' :: cs) := by
    refine ⟨by simp, ?_⟩
    rintro ds ⟨⟩
    exact Rule.toCommentEnd?_eq_none_iff.2 h
  have hslash : Cut (some .slash) ['/'] ('*' :: cs) := .sign (by decide) hends
  have hstar : Cut (some .star) ['*'] cs := .sign (k := .star) (by decide) True.intro
  exact ⟨next_of_cut_some hslash offset, next_of_cut_some hstar (offset + 1)⟩

/-- At each place that the lexer comes to before the end, no rule applies exactly if
what is left is unreadable.  A text has no tokens exactly if there is such a place, and
the fault is at the first one, with the character there.  A comment that is not closed
is read as two signs. -/
theorem tokenize_fails_iff (src : String) :
    (∀ l, Lexer.Visits src l → l.rest ≠ [] → (Rule.first? l.rest = none ↔ Unreadable l.rest)) ∧
    ((∃ fault, tokenize src = .error fault) ↔ ∃ l, Lexer.Visits src l ∧ Unreadable l.rest) ∧
    (∀ fault, tokenize src = .error fault → ∃ l c cs, Lexer.Visits src l ∧ l.rest = c :: cs ∧
      Unreadable l.rest ∧ fault = .unexpectedChar c l.offset ∧
      (∃ before, splitAtByte? l.offset src.toList = some (before, l.rest)) ∧
      l.offset < byteLength src.toList ∧
      ∀ l', Lexer.Visits src l' → Unreadable l'.rest → l.offset ≤ l'.offset) ∧
    ∀ l cs, Lexer.Visits src l → l.rest = '/' :: '*' :: cs → ¬ ['*', '/'] <:+: cs →
      l.next = (.ok ⟨.slash, "/", ⟨l.offset, l.offset + 1⟩⟩, ⟨'*' :: cs, l.offset + 1⟩) ∧
      (⟨'*' :: cs, l.offset + 1⟩ : Lexer).next =
        (.ok ⟨.star, "*", ⟨l.offset + 1, l.offset + 2⟩⟩, ⟨cs, l.offset + 2⟩) := by
  refine ⟨fun l _ hne => Rule.first?_eq_none_iff hne, ?_, ?_, ?_⟩
  · constructor
    · rintro ⟨fault, he⟩
      obtain ⟨l, c, cs, hvisits, -, hu, -⟩ := exists_unreadable_of_tokenize_eq_error he
      exact ⟨l, hvisits, hu⟩
    · rintro ⟨l, hvisits, hu⟩
      obtain ⟨c, cs, -, he⟩ := hvisits.tokenize_eq_error hu
      exact ⟨_, he⟩
  · intro fault he
    obtain ⟨l, c, cs, hvisits, hrest, hu, hf⟩ := exists_unreadable_of_tokenize_eq_error he
    obtain ⟨before, htext, ho⟩ := hvisits.exists_before
    refine ⟨l, c, cs, hvisits, hrest, hu, hf, hvisits.slices.1, ?_, ?_⟩
    · rw [htext, byteLength_append, ← ho]
      exact Nat.lt_add_of_pos_right (byteLength_pos hu.ne_nil)
    · intro l' hvisits' hu'
      obtain ⟨c', cs', -, he'⟩ := hvisits'.tokenize_eq_error hu'
      rw [he, hf, Except.error.injEq, LexFault.unexpectedChar.injEq] at he'
      exact Nat.le_of_eq he'.2
  · intro l cs _ hrest hopen
    obtain ⟨text, offset⟩ := l
    subst hrest
    exact Lexer.next_of_open_comment hopen offset

/-- The comment is not closed, so the string behind its opening is read; and the string
is not closed, since a backslash does not hide a newline. -/
theorem tokenize_fails_in_open_comment :
    tokenize "/*\"b\\\n\"" = .error (.unexpectedChar '"' 2) ∧
      (∃ l, Lexer.Visits "/*\"b\\\n\"" l ∧ Unreadable l.rest ∧ l.offset = 2) ∧
      Rule.first? (Lexer.ofSource "/*\"b\\\n\"").rest ≠ none ∧
      (Lexer.ofSource "/*\"b\\\n\"").next =
        (.ok ⟨.slash, "/", ⟨0, 1⟩⟩, ⟨['*', '"', 'b', '\\', '\n', '"'], 1⟩) := by
  have htok : tokenize "/*\"b\\\n\"" = .error (.unexpectedChar '"' 2) :=
    error_of_match (by decide +kernel)
  have hrest : (Lexer.ofSource "/*\"b\\\n\"").rest = ['/', '*', '"', 'b', '\\', '\n', '"'] := by
    decide +kernel
  obtain ⟨hread, -, hfault, hopen⟩ := tokenize_fails_iff "/*\"b\\\n\""
  refine ⟨htok, ?_, ?_, (hopen _ _ .start hrest (by decide)).1⟩
  · obtain ⟨l, c, cs, hvisits, -, hu, heq, -⟩ := hfault _ htok
    rw [LexFault.unexpectedChar.injEq] at heq
    exact ⟨l, hvisits, hu, heq.2.symm⟩
  · have hiff := hread _ .start
    rw [hrest] at hiff ⊢
    exact fun hnone => not_unreadable_slash _ ((hiff (List.cons_ne_nil _ _)).1 hnone)

end TriadLang
