import Mathlib.Data.List.Chain
import TriadLang.Proofs.Source.Slices
import TriadLang.Proofs.Stateful
import TriadLang.Proofs.Token.Fit

/-!
# Tokens divide a text

The tokens of a text stand in it one after another, each where its span says, and
what lies between two of them, before the first one and after the last one is text
that is passed over: blanks, comments that run to the end of a line, and comments
that are closed.  So every character belongs to one token or to one gap.

While a text is read, the lexer stands between two characters all the time, also
when it fails later on.
-/

namespace TriadLang

/-- `Skipped gap after`: the text `gap`, which `after` follows, holds no token.  A
comment that begins with two slashes goes on to the end of its line. -/
inductive Skipped : List Char → List Char → Prop where
  | nil {after : List Char} : Skipped [] after
  | blank {c : Char} {gap after : List Char} (hc : c = ' ' ∨ c = '\t' ∨ c = '\r' ∨ c = '\n')
      (h : Skipped gap after) : Skipped (c :: gap) after
  | lineComment {body gap after : List Char} (hb : '\n' ∉ body)
      (hend : ∀ c ∈ (gap ++ after).head?, c = '\n') (h : Skipped gap after) :
      Skipped ('/' :: '/' :: (body ++ gap)) after
  | blockComment {body gap after : List Char} (hb : ¬ ['*', '/'] <:+: body)
      (h : Skipped gap after) : Skipped ('/' :: '*' :: (body ++ '*' :: '/' :: gap)) after

theorem Skipped.append {gap more after : List Char} (h : Skipped gap (more ++ after))
    (hm : Skipped more after) : Skipped (gap ++ more) after := by
  generalize hall : more ++ after = all at h
  induction h with
  | nil => exact hm
  | blank hc _ ih => exact .blank hc (ih hall)
  | @lineComment body gap _ hb hend _ ih =>
    subst hall
    rw [List.cons_append, List.cons_append, List.append_assoc]
    refine .lineComment hb ?_ (ih rfl)
    rwa [List.append_assoc]
  | @blockComment body gap _ hb _ ih =>
    have heq : '/' :: '*' :: (body ++ '*' :: '/' :: gap) ++ more =
        '/' :: '*' :: (body ++ '*' :: '/' :: (gap ++ more)) := by
      simp only [List.cons_append, List.append_assoc]
    rw [heq]
    exact .blockComment hb (ih hall)

theorem skipped_of_blanks {cs : List Char} (hcs : ∀ c ∈ cs, Rule.isBlank c) (after : List Char) :
    Skipped cs after := by
  induction cs with
  | nil => exact .nil
  | cons c cs ih =>
    have hc := isBlank_iff.1 (hcs c List.mem_cons_self)
    exact .blank hc (ih fun d hd => hcs d (List.mem_cons_of_mem _ hd))

theorem exists_body_of_toCommentEnd? {star : Bool} {cs : List Char}
    (h : Rule.toCommentEnd? star cs = some cs.length) :
    (star = true ∧ cs = ['/']) ∨ ∃ body, cs = body ++ ['*', '/'] ∧
      ¬ ['*', '/'] <:+: (if star then '*' :: body else body) := by
  induction cs generalizing star with
  | nil => simp [Rule.toCommentEnd?] at h
  | cons c cs ih =>
    rw [Rule.toCommentEnd?] at h
    split at h
    · next hc =>
      rw [Bool.and_eq_true, beq_iff_eq] at hc
      have hcs : cs = [] := by
        rw [List.length_cons, Option.some.injEq] at h
        exact List.length_eq_zero_iff.1 (by omega)
      exact Or.inl ⟨hc.1, by rw [hc.2, hcs]⟩
    · next hc =>
      obtain ⟨n, hn, hlen⟩ := Option.map_eq_some_iff.1 h
      rw [List.length_cons, Nat.add_right_cancel_iff] at hlen
      subst hlen
      right
      -- the closing does not begin at `c`, and with a star in front not before it
      have hfront : ∀ body : List Char, ¬ ['*', '/'] <:+: c :: body →
          ¬ ['*', '/'] <:+: (if star then '*' :: c :: body else c :: body) := by
        intro body hbody
        cases star with
        | false => exact hbody
        | true =>
          rw [if_pos rfl, List.infix_cons_iff, List.cons_prefix_cons, List.cons_prefix_cons]
          rintro (⟨-, rfl, -⟩ | hi)
          · exact hc rfl
          · exact hbody hi
      rcases ih hn with ⟨hs, rfl⟩ | ⟨body, rfl, hbody⟩
      · have hstar := eq_of_beq hs
        subst hstar
        refine ⟨[], rfl, ?_⟩
        cases star <;> decide
      · refine ⟨c :: body, rfl, hfront body ?_⟩
        by_cases hs : c = '*'
        · subst hs
          exact hbody
        · rw [if_neg (by simpa using hs)] at hbody
          rw [List.infix_cons_iff, List.cons_prefix_cons]
          rintro (⟨rfl, -⟩ | hi)
          · exact hs rfl
          · exact hbody hi

theorem skipped_of_cut {cs rest : List Char} (h : Cut none cs rest) : Skipped cs rest := by
  cases h with
  | blanks _ hcs _ => exact skipped_of_blanks hcs rest
  | @lineComment body _ hcs hr =>
    have hb : '\n' ∉ body := fun hmem => absurd (hcs _ hmem) (by decide)
    have h : Skipped ('/' :: '/' :: (body ++ [])) rest :=
      .lineComment hb (fun c hc => by simpa using hr c hc) .nil
    rwa [List.append_nil] at h
  | blockComment hcs =>
    rcases exists_body_of_toCommentEnd? hcs with ⟨hs, -⟩ | ⟨body, rfl, hbody⟩
    · cases hs
    · exact .blockComment hbody .nil

/-- What comes after the opening quote of a string: characters that stand for
themselves and escapes, up to the closing quote.  Any character but a newline can
be escaped. -/
inductive StringTail : List Char → Prop where
  | close : StringTail ['"']
  | plain {c : Char} {cs : List Char} (hq : c ≠ '"') (hb : c ≠ '\\') (h : StringTail cs) :
      StringTail (c :: cs)
  | escape {c : Char} {cs : List Char} (hc : c ≠ '\n') (h : StringTail cs) :
      StringTail ('\\' :: c :: cs)

theorem stringTail_of_toClosingQuote? {escaped : Bool} {cs : List Char}
    (h : Rule.toClosingQuote? escaped cs = some cs.length) :
    StringTail (if escaped then '\\' :: cs else cs) := by
  induction cs generalizing escaped with
  | nil => simp [Rule.toClosingQuote?] at h
  | cons c cs ih =>
    cases escaped with
    | true =>
      rw [Rule.toClosingQuote?] at h
      split at h
      · cases h
      · next hc =>
        obtain ⟨n, hn, hlen⟩ := Option.map_eq_some_iff.1 h
        rw [List.length_cons, Nat.add_right_cancel_iff] at hlen
        subst hlen
        exact .escape (by simpa using hc) (ih hn)
    | false =>
      rw [Rule.toClosingQuote?] at h
      split at h
      · next hc =>
        have hcs : cs = [] := by
          rw [List.length_cons, Option.some.injEq] at h
          exact List.length_eq_zero_iff.1 (by omega)
        rw [hcs, eq_of_beq hc]
        exact .close
      · next hc =>
        obtain ⟨n, hn, hlen⟩ := Option.map_eq_some_iff.1 h
        rw [List.length_cons, Nat.add_right_cancel_iff] at hlen
        subst hlen
        have hrest := ih hn
        by_cases hs : c = '\\'
        · subst hs
          exact hrest
        · rw [if_neg (by simpa using hs)] at hrest
          exact .plain (by simpa using hc) hs hrest

/-- A token other than the end stands in a text: its span selects its lexeme, which
is not empty and is one that the kind can have. -/
structure Token.StandsIn (text : List Char) (t : Token) : Prop where
  kind : t.kind ≠ .eof
  lo_lt_hi : t.span.lo < t.span.hi
  selects : t.span.Selects text t.lexeme.toList
  fits : t.kind.Fits t.lexeme
  closed : t.kind = .text → ∃ cs, t.lexeme.toList = '"' :: cs ∧ StringTail cs

theorem Token.standsIn_ofChars {k : Kind} {cs rest : List Char} (h : Cut (some k) cs rest)
    (before : List Char) :
    (Token.ofChars k cs (byteLength before)).StandsIn (before ++ (cs ++ rest)) where
  kind := Lexer.kind_ofChars_ne_eof h _
  lo_lt_hi := Nat.lt_add_of_pos_right (byteLength_pos h.ne_nil)
  selects := ⟨before, rest, by rw [Token.ofChars, String.toList_ofList], rfl,
    by rw [Token.ofChars, String.toList_ofList]⟩
  fits := fits_of_cut h _
  closed := by
    intro hk
    have hfits := fits_of_cut h (byteLength before)
    rw [hk] at hfits
    obtain ⟨cs, hcs, hq⟩ := hfits
    exact ⟨cs, hcs, stringTail_of_toClosingQuote? hq⟩

theorem Lexes.forall_standsIn_append {offset : Nat} {rest : List Char} {ts : List Token}
    (h : Lexes offset rest ts) (before : List Char) (ho : offset = byteLength before) :
    ∀ t ∈ ts, t.StandsIn (before ++ rest) := by
  induction h generalizing before with
  | nil => simp
  | @skip offset cs rest ts hc _ ih =>
    rw [← List.append_assoc]
    exact ih (before ++ cs) (by rw [ho, byteLength_append])
  | @token offset k cs rest ts hc _ ih =>
    subst ho
    intro t ht
    rcases List.mem_cons.1 ht with rfl | ht
    · exact Token.standsIn_ofChars hc before
    · rw [← List.append_assoc]
      exact ih (before ++ cs) (by rw [byteLength_append]) t ht

theorem Lexes.forall_standsIn {text : List Char} {ts : List Token} (h : Lexes 0 text ts) :
    ∀ t ∈ ts, t.StandsIn text :=
  h.forall_standsIn_append [] rfl

/-- Between the end of one span and the start of another one no token stands. -/
def Span.Skips (text : List Char) (s t : Span) : Prop :=
  ∃ before gap after, text = before ++ (gap ++ after) ∧ s.hi = byteLength before ∧
    t.lo = s.hi + byteLength gap ∧ Skipped gap after

theorem Span.Skips.hi_le_lo {text : List Char} {s t : Span} (h : s.Skips text t) :
    s.hi ≤ t.lo := by
  obtain ⟨before, gap, after, -, -, hlo, -⟩ := h
  omega

/-- From a span on, with a gap behind it that is read already, tokens and gaps
alternate up to the end of the text. -/
theorem Lexes.isChain_skips_append {offset : Nat} {rest : List Char} {ts : List Token}
    (h : Lexes offset rest ts) (before gap : List Char) (s : Span)
    (hs : s.hi = byteLength before) (ho : offset = s.hi + byteLength gap)
    (hg : Skipped gap rest) :
    List.IsChain (Span.Skips (before ++ (gap ++ rest)))
      (s :: (ts ++ [Token.eof (offset + byteLength rest)]).map Token.span) := by
  induction h generalizing before gap s with
  | nil offset =>
    rw [List.nil_append, List.map_singleton, List.isChain_pair]
    exact ⟨before, gap, [], rfl, hs, ho, hg⟩
  | @skip offset cs rest ts hc _ ih =>
    have hchain := ih before (gap ++ cs) s hs
      (by rw [ho, byteLength_append, Nat.add_assoc]) (hg.append (skipped_of_cut hc))
    rwa [List.append_assoc, Nat.add_assoc, ← byteLength_append] at hchain
  | @token offset k cs rest ts hc _ ih =>
    rw [List.cons_append, List.map_cons, List.isChain_cons_cons]
    refine ⟨⟨before, gap, cs ++ rest, rfl, hs, ho, hg⟩, ?_⟩
    have hend : offset + byteLength cs = byteLength (before ++ (gap ++ cs)) := by
      rw [byteLength_append, byteLength_append]
      omega
    have hchain := ih (before ++ (gap ++ cs)) [] ⟨offset, offset + byteLength cs⟩ hend rfl .nil
    rwa [List.nil_append, List.append_assoc, List.append_assoc, Nat.add_assoc,
      ← byteLength_append] at hchain

theorem Lexes.isChain_skips {text : List Char} {ts : List Token} (h : Lexes 0 text ts) :
    List.IsChain (Span.Skips text)
      (.zero :: (ts ++ [Token.eof (byteLength text)]).map Token.span) := by
  have hchain := h.isChain_skips_append [] [] .zero rfl rfl .nil
  rwa [List.nil_append, List.nil_append, Nat.zero_add] at hchain

theorem Lexes.length_le {offset : Nat} {rest : List Char} {ts : List Token}
    (h : Lexes offset rest ts) : ts.length ≤ byteLength rest := by
  induction h with
  | nil => exact Nat.le_refl 0
  | skip _ _ ih =>
    rw [byteLength_append]
    omega
  | token hc _ ih =>
    have hpos := byteLength_pos hc.ne_nil
    rw [byteLength_append, List.length_cons]
    omega

theorem Lexes.le_lo {offset : Nat} {rest : List Char} {ts : List Token}
    (h : Lexes offset rest ts) :
    ∀ t ∈ ts ++ [Token.eof (offset + byteLength rest)], offset ≤ t.span.lo := by
  induction h with
  | nil offset =>
    intro t ht
    rw [List.mem_singleton.1 ht]
    exact Nat.le_refl offset
  | skip _ _ ih =>
    rw [byteLength_append, ← Nat.add_assoc]
    exact fun t ht => Nat.le_trans (Nat.le_add_right ..) (ih t ht)
  | token _ _ ih =>
    rw [byteLength_append, ← Nat.add_assoc]
    intro t ht
    rcases List.mem_cons.1 ht with rfl | ht
    · exact Nat.le_refl _
    · exact Nat.le_trans (Nat.le_add_right ..) (ih t ht)

theorem Lexes.pairwise_lo {offset : Nat} {rest : List Char} {ts : List Token}
    (h : Lexes offset rest ts) : (ts ++ [Token.eof (offset + byteLength rest)]).Pairwise
      (fun t u => t.span.lo < u.span.lo) := by
  induction h with
  | nil => exact List.pairwise_singleton ..
  | skip _ _ ih => rwa [byteLength_append, ← Nat.add_assoc]
  | @token offset k cs rest ts hc hrest ih =>
    rw [byteLength_append, ← Nat.add_assoc, List.cons_append, List.pairwise_cons]
    refine ⟨fun u hu => ?_, ih⟩
    have hpos := byteLength_pos hc.ne_nil
    calc offset < offset + byteLength cs := Nat.lt_add_of_pos_right hpos
      _ ≤ u.span.lo := hrest.le_lo u hu

/-- No two tokens of a text have one span. -/
theorem index_eq_of_span_eq {src : String} {ts : List Token} (h : tokenize src = .ok ts)
    {i j : Nat} {t u : Token} (hi : ts[i]? = some t) (hj : ts[j]? = some u)
    (hs : t.span = u.span) : i = j := by
  obtain ⟨us, hus, rfl⟩ := tokenize_eq_ok_iff_lexes.1 h
  have hlo := hus.pairwise_lo
  rw [Nat.zero_add, List.pairwise_iff_getElem] at hlo
  obtain ⟨hi', rfl⟩ := List.getElem?_eq_some_iff.1 hi
  obtain ⟨hj', rfl⟩ := List.getElem?_eq_some_iff.1 hj
  rcases Nat.lt_trichotomy i j with hlt | rfl | hlt
  · exact absurd (hlo i j hi' hj' hlt) (by rw [hs]; exact Nat.lt_irrefl _)
  · rfl
  · exact absurd (hlo j i hj' hi' hlt) (by rw [hs]; exact Nat.lt_irrefl _)

namespace Lexer

/-- The places that the lexer comes to in a text. -/
inductive Visits (src : String) : Lexer → Prop where
  | start : Visits src (.ofSource src)
  | step {l : Lexer} {r : Rule} (h : Visits src l) (hr : Rule.first? l.rest = some r) :
      Visits src (l.advance (r.length l.rest))

variable {src : String} {l : Lexer}

theorem Visits.exists_before (h : Visits src l) :
    ∃ before, src.toList = before ++ l.rest ∧ l.offset = byteLength before := by
  induction h with
  | start => exact ⟨[], rfl, rfl⟩
  | @step l r _ _ ih =>
    obtain ⟨before, htext, ho⟩ := ih
    refine ⟨before ++ l.rest.take (r.length l.rest), ?_, ?_⟩
    · rw [htext, List.append_assoc, advance, List.take_append_drop]
    · rw [advance, byteLength_append, ho]

theorem Visits.next (h : Visits src l) : Visits src l.next.2 := by
  fun_induction Lexer.next l with
  | case1 => exact h
  | case2 => exact h
  | case3 l _ _ _ r hr _ ih => exact ih (h.step hr)
  | case4 l _ _ _ r hr _ _ => exact h.step hr

theorem Visits.slices (h : Visits src l) :
    (∃ before, splitAtByte? l.offset src.toList = some (before, l.rest)) ∧
      ∀ n, Span.Selects ⟨l.offset, (l.advance n).offset⟩ src.toList (l.rest.take n) := by
  obtain ⟨before, htext, ho⟩ := h.exists_before
  refine ⟨⟨before, by rw [htext, ho, splitAtByte?_append]⟩, fun n => ?_⟩
  exact ⟨before, l.rest.drop n, by rw [htext, List.take_append_drop], ho, rfl⟩

/-- Where no rule applies at a place that the lexer came to, the fault is at the
character there. -/
structure Stuck (src : String) (fault : LexFault) (l : Lexer) : Prop where
  visits : Visits src l
  none : Rule.first? l.rest = none
  fault : ∃ c cs, l.rest = c :: cs ∧ fault = .unexpectedChar c l.offset

theorem Visits.exists_stuck_of_next (h : Visits src l) {fault : LexFault}
    (he : l.next.1 = .error fault) : ∃ l', Stuck src fault l' := by
  fun_induction Lexer.next l with
  | case1 => cases he
  | case2 l c cs hrest hnone =>
    cases he
    exact ⟨l, h, hnone, c, cs, hrest, rfl⟩
  | case3 l _ _ _ r hr _ ih => exact ih (h.step hr) he
  | case4 => cases he

theorem Visits.exists_stuck_of_drain (h : Visits src l) {read : List Token} {fault : LexFault}
    (he : l.drain read = .error fault) : ∃ l', Stuck src fault l' := by
  fun_induction Lexer.drain l read with
  | case1 l read e l' hnext =>
    cases he
    exact h.exists_stuck_of_next (by rw [hnext])
  | case2 => cases he
  | case3 l read t l' hnext _ ih =>
    have hvisits := h.next
    rw [hnext] at hvisits
    exact ih hvisits he

end Lexer

theorem exists_char_of_tokenize_eq_error {src : String} {fault : LexFault}
    (h : tokenize src = .error fault) : ∃ before c after, src.toList = before ++ c :: after ∧
      fault = .unexpectedChar c (byteLength before) ∧ Rule.first? (c :: after) = none := by
  obtain ⟨l, hvisits, hnone, c, cs, hrest, rfl⟩ :=
    Lexer.Visits.start.exists_stuck_of_drain h
  obtain ⟨before, htext, hoffset⟩ := hvisits.exists_before
  rw [hrest] at htext hnone
  exact ⟨before, c, cs, htext, by rw [hoffset], hnone⟩

/-- The tokens of a text are tokens that stand in it and then one end token; from
one to the next there is only text that is passed over; there are no more of them
than bytes, and the end; and the lexer never leaves the places between two
characters. -/
theorem tokenize_partition {src : String} {ts : List Token} (h : tokenize src = .ok ts) :
    (∃ us, ts = us ++ [.eof (byteLength src.toList)] ∧ ∀ t ∈ us, t.StandsIn src.toList) ∧
      List.IsChain (fun s t => s.hi ≤ t.lo ∧ s.Skips src.toList t) (.zero :: ts.map Token.span) ∧
      ts.length ≤ byteLength src.toList + 1 ∧
      ∀ l, Lexer.Visits src l → Lexer.Visits src l.next.2 ∧
        (∃ before, splitAtByte? l.offset src.toList = some (before, l.rest)) ∧
        ∀ r, Rule.first? l.rest = some r →
          Span.Selects ⟨l.offset, (l.advance (r.length l.rest)).offset⟩ src.toList
            (l.rest.take (r.length l.rest)) := by
  obtain ⟨us, hus, rfl⟩ := tokenize_eq_ok_iff_lexes.1 h
  refine ⟨⟨us, rfl, hus.forall_standsIn⟩, ?_, ?_, ?_⟩
  · exact hus.isChain_skips.imp fun s t hst => ⟨hst.hi_le_lo, hst⟩
  · rw [List.length_append, List.length_singleton]
    exact Nat.add_le_add_right hus.length_le 1
  · intro l hl
    obtain ⟨hsplit, hpart⟩ := hl.slices
    exact ⟨hl.next, hsplit, fun r _ => hpart _⟩

/-- A comment that is not closed is a slash and a star, and a newline can stand in
a string. -/
theorem tokenize_partition_open_comment :
    tokenize "a//é\n/* *\"x\ny\"" = .ok [⟨.ident, "a", ⟨0, 1⟩⟩, ⟨.slash, "/", ⟨6, 7⟩⟩,
        ⟨.star, "*", ⟨7, 8⟩⟩, ⟨.star, "*", ⟨9, 10⟩⟩, ⟨.text, "\"x\ny\"", ⟨10, 15⟩⟩, .eof 15] ∧
      Span.Skips "a//é\n/* *\"x\ny\"".toList ⟨0, 1⟩ ⟨6, 7⟩ ∧
      Span.Skips "a//é\n/* *\"x\ny\"".toList ⟨7, 8⟩ ⟨9, 10⟩ := by
  have htok : tokenize "a//é\n/* *\"x\ny\"" = .ok [⟨.ident, "a", ⟨0, 1⟩⟩,
      ⟨.slash, "/", ⟨6, 7⟩⟩, ⟨.star, "*", ⟨7, 8⟩⟩, ⟨.star, "*", ⟨9, 10⟩⟩,
      ⟨.text, "\"x\ny\"", ⟨10, 15⟩⟩, .eof 15] :=
    ok_of_toOption (by decide +kernel)
  obtain ⟨-, hchain, -, -⟩ := tokenize_partition htok
  simp only [List.map_cons, List.isChain_cons_cons] at hchain
  exact ⟨htok, hchain.2.1.2, hchain.2.2.2.1.2⟩

end TriadLang
