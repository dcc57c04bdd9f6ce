import Mathlib.Data.List.Forall2
import TriadLang.Proofs.Stateful
import TriadLang.Proofs.Tree.Spans
import TriadLang.Tree.Parser

/-!
# Two runs of a reader

A reader looks at the kinds and lexemes of tokens and never at their spans.  So on
two lists of tokens with the same kinds and lexemes it goes the same way: either it
reads both, and stops at the same place, or it fails at the same place and says the
same of the two tokens there.

The tokens of the two lists are related one by one by `R`, which may tell more of
them than their kinds and lexemes; a fault is then about two tokens that are
related.
-/

namespace TriadLang

def ParseFault.mapSpan (f : Span → Span) : ParseFault → ParseFault
  | .unexpected expected found span => .unexpected expected found (f span)
  | .numberOutOfRange lexeme span => .numberOutOfRange lexeme (f span)
  | .nestingTooDeep limit span => .nestingTooDeep limit (f span)

/-- The fault was met at a token, and says of it what is so. -/
def ParseFault.IsAt (t : Token) : ParseFault → Prop
  | .unexpected _ found span => found = t.kind ∧ span = t.span
  | .numberOutOfRange lexeme span => t.kind = .number ∧ lexeme = t.lexeme ∧ span = t.span
  | .nestingTooDeep limit span => t.kind = .ident ∧ limit = maxNesting ∧ span = t.span

theorem ParseFault.IsAt.span_eq {t : Token} {e : ParseFault} (h : e.IsAt t) : e.span = t.span := by
  cases e with
  | unexpected => exact h.2
  | numberOutOfRange => exact h.2.2
  | nestingTooDeep => exact h.2.2

/-- Faults that differ in the token they are at, where the two tokens are related. -/
def ParseFault.Alike (R : Token → Token → Prop) (e f : ParseFault) : Prop :=
  e.mapSpan .erase = f.mapSpan .erase ∧ ∃ t u, R t u ∧ e.IsAt t ∧ f.IsAt u

/-- Cursors in front of tokens that are related one by one. -/
structure Cursor.Alike (R : Token → Token → Prop) (c d : Cursor) : Prop where
  rest : List.Forall₂ R c.rest d.rest
  stop : R (.eof c.stop) (.eof d.stop)

namespace Cursor.Alike

variable {R : Token → Token → Prop} {c d : Cursor}

theorem peek (h : c.Alike R d) : R c.peek d.peek := by
  obtain ⟨hrest, hstop⟩ := h
  unfold Cursor.peek
  generalize c.rest = ts, d.rest = us at hrest
  cases hrest with
  | nil => exact hstop
  | cons ht _ => exact ht

theorem advance (h : c.Alike R d) : c.advance.Alike R d.advance where
  rest := by
    obtain ⟨hrest, -⟩ := h
    show List.Forall₂ R c.rest.tail d.rest.tail
    generalize c.rest = ts, d.rest = us at hrest
    cases hrest with
    | nil => exact .nil
    | cons _ hts => exact hts
  stop := h.stop

theorem left_eq (h : c.Alike R d) : c.left = d.left := by
  rw [c.left_eq, d.left_eq, h.rest.length_eq]

end Cursor.Alike

namespace Reader

variable {α β γ δ : Type}

/-- Two results of reading: values that `V` relates, or faults that are alike. -/
inductive Same (R : Token → Token → Prop) (V : α → β → Prop) :
    EStateM.Result ParseFault Cursor α → EStateM.Result ParseFault Cursor β → Prop where
  | ok {a : α} {b : β} {c d : Cursor} (hv : V a b) (hc : c.Alike R d) : Same R V (.ok a c) (.ok b d)
  | error {e f : ParseFault} {c d : Cursor} (he : e.Alike R f) (hc : c.Alike R d) :
      Same R V (.error e c) (.error f d)

/-- Two readers go the same way from cursors that are alike. -/
def Agree (R : Token → Token → Prop) (V : α → β → Prop) (x : Reader α) (y : Reader β) : Prop :=
  ∀ ⦃c d⦄, c.Alike R d → Same R V (x c) (y d)

def Whatever (_ : α) (_ : β) : Prop := True

section

variable {R : Token → Token → Prop} {V : α → β → Prop} {W : γ → δ → Prop}

theorem agree_pure {a : α} {b : β} (h : V a b) : Agree R V (pure a) (pure b) :=
  fun _ _ hc => .ok h hc

theorem agree_bind {x : Reader α} {y : Reader β} {f : α → Reader γ} {g : β → Reader δ}
    (hx : Agree R V x y) (hf : ∀ a b, V a b → Agree R W (f a) (g b)) :
    Agree R W (x >>= f) (y >>= g) := by
  intro c d hc
  have h := hx hc
  cases hxc : x c with
  | ok a c' =>
    cases hyd : y d with
    | ok b d' =>
      rw [hxc, hyd] at h
      cases h with
      | ok hv hc' =>
        rw [bind_of_ok hxc, bind_of_ok hyd]
        exact hf a b hv hc'
    | error e d' =>
      rw [hxc, hyd] at h
      cases h
  | error e c' =>
    cases hyd : y d with
    | ok b d' =>
      rw [hxc, hyd] at h
      cases h
    | error e' d' =>
      rw [hxc, hyd] at h
      cases h with
      | error he hc' =>
        rw [bind_of_error hxc, bind_of_error hyd]
        exact .error he hc'

theorem agree_throw {e f : ParseFault} (h : e.Alike R f) : Agree R V (throw e) (throw f) :=
  fun _ _ hc => .error h hc

theorem agree_peek : Agree R R peek peek := fun _ _ hc => .ok hc.peek hc

theorem agree_skip : Agree R Whatever skip skip := fun _ _ hc => .ok True.intro hc.advance

theorem agree_literal {t u : Token} {x y : Reader Literal} (hx : Agree R Whatever x y) :
    Agree R Whatever (literal t x) (literal u y) := by
  refine agree_bind hx fun _ _ _ => ?_
  exact agree_bind agree_skip fun _ _ _ => agree_pure True.intro

end

section

variable {R : Token → Token → Prop}
  (hR : ∀ t u, R t u → t.kind = u.kind ∧ t.lexeme = u.lexeme)
include hR

theorem agree_unexpected {V : α → β → Prop} (expected : Expected) {t u : Token} (h : R t u) :
    Agree R V (unexpected expected t) (unexpected expected u) := by
  refine agree_throw ⟨?_, t, u, h, ⟨rfl, rfl⟩, rfl, rfl⟩
  rw [ParseFault.mapSpan, ParseFault.mapSpan, (hR t u h).1]
  rfl

theorem agree_expect (k : Kind) :
    Agree R (fun t u => R t u ∧ t.kind = k) (expect k) (expect k) := by
  refine agree_bind agree_peek fun t u h => ?_
  rw [← (hR t u h).1]
  split
  · next hk => exact agree_bind agree_skip fun _ _ _ => agree_pure ⟨h, hk⟩
  · exact agree_unexpected hR _ h

theorem agree_accept (k : Kind) : Agree R Eq (accept k) (accept k) := by
  refine agree_bind agree_peek fun t u h => ?_
  rw [(hR t u h).1]
  split
  · exact agree_bind agree_skip fun _ _ _ => agree_pure rfl
  · exact agree_pure rfl

theorem agree_after? {item : Reader α} (k : Kind) (hi : Agree R Whatever item item) :
    Agree R Whatever (after? k item) (after? k item) := by
  refine agree_bind (agree_accept hR k) fun a b h => ?_
  subst h
  split
  · exact agree_bind hi fun _ _ _ => agree_pure True.intro
  · exact agree_pure True.intro

theorem agree_ident : Agree R Whatever ident ident :=
  agree_bind (agree_expect hR _) fun _ _ _ => agree_pure True.intro

theorem agree_repeatUntil {item : Reader α} (stop : Kind → Bool) (hi : Agree R Whatever item item)
    (as bs : List α) : Agree R Whatever (repeatUntil stop item as) (repeatUntil stop item bs) := by
  intro c d hc
  induction hn : c.left using Nat.strongRecOn generalizing c d as bs with
  | ind n ih =>
    have hk := (hR _ _ hc.peek).1
    rw [repeatUntil, repeatUntil, hk]
    split
    · exact .ok True.intro hc
    · have h := hi hc
      cases hx : item c with
      | ok a c' =>
        cases hy : item d with
        | error e d' =>
          rw [hx, hy] at h
          cases h
        | ok b d' =>
          rw [hx, hy] at h
          cases h with
          | ok _ hc' =>
            dsimp only
            rw [hc.left_eq, hc'.left_eq]
            split
            · next hlt =>
              refine ih c'.left ?_ (a :: as) (b :: bs) hc' rfl
              rw [hc'.left_eq, ← hn, hc.left_eq]
              exact hlt
            · exact .ok True.intro hc'
      | error e c' =>
        cases hy : item d with
        | ok b d' =>
          rw [hx, hy] at h
          cases h
        | error f d' =>
          rw [hx, hy] at h
          cases h with
          | error he hc' => exact .error he hc'

theorem agree_separated {item : Reader α} (hi : Agree R Whatever item item) (as bs : List α) :
    Agree R Whatever (separated item as) (separated item bs) := by
  intro c d hc
  induction hn : c.left using Nat.strongRecOn generalizing c d as bs with
  | ind n ih =>
    rw [separated, separated]
    have h := hi hc
    cases hx : item c with
    | ok a c' =>
      cases hy : item d with
      | error e d' =>
        rw [hx, hy] at h
        cases h
      | ok b d' =>
        rw [hx, hy] at h
        cases h with
        | ok _ hc' =>
          dsimp only
          rw [(hR _ _ hc'.peek).1, hc.left_eq, hc'.advance.left_eq]
          split
          · next hlt =>
            refine ih c'.advance.left ?_ (a :: as) (b :: bs) hc'.advance rfl
            rw [hc'.advance.left_eq, ← hn, hc.left_eq]
            exact hlt.2
          · exact .ok True.intro hc'
    | error e c' =>
      cases hy : item d with
      | ok b d' =>
        rw [hx, hy] at h
        cases h
      | error f d' =>
        rw [hx, hy] at h
        cases h with
        | error he hc' => exact .error he hc'

theorem agree_commaList {item : Reader α} (hi : Agree R Whatever item item) :
    Agree R Whatever (commaList item) (commaList item) := by
  refine agree_bind agree_peek fun t u h => ?_
  rw [(hR t u h).1]
  split
  · exact agree_pure True.intro
  · exact agree_separated hR hi [] []

theorem agree_integer {t u : Token} (h : R t u) (hk : t.kind = .number) :
    Agree R Whatever (integer t) (integer u) := by
  obtain ⟨hkind, hlexeme⟩ := hR t u h
  rw [integer, integer, hlexeme]
  split
  · exact agree_pure True.intro
  · refine agree_throw ⟨?_, t, u, h, ⟨hk, hlexeme.symm, rfl⟩, hkind ▸ hk, rfl, rfl⟩
    rfl

theorem agree_exprWith {arguments : Span → Reader (List Expr)}
    (ha : ∀ t u, R t u → t.kind = .ident →
      Agree R Whatever (arguments t.span) (arguments u.span)) :
    Agree R Whatever (exprWith arguments) (exprWith arguments) := by
  refine agree_bind agree_peek fun t u h => ?_
  have hk := (hR t u h).1
  rw [← hk]
  split
  · next hident =>
    refine agree_bind agree_skip fun _ _ _ => ?_
    refine agree_bind (agree_accept hR _) fun a b hab => ?_
    subst hab
    split
    · refine agree_bind (ha t u h hident) fun _ _ _ => ?_
      exact agree_bind (agree_expect hR _) fun _ _ _ => agree_pure True.intro
    · exact agree_pure True.intro
  · next hnumber =>
    exact agree_literal (agree_bind (agree_integer hR h hnumber) fun _ _ _ =>
      agree_pure True.intro)
  · exact agree_literal (agree_pure True.intro)
  · exact agree_literal (agree_pure True.intro)
  · exact agree_literal (agree_pure True.intro)
  · exact agree_unexpected hR _ h

theorem agree_expr (budget : Nat) : Agree R Whatever (expr budget) (expr budget) := by
  induction budget with
  | zero =>
    refine agree_exprWith hR fun t u h hk => ?_
    refine agree_throw ⟨rfl, t, u, h, ⟨hk, rfl, rfl⟩, ?_, rfl, rfl⟩
    rw [← (hR t u h).1, hk]
  | succ budget ih => exact agree_exprWith hR fun _ _ _ _ => agree_commaList hR ih

theorem agree_varDecl : Agree R Whatever varDecl varDecl := by
  refine agree_bind agree_peek fun _ _ _ => ?_
  refine agree_bind agree_skip fun _ _ _ => ?_
  refine agree_bind (agree_ident hR) fun _ _ _ => ?_
  refine agree_bind (agree_after? hR _ (agree_ident hR)) fun _ _ _ => ?_
  refine agree_bind (agree_after? hR _ (agree_expr hR _)) fun _ _ _ => ?_
  exact agree_bind (agree_expect hR _) fun _ _ _ => agree_pure True.intro

theorem agree_stmt : Agree R Whatever stmt stmt := by
  refine agree_bind agree_peek fun t u h => ?_
  rw [(hR t u h).1]
  split
  · exact agree_bind (agree_varDecl hR) fun _ _ _ => agree_pure True.intro
  · exact agree_bind (agree_varDecl hR) fun _ _ _ => agree_pure True.intro
  · refine agree_bind (agree_expr hR _) fun _ _ _ => ?_
    exact agree_bind (agree_expect hR _) fun _ _ _ => agree_pure True.intro

theorem agree_block : Agree R Whatever block block := by
  refine agree_bind (agree_expect hR _) fun _ _ _ => ?_
  refine agree_bind (agree_repeatUntil hR _ (agree_stmt hR) [] []) fun _ _ _ => ?_
  exact agree_bind (agree_expect hR _) fun _ _ _ => agree_pure True.intro

theorem agree_param : Agree R Whatever param param := by
  refine agree_bind (agree_ident hR) fun _ _ _ => ?_
  refine agree_bind (agree_expect hR _) fun _ _ _ => ?_
  exact agree_bind (agree_ident hR) fun _ _ _ => agree_pure True.intro

theorem isFunctionWord_eq {t u : Token} (h : R t u) : t.isFunctionWord = u.isFunctionWord := by
  obtain ⟨hk, hl⟩ := hR t u h
  rw [Token.isFunctionWord, Token.isFunctionWord, hk, hl]

theorem agree_function (isFractal : Bool) :
    Agree R Whatever (function isFractal) (function isFractal) := by
  refine agree_bind agree_peek fun t u h => ?_
  rw [isFunctionWord_eq hR h]
  split
  · refine agree_bind agree_skip fun _ _ _ => ?_
    refine agree_bind (agree_ident hR) fun _ _ _ => ?_
    refine agree_bind (agree_expect hR _) fun _ _ _ => ?_
    refine agree_bind (agree_commaList hR (agree_param hR)) fun _ _ _ => ?_
    refine agree_bind (agree_expect hR _) fun _ _ _ => ?_
    refine agree_bind (agree_after? hR _ (agree_ident hR)) fun _ _ _ => ?_
    exact agree_bind (agree_block hR) fun _ _ _ => agree_pure True.intro
  · exact agree_unexpected hR _ h

theorem agree_arraySize : Agree R Whatever arraySize arraySize := by
  refine agree_bind (agree_expect hR _) fun t u h => ?_
  refine agree_bind (agree_integer hR h.1 h.2) fun _ _ _ => ?_
  exact agree_bind (agree_expect hR _) fun _ _ _ => agree_pure True.intro

theorem agree_field : Agree R Whatever field field := by
  refine agree_bind (agree_ident hR) fun _ _ _ => ?_
  refine agree_bind (agree_expect hR _) fun _ _ _ => ?_
  refine agree_bind (agree_ident hR) fun _ _ _ => ?_
  refine agree_bind (agree_after? hR _ (agree_arraySize hR)) fun _ _ _ => ?_
  exact agree_bind (agree_expect hR _) fun _ _ _ => agree_pure True.intro

theorem agree_triad : Agree R Whatever triad triad := by
  refine agree_bind (agree_expect hR _) fun _ _ _ => ?_
  refine agree_bind (agree_ident hR) fun _ _ _ => ?_
  refine agree_bind (agree_expect hR _) fun _ _ _ => ?_
  refine agree_bind (agree_repeatUntil hR _ (agree_field hR) [] []) fun _ _ _ => ?_
  exact agree_bind (agree_expect hR _) fun _ _ _ => agree_pure True.intro

theorem agree_decl : Agree R Whatever decl decl := by
  refine agree_bind agree_peek fun t u h => ?_
  rw [(hR t u h).1, isFunctionWord_eq hR h]
  split
  · exact agree_bind (agree_triad hR) fun _ _ _ => agree_pure True.intro
  split
  · refine agree_bind agree_skip fun _ _ _ => ?_
    exact agree_bind (agree_function hR true) fun _ _ _ => agree_pure True.intro
  split
  · exact agree_bind (agree_function hR false) fun _ _ _ => agree_pure True.intro
  · exact agree_unexpected hR _ h

theorem agree_program : Agree R Whatever program program :=
  agree_bind (agree_repeatUntil hR _ (agree_decl hR) [] []) fun _ _ _ => agree_pure True.intro

end

end Reader

/-- Two lists of tokens that end with an end token, related one by one, are both read
as programs, or there are faults at two tokens that are related. -/
theorem parse_agree {R : Token → Token → Prop}
    (hR : ∀ t u, R t u → t.kind = u.kind ∧ t.lexeme = u.lexeme) {ts us : List Token} {m n : Nat}
    (h : List.Forall₂ R (ts ++ [.eof m]) (us ++ [.eof n])) (hend : R (.eof m) (.eof n)) :
    (∃ p q, parse (ts ++ [.eof m]) = .ok p ∧ parse (us ++ [.eof n]) = .ok q) ∨
      ∃ e f, parse (ts ++ [.eof m]) = .error e ∧ parse (us ++ [.eof n]) = .error f ∧
        e.Alike R f := by
  have hstop : ∀ (ts : List Token) (m : Nat), (Cursor.ofTokens (ts ++ [.eof m])).stop = m := by
    intro ts m
    rw [Cursor.ofTokens, List.getLast?_concat]
    rfl
  have hstart : (Cursor.ofTokens (ts ++ [.eof m])).Alike R (.ofTokens (us ++ [.eof n])) :=
    ⟨h, by rwa [hstop, hstop]⟩
  have hsame := Reader.agree_program hR hstart
  rw [parse, parse]
  generalize Reader.program (.ofTokens (ts ++ [.eof m])) = x at hsame ⊢
  generalize Reader.program (.ofTokens (us ++ [.eof n])) = y at hsame ⊢
  cases hsame with
  | ok _ _ => exact Or.inl ⟨_, _, rfl, rfl⟩
  | error he _ => exact Or.inr ⟨_, _, rfl, rfl, he⟩

end TriadLang
