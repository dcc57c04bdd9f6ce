import TriadLang.Source.Bytes
import TriadLang.Token.Basic
import TriadLang.Token.Rule
import TriadLang.Fault

/-!
# The lexer

A lexer is a place in a source text.  `Lexer.next` reads the next token and moves
past it; at the end of the text it answers with the end token, again and again,
and where no rule applies it answers with a fault and stays where the fault is,
so that it gives the same fault again.  `tokenize` reads a whole text.

Every step takes at least one character, which is why both end.
-/

namespace TriadLang

structure Lexer where
  rest : List Char
  offset : Nat := 0
deriving DecidableEq, Repr, Inhabited

namespace Lexer

def ofSource (src : String) : Lexer := ⟨src.toList, 0⟩

def advance (l : Lexer) (n : Nat) : Lexer :=
  ⟨l.rest.drop n, l.offset + byteLength (l.rest.take n)⟩

/-- The token that the next `n` characters make.  A word that spells a keyword or
a built-in type takes that kind. -/
def token (l : Lexer) (kind : Kind) (n : Nat) : Token :=
  let lexeme := String.ofList (l.rest.take n)
  { kind := if kind = .ident then (Kind.ofReserved? lexeme).getD .ident else kind
    lexeme
    span := ⟨l.offset, (l.advance n).offset⟩ }

theorem length_rest_advance_lt {l : Lexer} {r : Rule} (h : Rule.first? l.rest = some r) :
    (l.advance (r.length l.rest)).rest.length < l.rest.length := by
  have hr := Rule.length_ne_zero_of_first? h
  have hl : l.rest ≠ [] := by
    intro hn
    rw [hn, Rule.first?_nil] at h
    cases h
  have := List.length_pos_iff.2 hl
  simp only [advance, List.length_drop]
  omega

def next (l : Lexer) : Except LexFault Token × Lexer :=
  match l.rest with
  | [] => (.ok (.eof l.offset), l)
  | c :: _ =>
    match _h : Rule.first? l.rest with
    | none => (.error (.unexpectedChar c l.offset), l)
    | some rule =>
      match rule.kind? with
      | none => next (l.advance (rule.length l.rest))
      | some kind => (.ok (l.token kind (rule.length l.rest)), l.advance (rule.length l.rest))
termination_by l.rest.length
decreasing_by exact length_rest_advance_lt ‹_›

theorem length_rest_next_lt {l l' : Lexer} {t : Token} (h : l.next = (.ok t, l'))
    (ht : t.kind ≠ .eof) : l'.rest.length < l.rest.length := by
  fun_induction next l with
  | case1 l =>
    cases h
    exact absurd rfl ht
  | case2 => cases h
  | case3 l _ _ _ rule hr _ ih => exact Nat.lt_trans (ih h) (length_rest_advance_lt hr)
  | case4 l _ _ _ rule hr kind hk =>
    cases h
    exact length_rest_advance_lt hr

/-- Reads all that is left, up to and including the end token.  `read` holds the
tokens read before, the last one first. -/
def drain (l : Lexer) (read : List Token := []) : Except LexFault (List Token) :=
  match _h : l.next with
  | (.error fault, _) => .error fault
  | (.ok t, l') =>
    if _ht : t.kind = .eof then .ok (t :: read).reverse else l'.drain (t :: read)
termination_by l.rest.length
decreasing_by exact length_rest_next_lt ‹_› ‹_›

end Lexer

def tokenize (src : String) : Except LexFault (List Token) := (Lexer.ofSource src).drain

end TriadLang
