import TriadLang.Fault
import TriadLang.Token.Basic

/-!
# Reading tokens

A cursor is a place in a list of tokens, and a reader goes on from a cursor,
either to a value or to a fault.  In both cases it says where it stopped, so that
reading can be taken up again after a fault.

Past the last token a cursor sees an end token, at the end of the last token of
the whole list.  The two readers that repeat another one stop as soon as a round
takes no token, so they always come to an end.
-/

namespace TriadLang

/-- A place in a list of tokens: those not yet read, and the offset of the end
token that is seen past the last one.  The number of tokens not yet read is kept
beside them, so that progress is seen without counting. -/
structure Cursor where
  rest : List Token
  stop : Nat
  left : Nat := rest.length
  left_eq : left = rest.length := by rfl
deriving DecidableEq, Repr

namespace Cursor

theorem ext {c d : Cursor} (hr : c.rest = d.rest) (hs : c.stop = d.stop) : c = d := by
  obtain ⟨rest, stop, left, rfl⟩ := c
  obtain ⟨rest', stop', left', rfl⟩ := d
  cases hr
  cases hs
  rfl

def ofTokens (tokens : List Token) : Cursor where
  rest := tokens
  stop := (tokens.getLast?.map (·.span.hi)).getD 0

instance : Inhabited Cursor := ⟨.ofTokens []⟩

def peek (c : Cursor) : Token := c.rest.headD (.eof c.stop)

def advance (c : Cursor) : Cursor where
  rest := c.rest.tail
  stop := c.stop
  left := c.left - 1
  left_eq := by rw [c.left_eq, List.length_tail]

end Cursor

abbrev Reader := EStateM ParseFault Cursor

namespace Reader

def peek : Reader Token := return (← get).peek

def skip : Reader Unit := modify Cursor.advance

def unexpected {α : Type} (expected : Expected) (found : Token) : Reader α :=
  throw (.unexpected expected found.kind found.span)

def expect (kind : Kind) : Reader Token := do
  let t ← peek
  if t.kind = kind then
    skip
    return t
  else
    unexpected (.token kind) t

def accept (kind : Kind) : Reader Bool := do
  if (← peek).kind = kind then
    skip
    return true
  else
    return false

def after? {α : Type} (kind : Kind) (item : Reader α) : Reader (Option α) := do
  if ← accept kind then
    return some (← item)
  else
    return none

def ident : Reader Ident := do
  let t ← expect .ident
  return ⟨t.lexeme, t.span⟩

/-- Runs `item` again and again until the cursor is at a token whose kind
satisfies `stop`.  `read` holds the values read before, the last one first. -/
def repeatUntil {α : Type} (stop : Kind → Bool) (item : Reader α) (read : List α := []) :
    Reader (List α) := fun c =>
  if stop c.peek.kind then
    .ok read.reverse c
  else
    match item c with
    | .error fault c' => .error fault c'
    | .ok a c' =>
      if c'.left < c.left then
        repeatUntil stop item (a :: read) c'
      else
        .ok (a :: read).reverse c'
termination_by c => c.left

/-- Runs `item` once, and once more after each comma.  `read` holds the values
read before, the last one first. -/
def separated {α : Type} (item : Reader α) (read : List α := []) : Reader (List α) := fun c =>
  match item c with
  | .error fault c' => .error fault c'
  | .ok a c' =>
    if c'.peek.kind = .comma ∧ c'.advance.left < c.left then
      separated item (a :: read) c'.advance
    else
      .ok (a :: read).reverse c'
termination_by c => c.left

/-- Reads what stands between two parentheses: nothing, or items with commas
between them.  The closing parenthesis is left to be taken. -/
def commaList {α : Type} (item : Reader α) : Reader (List α) := do
  if (← peek).kind = .closeParen then
    return []
  else
    separated item

end Reader

end TriadLang
