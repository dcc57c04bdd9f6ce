import TriadLang.Source.Position
import TriadLang.Text.WordChar
import TriadLang.Token.Kind

namespace TriadLang

/-- A line of a text, without its newline.  Lines past the last one are empty, and
none of them is looked for. -/
def line : Nat → List Char → List Char
  | 0, cs => cs.takeWhile (· != '\n')
  | n + 1, cs =>
    match cs.dropWhile (· != '\n') with
    | [] => []
    | _ :: cs => line n cs

structure Word where
  column : Nat
  chars : List Char
deriving DecidableEq, Repr, Inhabited

namespace Word

def stop (w : Word) : Nat := w.column + w.chars.length

def touches (w : Word) (column : Nat) : Bool := w.column ≤ column && column ≤ w.stop

/-- The words of a line from left to right, where `column` is the column of its
first character. -/
def ofLine (column : Nat) (cs : List Char) : List Word :=
  match cs with
  | [] => []
  | c :: cs =>
    if isWordChar c then
      let w : Word := ⟨column, c :: cs.takeWhile isWordChar⟩
      w :: ofLine w.stop (cs.dropWhile isWordChar)
    else
      ofLine (column + 1) cs
termination_by cs.length
decreasing_by
  · have := (List.dropWhile_suffix (l := cs) isWordChar).length_le
    simp only [List.length_cons]
    omega
  · simp

end Word

def wordAt (src : String) (pos : Position) : Option String :=
  ((Word.ofLine 0 (line pos.line src.toList)).find? (·.touches pos.character)).map
    fun w => String.ofList w.chars

/-- What there is to say about the word at a position: that it is a keyword, or a
built-in type. -/
def hover (src : String) (pos : Position) : Option String := do
  let word ← wordAt src pos
  let kind ← Kind.ofReserved? word
  return (if kind.isKeyword then "keyword: " else "built-in type: ") ++ word

def completions : List String := Kind.keywords.map Kind.spelling

end TriadLang
