import TriadLang.Source.Bytes

namespace TriadLang

/-- A line of the text and a column in it, both counted from zero, the column in
characters. -/
structure Position where
  line : Nat
  character : Nat
deriving DecidableEq, Repr, Inhabited

namespace Position

def start : Position := ⟨0, 0⟩

def advance (p : Position) (c : Char) : Position :=
  if c = '\n' then ⟨p.line + 1, 0⟩ else ⟨p.line, p.character + 1⟩

def after (cs : List Char) : Position := cs.foldl advance start

theorem after_append (cs ds : List Char) : after (cs ++ ds) = ds.foldl advance (after cs) :=
  List.foldl_append

/-- The position of a byte offset.  An offset past the end counts as the end, and
one inside a character as the start of that character. -/
def ofOffset (src : String) (offset : Nat) : Position :=
  after (takeBytes offset src.toList)

end Position

end TriadLang
