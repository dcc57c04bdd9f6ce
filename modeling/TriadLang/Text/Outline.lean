namespace TriadLang

inductive Outline where
  | atom (text : String)
  | field (name : String) (value : Outline)
  | group (opening : String) (parts : List Outline) (closing : String)

namespace Outline

instance : Inhabited Outline := ⟨.atom ""⟩

def record (kind : String) (fields : List (String × Outline)) : Outline :=
  .group (kind ++ " \x7b") (fields.map fun (name, value) => .field name value) "\x7d"

def wrap (kind : String) (value : Outline) : Outline := .group (kind ++ "(") [value] ")"

def list : List Outline → Outline
  | [] => .atom "[]"
  | parts => .group "[" parts "]"

def option : Option Outline → Outline
  | none => .atom "None"
  | some value => wrap "Some" value

def margin (depth : Nat) : String := String.ofList (List.replicate (4 * depth) ' ')

mutual

/-- The lines of a value at some depth, with a text before the first line and one
after the last. -/
def lines (depth : Nat) (before after : String) : Outline → List String
  | atom text => [margin depth ++ before ++ text ++ after]
  | field name value => value.lines depth (before ++ name ++ ": ") after
  | group opening parts closing =>
    (margin depth ++ before ++ opening) ::
      (linesOfParts (depth + 1) parts ++ [margin depth ++ closing ++ after])

def linesOfParts (depth : Nat) : List Outline → List String
  | [] => []
  | part :: parts => part.lines depth "" "," ++ linesOfParts depth parts

end

def render (o : Outline) : String := "\n".intercalate (o.lines 0 "" "")

end Outline

end TriadLang
