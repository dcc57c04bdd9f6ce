import TriadLang.Fault
import TriadLang.Journal
import TriadLang.Text.Quoted

/-!
# Lowering

The text of a program in the target language: one line for each field and each
statement, and two more for the braces of each declaration.  A triad becomes a
record type and a function becomes a function; a result type that is missing is
`void`, and a variable type that is missing is `auto`.

All declarations write their lines into one draft.  Behind the last line of a triad,
what the draft holds from its first line on is sent to the record store.  A match has
no text.  Lowering stops in the middle of the function that holds it, and what was said
about the triads before stands.
-/

namespace TriadLang

def Literal.lower : Literal → String
  | .text value => literalQuote value
  | .int value => toString value
  | .bool value => if value then "true" else "false"
  | .absent => "null"

mutual

def Expr.lower : Expr → Except LowerFault String
  | .literal value _ => return value.lower
  | .name ident _ => return ident.name
  | .call callee args _ => do
    let callee ← callee.lower
    let args ← Expr.lowerArgs args
    return callee ++ "(" ++ ", ".intercalate args ++ ")"
  | .matching .. => throw (.unsupported .matching)

def Expr.lowerArgs : List Expr → Except LowerFault (List String)
  | [] => return []
  | e :: es => return (← e.lower) :: (← Expr.lowerArgs es)

end

def VarDecl.lowerInitial (v : VarDecl) : Except LowerFault String :=
  match v.initial? with
  | some e => return " = " ++ (← e.lower)
  | none => return ""

def VarDecl.lower (v : VarDecl) : Except LowerFault String :=
  return (if v.isMutable then "mutable " else "") ++ v.type?.elim "auto" Ident.name ++ " " ++
    v.ident.name ++ (← v.lowerInitial) ++ ";"

def Stmt.lower : Stmt → Except LowerFault String
  | .var decl => decl.lower
  | .expr value => return (← value.lower) ++ ";"

def indented (line : String) : String := "  " ++ line

def Field.lower (f : Field) : String :=
  f.type.name ++ (f.arraySize?.elim "" fun size => "[" ++ toString size ++ "]") ++ " " ++
    f.ident.name ++ ";"

def Param.lower (p : Param) : String := p.type.name ++ " " ++ p.ident.name

def Function.signature (f : Function) : String :=
  f.result?.elim "void" Ident.name ++ " " ++ f.ident.name ++
    "(" ++ ", ".intercalate (f.params.map Param.lower) ++ ") \x7b"

def joinLines (lines : List String) : String := "\n".intercalate lines

/-- How far a program has been lowered. -/
structure Draft where
  lines : Array String := #[]
  journal : Journal
deriving Inhabited

abbrev Drafting := EStateM LowerFault Draft

namespace Drafting

def say (event : Event) : Drafting Unit :=
  modify fun draft => { draft with journal := draft.journal.push event }

def write (line : String) : Drafting Unit :=
  modify fun draft => { draft with lines := draft.lines.push line }

def triad (t : Triad) : Drafting Unit := do
  let start := (← get).lines.size
  write ("struct " ++ t.ident.name ++ " \x7b")
  t.fields.forM fun f => write (indented f.lower)
  write "\x7d;"
  -- the record store is told what has been written since
  let lines := (← get).lines.extract start
  say (.notified (.lowered t.ident.name (joinLines lines.toList)))

def stmt (s : Stmt) : Drafting Unit :=
  match s.lower with
  | .ok line => write (indented line)
  | .error fault => throw fault

def function (f : Function) : Drafting Unit := do
  write f.signature
  f.body.stmts.forM stmt
  write "\x7d"

def decl : Decl → Drafting Unit
  | .triad decl => triad decl
  | .function decl => function decl

def program (p : Program) : Drafting String := do
  p.decls.forM decl
  let lines := (← get).lines
  say (.lowered lines.size)
  return joinLines lines.toList

end Drafting

abbrev Lowering := EStateM LowerFault Journal

/-- Lowers a program from an empty draft.  Of a draft that fails only the journal is
kept. -/
def Lowering.program (p : Program) : Lowering String := fun journal =>
  match Drafting.program p { journal } with
  | .ok text draft => .ok text draft.journal
  | .error fault draft => .error fault draft.journal

end TriadLang
