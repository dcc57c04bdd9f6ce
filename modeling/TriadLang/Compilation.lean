import TriadLang.Journal
import TriadLang.Symbol.Resolution
import TriadLang.Token.Lexer
import TriadLang.Tree.Lowering
import TriadLang.Tree.Parser

/-!
# Compilation

A source text is read as tokens, the tokens as a program, the names of the
program are resolved, and the program is lowered.  The first fault ends the
compilation, and the journal tells how far it came.

There are three ends to stop at: `read` stops when the program is there, `check`
when its names are resolved, and `compile` when it is lowered.  Each starts from
nothing, so one compilation has no influence on the next.
-/

namespace TriadLang

abbrev Compilation := EStateM Fault Journal

namespace Compilation

def say (event : Event) : Compilation Unit := modify (·.push event)

def tokens (src : String) : Compilation (List Token) := do
  match tokenize src with
  | .ok tokens =>
    say (.lexed tokens.length)
    return tokens
  | .error fault => throw (.lex fault)

def program (tokens : List Token) : Compilation Program := do
  match parse tokens with
  | .ok program =>
    say (.parsed program.decls.length)
    return program
  | .error fault => throw (.parse fault)

/-- Resolves the names of a program in a scope of its own. -/
def resolve (p : Program) : Compilation Unit := fun journal =>
  match Resolver.program p { journal } with
  | .ok () scope => .ok () scope.journal
  | .error fault scope => .error (.resolve fault) scope.journal

def lower (p : Program) : Compilation String := fun journal =>
  match Lowering.program p journal with
  | .ok text journal => .ok text journal
  | .error fault journal => .error (.lower fault) journal

def reading (src : String) : Compilation Program := do program (← tokens src)

def checking (src : String) : Compilation Program := do
  let p ← reading src
  resolve p
  return p

def compiling (src : String) : Compilation String := do
  let p ← checking src
  let text ← lower p
  say (.compiled src.utf8ByteSize)
  return text

end Compilation

structure Outcome (α : Type) where
  result : Except Fault α
  journal : Journal

/-- Runs a compilation from an empty journal. -/
def Compilation.outcome {α : Type} (c : Compilation α) : Outcome α :=
  match c #[] with
  | .ok a journal => ⟨.ok a, journal⟩
  | .error fault journal => ⟨.error fault, journal⟩

def read (src : String) : Outcome Program := (Compilation.reading src).outcome

def check (src : String) : Outcome Program := (Compilation.checking src).outcome

def compile (src : String) : Outcome String := (Compilation.compiling src).outcome

end TriadLang
