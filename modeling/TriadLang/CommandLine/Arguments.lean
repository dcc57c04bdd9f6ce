/-!
# Arguments of the command line

The command takes one file, `--emit` with a word that says what to print, and the
switch `--trace-store`.  The arguments are read from left to right, and the first
one that makes no sense ends the reading.  What has been given is looked at as a
whole afterwards: whether there is a file, then whether the words make sense,
then whether anything was given twice.
-/

namespace TriadLang

inductive Emit where
  | tokens
  | tree
  | code
deriving DecidableEq, Repr, Inhabited

def Emit.ofWord? : String → Option Emit
  | "tokens" => some .tokens
  | "ast" => some .tree
  | "code" => some .code
  | _ => none

def Emit.unknownMessage (word : String) : String := "unknown emit kind `" ++ word ++ "`"

inductive UsageFault where
  | missingFile
  | unknownArgument
  | invalidWord (word : String)
  | repeated
  | help
  | version
deriving DecidableEq, Repr, Inhabited

structure Invocation where
  file : String
  emit : Emit := .code
  traceStore : Bool := false
deriving DecidableEq, Repr, Inhabited

inductive Argument where
  | separator
  | long (name : String) (value? : Option String)
  /-- A letter after one dash; letters that follow it are never looked at. -/
  | short (letter : Char)
  | word (text : String)
deriving DecidableEq, Repr, Inhabited

namespace Argument

/-- Splits what follows the dashes at the first equals sign.  Further equals signs
at the front of the value are dropped. -/
def ofLong (cs : List Char) : Argument :=
  let name := String.ofList (cs.takeWhile (· != '='))
  match cs.dropWhile (· != '=') with
  | [] => .long name none
  | _ :: value => .long name (some (String.ofList (value.dropWhile (· == '='))))

def ofString (arg : String) : Argument :=
  match arg.toList with
  | ['-', '-'] => .separator
  | '-' :: '-' :: cs => ofLong (cs.dropWhile (· == '-'))
  | '-' :: c :: _ => .short c
  | _ => .word arg

end Argument

inductive Awaited where
  | anything
  | emitWord
  | file
deriving DecidableEq, Repr, Inhabited

structure Given where
  file? : Option String := none
  emitWords : List String := []
  emitCount : Nat := 0
  traceCount : Nat := 0
deriving DecidableEq, Repr, Inhabited

namespace Given

def addFile (g : Given) (path : String) : Except UsageFault Given :=
  match g.file? with
  | none => .ok { g with file? := some path }
  | some _ => .error .unknownArgument

def addSwitch (g : Given) (name : String) (value? : Option String) :
    Except UsageFault (Given × Awaited) :=
  match name with
  | "emit" =>
    let g := { g with emitCount := g.emitCount + 1 }
    match value? with
    | some word => .ok ({ g with emitWords := g.emitWords ++ [word] }, .anything)
    | none => .ok (g, .emitWord)
  | "trace-store" => .ok ({ g with traceCount := g.traceCount + 1 }, .anything)
  | "help" => .error .help
  | "version" => .error .version
  | _ => .error .unknownArgument

def add (g : Given) (awaited : Awaited) (arg : String) : Except UsageFault (Given × Awaited) :=
  match awaited, Argument.ofString arg with
  | .file, _ => return (← g.addFile arg, .file)
  | _, .separator => return (g, .file)
  | _, .long name value? => g.addSwitch name value?
  | _, .short 'h' => throw .help
  | _, .short 'V' => throw .version
  | _, .short _ => throw .unknownArgument
  | .emitWord, .word text => return ({ g with emitWords := g.emitWords ++ [text] }, .anything)
  | .anything, .word text => return (← g.addFile text, .anything)

def addAll (g : Given) (awaited : Awaited) : List String → Except UsageFault Given
  | [] => .ok g
  | arg :: args => do
    let (g, awaited) ← g.add awaited arg
    g.addAll awaited args

/-- What the arguments ask for.  Without a word after it, `--emit` changes
nothing. -/
def invocation (g : Given) : Except UsageFault Invocation :=
  match g.file?, g.emitWords.find? fun word => (Emit.ofWord? word).isNone with
  | none, _ => .error .missingFile
  | some _, some word => .error (.invalidWord word)
  | some file, none =>
    if g.emitCount > 1 ∨ g.traceCount > 1 then
      .error .repeated
    else
      .ok {
        file
        emit := (g.emitWords.head?.bind Emit.ofWord?).getD .code
        traceStore := g.traceCount == 1 }

end Given

def Invocation.ofArguments (args : List String) : Except UsageFault Invocation := do
  (← Given.addAll {} .anything args).invocation

end TriadLang
