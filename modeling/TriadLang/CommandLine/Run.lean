import TriadLang.CommandLine.Arguments
import TriadLang.Compilation
import TriadLang.Report
import TriadLang.Tree.Outline

namespace TriadLang

inductive ReadFault where
  | notFound
  | notText
  | other (reason : String)
deriving DecidableEq, Repr, Inhabited

def ReadFault.describe : ReadFault → String
  | notFound => "No such file or directory (os error 2)"
  | notText => "stream did not contain valid UTF-8"
  | other reason => reason

/-- What a run leaves behind.  The log is there for whoever asks for it. -/
structure Response where
  exitCode : UInt8 := 0
  out : String := ""
  err : String := ""
  log : List LogRecord := []
deriving DecidableEq, Repr, Inhabited

def usage : String := "usage: triadc <FILE_NAME> [--emit tokens|ast|code]"

def UsageFault.response : UsageFault → Response
  | missingFile => { exitCode := 1, err := "error: no file is given\n" ++ usage ++ "\n" }
  | unknownArgument => { exitCode := 1, err := "error: unknown argument\n" ++ usage ++ "\n" }
  | invalidWord word =>
    { exitCode := 1, err := "error: " ++ Emit.unknownMessage word ++ "\n" ++ usage ++ "\n" }
  | repeated => { exitCode := 1, err := "error: repeated argument\n" ++ usage ++ "\n" }
  | help => { out := usage ++ "\n" }
  | version => { out := "triadc\n" }

def Token.listing (t : Token) : String :=
  t.kind.name ++ " " ++ listingQuote t.lexeme ++ " @" ++ toString t.span.lo

def Emit.outcome (emit : Emit) (src : String) : Outcome String :=
  match emit with
  | .tokens =>
    Compilation.outcome do
      return joinLines ((← Compilation.tokens src).map Token.listing)
  | .tree =>
    Compilation.outcome do
      return (← Compilation.checking src).outline.render
  | .code => compile src

namespace Invocation

def delivery (i : Invocation) : Delivery := if i.traceStore then .log else .drop

def response (i : Invocation) (contents : Except ReadFault (List UInt8)) : Response :=
  match contents.bind fun bytes => (Utf8.decode? bytes).elim (.error .notText) .ok with
  | .error fault =>
    { exitCode := 1, err := "cannot open " ++ i.file ++ ": " ++ fault.describe ++ "\n" ++ usage ++ "\n" }
  | .ok src =>
    let outcome := i.emit.outcome src
    let log := outcome.journal.log i.delivery
    match outcome.result with
    | .ok text => { out := text ++ "\n", log }
    | .error fault =>
      { exitCode := 1, err := (fault.render src).getD ("error: " ++ fault.message) ++ "\n", log }

end Invocation

end TriadLang
