import TriadLang.Source.Position
import TriadLang.Source.Span

namespace TriadLang

/-- A message about the text from `start` up to `stop`. -/
structure Diagnostic where
  start : Position
  stop : Position
  message : String
deriving DecidableEq, Repr, Inhabited

def Diagnostic.ofSpan (src : String) (span : Span) (message : String) : Diagnostic :=
  ⟨.ofOffset src span.lo, .ofOffset src span.hi, message⟩

end TriadLang
