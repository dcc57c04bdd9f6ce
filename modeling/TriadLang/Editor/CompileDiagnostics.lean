import TriadLang.Compilation
import TriadLang.Editor.Braces

namespace TriadLang

/-- The diagnostic of a fault.  One that points nowhere is shown at the start. -/
def Fault.diagnostic (src : String) (fault : Fault) : Diagnostic :=
  .ofSpan src (fault.span?.getD .zero) fault.message

/-- The braces that have no partner, or, if there are none, the fault that ends the
compilation. -/
def compileDiagnostics (src : String) : List Diagnostic :=
  match braceDiagnostics src with
  | [] =>
    match (compile src).result with
    | .ok _ => []
    | .error fault => [fault.diagnostic src]
  | braces => braces

end TriadLang
