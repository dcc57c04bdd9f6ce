import TriadLang.Tree.Basic

namespace TriadLang

/-- What a name can stand for.  Parameters, fields and types are not symbols. -/
inductive Symbol where
  | triad (decl : Triad)
  | function (decl : Function)
  | var (decl : VarDecl)
deriving Inhabited

namespace Symbol

def ident : Symbol → Ident
  | triad decl => decl.ident
  | function decl => decl.ident
  | var decl => decl.ident

def name (s : Symbol) : String := s.ident.name

def describe (s : Symbol) : String :=
  match s with
  | triad _ => "triad " ++ s.name
  | function _ => "function " ++ s.name
  | var _ => "variable " ++ s.name

end Symbol

def Stmt.symbol? : Stmt → Option Symbol
  | .var decl => some (.var decl)
  | .expr _ => none

/-- What a declaration declares: itself, and the variables in its body. -/
def Decl.symbols : Decl → List Symbol
  | .triad decl => [.triad decl]
  | .function decl => .function decl :: decl.body.stmts.filterMap Stmt.symbol?

def Program.symbols (p : Program) : List Symbol := p.decls.flatMap Decl.symbols

end TriadLang
