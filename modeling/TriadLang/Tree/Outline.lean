import TriadLang.Text.Outline
import TriadLang.Text.Quoted
import TriadLang.Tree.Basic

namespace TriadLang

def Span.outline (s : Span) : Outline :=
  .record "Span" [("lo", .atom (toString s.lo)), ("hi", .atom (toString s.hi))]

def Ident.outline (i : Ident) : Outline :=
  .record "Ident" [("name", .atom (listingQuote i.name)), ("span", i.span.outline)]

def Outline.bool (b : Bool) : Outline := .atom (if b then "true" else "false")

def Literal.outline : Literal → Outline
  | .text value => .wrap "Str" (.atom (listingQuote value))
  | .int value => .wrap "Integer" (.atom (toString value))
  | .bool value => .wrap "Bool" (.bool value)
  | .absent => .atom "None"

def Pattern.outline : Pattern → Outline
  | .literal value => .wrap "Literal" value.outline
  | .name ident => .wrap "Ident" ident.outline

mutual

def Expr.outline : Expr → Outline
  | .literal value span =>
    .record "Expr" [("kind", .wrap "Literal" value.outline), ("span", span.outline)]
  | .name ident span =>
    .record "Expr" [("kind", .wrap "Ident" ident.outline), ("span", span.outline)]
  | .call callee args span =>
    .record "Expr"
      [("kind", .record "Call"
        [("callee", callee.outline), ("args", .list (Expr.outlineArgs args))]),
       ("span", span.outline)]
  | .matching scrutinee arms span =>
    .record "Expr"
      [("kind", .record "Match"
        [("expr", scrutinee.outline), ("cases", .list (Expr.outlineArms arms))]),
       ("span", span.outline)]

def Expr.outlineArgs : List Expr → List Outline
  | [] => []
  | e :: es => e.outline :: Expr.outlineArgs es

def Expr.outlineArms : List Arm → List Outline
  | [] => []
  | .mk pattern body :: arms =>
    .record "MatchCase" [("pattern", pattern.outline), ("body", body.outline)] ::
      Expr.outlineArms arms

end

def VarDecl.outline (v : VarDecl) : Outline :=
  .record "VarDecl"
    [("name", v.ident.outline), ("ty", .option (v.type?.map Ident.outline)),
     ("mutable", .bool v.isMutable), ("init", .option (v.initial?.map Expr.outline))]

def Stmt.outline : Stmt → Outline
  | .var decl => .wrap "Var" decl.outline
  | .expr value => .wrap "Expr" value.outline

def Block.outline (b : Block) : Outline :=
  .record "Block" [("stmts", .list (b.stmts.map Stmt.outline)), ("span", b.span.outline)]

def Param.outline (p : Param) : Outline :=
  .record "Param" [("name", p.ident.outline), ("ty", p.type.outline)]

def Function.outline (f : Function) : Outline :=
  .record "Function"
    [("name", f.ident.outline), ("params", .list (f.params.map Param.outline)),
     ("ret", .option (f.result?.map Ident.outline)), ("body", f.body.outline),
     ("is_fractal", .bool f.isFractal)]

def Field.outline (f : Field) : Outline :=
  .record "TriadField"
    [("name", f.ident.outline), ("ty", f.type.outline),
     ("array_size", .option (f.arraySize?.map fun size => .atom (toString size)))]

def Triad.outline (t : Triad) : Outline :=
  .record "Triad" [("name", t.ident.outline), ("fields", .list (t.fields.map Field.outline))]

def Decl.outline : Decl → Outline
  | .triad decl => .wrap "Triad" decl.outline
  | .function decl => .wrap "Function" decl.outline

/-- The listing of a program. -/
def Program.outline (p : Program) : Outline :=
  .record "Program" [("decls", .list (p.decls.map Decl.outline))]

end TriadLang
