import TriadLang.Token.Basic
import TriadLang.Tree.Basic

namespace TriadLang

/-- A span that stands `n` bytes further on. -/
def Span.shift (n : Nat) (s : Span) : Span := ⟨s.lo + n, s.hi + n⟩

theorem Span.shift_cover (n : Nat) (s t : Span) :
    (s.cover t).shift n = (s.shift n).cover (t.shift n) := by
  simp only [shift, cover, Span.mk.injEq]
  omega

def Token.mapSpan (f : Span → Span) (t : Token) : Token := { t with span := f t.span }

def Ident.mapSpan (f : Span → Span) (i : Ident) : Ident := { i with span := f i.span }

def Pattern.mapSpans (f : Span → Span) : Pattern → Pattern
  | .literal value => .literal value
  | .name ident => .name (ident.mapSpan f)

mutual

def Expr.mapSpans (f : Span → Span) : Expr → Expr
  | .literal value span => .literal value (f span)
  | .name ident span => .name (ident.mapSpan f) (f span)
  | .call callee args span => .call (callee.mapSpans f) (Expr.mapSpansOfArgs f args) (f span)
  | .matching scrutinee arms span =>
    .matching (scrutinee.mapSpans f) (Expr.mapSpansOfArms f arms) (f span)

def Expr.mapSpansOfArgs (f : Span → Span) : List Expr → List Expr
  | [] => []
  | e :: es => e.mapSpans f :: Expr.mapSpansOfArgs f es

def Expr.mapSpansOfArms (f : Span → Span) : List Arm → List Arm
  | [] => []
  | .mk pattern body :: arms =>
    .mk (pattern.mapSpans f) (body.mapSpans f) :: Expr.mapSpansOfArms f arms

end

theorem Expr.mapSpansOfArgs_eq_map (f : Span → Span) (es : List Expr) :
    Expr.mapSpansOfArgs f es = es.map (Expr.mapSpans f) := by
  induction es with
  | nil => rfl
  | cons e es ih => rw [Expr.mapSpansOfArgs, ih, List.map_cons]

def VarDecl.mapSpans (f : Span → Span) (v : VarDecl) : VarDecl where
  ident := v.ident.mapSpan f
  type? := v.type?.map (Ident.mapSpan f)
  isMutable := v.isMutable
  initial? := v.initial?.map (Expr.mapSpans f)

def Stmt.mapSpans (f : Span → Span) : Stmt → Stmt
  | .var decl => .var (decl.mapSpans f)
  | .expr value => .expr (value.mapSpans f)

def Block.mapSpans (f : Span → Span) (b : Block) : Block :=
  ⟨b.stmts.map (Stmt.mapSpans f), f b.span⟩

def Param.mapSpans (f : Span → Span) (p : Param) : Param :=
  ⟨p.ident.mapSpan f, p.type.mapSpan f⟩

def Function.mapSpans (f : Span → Span) (d : Function) : Function where
  ident := d.ident.mapSpan f
  params := d.params.map (Param.mapSpans f)
  result? := d.result?.map (Ident.mapSpan f)
  body := d.body.mapSpans f
  isFractal := d.isFractal

def Field.mapSpans (f : Span → Span) (d : Field) : Field :=
  ⟨d.ident.mapSpan f, d.type.mapSpan f, d.arraySize?⟩

def Triad.mapSpans (f : Span → Span) (d : Triad) : Triad :=
  ⟨d.ident.mapSpan f, d.fields.map (Field.mapSpans f)⟩

def Decl.mapSpans (f : Span → Span) : Decl → Decl
  | .triad decl => .triad (decl.mapSpans f)
  | .function decl => .function (decl.mapSpans f)

def Program.mapSpans (f : Span → Span) (p : Program) : Program := ⟨p.decls.map (Decl.mapSpans f)⟩

def Span.erase (_ : Span) : Span := .zero

/-- A program without its spans.  Programs that are the same without them are
equal up to spans. -/
def Program.bare (p : Program) : Program := p.mapSpans .erase

end TriadLang
