import TriadLang.Source.Span

/-!
# Program trees

The tree of a program: declarations of triads, which are records of typed
fields, and of functions, whose bodies are lists of variable declarations and
expressions.

Every name and every expression carries the span it was read from.  Trees that
were built by other means than reading carry the empty span at the start.
-/

namespace TriadLang

structure Ident where
  name : String
  span : Span := .zero
deriving DecidableEq, Repr, Inhabited

inductive Literal where
  | text (value : String)
  | int (value : Nat)
  | bool (value : Bool)
  | absent
deriving DecidableEq, Repr, Inhabited

/-- What an arm of a match is compared with: a value, or a name that it binds. -/
inductive Pattern where
  | literal (value : Literal)
  | name (ident : Ident)
deriving DecidableEq, Repr, Inhabited

mutual

/-- An expression.  Reading a source text gives literals, names and calls of
names; a match has no written form yet. -/
inductive Expr where
  | literal (value : Literal) (span : Span)
  | name (ident : Ident) (span : Span)
  | call (callee : Expr) (args : List Expr) (span : Span)
  | matching (scrutinee : Expr) (arms : List Arm) (span : Span)

inductive Arm where
  | mk (pattern : Pattern) (body : Expr)

end

instance : Inhabited Expr := ⟨.literal .absent .zero⟩

namespace Expr

inductive Form where
  | literal
  | name
  | call
  | matching
deriving DecidableEq, Repr, Inhabited

def Form.describe : Form → String
  | .literal => "Literal"
  | .name => "Identifier"
  | .call => "CallExpression"
  | .matching => "MatchExpression"

def form : Expr → Form
  | literal .. => .literal
  | name .. => .name
  | call .. => .call
  | matching .. => .matching

def span : Expr → Span
  | literal _ s => s
  | name _ s => s
  | call _ _ s => s
  | matching _ _ s => s

end Expr

structure VarDecl where
  ident : Ident
  type? : Option Ident := none
  isMutable : Bool := false
  initial? : Option Expr := none
deriving Inhabited

inductive Stmt where
  | var (decl : VarDecl)
  | expr (value : Expr)
deriving Inhabited

/-- The statements between two braces; the span holds the braces. -/
structure Block where
  stmts : List Stmt := []
  span : Span := .zero
deriving Inhabited

structure Param where
  ident : Ident
  type : Ident
deriving DecidableEq, Repr, Inhabited

structure Function where
  ident : Ident
  params : List Param := []
  result? : Option Ident := none
  body : Block := {}
  isFractal : Bool := false
deriving Inhabited

structure Field where
  ident : Ident
  type : Ident
  arraySize? : Option Nat := none
deriving DecidableEq, Repr, Inhabited

structure Triad where
  ident : Ident
  fields : List Field := []
deriving DecidableEq, Repr, Inhabited

inductive Decl where
  | triad (decl : Triad)
  | function (decl : Function)
deriving Inhabited

structure Program where
  decls : List Decl := []
deriving Inhabited

end TriadLang
