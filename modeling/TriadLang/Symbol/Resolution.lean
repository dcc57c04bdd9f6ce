import TriadLang.Fault
import TriadLang.Journal
import TriadLang.Symbol.Table

/-!
# Name resolution

One pass over a program, in source order.  Triads, functions and variables are
defined in one scope for the whole program, each name once, and a name in an
expression has to be defined before it is used.  A variable is defined before its
initial value is looked at, and a function before its body.  The parameters of a
function are not defined, and no type is looked up.

The scope that was reached is kept when resolution fails, so further programs
can be resolved in it.
-/

namespace TriadLang

structure Scope where
  symbols : SymbolTable Symbol := {}
  journal : Journal := #[]
deriving Inhabited

mutual

/-- The first name of an expression that is not bound, from left to right.  A name
in a pattern is bound by the pattern and not looked up. -/
def Expr.firstUnbound? (isBound : String → Bool) : Expr → Option Ident
  | .literal _ _ => none
  | .name ident _ => if isBound ident.name then none else some ident
  | .call callee args _ =>
    (callee.firstUnbound? isBound).or (Expr.firstUnboundOfArgs? isBound args)
  | .matching scrutinee arms _ =>
    (scrutinee.firstUnbound? isBound).or (Expr.firstUnboundOfArms? isBound arms)

def Expr.firstUnboundOfArgs? (isBound : String → Bool) : List Expr → Option Ident
  | [] => none
  | e :: es => (e.firstUnbound? isBound).or (Expr.firstUnboundOfArgs? isBound es)

def Expr.firstUnboundOfArms? (isBound : String → Bool) : List Arm → Option Ident
  | [] => none
  | .mk _ body :: arms =>
    (body.firstUnbound? isBound).or (Expr.firstUnboundOfArms? isBound arms)

end

abbrev Resolver := EStateM ResolveFault Scope

namespace Resolver

def say (event : Event) : Resolver Unit :=
  modify fun scope => { scope with journal := scope.journal.push event }

def define (symbol : Symbol) : Resolver Unit := do
  match (← get).symbols.define? symbol.name symbol with
  | some symbols =>
    modify fun scope => { scope with symbols }
    say (.defined symbol)
  | none => throw (.duplicate symbol.ident)

def expr (e : Expr) : Resolver Unit := do
  match e.firstUnbound? (← get).symbols.contains with
  | some ident => throw (.unknown ident)
  | none => return

def stmt : Stmt → Resolver Unit
  | .var decl => do
    define (.var decl)
    decl.initial?.forM expr
  | .expr value => expr value

def decl : Decl → Resolver Unit
  | .triad decl => do
    define (.triad decl)
    say (.notified (.defined decl.ident.name))
  | .function decl => do
    define (.function decl)
    decl.body.stmts.forM stmt

def program (p : Program) : Resolver Unit := do
  p.decls.forM decl
  say (.resolved (← get).symbols.size)

end Resolver

/-- Resolves the names of a program in a scope.  The scope that was reached comes
back with either answer. -/
def Scope.resolve (scope : Scope) (p : Program) : Except ResolveFault Unit × Scope :=
  match Resolver.program p scope with
  | .ok () scope => (.ok (), scope)
  | .error fault scope => (.error fault, scope)

end TriadLang
