import TriadLang.Tree.Parser

/-!
# A parser that counts

The readers hold the tokens that are left, take the number of calls that may still
be nested as a budget, and end a repetition as soon as a round takes no token.

Here is the parser as a machine that is changed as it goes.  It holds a position in
a list of tokens that stays as it is, and the number of calls it is inside of, which
goes up before the arguments of a call and down behind them.  Its loops ask for
nothing but the token that ends them, and the method for expressions calls itself
without regard to what was passed.

So the definitions do not say that a method comes to an end.  The loops and the
method for expressions get fuel, one unit for each round and for each call inside of
another, and have no answer where it runs out.
-/

namespace TriadLang

/-- A parser at work: its tokens, how many of them it has passed, and how many calls
it is inside the arguments of. -/
structure Parser where
  tokens : List Token
  pos : Nat := 0
  depth : Nat := 0

namespace Parser

/-- The token at the position.  Past the last one this is an end token. -/
def peek (p : Parser) : Token :=
  p.tokens[p.pos]?.getD (.eof ((p.tokens.getLast?.map (·.span.hi)).getD 0))

def advance (p : Parser) : Parser :=
  if p.pos < p.tokens.length then { p with pos := p.pos + 1 } else p

def deeper (p : Parser) : Parser := { p with depth := p.depth + 1 }

def shallower (p : Parser) : Parser := { p with depth := p.depth - 1 }

end Parser

/-- What a parser does: an answer and the parser as it is left behind, also behind a
fault, or nothing, if the fuel of a loop ran out. -/
abbrev Method := ExceptT ParseFault (StateT Parser Option)

namespace Method

variable {α : Type}

/-- The answer of a method, and the parser behind it. -/
def runOn (x : Method α) (p : Parser) : Option (Except ParseFault α × Parser) := x p

def outOfFuel : Method α := fun _ => none

def look : Method Token := return (← get).peek

def skip : Method Unit := modify Parser.advance

def unexpected (expected : Expected) (found : Token) : Method α :=
  throw (.unexpected expected found.kind found.span)

def consume (kind : Kind) : Method Token := do
  let t ← look
  if t.kind = kind then
    skip
    return t
  else
    unexpected (.token kind) t

def eat (kind : Kind) : Method Bool := do
  if (← look).kind = kind then
    skip
    return true
  else
    return false

def ident : Method Ident := do
  let t ← consume .ident
  return ⟨t.lexeme, t.span⟩

def optional (kind : Kind) (item : Method α) : Method (Option α) := do
  if ← eat kind then
    return some (← item)
  else
    return none

def collect (stop : Kind → Bool) (item : Method α) : Nat → List α → Method (List α)
  | 0, _ => outOfFuel
  | fuel + 1, read => do
    if stop (← look).kind then
      return read.reverse
    else
      let a ← item
      collect stop item fuel (a :: read)

def commas (item : Method α) : Nat → List α → Method (List α)
  | 0, _ => outOfFuel
  | fuel + 1, read => do
    let a ← item
    if ← eat .comma then
      commas item fuel (a :: read)
    else
      return (a :: read).reverse

def commaList (item : Method α) (fuel : Nat) : Method (List α) := do
  if (← look).kind = .closeParen then
    return []
  else
    commas item fuel []

/-- A method that is run one call deeper.  The depth goes back to what it was before a
fault is passed on. -/
def nested (x : Method α) : Method α := ExceptT.mk do
  modify Parser.deeper
  let r ← x.run
  modify Parser.shallower
  return r

def integer (t : Token) : Method Nat :=
  match readInteger? t.lexeme with
  | some n => return n
  | none => throw (.numberOutOfRange t.lexeme t.span)

def literal (t : Token) (value : Method Literal) : Method Expr := do
  let v ← value
  skip
  return .literal v t.span

def expr : Nat → Method Expr
  | 0 => outOfFuel
  | fuel + 1 => do
    let t ← look
    match t.kind with
    | .ident =>
      skip
      let callee := Expr.name ⟨t.lexeme, t.span⟩ t.span
      if ← eat .openParen then
        if maxNesting ≤ (← get).depth then
          throw (.nestingTooDeep maxNesting t.span)
        else
          let args ← nested (commaList (expr fuel) fuel)
          let close ← consume .closeParen
          return .call callee args (t.span.cover close.span)
      else
        return callee
    | .number => literal t (.int <$> integer t)
    | .litTrue => literal t (return .bool true)
    | .litFalse => literal t (return .bool false)
    | .uncertain => literal t (return .text t.lexeme)
    | _ => unexpected .expression t

def varDecl (fuel : Nat) : Method VarDecl := do
  let isMutable := (← look).kind == .mutable
  skip
  let ident ← ident
  let type? ← optional .colon Method.ident
  let initial? ← optional .assign (expr fuel)
  let _ ← consume .semicolon
  return { ident, type?, isMutable, initial? }

def stmt (fuel : Nat) : Method Stmt := do
  match (← look).kind with
  | .immutable | .mutable => return .var (← varDecl fuel)
  | _ =>
    let value ← expr fuel
    let _ ← consume .semicolon
    return .expr value

def block (fuel : Nat) : Method Block := do
  let opening ← consume .openBrace
  let stmts ← collect (fun k => k == .closeBrace || k == .eof) (stmt fuel) fuel []
  let closing ← consume .closeBrace
  return { stmts, span := opening.span.cover closing.span }

def param : Method Param := do
  let ident ← ident
  let _ ← consume .colon
  let type ← Method.ident
  return { ident, type }

def function (fuel : Nat) (isFractal : Bool) : Method Function := do
  let t ← look
  if t.isFunctionWord then
    skip
    let ident ← ident
    let _ ← consume .openParen
    let params ← commaList param fuel
    let _ ← consume .closeParen
    let result? ← optional .arrow Method.ident
    let body ← block fuel
    return { ident, params, result?, body, isFractal }
  else
    unexpected .functionWord t

def arraySize : Method Nat := do
  let size ← integer (← consume .number)
  let _ ← consume .closeSquare
  return size

def field : Method Field := do
  let ident ← ident
  let _ ← consume .colon
  let type ← Method.ident
  let arraySize? ← optional .openSquare arraySize
  let _ ← consume .semicolon
  return { ident, type, arraySize? }

def triad (fuel : Nat) : Method Triad := do
  let _ ← consume .triad
  let ident ← ident
  let _ ← consume .openBrace
  let fields ← collect (· == .closeBrace) field fuel []
  let _ ← consume .closeBrace
  return { ident, fields }

def decl (fuel : Nat) : Method Decl := do
  let t ← look
  if t.kind = .triad then
    return .triad (← triad fuel)
  else if t.kind = .fractal then
    skip
    return .function (← function fuel true)
  else if t.isFunctionWord then
    return .function (← function fuel false)
  else
    unexpected .declaration t

def program (fuel : Nat) : Method Program :=
  return { decls := ← collect (· == .eof) (decl fuel) fuel [] }

section

variable {β : Type} (p : Parser)

theorem runOn_bind (x : Method α) (f : α → Method β) :
    (x >>= f).runOn p = (x.runOn p).bind fun
      | (.ok a, q) => (f a).runOn q
      | (.error fault, q) => some (.error fault, q) := by
  show (x p).bind _ = (x p).bind _
  congr 1
  funext ⟨r, q⟩
  cases r <;> rfl

theorem runOn_look : look.runOn p = some (.ok p.peek, p) := rfl

theorem runOn_get : (get : Method Parser).runOn p = some (.ok p, p) := rfl

variable {p} {q : Parser}

theorem runOn_bind_of_ok {x : Method α} {a : α} (h : x.runOn p = some (.ok a, q))
    (f : α → Method β) : (x >>= f).runOn p = (f a).runOn q := by
  rw [runOn_bind, h]
  rfl

theorem runOn_bind_of_error {x : Method α} {fault : ParseFault}
    (h : x.runOn p = some (.error fault, q)) (f : α → Method β) :
    (x >>= f).runOn p = some (.error fault, q) := by
  rw [runOn_bind, h]
  rfl

theorem runOn_eat_of_eq {k : Kind} (h : p.peek.kind = k) :
    (eat k).runOn p = some (.ok true, p.advance) := by
  rw [eat, runOn_bind_of_ok (runOn_look p), if_pos h]
  rfl

theorem runOn_eat_of_ne {k : Kind} (h : p.peek.kind ≠ k) :
    (eat k).runOn p = some (.ok false, p) := by
  rw [eat, runOn_bind_of_ok (runOn_look p), if_neg h]
  rfl

theorem runOn_nested {x : Method α} {r : Except ParseFault α}
    (h : x.runOn p.deeper = some (r, q)) : (nested x).runOn p = some (r, q.shallower) := by
  show (x.runOn p.deeper).bind _ = _
  rw [h]
  rfl

end

end Method

end TriadLang
