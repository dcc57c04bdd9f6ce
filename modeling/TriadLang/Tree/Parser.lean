import TriadLang.Tree.Cursor

/-!
# Reading programs

The grammar of programs, one reader for each of its parts.  A reader looks at one
token to decide how to go on, never goes back, and fails at the first token that
cannot stand where it stands.

Calls may nest inside the arguments of at most `maxNesting` others.  The reader
of expressions carries that number as a budget and ends by recursion on it.
-/

namespace TriadLang

/-- How many calls may be nested inside one another's arguments. -/
def maxNesting : Nat := 256

def appendDigit? (n : Nat) (c : Char) : Option Nat :=
  let m := 10 * n + (c.toNat - '0'.toNat)
  if m < UInt64.size then some m else none

/-- The value of a numeral: decimal digits, perhaps after a plus sign, that stand
for a number of 64 bits. -/
def readInteger? (lexeme : String) : Option Nat :=
  let digits := match lexeme.toList with
    | '+' :: digits => digits
    | digits => digits
  if digits.isEmpty || !digits.all Char.isDigit then
    none
  else
    digits.foldlM appendDigit? 0

namespace Reader

def integer (t : Token) : Reader Nat :=
  match readInteger? t.lexeme with
  | some n => return n
  | none => throw (.numberOutOfRange t.lexeme t.span)

/-- A literal other than a name; `value` is worked out before the token is taken. -/
def literal (t : Token) (value : Reader Literal) : Reader Expr := do
  let v ← value
  skip
  return .literal v t.span

/-- A literal, a name, or a call of a name.  What follows an opening parenthesis
is read by `arguments`, which is told where the name is. -/
def exprWith (arguments : Span → Reader (List Expr)) : Reader Expr := do
  let t ← peek
  match t.kind with
  | .ident =>
    skip
    let callee := Expr.name ⟨t.lexeme, t.span⟩ t.span
    if ← accept .openParen then
      let args ← arguments t.span
      let close ← expect .closeParen
      return .call callee args (t.span.cover close.span)
    else
      return callee
  | .number => literal t (.int <$> integer t)
  | .litTrue => literal t (return .bool true)
  | .litFalse => literal t (return .bool false)
  | .uncertain => literal t (return .text t.lexeme)
  | _ => unexpected .expression t

def expr : Nat → Reader Expr
  | 0 => exprWith fun span => throw (.nestingTooDeep maxNesting span)
  | budget + 1 => exprWith fun _ => commaList (expr budget)

def varDecl : Reader VarDecl := do
  let isMutable := (← peek).kind == .mutable
  skip
  let ident ← ident
  let type? ← after? .colon Reader.ident
  let initial? ← after? .assign (expr maxNesting)
  let _ ← expect .semicolon
  return { ident, type?, isMutable, initial? }

def stmt : Reader Stmt := do
  match (← peek).kind with
  | .immutable | .mutable => return .var (← varDecl)
  | _ =>
    let value ← expr maxNesting
    let _ ← expect .semicolon
    return .expr value

def block : Reader Block := do
  let opening ← expect .openBrace
  let stmts ← repeatUntil (fun k => k == .closeBrace || k == .eof) stmt
  let closing ← expect .closeBrace
  return { stmts, span := opening.span.cover closing.span }

def param : Reader Param := do
  let ident ← ident
  let _ ← expect .colon
  let type ← Reader.ident
  return { ident, type }

def function (isFractal : Bool) : Reader Function := do
  let t ← peek
  if t.isFunctionWord then
    skip
    let ident ← ident
    let _ ← expect .openParen
    let params ← commaList param
    let _ ← expect .closeParen
    let result? ← after? .arrow Reader.ident
    let body ← block
    return { ident, params, result?, body, isFractal }
  else
    unexpected .functionWord t

def arraySize : Reader Nat := do
  let size ← integer (← expect .number)
  let _ ← expect .closeSquare
  return size

def field : Reader Field := do
  let ident ← ident
  let _ ← expect .colon
  let type ← Reader.ident
  let arraySize? ← after? .openSquare arraySize
  let _ ← expect .semicolon
  return { ident, type, arraySize? }

def triad : Reader Triad := do
  let _ ← expect .triad
  let ident ← ident
  let _ ← expect .openBrace
  let fields ← repeatUntil (· == .closeBrace) field
  let _ ← expect .closeBrace
  return { ident, fields }

def decl : Reader Decl := do
  let t ← peek
  if t.kind = .triad then
    return .triad (← triad)
  else if t.kind = .fractal then
    skip
    return .function (← function true)
  else if t.isFunctionWord then
    return .function (← function false)
  else
    unexpected .declaration t

/-- Declarations up to the next end token, which is left where it is. -/
def program : Reader Program :=
  return { decls := ← repeatUntil (· == .eof) decl }

end Reader

/-- The program that a list of tokens spells, up to its first end token. -/
def parse (tokens : List Token) : Except ParseFault Program :=
  match Reader.program (.ofTokens tokens) with
  | .ok program _ => .ok program
  | .error fault _ => .error fault

end TriadLang
