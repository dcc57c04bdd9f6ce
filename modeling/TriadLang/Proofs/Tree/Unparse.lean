import TriadLang.Proofs.Token.Fit
import TriadLang.Proofs.Tree.Grammar
import TriadLang.Proofs.Tree.Numeral

namespace TriadLang

abbrev Token.Word := Kind × String

/-- The word of a kind that is spelled in one way. -/
def Kind.word (k : Kind) : Token.Word := (k, k.spelling)

/-- The word that a token is.  A numeral counts without the zeros in front of it. -/
def Token.word (t : Token) : Token.Word :=
  (t.kind, if t.kind = .number then String.ofList (dropZeros t.lexeme.toList) else t.lexeme)

def Literal.WellFormed : Literal → Prop
  | .text value => value = "uncertain"
  | .int value => value < UInt64.size
  | .bool _ => True
  | .absent => False

/-- Literals, names and calls of names. -/
inductive Expr.Plain : Expr → Prop where
  | literal {l : Literal} {span : Span} (hl : l.WellFormed) : Plain (.literal l span)
  | name {i : Ident} {span : Span} (hi : IsName i.name) : Plain (.name i span)
  | call {i : Ident} {args : List Expr} {at' span : Span} (hi : IsName i.name)
      (ha : ∀ a ∈ args, Plain a) : Plain (.call (.name i at') args span)

mutual

/-- How many calls stand around one another at most. -/
def Expr.nesting : Expr → Nat
  | .literal .. => 0
  | .name .. => 0
  | .call callee args _ => max callee.nesting (Expr.nestingOfArgs args + 1)
  | .matching scrutinee arms _ => max scrutinee.nesting (Expr.nestingOfArms arms)

def Expr.nestingOfArgs : List Expr → Nat
  | [] => 0
  | e :: es => max e.nesting (Expr.nestingOfArgs es)

def Expr.nestingOfArms : List Arm → Nat
  | [] => 0
  | .mk _ body :: arms => max body.nesting (Expr.nestingOfArms arms)

end

structure Expr.WellFormed (e : Expr) : Prop where
  plain : e.Plain
  nesting : e.nesting ≤ maxNesting

structure VarDecl.WellFormed (v : VarDecl) : Prop where
  ident : IsName v.ident.name
  type? : ∀ t ∈ v.type?, IsName t.name
  initial? : ∀ e ∈ v.initial?, e.WellFormed

def Stmt.WellFormed : Stmt → Prop
  | .var decl => decl.WellFormed
  | .expr value => value.WellFormed

def Block.WellFormed (b : Block) : Prop := ∀ s ∈ b.stmts, s.WellFormed

structure Param.WellFormed (p : Param) : Prop where
  ident : IsName p.ident.name
  type : IsName p.type.name

structure Function.WellFormed (f : Function) : Prop where
  ident : IsName f.ident.name
  params : ∀ p ∈ f.params, p.WellFormed
  result? : ∀ r ∈ f.result?, IsName r.name
  body : f.body.WellFormed

structure Field.WellFormed (f : Field) : Prop where
  ident : IsName f.ident.name
  type : IsName f.type.name
  arraySize? : ∀ n ∈ f.arraySize?, n < UInt64.size

structure Triad.WellFormed (d : Triad) : Prop where
  ident : IsName d.ident.name
  fields : ∀ f ∈ d.fields, f.WellFormed

def Decl.WellFormed : Decl → Prop
  | .triad decl => decl.WellFormed
  | .function decl => decl.WellFormed

def Program.WellFormed (p : Program) : Prop := ∀ d ∈ p.decls, d.WellFormed

def Ident.unparse (i : Ident) : List Token.Word := [(.ident, i.name)]

/-- The words of a literal; one that cannot be written has none. -/
def Literal.unparse : Literal → List Token.Word
  | .text value => [(.uncertain, value)]
  | .int value => [(.number, toString value)]
  | .bool true => [Kind.litTrue.word]
  | .bool false => [Kind.litFalse.word]
  | .absent => []

/-- A comma between any two. -/
def commaWords (items : List (List Token.Word)) : List Token.Word := List.intercalate [Kind.comma.word] items

/-- Nothing, or the words of a value after a word of its own. -/
def wordsAfter {α : Type} (k : Kind) (words : α → List Token.Word) : Option α → List Token.Word
  | none => []
  | some a => k.word :: words a

mutual

def Expr.unparse : Expr → List Token.Word
  | .literal value _ => value.unparse
  | .name ident _ => ident.unparse
  | .call callee args _ =>
    callee.unparse ++ Kind.openParen.word ::
      (commaWords (Expr.unparseEach args) ++ [Kind.closeParen.word])
  | .matching .. => []

def Expr.unparseEach : List Expr → List (List Token.Word)
  | [] => []
  | e :: es => e.unparse :: Expr.unparseEach es

end

theorem Expr.unparseEach_eq_map (es : List Expr) : Expr.unparseEach es = es.map Expr.unparse := by
  induction es with
  | nil => rfl
  | cons e es ih => rw [Expr.unparseEach, ih, List.map_cons]

def VarDecl.unparse (v : VarDecl) : List Token.Word :=
  (if v.isMutable then Kind.mutable.word else Kind.immutable.word) ::
    (v.ident.unparse ++ (wordsAfter .colon Ident.unparse v.type? ++
      (wordsAfter .assign Expr.unparse v.initial? ++ [Kind.semicolon.word])))

def Stmt.unparse : Stmt → List Token.Word
  | .var decl => decl.unparse
  | .expr value => value.unparse ++ [Kind.semicolon.word]

def Block.unparse (b : Block) : List Token.Word :=
  Kind.openBrace.word :: (b.stmts.flatMap Stmt.unparse ++ [Kind.closeBrace.word])

def Param.unparse (p : Param) : List Token.Word :=
  p.ident.unparse ++ Kind.colon.word :: p.type.unparse

def Function.unparse (f : Function) : List Token.Word :=
  (.ident, "function") :: (f.ident.unparse ++ Kind.openParen.word ::
    (commaWords (f.params.map Param.unparse) ++ Kind.closeParen.word ::
      (wordsAfter .arrow Ident.unparse f.result? ++ f.body.unparse)))

def sizeWords (n : Nat) : List Token.Word := [(.number, toString n), Kind.closeSquare.word]

def Field.unparse (f : Field) : List Token.Word :=
  f.ident.unparse ++ Kind.colon.word ::
    (f.type.unparse ++ (wordsAfter .openSquare sizeWords f.arraySize? ++ [Kind.semicolon.word]))

def Triad.unparse (d : Triad) : List Token.Word :=
  Kind.triad.word :: (d.ident.unparse ++ Kind.openBrace.word ::
    (d.fields.flatMap Field.unparse ++ [Kind.closeBrace.word]))

def Decl.unparse : Decl → List Token.Word
  | .triad decl => decl.unparse
  | .function decl => (if decl.isFractal then [Kind.fractal.word] else []) ++ decl.unparse

/-- The words that a program is written with. -/
def Program.unparse (p : Program) : List Token.Word := p.decls.flatMap Decl.unparse

/-- A text of a program: its words with a blank between any two. -/
def Program.print (p : Program) : String := spaced (p.unparse.map Prod.snd)

end TriadLang
