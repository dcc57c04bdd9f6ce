import TriadLang.Tree.Parser

namespace TriadLang

/-- Which lists of tokens spell a value. -/
abbrev Spelling (α : Type) := α → List Token → Prop

namespace Spelling

variable {α : Type}

inductive Many (L : Spelling α) : Spelling (List α) where
  | nil : Many L [] []
  | cons {a : α} {as : List α} {ts us : List Token} (ha : L a ts) (has : Many L as us) :
      Many L (a :: as) (ts ++ us)

/-- Values with commas between them, one at least. -/
inductive Separated (L : Spelling α) : Spelling (List α) where
  | single {a : α} {ts : List Token} (ha : L a ts) : Separated L [a] ts
  | cons {a : α} {as : List α} {ts us : List Token} {comma : Token} (ha : L a ts)
      (hc : comma.kind = .comma) (has : Separated L as us) :
      Separated L (a :: as) (ts ++ comma :: us)

/-- Values with commas between them, or nothing. -/
inductive CommaList (L : Spelling α) : Spelling (List α) where
  | nil : CommaList L [] []
  | some {as : List α} {ts : List Token} (h : Separated L as ts) : CommaList L as ts

/-- A value after a token of some kind, or nothing. -/
inductive After (k : Kind) (L : Spelling α) : Spelling (Option α) where
  | none : After k L none []
  | some {a : α} {t : Token} {ts : List Token} (hk : t.kind = k) (ha : L a ts) :
      After k L (some a) (t :: ts)

end Spelling

open Spelling

theorem many_append {α : Type} {L : Spelling α} {as bs : List α} {ts us : List Token}
    (ha : Many L as ts) (hb : Many L bs us) : Many L (as ++ bs) (ts ++ us) := by
  induction ha with
  | nil => exact hb
  | cons ha _ ih =>
    rw [List.append_assoc]
    exact .cons ha ih

def Token.ident (t : Token) : Ident := ⟨t.lexeme, t.span⟩

inductive Ident.Spelled : Spelling Ident where
  | mk {t : Token} (hk : t.kind = .ident) : Ident.Spelled t.ident [t]

inductive Literal.Spelled : Literal → Token → Prop where
  | int {t : Token} {n : Nat} (hk : t.kind = .number) (hn : readInteger? t.lexeme = some n) :
      Literal.Spelled (.int n) t
  | litTrue {t : Token} (hk : t.kind = .litTrue) : Literal.Spelled (.bool true) t
  | litFalse {t : Token} (hk : t.kind = .litFalse) : Literal.Spelled (.bool false) t
  | uncertain {t : Token} (hk : t.kind = .uncertain) : Literal.Spelled (.text t.lexeme) t

/-- Expressions, where `Args` tells what may stand between the parentheses of a
call. -/
inductive Expr.SpelledWith (Args : Spelling (List Expr)) : Spelling Expr where
  | literal {l : Literal} {t : Token} (hl : l.Spelled t) : SpelledWith Args (.literal l t.span) [t]
  | name {t : Token} (hk : t.kind = .ident) : SpelledWith Args (.name t.ident t.span) [t]
  | call {t opening closing : Token} {args : List Expr} {ts : List Token} (hk : t.kind = .ident)
      (ho : opening.kind = .openParen) (ha : Args args ts) (hc : closing.kind = .closeParen) :
      SpelledWith Args (.call (.name t.ident t.span) args (t.span.cover closing.span))
        (t :: opening :: (ts ++ [closing]))

/-- Expressions in which calls nest at most so many deep. -/
def Expr.Spelled : Nat → Spelling Expr
  | 0 => SpelledWith fun _ _ => False
  | budget + 1 => SpelledWith (CommaList (Expr.Spelled budget))

/-- The kinds of tokens that an expression begins with. -/
def Kind.opensExpr : List Kind := [.ident, .number, .litTrue, .litFalse, .uncertain]

theorem Literal.Spelled.opensExpr {l : Literal} {t : Token} (h : l.Spelled t) :
    t.kind ∈ Kind.opensExpr ∧ t.kind ≠ .ident := by
  cases h <;> simp [Kind.opensExpr, *]

theorem Expr.SpelledWith.first {Args : Spelling (List Expr)} {e : Expr} {ts : List Token}
    (h : e.SpelledWith Args ts) : ∃ t us, ts = t :: us ∧ t.kind ∈ Kind.opensExpr := by
  cases h with
  | literal hl => exact ⟨_, _, rfl, hl.opensExpr.1⟩
  | name hk => exact ⟨_, _, rfl, by simp [Kind.opensExpr, hk]⟩
  | call hk _ _ _ => exact ⟨_, _, rfl, by simp [Kind.opensExpr, hk]⟩

theorem Expr.Spelled.first {budget : Nat} {e : Expr} {ts : List Token}
    (h : Expr.Spelled budget e ts) : ∃ t us, ts = t :: us ∧ t.kind ∈ Kind.opensExpr := by
  cases budget <;> exact SpelledWith.first h

inductive VarDecl.Spelled : Spelling VarDecl where
  | mk {word semicolon : Token} {ident : Ident} {type? : Option Ident} {initial? : Option Expr}
      {is ts es : List Token} (hw : word.kind = .immutable ∨ word.kind = .mutable)
      (hi : ident.Spelled is) (ht : After .colon Ident.Spelled type? ts)
      (he : After .assign (Expr.Spelled maxNesting) initial? es)
      (hs : semicolon.kind = .semicolon) :
      VarDecl.Spelled { ident, type?, isMutable := word.kind == .mutable, initial? }
        (word :: (is ++ (ts ++ (es ++ [semicolon]))))

inductive Stmt.Spelled : Spelling Stmt where
  | var {v : VarDecl} {ts : List Token} (hv : v.Spelled ts) : Stmt.Spelled (.var v) ts
  | expr {e : Expr} {ts : List Token} {semicolon : Token} (he : e.Spelled maxNesting ts)
      (hs : semicolon.kind = .semicolon) : Stmt.Spelled (.expr e) (ts ++ [semicolon])

theorem Stmt.Spelled.first {s : Stmt} {ts : List Token} (h : s.Spelled ts) :
    ∃ t us, ts = t :: us ∧ t.kind ∈ .immutable :: .mutable :: Kind.opensExpr := by
  cases h with
  | var hv =>
    cases hv with
    | mk hw _ _ _ _ => exact ⟨_, _, rfl, by rcases hw with hw | hw <;> simp [hw]⟩
  | expr he _ =>
    obtain ⟨t, us, rfl, ht⟩ := he.first
    exact ⟨t, _, rfl, by simp [ht]⟩

inductive Block.Spelled : Spelling Block where
  | mk {opening closing : Token} {stmts : List Stmt} {ts : List Token}
      (ho : opening.kind = .openBrace) (hs : Many Stmt.Spelled stmts ts)
      (hc : closing.kind = .closeBrace) :
      Block.Spelled { stmts, span := opening.span.cover closing.span }
        (opening :: (ts ++ [closing]))

theorem Block.Spelled.first {b : Block} {ts : List Token} (h : b.Spelled ts) :
    ∃ t us, ts = t :: us ∧ t.kind = .openBrace := by
  cases h with
  | mk ho _ _ => exact ⟨_, _, rfl, ho⟩

inductive Param.Spelled : Spelling Param where
  | mk {ident type : Ident} {colon : Token} {is ts : List Token} (hi : ident.Spelled is)
      (hc : colon.kind = .colon) (ht : type.Spelled ts) :
      Param.Spelled { ident, type } (is ++ colon :: ts)

theorem Param.Spelled.first {p : Param} {ts : List Token} (h : p.Spelled ts) :
    ∃ t us, ts = t :: us ∧ t.kind = .ident := by
  cases h with
  | mk hi _ _ =>
    cases hi with
    | mk hk => exact ⟨_, _, rfl, hk⟩

/-- Functions, from the word `function` on. -/
inductive Function.Spelled (isFractal : Bool) : Spelling Function where
  | mk {word opening closing : Token} {ident : Ident} {params : List Param}
      {result? : Option Ident} {body : Block} {is ps rs bs : List Token}
      (hw : word.isFunctionWord) (hi : ident.Spelled is) (ho : opening.kind = .openParen)
      (hp : CommaList Param.Spelled params ps) (hc : closing.kind = .closeParen)
      (hr : After .arrow Ident.Spelled result? rs) (hb : body.Spelled bs) :
      Function.Spelled isFractal { ident, params, result?, body, isFractal }
        (word :: (is ++ opening :: (ps ++ closing :: (rs ++ bs))))

theorem Token.kind_of_isFunctionWord {t : Token} (h : t.isFunctionWord) : t.kind = .ident := by
  rw [isFunctionWord, Bool.and_eq_true] at h
  exact eq_of_beq h.1

theorem Function.Spelled.first {isFractal : Bool} {f : Function} {ts : List Token}
    (h : f.Spelled isFractal ts) : ∃ t us, ts = t :: us ∧ t.isFunctionWord := by
  cases h with
  | mk hw _ _ _ _ _ _ => exact ⟨_, _, rfl, hw⟩

inductive SpelledSize : Spelling Nat where
  | mk {size closing : Token} {n : Nat} (hs : size.kind = .number)
      (hn : readInteger? size.lexeme = some n) (hc : closing.kind = .closeSquare) :
      SpelledSize n [size, closing]

inductive Field.Spelled : Spelling Field where
  | mk {ident type : Ident} {arraySize? : Option Nat} {colon semicolon : Token}
      {is ts as : List Token} (hi : ident.Spelled is) (hc : colon.kind = .colon)
      (ht : type.Spelled ts) (ha : After .openSquare SpelledSize arraySize? as)
      (hs : semicolon.kind = .semicolon) :
      Field.Spelled { ident, type, arraySize? } (is ++ colon :: (ts ++ (as ++ [semicolon])))

theorem Field.Spelled.first {f : Field} {ts : List Token} (h : f.Spelled ts) :
    ∃ t us, ts = t :: us ∧ t.kind = .ident := by
  cases h with
  | mk hi _ _ _ _ =>
    cases hi with
    | mk hk => exact ⟨_, _, rfl, hk⟩

inductive Triad.Spelled : Spelling Triad where
  | mk {word opening closing : Token} {ident : Ident} {fields : List Field}
      {is fs : List Token} (hw : word.kind = .triad) (hi : ident.Spelled is)
      (ho : opening.kind = .openBrace) (hf : Many Field.Spelled fields fs)
      (hc : closing.kind = .closeBrace) :
      Triad.Spelled { ident, fields } (word :: (is ++ opening :: (fs ++ [closing])))

theorem Triad.Spelled.first {d : Triad} {ts : List Token} (h : d.Spelled ts) :
    ∃ t us, ts = t :: us ∧ t.kind = .triad := by
  cases h with
  | mk hw _ _ _ _ => exact ⟨_, _, rfl, hw⟩

inductive Decl.Spelled : Spelling Decl where
  | triad {d : Triad} {ts : List Token} (hd : d.Spelled ts) : Decl.Spelled (.triad d) ts
  | fractal {word : Token} {f : Function} {ts : List Token} (hw : word.kind = .fractal)
      (hf : f.Spelled true ts) : Decl.Spelled (.function f) (word :: ts)
  | function {f : Function} {ts : List Token} (hf : f.Spelled false ts) :
      Decl.Spelled (.function f) ts

theorem Decl.Spelled.first {d : Decl} {ts : List Token} (h : d.Spelled ts) :
    ∃ t us, ts = t :: us ∧ t.kind ∈ [Kind.triad, .fractal, .ident] := by
  cases h with
  | triad hd =>
    obtain ⟨t, us, rfl, ht⟩ := hd.first
    exact ⟨t, us, rfl, by simp [ht]⟩
  | fractal hw _ => exact ⟨_, _, rfl, by simp [hw]⟩
  | function hf =>
    obtain ⟨t, us, rfl, ht⟩ := hf.first
    exact ⟨t, us, rfl, by simp [Token.kind_of_isFunctionWord ht]⟩

/-- The tokens spell the declarations of a program, and nothing else. -/
def Program.Spelled (p : Program) (ts : List Token) : Prop := Many Decl.Spelled p.decls ts

end TriadLang
