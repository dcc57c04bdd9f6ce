import TriadLang.Proofs.Symbol.Places
import TriadLang.Proofs.Tree.Bracketed
import TriadLang.Proofs.Tree.Extents
import TriadLang.Proofs.Tree.RoundTrip

/-!
# Where the parts of a tree stand

Every name, expression and block of a program that was read from a text has a span
that is a part of the text.  A name and a literal stand where their token stands.  A
call goes from its callee to the partner of its opening parenthesis, and a block
from its opening brace to the partner of that; what is in them lies between the two,
in order and without overlaps, and so do the declarations of the program.

Each part is found again among the tokens: the tokens that spell it stand next to one
another among those that spell the program, and are in order and have all partners
of their brackets because those are and do.
-/

namespace TriadLang

open Spelling

mutual

/-- An expression and all expressions in it, from left to right. -/
def Expr.parts : Expr → List Expr
  | .literal value span => [.literal value span]
  | .name ident span => [.name ident span]
  | .call callee args span => .call callee args span :: (callee.parts ++ Expr.partsOfArgs args)
  | .matching scrutinee arms span =>
    .matching scrutinee arms span :: (scrutinee.parts ++ Expr.partsOfArms arms)

def Expr.partsOfArgs : List Expr → List Expr
  | [] => []
  | e :: es => e.parts ++ Expr.partsOfArgs es

def Expr.partsOfArms : List Arm → List Expr
  | [] => []
  | .mk _ body :: arms => body.parts ++ Expr.partsOfArms arms

end

theorem Expr.partsOfArgs_eq_flatMap (es : List Expr) :
    Expr.partsOfArgs es = es.flatMap Expr.parts := by
  induction es with
  | nil => rfl
  | cons e es ih => rw [Expr.partsOfArgs, List.flatMap_cons, ih]

def Stmt.exprs : Stmt → List Expr
  | .var v => v.initial?.elim [] Expr.parts
  | .expr e => e.parts

def Block.exprs (b : Block) : List Expr := b.stmts.flatMap Stmt.exprs

def Decl.blocks : Decl → List Block
  | .triad _ => []
  | .function f => [f.body]

namespace Program

def blocks (p : Program) : List Block := p.decls.flatMap Decl.blocks

def exprs (p : Program) : List Expr := p.blocks.flatMap Block.exprs

/-- The spans of all names, expressions and blocks. -/
def spans (p : Program) : List Span :=
  p.idents.map Ident.span ++ (p.exprs.map Expr.span ++ p.blocks.map Block.span)

end Program

/-- Every part of a value is spelled by tokens next to one another, among those that
spell the value. -/
def Contains {α β : Type} (L : Spelling α) (parts : α → List β) (M : Spelling β) : Prop :=
  ∀ ⦃a ts⦄, L a ts → ∀ b ∈ parts a, ∃ us, M b us ∧ us <:+: ts

section

variable {α β : Type} {L : Spelling α} {parts : α → List β} {M : Spelling β}

theorem many_contains (h : Contains L parts M) : Contains (Many L) (List.flatMap parts) M := by
  intro as ts has b hb
  induction has with
  | nil => cases hb
  | cons ha _ ih =>
    rw [List.flatMap_cons] at hb
    rcases List.mem_append.1 hb with hb | hb
    · obtain ⟨us, hus, hin⟩ := h ha b hb
      exact ⟨us, hus, List.infix_append_of_infix_left hin⟩
    · obtain ⟨us, hus, hin⟩ := ih hb
      exact ⟨us, hus, List.infix_append_of_infix_right hin⟩

theorem separated_contains (h : Contains L parts M) :
    Contains (Separated L) (List.flatMap parts) M := by
  intro as ts has b hb
  induction has with
  | single ha =>
    rw [List.flatMap_singleton] at hb
    exact h ha b hb
  | cons ha _ _ ih =>
    rw [List.flatMap_cons] at hb
    rcases List.mem_append.1 hb with hb | hb
    · obtain ⟨us, hus, hin⟩ := h ha b hb
      exact ⟨us, hus, List.infix_append_of_infix_left hin⟩
    · obtain ⟨us, hus, hin⟩ := ih hb
      exact ⟨us, hus, List.infix_append_of_infix_right (List.infix_cons hin)⟩

theorem commaList_contains (h : Contains L parts M) :
    Contains (CommaList L) (List.flatMap parts) M := by
  intro as ts has
  cases has with
  | nil => exact fun b hb => absurd hb List.not_mem_nil
  | some hs => exact separated_contains h hs

end

/-- Expressions in which calls nest no matter how deep. -/
def Expr.SpelledSomehow (e : Expr) (ts : List Token) : Prop := ∃ budget, e.Spelled budget ts

theorem exprWith_contains {Args : Spelling (List Expr)}
    (ha : Contains Args (List.flatMap Expr.parts) Expr.SpelledSomehow) {e : Expr}
    {ts : List Token} (h : e.SpelledWith Args ts) (he : e.SpelledSomehow ts) :
    ∀ f ∈ e.parts, ∃ us, f.SpelledSomehow us ∧ us <:+: ts := by
  cases h with
  | literal _ =>
    intro f hf
    rw [List.mem_singleton.1 hf]
    exact ⟨_, he, List.infix_refl _⟩
  | name _ =>
    intro f hf
    rw [List.mem_singleton.1 hf]
    exact ⟨_, he, List.infix_refl _⟩
  | @call t opening closing args ts hk ho hargs hc =>
    intro f hf
    rcases List.mem_cons.1 hf with rfl | hf
    · exact ⟨_, he, List.infix_refl _⟩
    rcases List.mem_append.1 hf with hf | hf
    · rw [List.mem_singleton.1 hf]
      exact ⟨[t], ⟨0, .name hk⟩, [], _, rfl⟩
    · rw [Expr.partsOfArgs_eq_flatMap] at hf
      obtain ⟨us, hus, hin⟩ := ha hargs f hf
      exact ⟨us, hus, List.infix_cons (List.infix_cons (List.infix_append_of_infix_left hin))⟩

theorem expr_contains (budget : Nat) :
    Contains (Expr.Spelled budget) Expr.parts Expr.SpelledSomehow := by
  induction budget with
  | zero => exact fun e ts h => exprWith_contains (fun _ _ h => h.elim) h ⟨0, h⟩
  | succ budget ih =>
    exact fun e ts h => exprWith_contains (commaList_contains ih) h ⟨budget + 1, h⟩

theorem stmt_contains : Contains Stmt.Spelled Stmt.exprs Expr.SpelledSomehow := by
  intro s ts h f hf
  cases h with
  | var hv =>
    cases hv with
    | mk _ _ _ he _ =>
      cases he with
      | none => cases hf
      | some _ he =>
        obtain ⟨us, hus, hin⟩ := expr_contains _ he f hf
        refine ⟨us, hus, List.infix_cons (List.infix_append_of_infix_right ?_)⟩
        exact List.infix_append_of_infix_right
          (List.infix_append_of_infix_left (List.infix_cons hin))
  | expr he _ =>
    obtain ⟨us, hus, hin⟩ := expr_contains _ he f hf
    exact ⟨us, hus, List.infix_append_of_infix_left hin⟩

theorem block_contains : Contains Block.Spelled Block.exprs Expr.SpelledSomehow := by
  rintro b ts ⟨-, hs, -⟩ f hf
  obtain ⟨us, hus, hin⟩ := many_contains stmt_contains hs f hf
  exact ⟨us, hus, List.infix_cons (List.infix_append_of_infix_left hin)⟩

theorem function_contains (isFractal : Bool) :
    Contains (Function.Spelled isFractal) (fun f => [f.body]) Block.Spelled := by
  rintro f ts ⟨-, -, -, -, -, -, hb⟩ b hmem
  rw [List.mem_singleton.1 hmem]
  refine ⟨_, hb, List.infix_cons (List.infix_append_of_infix_right (List.infix_cons ?_))⟩
  exact List.infix_append_of_infix_right (List.infix_cons (List.suffix_append ..).isInfix)

theorem decl_contains : Contains Decl.Spelled Decl.blocks Block.Spelled := by
  intro d ts h b hb
  cases h with
  | triad _ => cases hb
  | fractal _ hf =>
    obtain ⟨us, hus, hin⟩ := function_contains true hf b hb
    exact ⟨us, hus, List.infix_cons hin⟩
  | function hf => exact function_contains false hf b hb

theorem program_contains_blocks : Contains Program.Spelled Program.blocks Block.Spelled :=
  fun _ _ h => many_contains decl_contains h

theorem program_contains_exprs :
    Contains Program.Spelled Program.exprs Expr.SpelledSomehow := by
  intro p ts h e he
  obtain ⟨b, hb, he⟩ := List.mem_flatMap.1 he
  obtain ⟨us, hus, hin⟩ := program_contains_blocks h b hb
  obtain ⟨vs, hvs, hin'⟩ := block_contains hus e he
  exact ⟨vs, hvs, hin'.trans hin⟩

/-- How an expression stands in a text that is read as some tokens. -/
inductive Expr.StandsIn (text : List Char) (ts : List Token) : Expr → Prop where
  | literal {l : Literal} {t : Token} (ht : t ∈ ts) (hl : l.Spelled t)
      (hs : t.span.Selects text t.lexeme.toList) : StandsIn text ts (.literal l t.span)
  | name {i : Ident} (hs : i.span.Selects text i.name.toList) : StandsIn text ts (.name i i.span)
  | call {i : Ident} {args : List Expr} {s : Span} {opening closing : Token}
      (hs : i.span.Selects text i.name.toList)
      (hadjacent : ∃ t, t.ident = i ∧ [t, opening] <:+: ts)
      (hopening : opening.span.Selects text ['('])
      (hpartner : ∀ t, Partners ts opening t ↔ t = closing)
      (hclosing : closing.span.Selects text [')'])
      (hlo : s.lo = i.span.lo) (hhi : s.hi = closing.span.hi)
      (hwithin : ∀ a ∈ args, s.lo < a.span.lo ∧ a.span.hi < s.hi)
      (horder : (i.span :: args.map Expr.span).Pairwise Span.Precedes) :
      StandsIn text ts (.call (.name i i.span) args s)

/-- How a block stands in a text that is read as some tokens. -/
structure Block.StandsIn (text : List Char) (ts : List Token) (b : Block) : Prop where
  braces : ∃ opening closing, opening.span.Selects text ['{'] ∧
    (∀ t, Partners ts opening t ↔ t = closing) ∧ closing.span.Selects text ['}'] ∧
    b.span.lo = opening.span.lo ∧ b.span.hi = closing.span.hi
  within : ∀ s ∈ b.places, b.span.lo < s.lo ∧ s.hi < b.span.hi
  order : b.places.Pairwise Span.Precedes

/-- How a program stands in a text that is read as some tokens. -/
structure Program.StandsIn (text : List Char) (ts : List Token) (p : Program) : Prop where
  spans : ∀ s ∈ p.spans, s.PartOf text
  idents : ∀ i ∈ p.idents, i.span.Selects text i.name.toList
  exprs : ∀ e ∈ p.exprs, e.StandsIn text ts
  blocks : ∀ b ∈ p.blocks, b.StandsIn text ts
  order : p.places.Pairwise Span.Precedes

theorem Token.StandsIn.selects_sign {text : List Char} {t : Token} {k : Kind}
    (h : t.StandsIn text) (hk : t.kind = k) (hs : k ∈ Kind.signs) :
    t.span.Selects text k.spelling.toList := by
  subst hk
  rw [← (Kind.fits_sign hs).1 h.fits]
  exact h.selects

/-- What lies between two tokens, of tokens in order, lies strictly between their
outer ends. -/
theorem InOrder.within {text : List Char} {ts : List Token} {ss : List Span}
    {opening closing : Token} (h : InOrder text (opening :: (ts ++ [closing])))
    (hl : Laid ss ts) :
    ∀ s ∈ ss, opening.span.lo < s.lo ∧ s.hi < closing.span.hi := by
  have hall : Laid (opening.span :: (ss ++ [closing.span])) (opening :: (ts ++ [closing])) :=
    .cons opening (hl.append (.single closing.reaches))
  obtain ⟨hopening, hrest⟩ := List.pairwise_cons.1 (h.pairwise_of_laid hall)
  have hclosing := (List.pairwise_append.1 hrest).2.2
  intro s hs
  constructor
  · exact Nat.lt_of_lt_of_le (h.stands opening (by simp)).lo_lt_hi
      (hopening s (List.mem_append_left _ hs))
  · exact Nat.lt_of_le_of_lt (hclosing s hs closing.span List.mem_cons_self)
      (h.stands closing (by simp)).lo_lt_hi

section

variable {text : List Char} {ts us : List Token} (hts : ts.Nodup) (ho : InOrder text us)
  (hin : us <:+: ts)
include hts ho hin

theorem exprWith_standsIn {Args : Spelling (List Expr)} (hb : AllBracketed Args)
    (hl : LaysOut Args (List.flatMap fun e => [e.span])) {e : Expr}
    (h : e.SpelledWith Args us) : e.StandsIn text ts := by
  cases h with
  | @literal l t hl =>
    exact .literal (hin.subset List.mem_cons_self) hl (ho.stands t List.mem_cons_self).selects
  | @name t hk => exact .name (ho.stands t List.mem_cons_self).selects
  | @call t opening closing args inner hk hopen hargs hclose =>
    have htail : InOrder text (opening :: (inner ++ [closing])) :=
      ho.sublist (List.sublist_cons_self ..)
    have hlaid : Laid (args.map Expr.span) inner := by
      rw [List.map_eq_flatMap]
      exact hl hargs
    have hspan : t.span.cover closing.span = ⟨t.span.lo, closing.span.hi⟩ :=
      ho.cover_eq rfl (List.getLast?_eq_some_iff.2 ⟨t :: opening :: inner, rfl⟩)
    have hpartner : ∀ u, Partners ts opening u ↔ u = closing := fun u =>
      partners_iff hts (by rw [hopen, hclose]; rfl) (hb hargs)
        (.trans (List.suffix_cons t _).isInfix hin)
    have hwithin : ∀ a ∈ args, t.span.lo < a.span.lo ∧ a.span.hi < closing.span.hi := by
      intro a ha
      obtain ⟨hlo, hhi⟩ := htail.within hlaid a.span (List.mem_map_of_mem ha)
      exact ⟨Nat.lt_of_le_of_lt (ho.lo_le rfl (by simp)) hlo, hhi⟩
    rw [hspan]
    exact .call (ho.stands t List.mem_cons_self).selects
      ⟨t, rfl, .trans ⟨[], inner ++ [closing], rfl⟩ hin⟩
      ((ho.stands opening (by simp)).selects_sign hopen (by decide)) hpartner
      ((ho.stands closing (by simp)).selects_sign hclose (by decide)) rfl rfl hwithin
      (ho.pairwise_of_laid (.cons t (.skip (hlaid.concat _))))

theorem expr_standsIn {e : Expr} (h : e.SpelledSomehow us) : e.StandsIn text ts := by
  obtain ⟨budget, h⟩ := h
  cases budget with
  | zero => exact exprWith_standsIn hts ho hin (fun _ _ h => h.elim) (fun _ _ h => h.elim) h
  | succ budget =>
    exact exprWith_standsIn hts ho hin (commaList_bracketed (expr_bracketed budget))
      (commaList_laysOut (expr_laysOut budget)) h

theorem block_standsIn {b : Block} (h : b.Spelled us) : b.StandsIn text ts := by
  cases h with
  | @mk opening closing stmts inner hopen hs hclose =>
    have hlaid : Laid (stmts.flatMap Stmt.places) inner := many_laysOut stmt_laysOut hs
    have hspan : opening.span.cover closing.span = ⟨opening.span.lo, closing.span.hi⟩ :=
      ho.cover_eq rfl (List.getLast?_eq_some_iff.2 ⟨opening :: inner, rfl⟩)
    have hpartner : ∀ u, Partners ts opening u ↔ u = closing := fun u =>
      partners_iff hts (by rw [hopen, hclose]; rfl) (many_bracketed stmt_bracketed hs) hin
    rw [hspan]
    exact {
      braces := ⟨opening, closing, (ho.stands opening (by simp)).selects_sign hopen (by decide),
        hpartner, (ho.stands closing (by simp)).selects_sign hclose (by decide), rfl, rfl⟩
      within := ho.within hlaid
      order := ho.pairwise_of_laid (.skip (hlaid.concat _)) }

end

/-- The spans of a tree that was read point at what they describe, and what is in one
another or one after another in the tree is so in the text. -/
theorem standsIn_of_parse_eq_ok {src : String} {ts : List Token} {p : Program}
    (ht : tokenize src = .ok ts) (hp : parse ts = .ok p) : p.StandsIn src.toList ts := by
  obtain ⟨us, hlex, rfl⟩ := tokenize_eq_ok_iff_lexes.1 ht
  have hspelled := (parse_append_eof hlex.forall_fits _).1 hp
  have ho := hlex.inOrder
  have hnodup : (us ++ [Token.eof (byteLength src.toList)]).Nodup := by
    have hlo := hlex.pairwise_lo
    rw [Nat.zero_add] at hlo
    refine hlo.imp ?_
    rintro t u hlt rfl
    exact Nat.lt_irrefl _ hlt
  have hinfix : us <:+: us ++ [Token.eof (byteLength src.toList)] := (List.prefix_append ..).isInfix
  have hidents : ∀ i ∈ p.idents, ∃ t ∈ us, t.ident = i := by
    intro i hi
    obtain ⟨t, ht, -, rfl⟩ := Token.mem_idents.1 ((program_writesNames hspelled).subset hi)
    exact ⟨t, ht, rfl⟩
  constructor
  case spans =>
    intro s hs
    rcases List.mem_append.1 hs with hs | hs
    · obtain ⟨i, hi, rfl⟩ := List.mem_map.1 hs
      obtain ⟨t, ht, rfl⟩ := hidents i hi
      exact (ho.sublist (List.singleton_sublist.2 ht)).partOf t.reaches
    rcases List.mem_append.1 hs with hs | hs
    · obtain ⟨e, he, rfl⟩ := List.mem_map.1 hs
      obtain ⟨vs, ⟨budget, hvs⟩, hin⟩ := program_contains_exprs hspelled e he
      exact (ho.sublist hin.sublist).partOf hvs.reaches
    · obtain ⟨b, hb, rfl⟩ := List.mem_map.1 hs
      obtain ⟨vs, hvs, hin⟩ := program_contains_blocks hspelled b hb
      exact (ho.sublist hin.sublist).partOf hvs.reaches
  case idents =>
    intro i hi
    obtain ⟨t, ht, rfl⟩ := hidents i hi
    exact (ho.stands t ht).selects
  case exprs =>
    intro e he
    obtain ⟨vs, hvs, hin⟩ := program_contains_exprs hspelled e he
    exact expr_standsIn hnodup (ho.sublist hin.sublist) (hin.trans hinfix) hvs
  case blocks =>
    intro b hb
    obtain ⟨vs, hvs, hin⟩ := program_contains_blocks hspelled b hb
    exact block_standsIn hnodup (ho.sublist hin.sublist) (hin.trans hinfix) hvs
  case order => exact ho.pairwise_of_laid (program_laysOut hspelled)

/-- The parenthesis that closes a call is not the one that closes a call in its
arguments. -/
theorem standsIn_of_parse_eq_ok_nested : ∃ ts p, ∃ e ∈ p.exprs,
    tokenize "function f()\x7bg(h(1), x);\x7d" = .ok ts ∧ parse ts = .ok p ∧
      e.span = ⟨13, 23⟩ ∧ e.StandsIn "function f()\x7bg(h(1), x);\x7d".toList ts := by
  let ts : List Token :=
    [⟨.ident, "function", ⟨0, 8⟩⟩, ⟨.ident, "f", ⟨9, 10⟩⟩, ⟨.openParen, "(", ⟨10, 11⟩⟩,
      ⟨.closeParen, ")", ⟨11, 12⟩⟩, ⟨.openBrace, "\x7b", ⟨12, 13⟩⟩, ⟨.ident, "g", ⟨13, 14⟩⟩,
      ⟨.openParen, "(", ⟨14, 15⟩⟩, ⟨.ident, "h", ⟨15, 16⟩⟩, ⟨.openParen, "(", ⟨16, 17⟩⟩,
      ⟨.number, "1", ⟨17, 18⟩⟩, ⟨.closeParen, ")", ⟨18, 19⟩⟩, ⟨.comma, ",", ⟨19, 20⟩⟩,
      ⟨.ident, "x", ⟨21, 22⟩⟩, ⟨.closeParen, ")", ⟨22, 23⟩⟩, ⟨.semicolon, ";", ⟨23, 24⟩⟩,
      ⟨.closeBrace, "\x7d", ⟨24, 25⟩⟩, .eof 25]
  have htok : tokenize "function f()\x7bg(h(1), x);\x7d" = .ok ts :=
    ok_of_toOption (by decide +kernel +zetaReduce)
  obtain ⟨p, hparse, hany⟩ : ∃ p, parse ts = .ok p ∧ p.exprs.any (·.span = ⟨13, 23⟩) :=
    exists_of_any_toOption (by decide +kernel +zetaReduce)
  obtain ⟨e, he, hspan⟩ := List.any_eq_true.1 hany
  exact ⟨ts, p, e, he, htok, hparse, of_decide_eq_true hspan,
    (standsIn_of_parse_eq_ok htok hparse).exprs e he⟩

end TriadLang
