import Mathlib.Data.List.Flatten
import TriadLang.Proofs.Symbol.Events
import TriadLang.Proofs.Tree.Grammar

namespace TriadLang

open Spelling NameEvent

def NameEvent.ident : NameEvent → Ident
  | define symbol => symbol.ident
  | use ident => ident

theorem NameEvent.ident_of_fault? {e : NameEvent} {names : List String} {fault : ResolveFault}
    (h : e.fault? names = some fault) : fault.ident = e.ident := by
  cases e with
  | define symbol =>
    rw [fault?] at h
    split at h
    · cases h
      rfl
    · cases h
  | use ident =>
    rw [fault?] at h
    split at h
    · cases h
    · cases h
      rfl

def Stmt.idents : Stmt → List Ident
  | .var v => v.ident :: (v.type?.elim [] (fun i => [i]) ++ v.initial?.elim [] Expr.uses)
  | .expr e => e.uses

def Param.idents (p : Param) : List Ident := [p.ident, p.type]

def Field.idents (f : Field) : List Ident := [f.ident, f.type]

def Decl.idents : Decl → List Ident
  | .triad d => d.ident :: d.fields.flatMap Field.idents
  | .function f => f.ident :: (f.params.flatMap Param.idents ++
      (f.result?.elim [] (fun i => [i]) ++ f.body.stmts.flatMap Stmt.idents))

def Program.idents (p : Program) : List Ident := p.decls.flatMap Decl.idents

/- The types of variables, parameters, fields and results are written as names but
are never looked up, and neither are the names of parameters and fields. -/
theorem Expr.idents_events (e : Expr) : e.events.map NameEvent.ident = e.uses := by
  rw [Expr.events, List.map_map]
  exact List.map_id _

theorem Stmt.idents_events (s : Stmt) : (s.events.map NameEvent.ident).Sublist s.idents := by
  cases s with
  | var v =>
    have huses : (v.initial?.elim [] Expr.events).map NameEvent.ident =
        v.initial?.elim [] Expr.uses := by
      cases v.initial? with
      | none => rfl
      | some e => exact e.idents_events
    rw [Stmt.events, VarDecl.events, List.map_cons, huses]
    exact (List.sublist_append_right _ _).cons_cons _
  | expr e =>
    rw [Stmt.events, Expr.idents_events]
    exact List.Sublist.refl _

theorem Decl.idents_events (d : Decl) : (d.events.map NameEvent.ident).Sublist d.idents := by
  cases d with
  | triad d => exact (List.nil_sublist _).cons_cons _
  | function f =>
    have hbody : ((f.body.stmts.flatMap Stmt.events).map NameEvent.ident).Sublist
        (f.body.stmts.flatMap Stmt.idents) := by
      rw [List.map_flatMap]
      exact .flatMap_right _ fun s _ => s.idents_events
    exact ((hbody.trans (List.sublist_append_right _ _)).trans
      (List.sublist_append_right _ _)).cons_cons _

theorem Program.idents_events (p : Program) :
    (p.events.map NameEvent.ident).Sublist p.idents := by
  rw [Program.events, List.map_flatMap]
  exact .flatMap_right _ fun d _ => d.idents_events

/-- The names among some tokens. -/
def Token.idents (ts : List Token) : List Ident :=
  (ts.filter (fun t => t.kind == .ident)).map ident

theorem Token.idents_append (ts us : List Token) : idents (ts ++ us) = idents ts ++ idents us := by
  rw [idents, List.filter_append, List.map_append]
  rfl

theorem Token.mem_idents {i : Ident} {ts : List Token} :
    i ∈ idents ts ↔ ∃ t ∈ ts, t.kind = .ident ∧ t.ident = i := by
  rw [idents, List.mem_map]
  constructor
  · rintro ⟨t, ht, hi⟩
    rw [List.mem_filter, beq_iff_eq] at ht
    exact ⟨t, ht.1, ht.2, hi⟩
  · rintro ⟨t, ht, hk, hi⟩
    exact ⟨t, List.mem_filter.2 ⟨ht, beq_iff_eq.2 hk⟩, hi⟩

theorem Token.idents_cons {t : Token} (h : t.kind = .ident) (ts : List Token) :
    idents (t :: ts) = t.ident :: idents ts := by
  have hk : (t.kind == .ident) = true := beq_iff_eq.2 h
  rw [idents, List.filter_cons, if_pos hk]
  rfl

/-- The names of a value are written, in this order, among the tokens that spell
it. -/
def WritesNames {α : Type} (L : Spelling α) (names : α → List Ident) : Prop :=
  ∀ ⦃a ts⦄, L a ts → (names a).Sublist (Token.idents ts)

section

variable {is : List Ident} {ts : List Token} (h : is.Sublist (Token.idents ts))
include h

theorem sublist_idents_cons (t : Token) : is.Sublist (Token.idents (t :: ts)) :=
  h.trans (((List.sublist_cons_self t ts).filter _).map _)

theorem sublist_idents_append (us : List Token) : is.Sublist (Token.idents (ts ++ us)) := by
  rw [Token.idents_append]
  exact h.trans (List.sublist_append_left _ _)

end

section

variable {α : Type} {L : Spelling α} {names : α → List Ident}

theorem many_writesNames (h : WritesNames L names) :
    WritesNames (Many L) (List.flatMap names) := by
  intro as ts has
  induction has with
  | nil => exact .slnil
  | cons ha _ ih =>
    rw [List.flatMap_cons, Token.idents_append]
    exact (h ha).append ih

theorem separated_writesNames (h : WritesNames L names) :
    WritesNames (Separated L) (List.flatMap names) := by
  intro as ts has
  induction has with
  | single ha =>
    rw [List.flatMap_singleton]
    exact h ha
  | cons ha _ _ ih =>
    rw [List.flatMap_cons, Token.idents_append]
    exact (h ha).append (sublist_idents_cons ih _)

theorem commaList_writesNames (h : WritesNames L names) :
    WritesNames (CommaList L) (List.flatMap names) := by
  intro as ts has
  cases has with
  | nil => exact .slnil
  | some hs => exact separated_writesNames h hs

theorem after_writesNames {k : Kind} (h : WritesNames L names) :
    WritesNames (After k L) (fun a? => a?.elim [] names) := by
  intro a? ts ha
  cases ha with
  | none => exact .slnil
  | some _ ha => exact sublist_idents_cons (h ha) _

end

theorem Ident.Spelled.idents_append {i : Ident} {ts : List Token} (h : i.Spelled ts)
    (us : List Token) : Token.idents (ts ++ us) = i :: Token.idents us := by
  cases h with
  | mk hk => exact Token.idents_cons hk us

theorem ident_writesNames : WritesNames Ident.Spelled (fun i => [i]) := by
  rintro i ts ⟨hk⟩
  rw [Token.idents_cons hk]
  exact List.Sublist.refl _

theorem exprWith_writesNames {Args : Spelling (List Expr)}
    (ha : WritesNames Args (List.flatMap Expr.uses)) :
    WritesNames (Expr.SpelledWith Args) Expr.uses := by
  intro e ts h
  cases h with
  | literal _ => exact List.nil_sublist _
  | name hk =>
    rw [Token.idents_cons hk]
    exact List.Sublist.refl _
  | call hk _ hargs _ =>
    rw [Expr.uses, Expr.usesOfArgs_eq_flatMap, Token.idents_cons hk]
    exact (sublist_idents_cons (sublist_idents_append (ha hargs) _) _).cons_cons _

theorem expr_writesNames (budget : Nat) : WritesNames (Expr.Spelled budget) Expr.uses := by
  induction budget with
  | zero => exact exprWith_writesNames fun _ _ h => h.elim
  | succ budget ih => exact exprWith_writesNames (commaList_writesNames ih)

theorem stmt_writesNames : WritesNames Stmt.Spelled Stmt.idents := by
  intro s ts h
  cases h with
  | var hv =>
    cases hv with
    | mk _ hi ht he _ =>
      refine sublist_idents_cons ?_ _
      rw [hi.idents_append, Token.idents_append]
      refine .cons_cons _ ((after_writesNames ident_writesNames ht).append ?_)
      exact sublist_idents_append (after_writesNames (expr_writesNames _) he) _
  | expr he _ => exact sublist_idents_append (expr_writesNames _ he) _

theorem block_writesNames : WritesNames Block.Spelled (fun b => b.stmts.flatMap Stmt.idents) := by
  rintro b ts ⟨-, hs, -⟩
  exact sublist_idents_cons (sublist_idents_append (many_writesNames stmt_writesNames hs) _) _

theorem param_writesNames : WritesNames Param.Spelled Param.idents := by
  rintro p ts ⟨hi, -, ht⟩
  rw [hi.idents_append]
  exact .cons_cons _ (sublist_idents_cons (ident_writesNames ht) _)

theorem field_writesNames : WritesNames Field.Spelled Field.idents := by
  rintro f ts ⟨hi, -, ht, -, -⟩
  rw [hi.idents_append]
  exact .cons_cons _ (sublist_idents_cons (sublist_idents_append (ident_writesNames ht) _) _)

theorem function_writesNames (isFractal : Bool) :
    WritesNames (Function.Spelled isFractal) (fun f => Decl.idents (.function f)) := by
  rintro f ts ⟨-, hi, -, hp, -, hr, hb⟩
  refine sublist_idents_cons ?_ _
  rw [hi.idents_append]
  refine .cons_cons _ (sublist_idents_cons ?_ _)
  rw [Token.idents_append]
  refine (commaList_writesNames param_writesNames hp).append (sublist_idents_cons ?_ _)
  rw [Token.idents_append]
  exact (after_writesNames ident_writesNames hr).append (block_writesNames hb)

theorem decl_writesNames : WritesNames Decl.Spelled Decl.idents := by
  intro d ts h
  cases h with
  | triad hd =>
    cases hd with
    | mk _ hi _ hf _ =>
      refine sublist_idents_cons ?_ _
      rw [hi.idents_append]
      refine .cons_cons _ (sublist_idents_cons (sublist_idents_append ?_ _) _)
      exact many_writesNames field_writesNames hf
  | fractal _ hf => exact sublist_idents_cons (function_writesNames true hf) _
  | function hf => exact function_writesNames false hf

theorem program_writesNames : WritesNames Program.Spelled Program.idents :=
  fun _ _ h => many_writesNames decl_writesNames h

/-- The names that resolution meets are met in the order in which they are written. -/
theorem program_writesEvents :
    WritesNames Program.Spelled (fun p => p.events.map NameEvent.ident) :=
  fun p _ h => p.idents_events.trans (program_writesNames h)

end TriadLang
