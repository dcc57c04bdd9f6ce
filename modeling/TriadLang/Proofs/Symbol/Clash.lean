import TriadLang.Proofs.Symbol.Events
import TriadLang.Proofs.Tree.Spans

namespace TriadLang

open NameEvent

def Program.names (p : Program) : List String := p.symbols.map Symbol.name

theorem filterMap_symbol?_uses (idents : List Ident) :
    (idents.map NameEvent.use).filterMap symbol? = [] := by
  induction idents with
  | nil => rfl
  | cons i idents ih => exact ih

theorem filterMap_symbol?_stmts (stmts : List Stmt) :
    (stmts.flatMap Stmt.events).filterMap symbol? = stmts.filterMap Stmt.symbol? := by
  induction stmts with
  | nil => rfl
  | cons s stmts ih =>
    rw [List.flatMap_cons, List.filterMap_append, ih, List.filterMap_cons]
    cases s with
    | var v =>
      rw [Stmt.events, VarDecl.events]
      cases v.initial? with
      | none => rfl
      | some e =>
        show Symbol.var v :: ((e.uses.map NameEvent.use).filterMap symbol? ++ _) = _
        rw [filterMap_symbol?_uses]
        rfl
    | expr e =>
      rw [Stmt.events, Expr.events, filterMap_symbol?_uses]
      rfl

theorem Decl.filterMap_symbol?_events (d : Decl) : d.events.filterMap symbol? = d.symbols := by
  cases d with
  | triad d => rfl
  | function f =>
    rw [Decl.events, Decl.symbols, ← filterMap_symbol?_stmts]
    rfl

theorem filterMap_symbol?_events (p : Program) : p.events.filterMap symbol? = p.symbols := by
  rw [Program.events, Program.symbols, List.filterMap_flatMap]
  exact congrArg (List.flatMap · p.decls) (funext Decl.filterMap_symbol?_events)

theorem bound_events (p : Program) : bound p.events = p.names := by
  rw [bound, filterMap_symbol?_events, Program.names]

theorem bound_append (xs ys : List NameEvent) : bound (xs ++ ys) = bound xs ++ bound ys := by
  rw [bound, List.filterMap_append, List.map_append]
  rfl

theorem clear_append {done xs ys : List NameEvent} :
    Clear done (xs ++ ys) ↔ Clear done xs ∧ Clear (done ++ xs) ys := by
  induction xs generalizing done with
  | nil =>
    rw [List.nil_append, List.append_nil]
    exact (and_iff_right (clear_nil done)).symm
  | cons x xs ih =>
    rw [List.cons_append, clear_cons, clear_cons, ih, List.append_assoc, and_assoc]
    rfl

/-- What events are clear behind can be exchanged, if none of the names that they define
comes in by it and none of the names that they use is lost. -/
theorem NameEvent.Clear.transfer {done done' es : List NameEvent} (h : Clear done es)
    (hd : ∀ name ∈ bound es, name ∈ bound done' → name ∈ bound done)
    (hu : ∀ i, .use i ∈ es → i.name ∈ bound done → i.name ∈ bound done') : Clear done' es := by
  intro before e after hes
  have he := h before e after hes
  cases e with
  | define s =>
    have hs : s.name ∉ bound (done ++ before) := by
      intro hmem
      rw [fault?, if_pos hmem] at he
      cases he
    have hes' : s.name ∈ bound es := by
      rw [hes, bound_append, List.mem_append]
      exact Or.inr List.mem_cons_self
    rw [bound_append, List.mem_append, not_or] at hs
    rw [fault?, bound_append, if_neg]
    intro hmem
    rcases List.mem_append.1 hmem with hmem | hmem
    · exact hs.1 (hd s.name hes' hmem)
    · exact hs.2 hmem
  | use i =>
    by_cases hi : i.name ∈ bound (done ++ before)
    · have hmem : NameEvent.use i ∈ es := by
        rw [hes]
        exact List.mem_append_right _ List.mem_cons_self
      rw [bound_append, List.mem_append] at hi
      rw [fault?, bound_append, if_pos (List.mem_append.2 (hi.imp_left (hu i hmem)))]
    · rw [fault?, if_neg hi] at he
      cases he

theorem NameEvent.Clear.after {es : List NameEvent} (h : Clear [] es) {done : List NameEvent}
    (hd : ∀ name ∈ bound es, name ∉ bound done) : Clear done es :=
  h.transfer (fun name hname hmem => absurd hmem (hd name hname)) fun _ _ hi =>
    absurd hi List.not_mem_nil

theorem exists_first_symbol {symbols : List Symbol} {names : List String}
    (h : ¬ ∀ name ∈ names, name ∉ symbols.map Symbol.name) :
    ∃ before s after, symbols = before ++ s :: after ∧ (∀ t ∈ before, t.name ∉ names) ∧
      s.name ∈ names := by
  induction symbols with
  | nil => exact absurd (by simp) h
  | cons s symbols ih =>
    by_cases hs : s.name ∈ names
    · exact ⟨[], s, symbols, rfl, by simp, hs⟩
    · have hrest : ¬ ∀ name ∈ names, name ∉ symbols.map Symbol.name := by
        intro hall
        refine h fun name hn hmem => ?_
        rcases List.mem_cons.1 hmem with rfl | hmem
        · exact hs hn
        · exact hall name hn hmem
      obtain ⟨before, t, after, rfl, hb, ht⟩ := ih hrest
      refine ⟨s :: before, t, after, rfl, ?_, ht⟩
      intro u hu
      rcases List.mem_cons.1 hu with rfl | hu
      · exact hs
      · exact hb u hu

theorem exists_of_filterMap_eq {α β : Type} {f : α → Option β} {as : List α} {before after : List β}
    {b : β} (h : as.filterMap f = before ++ b :: after) :
    ∃ xs a ys, as = xs ++ a :: ys ∧ f a = some b ∧ xs.filterMap f = before := by
  obtain ⟨xs, zs, rfl, rfl, hz⟩ := List.filterMap_eq_append_iff.1 h
  obtain ⟨us, a, ys, rfl, hus, ha, -⟩ := List.filterMap_eq_cons_iff.1 hz
  refine ⟨xs ++ us, a, ys, (List.append_assoc _ _ _).symm, ha, ?_⟩
  rw [List.filterMap_append, List.filterMap_eq_nil_iff.2 hus, List.append_nil]

theorem exists_event_of_symbol {p : Program} {before after : List Symbol} {s : Symbol}
    (h : p.symbols = before ++ s :: after) :
    ∃ xs ys, p.events = xs ++ .define s :: ys ∧ bound xs = before.map Symbol.name := by
  rw [← filterMap_symbol?_events] at h
  obtain ⟨xs, e, ys, hes, he, rfl⟩ := exists_of_filterMap_eq h
  cases e with
  | define t =>
    cases he
    exact ⟨xs, ys, hes, rfl⟩
  | use i => cases he

section

variable (f : Span → Span)

def Symbol.mapSpans : Symbol → Symbol
  | .triad decl => .triad (decl.mapSpans f)
  | .function decl => .function (decl.mapSpans f)
  | .var decl => .var (decl.mapSpans f)

theorem Symbol.ident_mapSpans (s : Symbol) : (s.mapSpans f).ident = s.ident.mapSpan f := by
  cases s <;> rfl

theorem Symbol.name_mapSpans (s : Symbol) : (s.mapSpans f).name = s.name := by
  rw [Symbol.name, Symbol.ident_mapSpans]
  rfl

def NameEvent.mapSpans : NameEvent → NameEvent
  | .define symbol => .define (symbol.mapSpans f)
  | .use ident => .use (ident.mapSpan f)

mutual

theorem Expr.uses_mapSpans : ∀ e : Expr, (e.mapSpans f).uses = e.uses.map (Ident.mapSpan f)
  | .literal .. => rfl
  | .name .. => rfl
  | .call callee args _ => by
    rw [Expr.mapSpans, Expr.uses, Expr.uses, callee.uses_mapSpans, Expr.usesOfArgs_mapSpans,
      List.map_append]
  | .matching scrutinee arms _ => by
    rw [Expr.mapSpans, Expr.uses, Expr.uses, scrutinee.uses_mapSpans, Expr.usesOfArms_mapSpans,
      List.map_append]

theorem Expr.usesOfArgs_mapSpans :
    ∀ es : List Expr, Expr.usesOfArgs (Expr.mapSpansOfArgs f es) =
      (Expr.usesOfArgs es).map (Ident.mapSpan f)
  | [] => rfl
  | e :: es => by
    rw [Expr.mapSpansOfArgs, Expr.usesOfArgs, Expr.usesOfArgs, e.uses_mapSpans,
      Expr.usesOfArgs_mapSpans, List.map_append]

theorem Expr.usesOfArms_mapSpans :
    ∀ arms : List Arm, Expr.usesOfArms (Expr.mapSpansOfArms f arms) =
      (Expr.usesOfArms arms).map (Ident.mapSpan f)
  | [] => rfl
  | .mk _ body :: arms => by
    rw [Expr.mapSpansOfArms, Expr.usesOfArms, Expr.usesOfArms, body.uses_mapSpans,
      Expr.usesOfArms_mapSpans, List.map_append]

end

theorem Expr.events_mapSpans (e : Expr) :
    (e.mapSpans f).events = e.events.map (NameEvent.mapSpans f) := by
  rw [Expr.events, Expr.uses_mapSpans, Expr.events, List.map_map, List.map_map]
  rfl

theorem Stmt.events_mapSpans (s : Stmt) :
    (s.mapSpans f).events = s.events.map (NameEvent.mapSpans f) := by
  cases s with
  | var v =>
    obtain ⟨ident, type?, isMutable, initial?⟩ := v
    cases initial? with
    | none => rfl
    | some e => exact congrArg (List.cons _) (e.events_mapSpans f)
  | expr e => exact e.events_mapSpans f

theorem Program.events_mapSpans (p : Program) :
    (p.mapSpans f).events = p.events.map (NameEvent.mapSpans f) := by
  rw [Program.events, Program.events, List.map_flatMap, Program.mapSpans, List.flatMap_map]
  refine congrArg (List.flatMap · p.decls) (funext fun d => ?_)
  cases d with
  | triad d => rfl
  | function d =>
    have hbody : (d.body.stmts.map (Stmt.mapSpans f)).flatMap Stmt.events =
        (d.body.stmts.flatMap Stmt.events).map (NameEvent.mapSpans f) := by
      rw [List.flatMap_map, List.map_flatMap]
      exact congrArg (List.flatMap · d.body.stmts) (funext (Stmt.events_mapSpans f))
    exact congrArg (List.cons _) hbody

theorem bound_mapSpans (es : List NameEvent) : bound (es.map (NameEvent.mapSpans f)) = bound es := by
  induction es with
  | nil => rfl
  | cons e es ih =>
    cases e with
    | define s =>
      show (s.mapSpans f).name :: bound (es.map (NameEvent.mapSpans f)) = s.name :: bound es
      rw [Symbol.name_mapSpans, ih]
    | use i => exact ih

def ResolveFault.mapSpan : ResolveFault → ResolveFault
  | .duplicate ident => .duplicate (ident.mapSpan f)
  | .unknown ident => .unknown (ident.mapSpan f)

theorem NameEvent.fault?_mapSpans (names : List String) (e : NameEvent) :
    (e.mapSpans f).fault? names = (e.fault? names).map (ResolveFault.mapSpan f) := by
  cases e with
  | define s =>
    rw [NameEvent.mapSpans, fault?, fault?, Symbol.name_mapSpans, Symbol.ident_mapSpans]
    split <;> rfl
  | use i =>
    show (if i.name ∈ names then none else some (ResolveFault.unknown (i.mapSpan f))) = _
    rw [fault?]
    split <;> rfl

theorem NameEvent.Clear.mapSpans {done es : List NameEvent} (h : Clear done es) :
    Clear (done.map (NameEvent.mapSpans f)) (es.map (NameEvent.mapSpans f)) := by
  induction es generalizing done with
  | nil => exact clear_nil _
  | cons e es ih =>
    obtain ⟨he, hes⟩ := clear_cons.1 h
    rw [List.map_cons, clear_cons, NameEvent.fault?_mapSpans, bound_mapSpans, he]
    refine ⟨rfl, ?_⟩
    have hrest := ih hes
    rwa [List.map_append] at hrest

end

end TriadLang
