import TriadLang.Proofs.Compilation.Notices
import TriadLang.Proofs.Compilation.Unsupported

namespace TriadLang

open NameEvent

/-- The names that a declaration defines: its own, and those of the variables in its
body. -/
def Decl.names (d : Decl) : List String := d.symbols.map Symbol.name

/-- The names in the expressions of a declaration, from left to right. -/
def Decl.uses : Decl → List Ident
  | .triad _ => []
  | .function decl => decl.body.stmts.flatMap fun s => s.expr?.elim [] Expr.uses

def NameEvent.use? : NameEvent → Option Ident
  | define _ => none
  | use ident => some ident

theorem Stmt.filterMap_use?_events (s : Stmt) :
    s.events.filterMap use? = s.expr?.elim [] Expr.uses := by
  have huses : ∀ e : Expr, e.events.filterMap use? = e.uses := by
    intro e
    rw [Expr.events, List.filterMap_map]
    exact List.filterMap_some
  cases s with
  | var v =>
    rw [Stmt.events, VarDecl.events, Stmt.expr?]
    cases v.initial? with
    | none => rfl
    | some e => exact huses e
  | expr e => exact huses e

theorem Decl.filterMap_use?_events (d : Decl) : d.events.filterMap use? = d.uses := by
  cases d with
  | triad d => rfl
  | function f =>
    show (f.body.stmts.flatMap Stmt.events).filterMap use? = _
    rw [List.filterMap_flatMap]
    exact congrArg (List.flatMap · f.body.stmts) (funext Stmt.filterMap_use?_events)

theorem Decl.bound_events (d : Decl) : bound d.events = d.names := by
  rw [bound, d.filterMap_symbol?_events, Decl.names]

theorem Decl.mem_uses {d : Decl} {i : Ident} (h : .use i ∈ d.events) : i ∈ d.uses := by
  rw [← d.filterMap_use?_events, List.mem_filterMap]
  exact ⟨_, h, rfl⟩

theorem Decl.exists_event_of_use {d : Decl} {before after : List Ident} {i : Ident}
    (h : d.uses = before ++ i :: after) :
    ∃ xs ys, d.events = xs ++ .use i :: ys ∧ xs.filterMap use? = before := by
  rw [← d.filterMap_use?_events] at h
  obtain ⟨xs, e, ys, hes, he, hxs⟩ := exists_of_filterMap_eq h
  cases e with
  | define s => cases he
  | use j =>
    cases he
    exact ⟨xs, ys, hes, hxs⟩

section

variable {front ds es back : List NameEvent}

/-- What is clear behind some events is clear without them if it uses none of their
names. -/
theorem clear_without (h : Clear (front ++ ds) es)
    (hu : ∀ i, .use i ∈ es → i.name ∉ bound ds) : Clear front es := by
  refine h.transfer (fun name _ hmem => ?_) fun i hi hmem => ?_
  · rw [bound_append]
    exact List.mem_append_left _ hmem
  · rw [bound_append, List.mem_append] at hmem
    exact hmem.resolve_right (hu i hi)

variable (h : Clear [] (front ++ (ds ++ (es ++ back))))
include h

theorem bound_apart {name : String} (hname : name ∈ bound ds) :
    name ∉ bound front ∧ name ∉ bound es := by
  have hnodup := h.nodup_bound
  rw [bound_append, bound_append, bound_append, List.nodup_append, List.nodup_append] at hnodup
  obtain ⟨-, ⟨-, -, hbehind⟩, hbefore⟩ := hnodup
  constructor
  · intro hmem
    exact hbefore name hmem name (List.mem_append_left _ hname) rfl
  · intro hmem
    exact hbehind name hname name (List.mem_append_left _ hmem) rfl

theorem clear_exchanged (hu : ∀ i, .use i ∈ es → i.name ∉ bound ds) :
    Clear [] (front ++ (es ++ (ds ++ back))) := by
  obtain ⟨hfront, hrest⟩ := clear_append.1 h
  obtain ⟨hds, hrest⟩ := clear_append.1 hrest
  obtain ⟨hes, hback⟩ := clear_append.1 hrest
  refine clear_append.2 ⟨hfront, clear_append.2 ⟨clear_without hes hu, clear_append.2 ⟨?_, ?_⟩⟩⟩
  · refine hds.transfer (fun name hname hmem => ?_) fun i _ hmem => ?_
    · rw [bound_append, List.mem_append] at hmem
      exact hmem.resolve_right (bound_apart h hname).2
    · rw [bound_append]
      exact List.mem_append_left _ hmem
  · have hsame : ∀ name, name ∈ bound ([] ++ front ++ es ++ ds) ↔
        name ∈ bound ([] ++ front ++ ds ++ es) := by
      intro name
      simp only [bound_append, List.mem_append]
      tauto
    exact hback.transfer (fun name _ => (hsame name).1) fun i _ => (hsame i.name).2

theorem fault_exchanged {xs ys : List NameEvent} {i : Ident} (hes : es = xs ++ .use i :: ys)
    (hxs : ∀ j, .use j ∈ xs → j.name ∉ bound ds) (hi : i.name ∈ bound ds) :
    Clear [] (front ++ xs) ∧ (use i).fault? (bound (front ++ xs)) = some (.unknown i) := by
  obtain ⟨hbefore, hbehind⟩ := bound_apart h hi
  obtain ⟨hfront, hrest⟩ := clear_append.1 h
  obtain ⟨-, hrest⟩ := clear_append.1 hrest
  obtain ⟨hes', -⟩ := clear_append.1 hrest
  rw [hes] at hes' hbehind
  refine ⟨clear_append.2 ⟨hfront, clear_without (clear_append.1 hes').1 hxs⟩, ?_⟩
  rw [bound_append, List.mem_append, not_or] at hbehind
  rw [fault?, bound_append, if_neg]
  rw [List.mem_append, not_or]
  exact ⟨hbefore, hbehind.1⟩

end

/-- A program in which two declarations stand next to each other. -/
def neighbours (front : List Decl) (d e : Decl) (back : List Decl) : Program :=
  ⟨front ++ d :: e :: back⟩

section

variable (front back : List Decl) (d e : Decl)

theorem events_neighbours : (neighbours front d e back).events =
    front.flatMap Decl.events ++ (d.events ++ (e.events ++ back.flatMap Decl.events)) := by
  rw [neighbours, Program.events, List.flatMap_append, List.flatMap_cons, List.flatMap_cons]

theorem lowering_exchanged {text : String} {j j' : Journal}
    (h : Lowering.program (neighbours front d e back) j = .ok text j') :
    ∃ ls a b ks, front.map Decl.lower = ls.map .ok ∧ d.lower = .ok a ∧ e.lower = .ok b ∧
      back.map Decl.lower = ks.map .ok ∧ text = joinLines (ls ++ a :: b :: ks).flatten ∧
      ∃ j'', Lowering.program (neighbours front e d back) j =
        .ok (joinLines (ls ++ b :: a :: ks).flatten) j'' := by
  obtain ⟨lines, hl, rfl⟩ := Lowering.lowers_of_program h
  rw [Program.Lowers, neighbours, List.map_append] at hl
  obtain ⟨ls, rest, rfl, hls, hrest⟩ := List.map_eq_append_iff.1 hl.symm
  obtain ⟨a, rest, rfl, ha, hrest⟩ := List.map_eq_cons_iff.1 hrest
  obtain ⟨b, ks, rfl, hb, hks⟩ := List.map_eq_cons_iff.1 hrest
  have hother : (neighbours front e d back).Lowers (ls ++ b :: a :: ks) := by
    rw [Program.Lowers, neighbours, List.map_append, List.map_append, hls, List.map_cons,
      List.map_cons, List.map_cons, List.map_cons, ha, hb, hks]
  obtain ⟨j'', hp, -⟩ := Lowering.program_of_lowers hother j
  exact ⟨ls, a, b, ks, hls.symm, ha.symm, hb.symm, hks.symm, rfl, j'', hp⟩

end

section

variable (journal : Journal) {front back : List Decl} {d e : Decl}
  (h : Clear [] (neighbours front d e back).events)
include h

/-- Both orders bind each name to the same declaration. -/
theorem resolve_exchanged_of_no_use (hu : ∀ i ∈ e.uses, i.name ∉ d.names) :
    (Scope.resolve { journal } (neighbours front e d back)).1 = .ok () ∧
      ∀ name, (Scope.resolve { journal } (neighbours front e d back)).2.symbols.get? name =
        (Scope.resolve { journal } (neighbours front d e back)).2.symbols.get? name := by
  have hstart : Scope.Models { journal } [] := rfl
  have hother : Clear [] (neighbours front e d back).events := by
    rw [events_neighbours] at h ⊢
    refine clear_exchanged h fun i hi => ?_
    rw [Decl.bound_events]
    exact hu i (Decl.mem_uses hi)
  obtain ⟨hok, hmodels⟩ := hstart.resolve_of_clear hother
  obtain ⟨-, hmodels'⟩ := hstart.resolve_of_clear h
  refine ⟨hok, fun name => Option.ext fun symbol => ?_⟩
  rw [hmodels.get?_eq_some_iff, hmodels'.get?_eq_some_iff, events_neighbours, events_neighbours]
  simp only [List.mem_append]
  tauto

theorem resolve_exchanged_of_use {i : Ident}
    (hi : e.uses.find? (fun i => i.name ∈ d.names) = some i) :
    (Scope.resolve { journal } (neighbours front e d back)).1 = .error (.unknown i) := by
  have hstart : Scope.Models { journal } [] := rfl
  obtain ⟨hmem, before, after, huses, hbefore⟩ := List.find?_eq_some_iff_append.1 hi
  obtain ⟨xs, ys, hes, hxs⟩ := Decl.exists_event_of_use huses
  have hother : ∀ j, .use j ∈ xs → j.name ∉ bound d.events := by
    intro j hj
    have hj' : j ∈ before := by
      rw [← hxs, List.mem_filterMap]
      exact ⟨_, hj, rfl⟩
    rw [Decl.bound_events]
    simpa using hbefore j hj'
  rw [events_neighbours] at h
  obtain ⟨hclear, hfault⟩ := fault_exchanged h hes hother
    (by rw [Decl.bound_events]; simpa using hmem)
  have hevents : (neighbours front e d back).events =
      (front.flatMap Decl.events ++ xs) ++
        .use i :: (ys ++ (d.events ++ back.flatMap Decl.events)) := by
    rw [events_neighbours, hes, List.append_assoc, List.append_assoc]
    rfl
  exact (hstart.resolve_of_fault hevents hclear hfault).1

end

/-- Two neighbouring declarations of a program whose names are resolved.  Those of the
other order are resolved exactly if no expression of the second declaration uses a name
that the first one defines; then the same names are bound to the same declarations, and
otherwise the first of these uses is of a name that is not known.  If the program can be
lowered, so can the other one, to the same text with the lines of the two declarations
exchanged. -/
theorem resolve_exchanged {journal : Journal} {front back : List Decl} {d e : Decl}
    (h : (Scope.resolve { journal } (neighbours front d e back)).1 = .ok ()) :
    ((Scope.resolve { journal } (neighbours front e d back)).1 = .ok () ↔
      ∀ i ∈ e.uses, i.name ∉ d.names) ∧
    ((Scope.resolve { journal } (neighbours front e d back)).1 = .ok () →
      ∀ name, (Scope.resolve { journal } (neighbours front e d back)).2.symbols.get? name =
        (Scope.resolve { journal } (neighbours front d e back)).2.symbols.get? name) ∧
    ((Scope.resolve { journal } (neighbours front e d back)).1 ≠ .ok () →
      ∃ i, e.uses.find? (fun i => i.name ∈ d.names) = some i ∧
        (Scope.resolve { journal } (neighbours front e d back)).1 = .error (.unknown i)) ∧
    ∀ text j j', Lowering.program (neighbours front d e back) j = .ok text j' →
      ∃ ls a b ks, front.map Decl.lower = ls.map .ok ∧ d.lower = .ok a ∧ e.lower = .ok b ∧
        back.map Decl.lower = ks.map .ok ∧ text = joinLines (ls ++ a :: b :: ks).flatten ∧
        ∃ j'', Lowering.program (neighbours front e d back) j =
          .ok (joinLines (ls ++ b :: a :: ks).flatten) j'' := by
  have hstart : Scope.Models { journal } [] := rfl
  have hc := hstart.clear_of_resolve h
  cases hfind : e.uses.find? (fun i => i.name ∈ d.names) with
  | none =>
    have hu : ∀ i ∈ e.uses, i.name ∉ d.names := by simpa using hfind
    obtain ⟨hok, hsame⟩ := resolve_exchanged_of_no_use journal hc hu
    exact ⟨⟨fun _ => hu, fun _ => hok⟩, fun _ => hsame, fun hne => absurd hok hne,
      fun _ _ _ => lowering_exchanged front back d e⟩
  | some i =>
    have hi : i ∈ e.uses ∧ i.name ∈ d.names :=
      ⟨List.mem_of_find?_eq_some hfind, by simpa using List.find?_some hfind⟩
    rw [resolve_exchanged_of_use journal hc hfind]
    exact ⟨iff_of_false nofun fun hu => hu i hi.1 hi.2, nofun, fun _ => ⟨i, rfl, rfl⟩,
      fun _ _ _ => lowering_exchanged front back d e⟩

/-- A function that uses a variable of the function before it cannot be moved in front
of it. -/
theorem resolve_exchanged_leaked_variable :
    ∃ d e : Decl, (Scope.resolve {} (neighbours [] d e [])).1 = .ok () ∧
      (Scope.resolve {} (neighbours [] e d [])).1 = .error (.unknown ⟨"v", .zero⟩) := by
  let v : Ident := ⟨"v", .zero⟩
  let d : Decl := .function ⟨⟨"f", .zero⟩, [], none, ⟨[.var ⟨v, none, true, none⟩], .zero⟩, false⟩
  let e : Decl := .function ⟨⟨"g", .zero⟩, [], none, ⟨[.expr (.name v .zero)], .zero⟩, false⟩
  have h : (Scope.resolve {} (neighbours [] d e [])).1 = .ok () :=
    ok_of_toOption (by decide +kernel)
  obtain ⟨hiff, -, hfirst, -⟩ := resolve_exchanged h
  obtain ⟨i, hi, herror⟩ := hfirst fun hok => hiff.1 hok v (by decide) (by decide)
  cases hi
  exact ⟨d, e, h, herror⟩

end TriadLang
