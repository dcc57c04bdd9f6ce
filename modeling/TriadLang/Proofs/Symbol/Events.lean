import TriadLang.Proofs.Stateful
import TriadLang.Symbol.Resolution

/-!
# Definitions and uses

The names of a program are resolved event by event: a definition has to be of a
name that is not bound, a use of one that is.  Resolution stops at the first event
that is at fault, and binds the names that were defined before it.  This goes on
over any number of programs that are resolved in one scope, whether or not some of
them are at fault.
-/

namespace TriadLang

/-- What resolution meets on its way through a program. -/
inductive NameEvent where
  | define (symbol : Symbol)
  | use (ident : Ident)

mutual

/-- The names that an expression uses, from left to right. -/
def Expr.uses : Expr → List Ident
  | .literal .. => []
  | .name ident _ => [ident]
  | .call callee args _ => callee.uses ++ Expr.usesOfArgs args
  | .matching scrutinee arms _ => scrutinee.uses ++ Expr.usesOfArms arms

def Expr.usesOfArgs : List Expr → List Ident
  | [] => []
  | e :: es => e.uses ++ Expr.usesOfArgs es

def Expr.usesOfArms : List Arm → List Ident
  | [] => []
  | .mk _ body :: arms => body.uses ++ Expr.usesOfArms arms

end

theorem Expr.usesOfArgs_eq_flatMap (es : List Expr) : Expr.usesOfArgs es = es.flatMap Expr.uses := by
  induction es with
  | nil => rfl
  | cons e es ih => rw [Expr.usesOfArgs, List.flatMap_cons, ih]

def Expr.events (e : Expr) : List NameEvent := e.uses.map .use

def VarDecl.events (v : VarDecl) : List NameEvent :=
  .define (.var v) :: v.initial?.elim [] Expr.events

def Stmt.events : Stmt → List NameEvent
  | .var decl => decl.events
  | .expr value => value.events

def Decl.events : Decl → List NameEvent
  | .triad decl => [.define (.triad decl)]
  | .function decl => .define (.function decl) :: decl.body.stmts.flatMap Stmt.events

/-- The definitions and uses of a program, in source order. -/
def Program.events (p : Program) : List NameEvent := p.decls.flatMap Decl.events

namespace NameEvent

def symbol? : NameEvent → Option Symbol
  | define symbol => some symbol
  | use _ => none

/-- The names that some events have bound. -/
def bound (done : List NameEvent) : List String := (done.filterMap symbol?).map Symbol.name

/-- What is wrong with an event when some names are bound. -/
def fault? (names : List String) : NameEvent → Option ResolveFault
  | define symbol => if symbol.name ∈ names then some (.duplicate symbol.ident) else none
  | use ident => if ident.name ∈ names then none else some (.unknown ident)

/-- Goes on through events, when some are done, up to the first one at fault. -/
def run (done : List NameEvent) : List NameEvent → List NameEvent × Except ResolveFault Unit
  | [] => (done, .ok ())
  | e :: es =>
    match e.fault? (bound done) with
    | some fault => (done, .error fault)
    | none => run (done ++ [e]) es

/-- No event is at fault when it is reached. -/
def Clear (done es : List NameEvent) : Prop :=
  ∀ before e after, es = before ++ e :: after → e.fault? (bound (done ++ before)) = none

theorem clear_nil (done : List NameEvent) : Clear done [] := by
  intro before e after h
  exact absurd h.symm (by simp)

theorem clear_cons {done es : List NameEvent} {e : NameEvent} :
    Clear done (e :: es) ↔ e.fault? (bound done) = none ∧ Clear (done ++ [e]) es := by
  constructor
  · intro h
    constructor
    · have he := h [] e es rfl
      rwa [List.append_nil] at he
    · intro before e' after hes
      have he := h (e :: before) e' after (by rw [hes]; rfl)
      rwa [List.append_assoc]
  · rintro ⟨he, h⟩ before e' after hes
    cases before with
    | nil =>
      obtain ⟨rfl, -⟩ := List.cons.inj hes
      rwa [List.append_nil]
    | cons b before =>
      obtain ⟨rfl, htail⟩ := List.cons.inj hes
      have he' := h before e' after htail
      rwa [List.append_assoc] at he'

theorem run_of_clear {done es : List NameEvent} (h : Clear done es) :
    run done es = (done ++ es, .ok ()) := by
  induction es generalizing done with
  | nil => rw [run, List.append_nil]
  | cons e es ih =>
    obtain ⟨he, hes⟩ := clear_cons.1 h
    rw [run, he]
    dsimp only
    rw [ih hes, List.append_assoc]
    rfl

theorem run_of_fault {done before after : List NameEvent} {e : NameEvent} {fault : ResolveFault}
    (h : Clear done before) (hf : e.fault? (bound (done ++ before)) = some fault) :
    run done (before ++ e :: after) = (done ++ before, .error fault) := by
  induction before generalizing done with
  | nil =>
    rw [List.append_nil] at hf ⊢
    rw [List.nil_append, run, hf]
  | cons b before ih =>
    obtain ⟨hb, hbefore⟩ := clear_cons.1 h
    rw [List.cons_append, run, hb]
    dsimp only
    rw [ih hbefore (by rwa [List.append_assoc]), List.append_assoc]
    rfl

theorem clear_or_exists_fault (done es : List NameEvent) :
    Clear done es ∨ ∃ before e after fault, es = before ++ e :: after ∧ Clear done before ∧
      e.fault? (bound (done ++ before)) = some fault := by
  induction es generalizing done with
  | nil => exact Or.inl (clear_nil done)
  | cons e es ih =>
    cases he : e.fault? (bound done) with
    | some fault =>
      exact Or.inr ⟨[], e, es, fault, rfl, clear_nil done, by rwa [List.append_nil]⟩
    | none =>
      rcases ih (done ++ [e]) with h | ⟨before, e', after, fault, rfl, hc, hf⟩
      · exact Or.inl (clear_cons.2 ⟨he, h⟩)
      · refine Or.inr ⟨e :: before, e', after, fault, rfl, clear_cons.2 ⟨he, hc⟩, ?_⟩
        rwa [List.append_assoc] at hf

end NameEvent

open NameEvent

/-- A scope that binds the names of the definitions among some events, each to its
symbol, and no other names. -/
def Scope.Models (scope : Scope) (done : List NameEvent) : Prop :=
  scope.symbols.entries = ((done.filterMap symbol?).map fun s => (s.name, s)).reverse

theorem Scope.Models.contains_iff {scope : Scope} {done : List NameEvent}
    (h : scope.Models done) (name : String) :
    scope.symbols.contains name ↔ name ∈ bound done := by
  rw [SymbolTable.contains_iff, SymbolTable.names, h, bound, List.map_reverse, List.mem_reverse,
    List.map_map]
  rfl

/-- Since the names in a table are distinct, the entries tell what it binds. -/
theorem SymbolTable.get?_eq_some_iff {α : Type} {t : SymbolTable α} {name : String} {a : α} :
    t.get? name = some a ↔ (name, a) ∈ t.entries := by
  obtain ⟨entries, hnodup⟩ := t
  show (entries.find? (·.1 == name)).map Prod.snd = some a ↔ (name, a) ∈ entries
  induction entries with
  | nil => simp
  | cons entry entries ih =>
    obtain ⟨hn, hrest⟩ := List.nodup_cons.1 (List.map_cons ▸ hnodup)
    rw [List.find?_cons]
    by_cases hname : entry.1 = name
    · subst hname
      have hnot : (entry.1, a) ∉ entries := fun hmem => hn (List.mem_map.2 ⟨_, hmem, rfl⟩)
      simp only [beq_self_eq_true, Option.map_some, Option.some.injEq, List.mem_cons, hnot,
        or_false]
      constructor
      · rintro rfl
        rfl
      · intro h
        rw [← h]
    · rw [beq_false_of_ne hname]
      dsimp only
      rw [ih hrest, List.mem_cons]
      constructor
      · exact Or.inr
      · rintro (h | h)
        · exact absurd (by rw [← h]) hname
        · exact h

theorem Scope.Models.get?_eq_some_iff {scope : Scope} {done : List NameEvent}
    (h : scope.Models done) {name : String} {symbol : Symbol} :
    scope.symbols.get? name = some symbol ↔ .define symbol ∈ done ∧ symbol.name = name := by
  rw [SymbolTable.get?_eq_some_iff, h, List.mem_reverse, List.mem_map]
  constructor
  · rintro ⟨s, hs, heq⟩
    obtain ⟨rfl, rfl⟩ := Prod.mk.inj heq
    obtain ⟨e, he, hes⟩ := List.mem_filterMap.1 hs
    cases e with
    | define s' =>
      cases hes
      exact ⟨he, rfl⟩
    | use i => cases hes
  · rintro ⟨hd, rfl⟩
    exact ⟨symbol, List.mem_filterMap.2 ⟨_, hd, rfl⟩, rfl⟩

/-! ## Resolving event by event -/

/-- What is said about an event. -/
def NameEvent.entries : NameEvent → List Event
  | .define (.triad decl) => [.defined (.triad decl), .notified (.defined decl.ident.name)]
  | .define symbol => [.defined symbol]
  | .use _ => []

namespace Resolver

def step : NameEvent → Resolver Unit
  | .define (.triad decl) => do
    define (.triad decl)
    say (.notified (.defined decl.ident.name))
  | .define symbol => define symbol
  | .use ident => do
    if (← get).symbols.contains ident.name then return else throw (.unknown ident)

def walk : List NameEvent → Resolver Unit
  | [] => return
  | e :: es => do
    step e
    walk es

theorem walk_append (es fs : List NameEvent) :
    walk (es ++ fs) = (do walk es; walk fs : Resolver Unit) := by
  induction es with
  | nil => simp [walk]
  | cons e es ih => simp [walk, ih]

theorem forM_eq_walk {α : Type} {f : α → Resolver Unit} {events : α → List NameEvent}
    (h : ∀ a, f a = walk (events a)) (as : List α) : as.forM f = walk (as.flatMap events) := by
  induction as with
  | nil => rfl
  | cons a as ih =>
    rw [List.flatMap_cons, walk_append, ← ih, ← h a]
    rfl

theorem step_use (ident : Ident) (scope : Scope) :
    step (.use ident) scope =
      if scope.symbols.contains ident.name then .ok () scope
      else .error (.unknown ident) scope := by
  show (if scope.symbols.contains ident.name then pure () else throw (.unknown ident) :
    Resolver Unit) scope = _
  split <;> rfl

theorem walk_uses (idents : List Ident) (scope : Scope) :
    walk (idents.map .use) scope =
      match idents.find? fun i => !scope.symbols.contains i.name with
      | some ident => .error (.unknown ident) scope
      | none => .ok () scope := by
  induction idents with
  | nil => rfl
  | cons i idents ih =>
    rw [List.map_cons, List.find?_cons]
    cases hc : scope.symbols.contains i.name with
    | true =>
      have hstep : step (.use i) scope = .ok () scope := by
        rw [step_use, if_pos hc]
      exact (bind_of_ok hstep _).trans ih
    | false =>
      have hstep : step (.use i) scope = .error (.unknown i) scope := by
        rw [step_use, if_neg (by rw [hc]; decide)]
      exact bind_of_error hstep _

end Resolver

mutual

theorem Expr.firstUnbound?_eq_find? (isBound : String → Bool) :
    ∀ e : Expr, e.firstUnbound? isBound = e.uses.find? fun i => !isBound i.name
  | .literal .. => rfl
  | .name ident _ => by
    rw [Expr.firstUnbound?, Expr.uses, List.find?_cons, List.find?_nil]
    cases isBound ident.name <;> rfl
  | .call callee args _ => by
    rw [Expr.firstUnbound?, Expr.uses, List.find?_append, callee.firstUnbound?_eq_find?,
      Expr.firstUnboundOfArgs?_eq_find?]
  | .matching scrutinee arms _ => by
    rw [Expr.firstUnbound?, Expr.uses, List.find?_append, scrutinee.firstUnbound?_eq_find?,
      Expr.firstUnboundOfArms?_eq_find?]

theorem Expr.firstUnboundOfArgs?_eq_find? (isBound : String → Bool) :
    ∀ es : List Expr, Expr.firstUnboundOfArgs? isBound es =
      (Expr.usesOfArgs es).find? fun i => !isBound i.name
  | [] => rfl
  | e :: es => by
    rw [Expr.firstUnboundOfArgs?, Expr.usesOfArgs, List.find?_append, e.firstUnbound?_eq_find?,
      Expr.firstUnboundOfArgs?_eq_find?]

theorem Expr.firstUnboundOfArms?_eq_find? (isBound : String → Bool) :
    ∀ arms : List Arm, Expr.firstUnboundOfArms? isBound arms =
      (Expr.usesOfArms arms).find? fun i => !isBound i.name
  | [] => rfl
  | .mk _ body :: arms => by
    rw [Expr.firstUnboundOfArms?, Expr.usesOfArms, List.find?_append,
      body.firstUnbound?_eq_find?, Expr.firstUnboundOfArms?_eq_find?]

end

namespace Resolver

theorem expr_eq_walk (e : Expr) : expr e = walk e.events := by
  funext scope
  rw [Expr.events, walk_uses, ← Expr.firstUnbound?_eq_find?]
  show (match e.firstUnbound? scope.symbols.contains with
    | some ident => throw (.unknown ident)
    | none => pure () : Resolver Unit) scope = _
  cases e.firstUnbound? scope.symbols.contains <;> rfl

theorem stmt_eq_walk (s : Stmt) : stmt s = walk s.events := by
  cases s with
  | var v =>
    rw [Stmt.events, VarDecl.events, walk, stmt]
    cases v.initial? with
    | none => rfl
    | some e => exact congrArg (fun x => define (.var v) >>= fun _ => x) (expr_eq_walk e)
  | expr e => exact expr_eq_walk e

theorem decl_eq_walk (d : Decl) : decl d = walk d.events := by
  cases d with
  | triad d => simp [decl, Decl.events, walk, step]
  | function f =>
    rw [Decl.events, walk, ← forM_eq_walk stmt_eq_walk]
    rfl

theorem program_eq_walk (p : Program) :
    program p = (do walk p.events; say (.resolved (← get).symbols.size) : Resolver Unit) := by
  rw [Program.events, ← forM_eq_walk decl_eq_walk]
  rfl

theorem define_of_mem {scope : Scope} {symbol : Symbol}
    (h : symbol.name ∈ scope.symbols.names) :
    define symbol scope = .error (.duplicate symbol.ident) scope := by
  have hd : scope.symbols.define? symbol.name symbol = none :=
    SymbolTable.define?_eq_none_iff.2 h
  rw [define, bind_of_ok (show (get : Resolver Scope) scope = .ok scope scope from rfl), hd]
  rfl

theorem define_of_not_mem {scope : Scope} {symbol : Symbol}
    (h : symbol.name ∉ scope.symbols.names) : ∃ symbols : SymbolTable Symbol,
      symbols.entries = (symbol.name, symbol) :: scope.symbols.entries ∧
      define symbol scope = .ok () ⟨symbols, scope.journal.push (.defined symbol)⟩ := by
  cases hd : scope.symbols.define? symbol.name symbol with
  | none => exact absurd (SymbolTable.define?_eq_none_iff.1 hd) h
  | some symbols =>
    refine ⟨symbols, SymbolTable.entries_of_define? hd, ?_⟩
    rw [define, bind_of_ok (show (get : Resolver Scope) scope = .ok scope scope from rfl), hd]
    rfl

theorem step_of_fault {scope : Scope} {done : List NameEvent} (h : scope.Models done)
    {e : NameEvent} {fault : ResolveFault} (hf : e.fault? (bound done) = some fault) :
    step e scope = .error fault scope := by
  cases e with
  | define symbol =>
    rw [fault?] at hf
    split at hf
    · next hmem =>
      cases hf
      have hnames := SymbolTable.contains_iff.1 ((h.contains_iff symbol.name).2 hmem)
      have hd := define_of_mem hnames
      cases symbol with
      | triad d => exact bind_of_error hd _
      | function f => exact hd
      | var v => exact hd
    · cases hf
  | use ident =>
    rw [fault?] at hf
    split at hf
    · cases hf
    · next hmem =>
      cases hf
      rw [step_use, if_neg fun hc => hmem ((h.contains_iff ident.name).1 hc)]

theorem step_of_clear {scope : Scope} {done : List NameEvent} (h : scope.Models done)
    {e : NameEvent} (hf : e.fault? (bound done) = none) :
    ∃ scope', step e scope = .ok () scope' ∧ scope'.Models (done ++ [e]) ∧
      scope'.journal.toList = scope.journal.toList ++ e.entries := by
  cases e with
  | define symbol =>
    rw [fault?] at hf
    split at hf
    · cases hf
    · next hmem =>
      have hnames : symbol.name ∉ scope.symbols.names := fun hn =>
        hmem ((h.contains_iff symbol.name).1 (SymbolTable.contains_iff.2 hn))
      obtain ⟨symbols, hentries, hd⟩ := define_of_not_mem hnames
      have hmodels : ∀ journal, Scope.Models ⟨symbols, journal⟩ (done ++ [.define symbol]) := by
        intro journal
        show symbols.entries = _
        rw [hentries, h, List.filterMap_append, List.map_append, List.reverse_append]
        rfl
      cases symbol with
      | triad d =>
        refine ⟨_, bind_of_ok hd _, hmodels _, ?_⟩
        simp [entries]
      | function f => exact ⟨_, hd, hmodels _, by simp [entries]⟩
      | var v => exact ⟨_, hd, hmodels _, by simp [entries]⟩
  | use ident =>
    rw [fault?] at hf
    split at hf
    · next hmem =>
      refine ⟨scope, ?_, ?_, (List.append_nil _).symm⟩
      · rw [step_use, if_pos ((h.contains_iff ident.name).2 hmem)]
      · show scope.symbols.entries = _
        rw [h, List.filterMap_append]
        exact congrArg _ (congrArg _ (List.append_nil _).symm)
    · cases hf

theorem walk_of_clear {scope : Scope} {done es : List NameEvent} (h : scope.Models done)
    (hc : Clear done es) :
    ∃ scope', walk es scope = .ok () scope' ∧ scope'.Models (done ++ es) ∧
      scope'.journal.toList = scope.journal.toList ++ es.flatMap entries := by
  induction es generalizing done scope with
  | nil => exact ⟨scope, rfl, by rwa [List.append_nil], by simp⟩
  | cons e es ih =>
    obtain ⟨he, hes⟩ := clear_cons.1 hc
    obtain ⟨scope₁, hstep, hm, hj⟩ := step_of_clear h he
    obtain ⟨scope₂, hwalk, hm', hj'⟩ := ih hm hes
    refine ⟨scope₂, (bind_of_ok hstep _).trans hwalk, ?_, ?_⟩
    · rwa [List.append_assoc] at hm'
    · rw [hj', hj, List.flatMap_cons, List.append_assoc]

theorem walk_of_fault {scope : Scope} {done before : List NameEvent} {e : NameEvent}
    {fault : ResolveFault} (after : List NameEvent) (h : scope.Models done) (hc : Clear done before)
    (hf : e.fault? (bound (done ++ before)) = some fault) :
    ∃ scope', walk (before ++ e :: after) scope = .error fault scope' ∧
      scope'.Models (done ++ before) ∧
      scope'.journal.toList = scope.journal.toList ++ before.flatMap entries := by
  obtain ⟨scope', hwalk, hm, hj⟩ := walk_of_clear h hc
  refine ⟨scope', ?_, hm, hj⟩
  rw [walk_append, bind_of_ok hwalk]
  exact bind_of_error (step_of_fault hm hf) _

end Resolver

/-! ## Whole runs -/

theorem Scope.Models.resolve_of_clear {scope : Scope} {done : List NameEvent}
    (h : scope.Models done) {p : Program} (hc : Clear done p.events) :
    (scope.resolve p).1 = .ok () ∧ (scope.resolve p).2.Models (done ++ p.events) := by
  obtain ⟨scope', hwalk, hm, -⟩ := Resolver.walk_of_clear h hc
  have hp : Resolver.program p scope =
      .ok () { scope' with journal := scope'.journal.push (.resolved scope'.symbols.size) } := by
    rw [Resolver.program_eq_walk, bind_of_ok hwalk]
    rfl
  rw [Scope.resolve, hp]
  exact ⟨rfl, hm⟩

theorem Scope.Models.resolve_of_fault {scope : Scope} {done before after : List NameEvent}
    {e : NameEvent} {fault : ResolveFault} (h : scope.Models done) {p : Program}
    (hp : p.events = before ++ e :: after) (hc : Clear done before)
    (hf : e.fault? (bound (done ++ before)) = some fault) :
    (scope.resolve p).1 = .error fault ∧ (scope.resolve p).2.Models (done ++ before) := by
  obtain ⟨scope', hwalk, hm, -⟩ := Resolver.walk_of_fault after h hc hf
  have hp : Resolver.program p scope = .error fault scope' := by
    rw [Resolver.program_eq_walk, hp, bind_of_error hwalk]
  rw [Scope.resolve, hp]
  exact ⟨rfl, hm⟩

theorem Scope.Models.clear_of_resolve {scope : Scope} {done : List NameEvent}
    (h : scope.Models done) {p : Program} (hr : (scope.resolve p).1 = .ok ()) :
    Clear done p.events := by
  rcases clear_or_exists_fault done p.events with hc | ⟨before, e, after, fault, hp, hc, hf⟩
  · exact hc
  · rw [(h.resolve_of_fault hp hc hf).1] at hr
    cases hr

/-- The scope after some programs were resolved in it, one after another and
whatever came of each. -/
def Scope.after (scope : Scope) (ps : List Program) : Scope :=
  ps.foldl (fun s p => (s.resolve p).2) scope

/-- The events of some programs that are gone through: of each program all up to
the first one at fault. -/
def executed (ps : List Program) : List NameEvent :=
  ps.foldl (fun done p => (run done p.events).1) []

theorem executed_append_singleton (ps : List Program) (p : Program) :
    executed (ps ++ [p]) = (run (executed ps) p.events).1 := by
  rw [executed, List.foldl_append]
  rfl

theorem Scope.Models.after {scope : Scope} {done : List NameEvent} (h : scope.Models done)
    (ps : List Program) :
    (scope.after ps).Models (ps.foldl (fun done p => (run done p.events).1) done) := by
  induction ps generalizing scope done with
  | nil => exact h
  | cons p ps ih =>
    have hp : (scope.resolve p).2.Models (run done p.events).1 := by
      rcases clear_or_exists_fault done p.events with hc | ⟨before, e, after, f, hp, hc, hf⟩
      · rw [run_of_clear hc]
        exact (h.resolve_of_clear hc).2
      · rw [hp, run_of_fault hc hf]
        exact (h.resolve_of_fault hp hc hf).2
    exact ih hp

/-- Any number of programs are resolved in one scope that is empty at first.  The
scope binds the names of the definitions gone through, each to its declaration;
the next program is resolved if none of its events is at fault, and else the first
one that is tells the fault; exactly the events before that one are gone through. -/
theorem resolve_after (journal : Journal) (ps : List Program) (p : Program) :
    (∀ name symbol, (Scope.after { journal } ps).symbols.get? name = some symbol ↔
      .define symbol ∈ executed ps ∧ symbol.name = name) ∧
    (Clear (executed ps) p.events →
      ((Scope.after { journal } ps).resolve p).1 = .ok () ∧
        executed (ps ++ [p]) = executed ps ++ p.events) ∧
    (∀ before e after fault, p.events = before ++ e :: after → Clear (executed ps) before →
      e.fault? (bound (executed ps ++ before)) = some fault →
      ((Scope.after { journal } ps).resolve p).1 = .error fault ∧
        executed (ps ++ [p]) = executed ps ++ before) ∧
    (Clear (executed ps) p.events ∨ ∃ before e after fault, p.events = before ++ e :: after ∧
      Clear (executed ps) before ∧ e.fault? (bound (executed ps ++ before)) = some fault) := by
  have hstart : Scope.Models { journal } [] := rfl
  have hm : (Scope.after { journal } ps).Models (executed ps) := hstart.after ps
  refine ⟨fun name symbol => hm.get?_eq_some_iff, ?_, ?_, clear_or_exists_fault _ _⟩
  · intro hc
    refine ⟨(hm.resolve_of_clear hc).1, ?_⟩
    rw [executed_append_singleton, run_of_clear hc]
  · intro before e after fault hp hc hf
    refine ⟨(hm.resolve_of_fault hp hc hf).1, ?_⟩
    rw [executed_append_singleton, hp, run_of_fault hc hf]

end TriadLang
