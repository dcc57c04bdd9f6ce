import TriadLang.Compilation
import TriadLang.Proofs.Symbol.Events
import TriadLang.Proofs.Tree.Moving
import TriadLang.Proofs.Tree.RoundTrip

namespace TriadLang

open NameEvent

/-- The notice that resolving a declaration leaves. -/
def Decl.semanticNotice? : Decl → Option Notice
  | .triad decl => some (.defined decl.ident.name)
  | .function _ => none

def Program.semanticNotices (p : Program) : List Notice :=
  p.decls.filterMap Decl.semanticNotice?

/- Nothing that lowering makes of a program tells where the program stands. -/

section

variable (f : Span → Span) (p : Program)

theorem Program.lowers_mapSpans {lines : List (List String)} :
    (p.mapSpans f).Lowers lines ↔ p.Lowers lines := by
  have hdecls : (p.mapSpans f).decls.map Decl.lower = p.decls.map Decl.lower := by
    rw [Program.mapSpans, List.map_map]
    refine List.map_congr_left fun d _ => ?_
    cases d with
    | triad d => exact congrArg Except.ok (d.lower_mapSpans f)
    | function d => exact d.lower_mapSpans f
  rw [Program.Lowers, Program.Lowers, hdecls]

theorem Program.semanticNotices_mapSpans :
    (p.mapSpans f).semanticNotices = p.semanticNotices := by
  rw [Program.semanticNotices, Program.mapSpans, List.filterMap_map]
  refine congrArg (List.filterMap · p.decls) (funext fun d => ?_)
  cases d <;> rfl

theorem Program.codegenNotices_mapSpans : (p.mapSpans f).codegenNotices = p.codegenNotices := by
  rw [Program.codegenNotices, Program.mapSpans, List.filterMap_map]
  refine congrArg (List.filterMap · p.decls) (funext fun d => ?_)
  cases d with
  | triad d =>
    show some (Notice.lowered d.ident.name (joinLines (d.mapSpans f).lower)) = _
    rw [Triad.lower_mapSpans]
    rfl
  | function d => rfl

end

/-- The notice that an event leaves. -/
def NameEvent.notice? : NameEvent → Option Notice
  | define (.triad decl) => some (.defined decl.ident.name)
  | _ => none

theorem filterMap_entries (es : List NameEvent) :
    (es.flatMap entries).filterMap Event.notice? = es.filterMap NameEvent.notice? := by
  induction es with
  | nil => rfl
  | cons e es ih =>
    rw [List.flatMap_cons, List.filterMap_append, ih]
    cases e with
    | use i => rfl
    | define symbol => cases symbol <;> rfl

theorem filterMap_notice?_stmts (stmts : List Stmt) :
    (stmts.flatMap Stmt.events).filterMap NameEvent.notice? = [] := by
  have huses : ∀ e : Expr, e.events.filterMap NameEvent.notice? = [] := by
    intro e
    rw [Expr.events, List.filterMap_map]
    exact List.filterMap_eq_nil_iff.2 fun _ _ => rfl
  induction stmts with
  | nil => rfl
  | cons s stmts ih =>
    rw [List.flatMap_cons, List.filterMap_append, ih, List.append_nil]
    cases s with
    | var v =>
      rw [Stmt.events, VarDecl.events]
      cases v.initial? with
      | none => rfl
      | some e => exact huses e
    | expr e => exact huses e

/-- Only triads are told about. -/
theorem filterMap_notice?_events (p : Program) :
    p.events.filterMap NameEvent.notice? = p.semanticNotices := by
  rw [Program.events, Program.semanticNotices]
  induction p.decls with
  | nil => rfl
  | cons d ds ih =>
    rw [List.flatMap_cons, List.filterMap_append, ih, List.filterMap_cons]
    cases d with
    | triad d => rfl
    | function f =>
      rw [Decl.events, List.filterMap_cons, filterMap_notice?_stmts]
      rfl

namespace Compilation

variable {src : String} {ts : List Token} {p : Program}

theorem reading_of_ok (ht : tokenize src = .ok ts) (hp : parse ts = .ok p) (j : Journal) :
    ∃ j', reading src j = .ok p j' ∧ j'.notices = j.notices := by
  have htokens : tokens src j = .ok ts (j.push (.lexed ts.length)) := by
    rw [tokens, ht]
    rfl
  have hprogram : ∀ j, program ts j = .ok p (j.push (.parsed p.decls.length)) := by
    intro j
    rw [program, hp]
    rfl
  refine ⟨_, (bind_of_ok htokens _).trans (hprogram _), ?_⟩
  rw [Journal.notices_push, Journal.notices_push]
  simp [Event.notice?]

theorem ok_of_reading {j j' : Journal} (h : reading src j = .ok p j') :
    ∃ ts, tokenize src = .ok ts ∧ parse ts = .ok p := by
  obtain ⟨ts, j₁, ht, hp⟩ := bind_eq_ok.1 h
  have htokens : tokenize src = .ok ts := by
    rw [tokens] at ht
    cases htok : tokenize src with
    | error fault =>
      rw [htok] at ht
      cases ht
    | ok us =>
      rw [htok] at ht
      cases ht
      rfl
  refine ⟨ts, htokens, ?_⟩
  rw [program] at hp
  cases hparse : parse ts with
  | error fault =>
    rw [hparse] at hp
    cases hp
  | ok q =>
    rw [hparse] at hp
    cases hp
    rfl

theorem resolve_of_clear (hc : Clear [] p.events) (j : Journal) :
    ∃ j', resolve p j = .ok () j' ∧ j'.notices = j.notices ++ p.semanticNotices := by
  have hstart : Scope.Models { journal := j } [] := rfl
  obtain ⟨scope, hwalk, -, hj⟩ := Resolver.walk_of_clear hstart hc
  have hp : Resolver.program p { journal := j } =
      .ok () { scope with journal := scope.journal.push (.resolved scope.symbols.size) } := by
    rw [Resolver.program_eq_walk, bind_of_ok hwalk]
    rfl
  refine ⟨scope.journal.push (.resolved scope.symbols.size), ?_, ?_⟩
  · rw [resolve, hp]
  · rw [Journal.notices_push, Journal.notices, hj, List.filterMap_append, filterMap_entries,
      filterMap_notice?_events]
    exact List.append_nil _

theorem resolve_of_fault {before after : List NameEvent} {e : NameEvent} {fault : ResolveFault}
    (hp : p.events = before ++ e :: after) (hc : Clear [] before)
    (hf : e.fault? (bound before) = some fault) (j : Journal) :
    ∃ j', resolve p j = .error (.resolve fault) j' ∧
      j'.notices = j.notices ++ before.filterMap NameEvent.notice? := by
  have hstart : Scope.Models { journal := j } [] := rfl
  obtain ⟨scope, hwalk, -, hj⟩ := Resolver.walk_of_fault after hstart hc hf
  have hr : Resolver.program p { journal := j } = .error fault scope := by
    rw [Resolver.program_eq_walk, hp, bind_of_error hwalk]
  refine ⟨scope.journal, by rw [resolve, hr], ?_⟩
  rw [Journal.notices, hj, List.filterMap_append, filterMap_entries]
  rfl

theorem clear_of_resolve {j j' : Journal} (h : resolve p j = .ok () j') : Clear [] p.events := by
  rcases clear_or_exists_fault [] p.events with hc | ⟨before, e, after, fault, hp, hc, hf⟩
  · exact hc
  · obtain ⟨j₁, he, -⟩ := resolve_of_fault hp hc hf j
    rw [h] at he
    cases he

theorem lower_of_lowers {lines : List (List String)} (hl : p.Lowers lines) (j : Journal) :
    ∃ j', lower p j = .ok (joinLines lines.flatten) j' ∧
      j'.notices = j.notices ++ p.codegenNotices := by
  obtain ⟨j', hp, hn⟩ := Lowering.program_of_lowers hl j
  exact ⟨j', by rw [lower, hp], hn⟩

theorem lowers_of_lower {text : String} {j j' : Journal} (h : lower p j = .ok text j') :
    ∃ lines, p.Lowers lines ∧ text = joinLines lines.flatten := by
  rw [lower] at h
  cases hp : Lowering.program p j with
  | error fault j₁ =>
    rw [hp] at h
    cases h
  | ok text' j₁ =>
    rw [hp] at h
    cases h
    exact Lowering.lowers_of_program hp

end Compilation

section

variable {src text : String} {ts : List Token} {p : Program}

open Compilation

theorem read_eq_ok_iff :
    (read src).result = .ok p ↔ ∃ ts, tokenize src = .ok ts ∧ parse ts = .ok p := by
  rw [read, Compilation.outcome]
  constructor
  · intro h
    cases hr : reading src #[] with
    | error fault j =>
      rw [hr] at h
      cases h
    | ok q j =>
      rw [hr] at h
      cases h
      exact ok_of_reading hr
  · rintro ⟨ts, ht, hp⟩
    obtain ⟨j, hr, -⟩ := reading_of_ok ht hp #[]
    rw [hr]

theorem compile_of_lowers {lines : List (List String)} (hr : (read src).result = .ok p)
    (hc : Clear [] p.events) (hl : p.Lowers lines) :
    (compile src).result = .ok (joinLines lines.flatten) ∧
      (compile src).journal.notices = p.semanticNotices ++ p.codegenNotices := by
  obtain ⟨ts, ht, hp⟩ := read_eq_ok_iff.1 hr
  obtain ⟨j₁, hread, hn₁⟩ := reading_of_ok ht hp #[]
  obtain ⟨j₂, hres, hn₂⟩ := resolve_of_clear hc j₁
  obtain ⟨j₃, hlow, hn₃⟩ := lower_of_lowers hl j₂
  have hcheck : checking src #[] = .ok p j₂ :=
    (bind_of_ok hread _).trans (bind_of_ok hres _)
  have hcompile : compiling src #[] =
      .ok (joinLines lines.flatten) (j₃.push (.compiled src.utf8ByteSize)) :=
    (bind_of_ok hcheck _).trans (bind_of_ok hlow _)
  rw [compile, Compilation.outcome, hcompile]
  refine ⟨rfl, ?_⟩
  show Journal.notices (j₃.push _) = _
  rw [Journal.notices_push, hn₃, hn₂, hn₁]
  simp [Journal.notices, Event.notice?]

theorem compile_of_fault {before after : List NameEvent} {e : NameEvent} {fault : ResolveFault}
    (hr : (read src).result = .ok p) (hp : p.events = before ++ e :: after)
    (hc : Clear [] before) (hf : e.fault? (bound before) = some fault) :
    (compile src).result = .error (.resolve fault) ∧
      (compile src).journal.notices = before.filterMap NameEvent.notice? := by
  obtain ⟨ts, ht, hparse⟩ := read_eq_ok_iff.1 hr
  obtain ⟨j₁, hread, hn₁⟩ := reading_of_ok ht hparse #[]
  obtain ⟨j₂, hres, hn₂⟩ := resolve_of_fault hp hc hf j₁
  have hcheck : checking src #[] = .error (.resolve fault) j₂ :=
    (bind_of_ok hread _).trans (bind_of_error hres _)
  have hcompile : compiling src #[] = .error (.resolve fault) j₂ := bind_of_error hcheck _
  rw [compile, Compilation.outcome, hcompile]
  refine ⟨rfl, ?_⟩
  show Journal.notices j₂ = _
  rw [hn₂, hn₁]
  rfl

theorem exists_of_compile_eq_ok (h : (compile src).result = .ok text) :
    ∃ p lines, (read src).result = .ok p ∧ Clear [] p.events ∧ p.Lowers lines ∧
      text = joinLines lines.flatten := by
  rw [compile, Compilation.outcome] at h
  cases hc : compiling src #[] with
  | error fault j =>
    rw [hc] at h
    cases h
  | ok text' j =>
    rw [hc] at h
    cases h
    obtain ⟨p, j₁, hcheck, hrest⟩ := bind_eq_ok.1 hc
    obtain ⟨text', j₂, hlow, hrest⟩ := bind_eq_ok.1 hrest
    obtain ⟨-, j₃, -, hpure⟩ := bind_eq_ok.1 hrest
    cases hpure
    obtain ⟨q, j₄, hread, hrest⟩ := bind_eq_ok.1 hcheck
    obtain ⟨⟨⟩, j₅, hres, hpure⟩ := bind_eq_ok.1 hrest
    cases hpure
    obtain ⟨lines, hl, htext⟩ := lowers_of_lower hlow
    obtain ⟨ts, ht, hp⟩ := ok_of_reading hread
    exact ⟨p, lines, read_eq_ok_iff.2 ⟨ts, ht, hp⟩, clear_of_resolve hres, hl, htext⟩

end

end TriadLang
