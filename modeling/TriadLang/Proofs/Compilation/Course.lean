import TriadLang.Proofs.Compilation.Stages
import TriadLang.Proofs.Tree.Lowered

namespace TriadLang

open NameEvent

variable {src : String} {ts : List Token} {p : Program}

theorem Decl.lower_eq (d : Decl) :
    d.lower = if d.hasMatch then .error (.unsupported .matching)
      else .ok (d.lines.map String.ofList) := by
  cases d with
  | triad d => exact congrArg Except.ok d.lower_eq
  | function f => exact f.lower_eq

theorem map_lower_of_not_hasMatch {ds : List Decl} (h : ∀ d ∈ ds, d.hasMatch = false) :
    ds.map Decl.lower = (ds.map fun d => d.lines.map String.ofList).map .ok := by
  rw [List.map_map]
  refine List.map_congr_left fun d hd => ?_
  rw [Decl.lower_eq, h d hd]
  rfl

theorem Program.flatten_lines (p : Program) :
    (p.decls.map fun d => d.lines.map String.ofList).flatten = p.lines.map String.ofList := by
  rw [← List.flatMap_def, Program.lines, List.map_flatMap]

theorem Program.lowers_of_wellFormed (h : p.WellFormed) :
    p.Lowers (p.decls.map fun d => d.lines.map String.ofList) :=
  map_lower_of_not_hasMatch fun d hd => (h d hd).hasMatch

theorem compile_of_lexFault {fault : LexFault} (h : tokenize src = .error fault) :
    (compile src).result = .error (.lex fault) ∧ (compile src).journal.notices = [] := by
  have htokens : Compilation.tokens src #[] = .error (.lex fault) #[] := by
    rw [Compilation.tokens, h]
    rfl
  have hcompile : Compilation.compiling src #[] = .error (.lex fault) #[] :=
    bind_of_error (bind_of_error (bind_of_error htokens _) _) _
  rw [compile, Compilation.outcome, hcompile]
  exact ⟨rfl, rfl⟩

theorem compile_of_parseFault {fault : ParseFault} (ht : tokenize src = .ok ts)
    (hp : parse ts = .error fault) :
    (compile src).result = .error (.parse fault) ∧ (compile src).journal.notices = [] := by
  have htokens : Compilation.tokens src #[] = .ok ts (Array.push #[] (.lexed ts.length)) := by
    rw [Compilation.tokens, ht]
    rfl
  have hprogram : ∀ j, Compilation.program ts j = .error (.parse fault) j := by
    intro j
    rw [Compilation.program, hp]
    rfl
  have hread : Compilation.reading src #[] =
      .error (.parse fault) (Array.push #[] (.lexed ts.length)) :=
    (bind_of_ok htokens _).trans (hprogram _)
  have hcompile : Compilation.compiling src #[] =
      .error (.parse fault) (Array.push #[] (.lexed ts.length)) :=
    bind_of_error (bind_of_error hread _) _
  rw [compile, Compilation.outcome, hcompile]
  exact ⟨rfl, rfl⟩

/-- How a compilation can go, with its result and its notices. -/
inductive Course (src : String) : Except Fault String → List Notice → Prop where
  | lex {fault : LexFault} (ht : tokenize src = .error fault) : Course src (.error (.lex fault)) []
  | parse {ts : List Token} {fault : ParseFault} (ht : tokenize src = .ok ts)
      (hp : parse ts = .error fault) : Course src (.error (.parse fault)) []
  | resolve {ts : List Token} {p : Program} {before after : List NameEvent} {e : NameEvent}
      {fault : ResolveFault} (ht : tokenize src = .ok ts) (hp : TriadLang.parse ts = .ok p)
      (he : p.events = before ++ e :: after) (hc : Clear [] before)
      (hf : e.fault? (bound before) = some fault) :
      Course src (.error (.resolve fault)) (before.filterMap NameEvent.notice?)
  | done {ts : List Token} {p : Program} (ht : tokenize src = .ok ts)
      (hp : TriadLang.parse ts = .ok p) (hc : Clear [] p.events) :
      Course src (.ok (joinLines (p.lines.map String.ofList)))
        (p.semanticNotices ++ p.codegenNotices)

theorem compile_course (src : String) :
    Course src (compile src).result (compile src).journal.notices := by
  cases ht : tokenize src with
  | error fault =>
    obtain ⟨hresult, hnotices⟩ := compile_of_lexFault ht
    rw [hresult, hnotices]
    exact .lex ht
  | ok ts =>
    cases hp : parse ts with
    | error fault =>
      obtain ⟨hresult, hnotices⟩ := compile_of_parseFault ht hp
      rw [hresult, hnotices]
      exact .parse ht hp
    | ok p =>
      have hread : (read src).result = .ok p := read_eq_ok_iff.2 ⟨ts, ht, hp⟩
      rcases clear_or_exists_fault [] p.events with hc | ⟨before, e, after, fault, he, hc, hf⟩
      · have hlowers := Program.lowers_of_wellFormed (words_of_parse ht hp).1
        obtain ⟨hresult, hnotices⟩ := compile_of_lowers hread hc hlowers
        rw [hresult, hnotices, p.flatten_lines]
        exact .done ht hp hc
      · obtain ⟨hresult, hnotices⟩ := compile_of_fault hread he hc hf
        rw [hresult, hnotices]
        exact .resolve ht hp he hc hf

end TriadLang
