import TriadLang.Proofs.Compilation.Course

namespace TriadLang

/-- A match is found in an expression by going into callees and arguments. -/
inductive Expr.ReachesMatch : Expr → Prop where
  | here {scrutinee : Expr} {arms : List Arm} {span : Span} :
    ReachesMatch (.matching scrutinee arms span)
  | callee {callee : Expr} {args : List Expr} {span : Span} (h : ReachesMatch callee) :
    ReachesMatch (.call callee args span)
  | arg {callee a : Expr} {args : List Expr} {span : Span} (ha : a ∈ args) (h : ReachesMatch a) :
    ReachesMatch (.call callee args span)

/-- The expression that a statement is, or that gives its variable a value. -/
def Stmt.expr? : Stmt → Option Expr
  | .var decl => decl.initial?
  | .expr value => some value

/-- A match is found in the body of a function. -/
def Function.ReachesMatch (f : Function) : Prop :=
  ∃ s ∈ f.body.stmts, ∃ e ∈ s.expr?, e.ReachesMatch

mutual

theorem Expr.reachesMatch_of_hasMatch : ∀ {e : Expr}, e.hasMatch → e.ReachesMatch
  | .call callee args _, h => by
    rw [Expr.hasMatch, Bool.or_eq_true] at h
    rcases h with h | h
    · exact .callee (Expr.reachesMatch_of_hasMatch h)
    · obtain ⟨a, ha, h⟩ := Expr.exists_reachesMatch_of_args h
      exact .arg ha h
  | .matching .., _ => .here

theorem Expr.exists_reachesMatch_of_args : ∀ {es : List Expr}, Expr.hasMatchInArgs es →
    ∃ e ∈ es, e.ReachesMatch
  | e :: es, h => by
    rw [Expr.hasMatchInArgs, Bool.or_eq_true] at h
    rcases h with h | h
    · exact ⟨e, List.mem_cons_self, Expr.reachesMatch_of_hasMatch h⟩
    · obtain ⟨a, ha, h⟩ := Expr.exists_reachesMatch_of_args h
      exact ⟨a, List.mem_cons_of_mem e ha, h⟩

end

theorem Expr.ReachesMatch.hasMatch {e : Expr} (h : e.ReachesMatch) : e.hasMatch := by
  induction h with
  | here => rfl
  | callee _ ih => rw [Expr.hasMatch, ih, Bool.true_or]
  | arg ha _ ih =>
    have hargs := List.any_eq_true.2 ⟨_, ha, ih⟩
    rw [Expr.hasMatch, Expr.hasMatchInArgs_eq_any, hargs, Bool.or_true]

theorem Expr.hasMatch_iff {e : Expr} : e.hasMatch ↔ e.ReachesMatch :=
  ⟨Expr.reachesMatch_of_hasMatch, Expr.ReachesMatch.hasMatch⟩

theorem Stmt.hasMatch_iff {s : Stmt} : s.hasMatch ↔ ∃ e ∈ s.expr?, e.ReachesMatch := by
  cases s with
  | var v => simp [Stmt.hasMatch, Stmt.expr?, Option.any_eq_true, Expr.hasMatch_iff]
  | expr e => simp [Stmt.hasMatch, Stmt.expr?, Expr.hasMatch_iff]

theorem Function.hasMatch_iff {f : Function} : (Decl.function f).hasMatch ↔ f.ReachesMatch := by
  rw [Decl.hasMatch, List.any_eq_true, Function.ReachesMatch]
  simp only [Stmt.hasMatch_iff]

namespace Lowering

theorem program_of_hasMatch {p : Program} {before after : List Decl} {d : Decl}
    (hp : p.decls = before ++ d :: after) (hd : d.hasMatch)
    (hbefore : ∀ d ∈ before, d.hasMatch = false) (j : Journal) :
    ∃ j', program p j = .error (.unsupported .matching) j' ∧
      j'.notices = j.notices ++ before.filterMap Decl.codegenNotice? := by
  have hstop : d.lower = .error (.unsupported .matching) := by rw [Decl.lower_eq, if_pos hd]
  exact program_of_error hp (map_lower_of_not_hasMatch hbefore) hstop j

/-- Lowering succeeds, or it fails at the first function in which a match is found. -/
theorem program_cases (p : Program) (j : Journal) :
    ((∀ f, .function f ∈ p.decls → ¬ f.ReachesMatch) ∧ ∃ text j', program p j = .ok text j') ∨
      ∃ before f after j', p.decls = before ++ .function f :: after ∧ f.ReachesMatch ∧
        (∀ g, .function g ∈ before → ¬ g.ReachesMatch) ∧
        program p j = .error (.unsupported .matching) j' ∧
        j'.notices = j.notices ++ before.filterMap Decl.codegenNotice? := by
  have hnot : ∀ {ds : List Decl}, (∀ d ∈ ds, d.hasMatch = false) →
      ∀ f, .function f ∈ ds → ¬ f.ReachesMatch := by
    intro ds h f hf hmatch
    exact absurd (Function.hasMatch_iff.2 hmatch) (by rw [h _ hf]; decide)
  cases hfind : p.decls.find? Decl.hasMatch with
  | none =>
    have hnone : ∀ d ∈ p.decls, d.hasMatch = false := fun d hd =>
      Bool.eq_false_iff.2 (List.find?_eq_none.1 hfind d hd)
    obtain ⟨j', hok, -⟩ := program_of_lowers (map_lower_of_not_hasMatch hnone) j
    exact Or.inl ⟨hnot hnone, _, j', hok⟩
  | some d =>
    obtain ⟨hd, before, after, hp, hbefore⟩ := List.find?_eq_some_iff_append.1 hfind
    have hclean : ∀ d ∈ before, d.hasMatch = false := fun d hd => by simpa using hbefore d hd
    obtain ⟨j', hstop, hn⟩ := program_of_hasMatch hp hd hclean j
    cases d with
    | triad d => cases hd
    | function f =>
      exact Or.inr ⟨before, f, after, j', hp, Function.hasMatch_iff.1 hd, hnot hclean, hstop, hn⟩

end Lowering

section

variable {src : String} {p : Program} {fault : Fault}

open Compilation

theorem compile_of_check_eq_ok (h : (check src).result = .ok p) :
    ∃ text, (compile src).result = .ok text := by
  rw [check, Compilation.outcome] at h
  cases hc : checking src #[] with
  | error fault j =>
    rw [hc] at h
    cases h
  | ok q j =>
    obtain ⟨q', j₁, hread, hrest⟩ := bind_eq_ok.1 hc
    obtain ⟨⟨⟩, j₂, -, hpure⟩ := bind_eq_ok.1 hrest
    cases hpure
    obtain ⟨ts, ht, hp⟩ := ok_of_reading hread
    have hlowers := Program.lowers_of_wellFormed (words_of_parse ht hp).1
    obtain ⟨j₃, hlower, -⟩ := lower_of_lowers hlowers j
    refine ⟨joinLines (q.decls.map fun d => d.lines.map String.ofList).flatten, ?_⟩
    have hcompile : compiling src #[] = .ok _ (j₃.push (.compiled src.utf8ByteSize)) :=
      (bind_of_ok hc _).trans (bind_of_ok hlower _)
    rw [compile, Compilation.outcome, hcompile]

theorem compile_of_check_eq_error (h : (check src).result = .error fault) :
    (compile src).result = .error fault := by
  rw [check, Compilation.outcome] at h
  cases hc : checking src #[] with
  | ok q j =>
    rw [hc] at h
    cases h
  | error fault' j =>
    rw [hc] at h
    cases h
    have hcompile : compiling src #[] = .error fault j := bind_of_error hc _
    rw [compile, Compilation.outcome, hcompile]

end

theorem compile_ne_lowerFault (src : String) (fault : LowerFault) :
    (compile src).result ≠ .error (.lower fault) := by
  intro h
  have hcourse := compile_course src
  rw [h] at hcourse
  cases hcourse

/-- Lowering a program fails exactly if a match is found in a function of it, as an
expression or an initial value or inside of one; then it is the match that is at fault,
and the record store was told about the triads before the first such function.  This
does not happen to a source text: it compiles if it can be checked, and with the same
fault if it cannot. -/
theorem lowering_fails_iff :
    (∀ (p : Program) (j : Journal),
      ((∃ fault j', Lowering.program p j = .error fault j') ↔
        ∃ f, .function f ∈ p.decls ∧ f.ReachesMatch) ∧
      ∀ fault j', Lowering.program p j = .error fault j' →
        fault = .unsupported .matching ∧
        fault.message = "no code generation rule for `MatchExpression`" ∧
        ∃ before f after, p.decls = before ++ .function f :: after ∧ f.ReachesMatch ∧
          (∀ g, .function g ∈ before → ¬ g.ReachesMatch) ∧
          j'.notices = j.notices ++ before.filterMap Decl.codegenNotice?) ∧
    ∀ src : String,
      (∀ fault, (compile src).result ≠ .error (.lower fault)) ∧
      ((∃ text, (compile src).result = .ok text) ↔ ∃ p, (check src).result = .ok p) ∧
      ∀ fault, (compile src).result = .error fault ↔ (check src).result = .error fault := by
  refine ⟨fun p j => ?_, fun src => ⟨compile_ne_lowerFault src, ?_⟩⟩
  · rcases Lowering.program_cases p j with ⟨hnone, text, j', hok⟩ |
      ⟨before, f, after, j', hp, hf, hbefore, hstop, hn⟩
    · rw [hok]
      refine ⟨⟨?_, ?_⟩, ?_⟩
      · rintro ⟨fault, j', h⟩
        cases h
      · rintro ⟨f, hmem, hf⟩
        exact absurd hf (hnone f hmem)
      · intro fault j' h
        cases h
    · have hmem : .function f ∈ p.decls := by
        rw [hp]
        simp
      rw [hstop]
      refine ⟨⟨fun _ => ⟨f, hmem, hf⟩, fun _ => ⟨_, j', rfl⟩⟩, ?_⟩
      intro fault j' h
      cases h
      exact ⟨rfl, by decide +kernel, before, f, after, hp, hf, hbefore, hn⟩
  · cases hc : (check src).result with
    | ok p =>
      obtain ⟨text, htext⟩ := compile_of_check_eq_ok hc
      rw [htext]
      exact ⟨⟨fun _ => ⟨p, rfl⟩, fun _ => ⟨text, rfl⟩⟩, fun fault => ⟨nofun, nofun⟩⟩
    | error fault =>
      rw [compile_of_check_eq_error hc]
      refine ⟨⟨?_, ?_⟩, fun fault' => ⟨?_, ?_⟩⟩
      · rintro ⟨text, h⟩
        cases h
      · rintro ⟨p, h⟩
        cases h
      · rintro ⟨⟩
        rfl
      · rintro ⟨⟩
        rfl

end TriadLang
