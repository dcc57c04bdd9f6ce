import Mathlib.Data.List.Nodup
import TriadLang.Proofs.Compilation.Course
import TriadLang.Proofs.Symbol.Clash

/-!
# Notices about triads

The record store is told about a triad when its name is defined, and once more when the
program is lowered.  Names are told as far as resolution comes, so a compilation that
ends at a name has told the triads before it; the texts of the triads are told together,
once all names are resolved, and each of them is cut out of the draft of the program,
behind the lines of what stands before its triad.
-/

namespace TriadLang

open NameEvent

def Symbol.triad? : Symbol → Option Triad
  | .triad decl => some decl
  | _ => none

def Decl.triad? : Decl → Option Triad
  | .triad decl => some decl
  | .function _ => none

def Program.triads (p : Program) : List Triad := p.decls.filterMap Decl.triad?

/-- The triads that some events define. -/
def NameEvent.triads (es : List NameEvent) : List Triad :=
  (es.filterMap symbol?).filterMap Symbol.triad?

theorem triads_append (xs ys : List NameEvent) : triads (xs ++ ys) = triads xs ++ triads ys := by
  rw [triads, List.filterMap_append, List.filterMap_append]
  rfl

theorem triads_events (p : Program) : triads p.events = p.triads := by
  rw [triads, filterMap_symbol?_events, Program.symbols, Program.triads]
  induction p.decls with
  | nil => rfl
  | cons d ds ih =>
    rw [List.flatMap_cons, List.filterMap_append, ih, List.filterMap_cons]
    cases d with
    | triad d => rfl
    | function f =>
      have hvars : (f.body.stmts.filterMap Stmt.symbol?).filterMap Symbol.triad? = [] := by
        rw [List.filterMap_filterMap]
        refine List.filterMap_eq_nil_iff.2 fun s _ => ?_
        cases s <;> rfl
      rw [Decl.symbols, List.filterMap_cons, hvars]
      rfl

theorem triads_prefix {p : Program} {before after : List NameEvent}
    (h : p.events = before ++ after) : triads before <+: p.triads := by
  rw [← triads_events, h, triads_append]
  exact List.prefix_append _ _

/-- The text of a declaration. -/
def Decl.text (d : Decl) : Except LowerFault String := d.lower.map joinLines

/-- A notice for each triad among some declarations, with the text of the triad. -/
def triadNotices (ds : List Decl) (texts : List String) : List Notice :=
  (ds.zip texts).filterMap fun (d, text) =>
    d.triad?.map fun t => ⟨"codegen_triad_id_" ++ t.ident.name, text⟩

theorem joinLines_flatten {lines : List (List String)} (h : ∀ ls ∈ lines, ls ≠ []) :
    joinLines lines.flatten = joinLines (lines.map joinLines) := by
  induction lines with
  | nil => rfl
  | cons ls lines ih =>
    obtain ⟨hls, hlines⟩ := List.forall_mem_cons.1 h
    cases lines with
    | nil =>
      rw [List.flatten_cons, List.flatten_nil, List.append_nil]
      simp [joinLines]
    | cons ks lines =>
      have hne : (ks :: lines).flatten ≠ [] := by
        rw [List.flatten_cons]
        exact List.append_ne_nil_of_left_ne_nil (hlines ks List.mem_cons_self) _
      rw [List.flatten_cons, joinLines, String.intercalate_append_of_ne_nil hls hne]
      show joinLines ls ++ "\n" ++ joinLines (ks :: lines).flatten = _
      rw [ih hlines]
      simp [joinLines]

theorem joinLines_append_flatten (above : List String) {lines : List (List String)}
    (h : ∀ ls ∈ lines, ls ≠ []) :
    joinLines (above ++ lines.flatten) = joinLines (above ++ lines.map joinLines) := by
  have hall : ∀ ls ∈ above.map ([·]) ++ lines, ls ≠ [] := by
    intro ls hls
    rcases List.mem_append.1 hls with hls | hls
    · obtain ⟨l, -, rfl⟩ := List.mem_map.1 hls
      exact List.cons_ne_nil _ _
    · exact h ls hls
  have hsingle : joinLines ∘ ([·]) = id := by
    funext l
    simp [joinLines]
  have hjoin := joinLines_flatten hall
  rw [List.flatten_append, ← List.flatMap_def, List.flatMap_singleton', List.map_append,
    List.map_map, hsingle, List.map_id] at hjoin
  exact hjoin

theorem Program.Lowers.texts {p : Program} {lines : List (List String)} (h : p.Lowers lines)
    (above : List String) :
    p.decls.map Decl.text = (lines.map joinLines).map .ok ∧
      joinLines (above ++ lines.flatten) = joinLines (above ++ lines.map joinLines) := by
  constructor
  · have htexts := congrArg (List.map (Except.map joinLines)) h
    rw [List.map_map, List.map_map] at htexts
    rw [List.map_map]
    exact htexts
  · refine joinLines_append_flatten above fun ls hls => ?_
    have hmem : Except.ok ls ∈ p.decls.map Decl.lower := by
      rw [h]
      exact List.mem_map_of_mem hls
    obtain ⟨d, -, hd⟩ := List.mem_map.1 hmem
    exact Decl.lower_ne_nil hd

theorem filterMap_codegenNotice? {ds : List Decl} {texts : List String}
    (h : ds.map Decl.text = texts.map .ok) :
    ds.filterMap Decl.codegenNotice? = triadNotices ds texts := by
  induction ds generalizing texts with
  | nil => rfl
  | cons d ds ih =>
    obtain ⟨text, texts, rfl, hd, hds⟩ := List.map_eq_cons_iff.1 h.symm
    rw [List.filterMap_cons, ih hds.symm, triadNotices, triadNotices, List.zip_cons_cons,
      List.filterMap_cons]
    cases d with
    | triad d =>
      cases hd
      rfl
    | function f => rfl

theorem filterMap_notice? (es : List NameEvent) : es.filterMap NameEvent.notice? =
    (triads es).map fun t => ⟨"semantic_triad_id_" ++ t.ident.name, t.ident.name⟩ := by
  induction es with
  | nil => rfl
  | cons e es ih =>
    cases e with
    | define symbol =>
      cases symbol with
      | triad d => exact congrArg (Notice.defined d.ident.name :: ·) ih
      | function f => exact ih
      | var v => exact ih
    | use i => exact ih

theorem map_id_codegenNotices (p : Program) : p.codegenNotices.map Notice.id =
    p.triads.map fun t => "codegen_triad_id_" ++ t.ident.name := by
  rw [Program.codegenNotices, Program.triads, List.map_filterMap, List.map_filterMap]
  refine congrArg (List.filterMap · p.decls) (funext fun d => ?_)
  cases d <;> rfl

theorem NameEvent.Clear.nodup_bound {es : List NameEvent} (h : Clear [] es) : (bound es).Nodup := by
  have hstart : Scope.Models {} [] := rfl
  obtain ⟨scope, -, hm, -⟩ := Resolver.walk_of_clear hstart h
  have hnames := scope.symbols.nodup_names
  rw [hm, List.map_reverse, List.nodup_reverse, List.map_map] at hnames
  exact hnames

theorem NameEvent.Clear.nodup_triads {es : List NameEvent} (h : Clear [] es) :
    ((triads es).map fun t => t.ident.name).Nodup := by
  have hsymbols : (es.filterMap symbol?).Pairwise fun s s' => s.name ≠ s'.name :=
    List.pairwise_map.1 h.nodup_bound
  refine List.pairwise_map.2 (hsymbols.filterMap _ fun s s' hne t ht t' ht' => ?_)
  cases s <;> cases ht
  cases s' <;> cases ht'
  exact hne

theorem nodup_recordIds {names : List String} (h : names.Nodup) :
    (names.map ("semantic_triad_id_" ++ ·) ++ names.map ("codegen_triad_id_" ++ ·)).Nodup := by
  have hinj : ∀ s : String, Function.Injective (s ++ ·) := fun s a b hab =>
    String.append_right_inj s |>.1 hab
  refine List.nodup_append.2 ⟨h.map (hinj _), h.map (hinj _), ?_⟩
  intro a ha b hb hab
  obtain ⟨name, -, rfl⟩ := List.mem_map.1 ha
  obtain ⟨name', -, rfl⟩ := List.mem_map.1 hb
  have hheads := congrArg (fun s => s.toList.head?) hab
  simp at hheads

/-- What the record store is told while a text is compiled.  Nothing, if the text is
not read as a program; one notice for each triad before the definition or use that is at
fault, if there is one; and else one for each triad, and then one with the text of each
triad, all under different names.  Whatever program a draft goes on with, behind its lines
there comes one text for each declaration, and those of the triads, which are cut out of
the draft, are what the record store is told. -/
theorem notices_of_compile (src : String) :
    (∀ fault, tokenize src = .error fault → (compile src).journal.notices = []) ∧
    (∀ ts fault, tokenize src = .ok ts → parse ts = .error fault →
      (compile src).journal.notices = []) ∧
    (∀ fault, (compile src).result = .error (.resolve fault) →
      ∃ p before e after, (read src).result = .ok p ∧ p.events = before ++ e :: after ∧
        Clear [] before ∧ e.fault? (bound before) = some fault ∧ triads before <+: p.triads ∧
        (compile src).journal.notices =
          (triads before).map fun t => ⟨"semantic_triad_id_" ++ t.ident.name, t.ident.name⟩) ∧
    (∀ text, (compile src).result = .ok text →
      ∃ p texts, (read src).result = .ok p ∧ p.decls.map Decl.text = texts.map .ok ∧
        text = joinLines texts ∧
        (compile src).journal.notices =
          (p.triads.map fun t => ⟨"semantic_triad_id_" ++ t.ident.name, t.ident.name⟩) ++
            triadNotices p.decls texts ∧
        (triadNotices p.decls texts).map Notice.id =
          (p.triads.map fun t => "codegen_triad_id_" ++ t.ident.name) ∧
        ((compile src).journal.notices.map Notice.id).Nodup) ∧
    ∀ (p : Program) (s : Draft) text s', Drafting.program p s = .ok text s' →
      ∃ texts, p.decls.map Decl.text = texts.map .ok ∧
        text = joinLines (s.lines.toList ++ texts) ∧
        s'.journal.notices = s.journal.notices ++ triadNotices p.decls texts := by
  refine ⟨fun fault ht => (compile_of_lexFault ht).2,
    fun ts fault ht hp => (compile_of_parseFault ht hp).2, ?_, ?_, ?_⟩
  · intro fault h
    have hcourse := compile_course src
    rw [h] at hcourse
    generalize (compile src).journal.notices = notices at hcourse
    cases hcourse with
    | @resolve ts p before after e _ ht hp he hc hf =>
      exact ⟨p, before, e, after, read_eq_ok_iff.2 ⟨ts, ht, hp⟩, he, hc, hf, triads_prefix he,
        filterMap_notice? before⟩
  · intro text h
    obtain ⟨p, lines, hread, hc, hl, rfl⟩ := exists_of_compile_eq_ok h
    obtain ⟨htexts, hjoin⟩ := hl.texts []
    have hcodegen : p.codegenNotices = triadNotices p.decls (lines.map joinLines) :=
      filterMap_codegenNotice? htexts
    have hids := map_id_codegenNotices p
    have hnotices := (compile_of_lowers hread hc hl).2
    rw [← filterMap_notice?_events, filterMap_notice?, triads_events] at hnotices
    have hnodup := nodup_recordIds hc.nodup_triads
    rw [triads_events, List.map_map, List.map_map] at hnodup
    refine ⟨p, lines.map joinLines, hread, htexts, hjoin, ?_, ?_, ?_⟩
    · rw [hnotices, hcodegen]
    · rw [← hcodegen, hids]
    · rw [hnotices, List.map_append, List.map_map, hids]
      exact hnodup
  · intro p s text s' h
    obtain ⟨lines, hl⟩ := Drafting.lowers_of_program h
    obtain ⟨s₁, j, hp, hj, hn⟩ := Drafting.program_of_lowers hl s
    rw [h] at hp
    cases hp
    obtain ⟨htexts, hjoin⟩ := hl.texts s.lines.toList
    refine ⟨lines.map joinLines, htexts, hjoin, ?_⟩
    rw [hj, Journal.notices_push, hn, Program.codegenNotices, filterMap_codegenNotice? htexts]
    exact List.append_nil _

end TriadLang
