import TriadLang.Proofs.Stateful
import TriadLang.Tree.Lowering

/-!
# Drafts

The draft of a program is one row of lines to which every declaration adds its own.  Here
the lines of a declaration are given by the declaration alone, and adding them is shown
to be all that is done to a draft: what is found behind the old end of it is these lines,
whatever stood in front.
-/

namespace TriadLang

def Triad.lower (t : Triad) : List String :=
  ("struct " ++ t.ident.name ++ " \x7b") :: t.fields.map (fun f => indented f.lower) ++ ["\x7d;"]

def Function.lower (f : Function) : Except LowerFault (List String) := do
  let stmts ← f.body.stmts.mapM Stmt.lower
  return f.signature :: stmts.map indented ++ ["\x7d"]

def Decl.lower : Decl → Except LowerFault (List String)
  | .triad decl => .ok decl.lower
  | .function decl => decl.lower

/-- The notice that lowering a declaration leaves. -/
def Decl.codegenNotice? : Decl → Option Notice
  | .triad decl => some (.lowered decl.ident.name (joinLines decl.lower))
  | .function _ => none

theorem Decl.lower_ne_nil {d : Decl} {lines : List String} (h : d.lower = .ok lines) :
    lines ≠ [] := by
  cases d with
  | triad d =>
    cases h
    exact List.cons_ne_nil _ _
  | function f =>
    rw [Decl.lower, Function.lower] at h
    cases hb : f.body.stmts.mapM Stmt.lower with
    | error fault =>
      rw [hb] at h
      cases h
    | ok stmts =>
      rw [hb] at h
      cases h
      exact List.cons_ne_nil _ _

theorem Journal.notices_push (journal : Journal) (event : Event) :
    notices (journal.push event) = journal.notices ++ event.notice?.toList := by
  rw [notices, Array.toList_push, List.filterMap_append, notices]
  cases h : event.notice? <;> simp [h]

namespace Draft

def add (s : Draft) (lines : List String) : Draft := { s with lines := s.lines ++ lines.toArray }

def tell (s : Draft) (notice : Notice) : Draft :=
  { s with journal := s.journal.push (.notified notice) }

variable (s : Draft) (xs ys : List String)

theorem add_nil : s.add [] = s := by
  simp [add]

theorem add_add : (s.add xs).add ys = s.add (xs ++ ys) := by
  simp [add]

theorem lines_add : (s.add xs).lines.toList = s.lines.toList ++ xs := by
  simp [add]

/-- What a draft holds behind its old end is what was added. -/
theorem lines_since : ((s.add xs).lines.extract s.lines.size).toList = xs := by
  rw [Array.toList_extract, lines_add]
  simp [add]

end Draft

namespace Drafting

variable {s s' : Draft} {fault : LowerFault}

theorem write_eq (line : String) (s : Draft) : write line s = .ok () (s.add [line]) := by
  show EStateM.Result.ok () { s with lines := s.lines.push line } = _
  rw [Draft.add]
  simp

theorem forM_write {α : Type} (f : α → String) (as : List α) (s : Draft) :
    (as.forM fun a => write (f a)) s = .ok () (s.add (as.map f)) := by
  induction as generalizing s with
  | nil => rw [List.map_nil, Draft.add_nil]; rfl
  | cons a as ih =>
    have hrest := ih (s.add [f a])
    rw [Draft.add_add] at hrest
    exact Eq.trans (forM_cons_of_ok (write_eq (f a) s)) hrest

/-- The payload is cut out of the draft, and it is the text of the triad. -/
theorem triad_eq (t : Triad) (s : Draft) :
    triad t s = .ok () ((s.add t.lower).tell (.lowered t.ident.name (joinLines t.lower))) := by
  have hlines : ((s.add ["struct " ++ t.ident.name ++ " \x7b"]).add
      (t.fields.map fun f => indented f.lower)).add ["\x7d;"] = s.add t.lower := by
    rw [Draft.add_add, Draft.add_add]
    rfl
  show (write _ >>= fun _ => t.fields.forM (fun f => write (indented f.lower)) >>= fun _ =>
    write "\x7d;" >>= fun _ => get >>= fun d =>
      say (.notified (.lowered t.ident.name
        (joinLines (d.lines.extract s.lines.size).toList)))) s = _
  rw [bind_of_ok (write_eq _ s), bind_of_ok (forM_write ..), bind_of_ok (write_eq ..), hlines]
  show EStateM.Result.ok () ((s.add t.lower).tell
    (.lowered t.ident.name (joinLines ((s.add t.lower).lines.extract s.lines.size).toList))) = _
  rw [Draft.lines_since]

theorem stmt_of_ok {st : Stmt} {line : String} (h : st.lower = .ok line) (s : Draft) :
    stmt st s = .ok () (s.add [indented line]) := by
  rw [stmt, h]
  exact write_eq _ s

theorem stmt_of_error {st : Stmt} (h : st.lower = .error fault) (s : Draft) :
    stmt st s = .error fault s := by
  rw [stmt, h]
  rfl

theorem forM_stmt_of_ok {stmts : List Stmt} {texts : List String}
    (h : stmts.map Stmt.lower = texts.map .ok) (s : Draft) :
    stmts.forM stmt s = .ok () (s.add (texts.map indented)) := by
  induction stmts generalizing texts s with
  | nil =>
    cases List.map_eq_nil_iff.1 h.symm
    rw [List.map_nil, Draft.add_nil]
    rfl
  | cons st stmts ih =>
    obtain ⟨text, texts, rfl, hst, hstmts⟩ := List.map_eq_cons_iff.1 h.symm
    rw [forM_cons_of_ok (stmt_of_ok hst.symm s), ih hstmts.symm, Draft.add_add]
    rfl

theorem forM_stmt_of_error {before : List Stmt} {st : Stmt} {texts : List String}
    (hbefore : before.map Stmt.lower = texts.map .ok) (h : st.lower = .error fault) (s : Draft)
    (after : List Stmt) :
    (before ++ st :: after).forM stmt s = .error fault (s.add (texts.map indented)) := by
  rw [forM_append_of_ok (forM_stmt_of_ok hbefore s)]
  exact forM_cons_of_error (stmt_of_error h _)

theorem function_of_ok {f : Function} {lines : List String} (h : f.lower = .ok lines)
    (s : Draft) : function f s = .ok () (s.add lines) := by
  rw [Function.lower] at h
  rcases mapM_eq_ok_or_error Stmt.lower f.body.stmts with ⟨texts, htexts, hm⟩ |
    ⟨before, st, after, texts, e, -, -, -, hm⟩
  · rw [hm] at h
    cases h
    rw [function, bind_of_ok (write_eq _ s), bind_of_ok (forM_stmt_of_ok htexts _), write_eq,
      Draft.add_add, Draft.add_add]
    rfl
  · rw [hm] at h
    cases h

/-- A function that cannot be lowered leaves what was written of it. -/
theorem function_of_error {f : Function} (h : f.lower = .error fault) (s : Draft) :
    ∃ before st after, ∃ texts : List String, f.body.stmts = before ++ st :: after ∧
      before.map Stmt.lower = texts.map .ok ∧ st.lower = .error fault ∧
      function f s = .error fault (s.add (f.signature :: texts.map indented)) := by
  rw [Function.lower] at h
  rcases mapM_eq_ok_or_error Stmt.lower f.body.stmts with ⟨texts, -, hm⟩ |
    ⟨before, st, after, texts, e, hstmts, htexts, he, hm⟩
  · rw [hm] at h
    cases h
  · rw [hm] at h
    cases h
    refine ⟨before, st, after, texts, hstmts, htexts, he, ?_⟩
    have hbody := forM_stmt_of_error htexts he (s.add [f.signature])
    rw [function, bind_of_ok (write_eq _ s), hstmts, bind_of_error (hbody _), Draft.add_add]
    rfl

theorem decl_of_ok {d : Decl} {lines : List String} (h : d.lower = .ok lines) (s : Draft) :
    decl d s = .ok () (d.codegenNotice?.elim (s.add lines) (s.add lines).tell) := by
  cases d with
  | triad t =>
    cases h
    exact triad_eq t s
  | function f => exact function_of_ok h s

theorem decl_of_error {d : Decl} (h : d.lower = .error fault) (s : Draft) :
    ∃ lines, decl d s = .error fault (s.add lines) := by
  cases d with
  | triad t => cases h
  | function f =>
    obtain ⟨-, -, -, texts, -, -, -, hf⟩ := function_of_error h s
    exact ⟨_, hf⟩

theorem forM_decl_of_ok {ds : List Decl} {lines : List (List String)}
    (h : ds.map Decl.lower = lines.map .ok) (s : Draft) :
    ∃ s', ds.forM decl s = .ok () s' ∧ s'.lines.toList = s.lines.toList ++ lines.flatten ∧
      s'.journal.notices = s.journal.notices ++ ds.filterMap Decl.codegenNotice? := by
  induction ds generalizing lines s with
  | nil =>
    cases List.map_eq_nil_iff.1 h.symm
    exact ⟨s, rfl, (List.append_nil _).symm, (List.append_nil _).symm⟩
  | cons d ds ih =>
    obtain ⟨ls, lines, rfl, hd, hds⟩ := List.map_eq_cons_iff.1 h.symm
    obtain ⟨s', hrun, hlines, hnotices⟩ :=
      ih hds.symm (d.codegenNotice?.elim (s.add ls) (s.add ls).tell)
    refine ⟨s', ?_, ?_, ?_⟩
    · rw [forM_cons_of_ok (decl_of_ok hd.symm s), hrun]
    · have hadd : (d.codegenNotice?.elim (s.add ls) (s.add ls).tell).lines.toList =
          s.lines.toList ++ ls := by
        cases d.codegenNotice? <;> exact s.lines_add ls
      rw [hlines, hadd, List.flatten_cons, List.append_assoc]
    · rw [hnotices, List.filterMap_cons]
      cases d.codegenNotice? with
      | none => rfl
      | some n =>
        rw [Option.elim_some, Draft.tell, Journal.notices_push, List.append_assoc]
        rfl

theorem forM_decl_of_error {before after : List Decl} {d : Decl} {lines : List (List String)}
    (hbefore : before.map Decl.lower = lines.map .ok) (h : d.lower = .error fault) (s : Draft) :
    ∃ s', (before ++ d :: after).forM decl s = .error fault s' ∧
      s'.journal.notices = s.journal.notices ++ before.filterMap Decl.codegenNotice? := by
  obtain ⟨s₁, hrun, -, hnotices⟩ := forM_decl_of_ok hbefore s
  obtain ⟨ls, hstop⟩ := decl_of_error h s₁
  refine ⟨s₁.add ls, ?_, hnotices⟩
  rw [forM_append_of_ok hrun]
  exact forM_cons_of_error hstop

end Drafting

/-- The declarations of a program are lowered to these lines. -/
def Program.Lowers (p : Program) (lines : List (List String)) : Prop :=
  p.decls.map Decl.lower = lines.map .ok

theorem Program.Lowers.flatten_eq_nil {p : Program} {lines : List (List String)}
    (h : p.Lowers lines) : lines.flatten = [] ↔ p.decls = [] := by
  rw [Program.Lowers] at h
  cases hd : p.decls with
  | nil =>
    rw [hd] at h
    rw [List.map_eq_nil_iff.1 h.symm]
    exact ⟨fun _ => rfl, fun _ => rfl⟩
  | cons d ds =>
    rw [hd] at h
    obtain ⟨ls, rest, rfl, hls, -⟩ := List.map_eq_cons_iff.1 h.symm
    have hne := Decl.lower_ne_nil hls.symm
    simp [hne]

def Program.codegenNotices (p : Program) : List Notice :=
  p.decls.filterMap Decl.codegenNotice?

namespace Drafting

variable {p : Program} {s s' : Draft}

/-- The text of a program stands behind the lines that were there before. -/
theorem program_of_lowers {lines : List (List String)} (hl : p.Lowers lines) (s : Draft) :
    ∃ s', ∃ j : Journal, program p s = .ok (joinLines (s.lines.toList ++ lines.flatten)) s' ∧
      s'.journal = j.push (.lowered (s.lines.toList ++ lines.flatten).length) ∧
      j.notices = s.journal.notices ++ p.codegenNotices := by
  obtain ⟨s', hrun, hlines, hnotices⟩ := forM_decl_of_ok hl s
  refine ⟨{ s' with journal := s'.journal.push (.lowered s'.lines.size) }, s'.journal, ?_, ?_,
    hnotices⟩
  · rw [program, bind_of_ok hrun, ← hlines]
    rfl
  · rw [← hlines, Array.length_toList]

theorem program_of_error {before after : List Decl} {d : Decl} {lines : List (List String)}
    {fault : LowerFault} (hp : p.decls = before ++ d :: after)
    (hbefore : before.map Decl.lower = lines.map .ok) (h : d.lower = .error fault) (s : Draft) :
    ∃ s', program p s = .error fault s' ∧
      s'.journal.notices = s.journal.notices ++ before.filterMap Decl.codegenNotice? := by
  obtain ⟨s', hrun, hnotices⟩ := forM_decl_of_error hbefore h s
  rw [← hp] at hrun
  exact ⟨s', bind_of_error hrun _, hnotices⟩

theorem lowers_of_program {text : String} (h : program p s = .ok text s') :
    ∃ lines, p.Lowers lines := by
  rcases mapM_eq_ok_or_error Decl.lower p.decls with ⟨lines, hl, -⟩ |
    ⟨before, d, after, lines, fault, hp, hbefore, hd, -⟩
  · exact ⟨lines, hl⟩
  · obtain ⟨s₁, hstop, -⟩ := program_of_error hp hbefore hd s
    rw [h] at hstop
    cases hstop

end Drafting

namespace Lowering

variable {p : Program}

theorem pushed_of_lowers {lines : List (List String)} (hl : p.Lowers lines) (j : Journal) :
    ∃ j₁ : Journal, program p j =
        .ok (joinLines lines.flatten) (j₁.push (.lowered lines.flatten.length)) ∧
      j₁.notices = j.notices ++ p.codegenNotices := by
  obtain ⟨s', j₁, hrun, hj, hnotices⟩ := Drafting.program_of_lowers hl { journal := j }
  refine ⟨j₁, ?_, hnotices⟩
  rw [program, hrun]
  exact congrArg _ hj

theorem program_of_lowers {lines : List (List String)} (hl : p.Lowers lines) (j : Journal) :
    ∃ j', program p j = .ok (joinLines lines.flatten) j' ∧
      j'.notices = j.notices ++ p.codegenNotices := by
  obtain ⟨j₁, hp, hn⟩ := pushed_of_lowers hl j
  refine ⟨_, hp, ?_⟩
  rw [Journal.notices_push, hn]
  exact List.append_nil _

theorem program_of_error {before after : List Decl} {d : Decl} {lines : List (List String)}
    {fault : LowerFault} (hp : p.decls = before ++ d :: after)
    (hbefore : before.map Decl.lower = lines.map .ok) (h : d.lower = .error fault)
    (j : Journal) : ∃ j', program p j = .error fault j' ∧
      j'.notices = j.notices ++ before.filterMap Decl.codegenNotice? := by
  obtain ⟨s, hrun, hnotices⟩ := Drafting.program_of_error hp hbefore h { journal := j }
  exact ⟨s.journal, by rw [program, hrun], hnotices⟩

theorem pushed_of_program {text : String} {j j' : Journal} (h : program p j = .ok text j') :
    ∃ lines, ∃ j₁ : Journal, p.Lowers lines ∧ text = joinLines lines.flatten ∧
      j' = j₁.push (.lowered lines.flatten.length) := by
  obtain ⟨lines, hl⟩ : ∃ lines, p.Lowers lines := by
    rw [program] at h
    cases hrun : Drafting.program p { journal := j } with
    | ok text' s => exact Drafting.lowers_of_program hrun
    | error fault s =>
      rw [hrun] at h
      cases h
  obtain ⟨j₁, hp, -⟩ := pushed_of_lowers hl j
  rw [h] at hp
  cases hp
  exact ⟨lines, j₁, hl, rfl, rfl⟩

theorem lowers_of_program {text : String} {j j' : Journal} (h : program p j = .ok text j') :
    ∃ lines, p.Lowers lines ∧ text = joinLines lines.flatten := by
  obtain ⟨lines, -, hl, htext, -⟩ := pushed_of_program h
  exact ⟨lines, hl, htext⟩

end Lowering

end TriadLang
