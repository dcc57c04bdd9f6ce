import TriadLang.Proofs.Symbol.Events
import TriadLang.Proofs.Text.Escapes
import TriadLang.Proofs.Tree.Drafting
import TriadLang.Proofs.Tree.Unparse

namespace TriadLang

theorem mapM_eq_ite {ε α β : Type} {f : α → Except ε β} {bad : α → Bool} {fault : ε} {g : α → β}
    (h : ∀ a, f a = if bad a then .error fault else .ok (g a)) (as : List α) :
    as.mapM f = if as.any bad then .error fault else .ok (as.map g) := by
  induction as with
  | nil => rfl
  | cons a as ih =>
    rw [List.mapM_cons, h a, ih, List.any_cons]
    cases bad a with
    | true => rfl
    | false => cases as.any bad <;> rfl

theorem eq_of_ite_eq_ok {ε α : Type} {bad : Bool} {fault : ε} {a b : α}
    (h : (if bad then .error fault else .ok a : Except ε α) = .ok b) : a = b := by
  cases bad with
  | true => cases h
  | false =>
    cases h
    rfl

mutual

/-- Whether lowering an expression comes to a match. -/
def Expr.hasMatch : Expr → Bool
  | .literal .. => false
  | .name .. => false
  | .call callee args _ => callee.hasMatch || Expr.hasMatchInArgs args
  | .matching .. => true

def Expr.hasMatchInArgs : List Expr → Bool
  | [] => false
  | e :: es => e.hasMatch || Expr.hasMatchInArgs es

end

def Stmt.hasMatch : Stmt → Bool
  | .var decl => decl.initial?.any Expr.hasMatch
  | .expr value => value.hasMatch

def Decl.hasMatch : Decl → Bool
  | .triad _ => false
  | .function decl => decl.body.stmts.any Stmt.hasMatch

/-- Texts with a comma and a blank between any two. -/
def commaChars (items : List (List Char)) : List Char := List.intercalate [',', ' '] items

mutual

def Expr.chars : Expr → List Char
  | .literal value _ => value.lower.toList
  | .name ident _ => ident.name.toList
  | .call callee args _ => callee.chars ++ '(' :: (commaChars (Expr.charsOfArgs args) ++ [')'])
  | .matching .. => []

def Expr.charsOfArgs : List Expr → List (List Char)
  | [] => []
  | e :: es => e.chars :: Expr.charsOfArgs es

end

theorem Expr.charsOfArgs_eq_map (es : List Expr) : Expr.charsOfArgs es = es.map Expr.chars := by
  induction es with
  | nil => rfl
  | cons e es ih => rw [Expr.charsOfArgs, ih, List.map_cons]

def VarDecl.chars (v : VarDecl) : List Char :=
  (if v.isMutable then "mutable ".toList else []) ++ ((v.type?.elim "auto" Ident.name).toList ++
    ' ' :: (v.ident.name.toList ++ (v.initial?.elim [] (fun e => " = ".toList ++ e.chars) ++ [';'])))

def Stmt.chars : Stmt → List Char
  | .var decl => decl.chars
  | .expr value => value.chars ++ [';']

def Field.chars (f : Field) : List Char :=
  f.type.name.toList ++ (f.arraySize?.elim [] (fun n => '[' :: ((toString n).toList ++ [']'])) ++
    ' ' :: (f.ident.name.toList ++ [';']))

def Param.chars (p : Param) : List Char := p.type.name.toList ++ ' ' :: p.ident.name.toList

def indentedChars (line : List Char) : List Char := ' ' :: ' ' :: line

def Decl.lines : Decl → List (List Char)
  | .triad decl =>
    ("struct ".toList ++ (decl.ident.name.toList ++ " \x7b".toList)) ::
      (decl.fields.map (fun f => indentedChars f.chars) ++ ["\x7d;".toList])
  | .function decl =>
    ((decl.result?.elim "void" Ident.name).toList ++ ' ' :: (decl.ident.name.toList ++
        '(' :: (commaChars (decl.params.map Param.chars) ++ ") \x7b".toList))) ::
      (decl.body.stmts.map (fun s => indentedChars s.chars) ++ ["\x7d".toList])

def Program.lines (p : Program) : List (List Char) := p.decls.flatMap Decl.lines

theorem Decl.exists_header (d : Decl) :
    ∃ header lines, d.lines = header :: lines ∧ header ≠ [] := by
  cases d with
  | triad d => exact ⟨_, _, rfl, List.cons_ne_nil _ _⟩
  | function f => exact ⟨_, _, rfl, List.append_ne_nil_of_right_ne_nil _ (List.cons_ne_nil _ _)⟩

theorem Decl.nil_not_mem_lines (d : Decl) : [] ∉ d.lines := by
  cases d <;> simp [Decl.lines, indentedChars]

theorem Program.nil_not_mem_lines (p : Program) : [] ∉ p.lines := by
  intro hmem
  obtain ⟨d, -, hline⟩ := List.mem_flatMap.1 hmem
  exact d.nil_not_mem_lines hline

theorem eq_ofList {s : String} {cs : List Char} (h : s.toList = cs) : s = String.ofList cs := by
  rw [← h, String.ofList_toList]

theorem map_ofList_toList (items : List (List Char)) :
    (items.map String.ofList).map String.toList = items := by
  rw [List.map_map]
  exact (List.map_congr_left fun _ _ => String.toList_ofList).trans (List.map_id items)

theorem intercalate_ofList (items : List (List Char)) :
    ", ".intercalate (items.map String.ofList) = String.ofList (commaChars items) := by
  apply eq_ofList
  rw [String.toList_intercalate, map_ofList_toList]
  rfl

mutual

theorem Expr.lower_eq : ∀ e : Expr,
    e.lower = if e.hasMatch then .error (.unsupported .matching) else .ok (String.ofList e.chars)
  | .literal value _ => by
    rw [Expr.chars, String.ofList_toList]
    rfl
  | .name ident _ => by
    rw [Expr.chars, String.ofList_toList]
    rfl
  | .call callee args _ => by
    rw [Expr.lower, callee.lower_eq, Expr.lowerArgs_eq, Expr.hasMatch]
    cases callee.hasMatch with
    | true => rfl
    | false =>
      cases Expr.hasMatchInArgs args with
      | true => rfl
      | false =>
        refine congrArg Except.ok (eq_ofList ?_)
        rw [intercalate_ofList]
        simp [Expr.chars]
  | .matching .. => rfl

theorem Expr.lowerArgs_eq : ∀ es : List Expr,
    Expr.lowerArgs es = if Expr.hasMatchInArgs es then .error (.unsupported .matching)
      else .ok ((Expr.charsOfArgs es).map String.ofList)
  | [] => rfl
  | e :: es => by
    rw [Expr.lowerArgs, e.lower_eq, Expr.lowerArgs_eq, Expr.hasMatchInArgs]
    cases e.hasMatch with
    | true => rfl
    | false => cases Expr.hasMatchInArgs es <;> rfl

end

theorem VarDecl.lower_eq (v : VarDecl) :
    v.lower = if v.initial?.any Expr.hasMatch then .error (.unsupported .matching)
      else .ok (String.ofList v.chars) := by
  rw [VarDecl.lower, VarDecl.lowerInitial, VarDecl.chars]
  cases v.initial? with
  | none =>
    refine congrArg Except.ok (eq_ofList ?_)
    cases v.isMutable <;> simp
  | some e =>
    dsimp only
    rw [e.lower_eq, Option.any_some]
    cases e.hasMatch with
    | true => rfl
    | false =>
      refine congrArg Except.ok (eq_ofList ?_)
      cases v.isMutable <;> simp

theorem Stmt.lower_eq (s : Stmt) :
    s.lower = if s.hasMatch then .error (.unsupported .matching)
      else .ok (String.ofList s.chars) := by
  cases s with
  | var v => exact v.lower_eq
  | expr e =>
    rw [Stmt.lower, e.lower_eq, Stmt.hasMatch]
    cases e.hasMatch with
    | true => rfl
    | false =>
      rw [Stmt.chars, String.ofList_append]
      rfl

theorem Field.lower_eq (f : Field) : f.lower = String.ofList f.chars := by
  apply eq_ofList
  rw [Field.lower, Field.chars]
  cases f.arraySize? <;> simp

theorem Param.lower_eq (p : Param) : p.lower = String.ofList p.chars := by
  apply eq_ofList
  simp [Param.lower, Param.chars]

theorem indented_ofList (line : List Char) :
    indented (String.ofList line) = String.ofList (indentedChars line) := by
  apply eq_ofList
  simp [indented, indentedChars]

theorem Triad.lower_eq (d : Triad) :
    d.lower = (Decl.triad d).lines.map String.ofList := by
  have hfields : d.fields.map (fun f => indented f.lower) =
      (d.fields.map (fun f => indentedChars f.chars)).map String.ofList := by
    rw [List.map_map]
    refine List.map_congr_left fun f _ => ?_
    rw [f.lower_eq, indented_ofList]
    rfl
  have hheader : "struct " ++ d.ident.name ++ " \x7b" =
      String.ofList ("struct ".toList ++ (d.ident.name.toList ++ " \x7b".toList)) := by
    apply eq_ofList
    simp
  rw [Triad.lower, Decl.lines, hfields, hheader, List.map_cons, List.map_append]
  rfl

theorem Function.lower_eq (d : Function) :
    d.lower = if (Decl.function d).hasMatch then .error (.unsupported .matching)
      else .ok ((Decl.function d).lines.map String.ofList) := by
  rw [Function.lower, mapM_eq_ite Stmt.lower_eq, Decl.hasMatch]
  cases d.body.stmts.any Stmt.hasMatch with
  | true => rfl
  | false =>
    have hstmts : (d.body.stmts.map fun s => String.ofList s.chars).map indented =
        (d.body.stmts.map (fun s => indentedChars s.chars)).map String.ofList := by
      rw [List.map_map, List.map_map]
      exact List.map_congr_left fun s _ => indented_ofList s.chars
    have hparams : d.params.map Param.lower = (d.params.map Param.chars).map String.ofList := by
      rw [List.map_map]
      exact List.map_congr_left fun p _ => p.lower_eq
    have hheader : d.signature = String.ofList ((d.result?.elim "void" Ident.name).toList ++
        ' ' :: (d.ident.name.toList ++
          '(' :: (commaChars (d.params.map Param.chars) ++ ") \x7b".toList))) := by
      apply eq_ofList
      rw [Function.signature, hparams, intercalate_ofList]
      simp
    show Except.ok (d.signature :: (d.body.stmts.map fun s => String.ofList s.chars).map indented ++
      ["\x7d"]) = .ok _
    rw [hstmts, hheader, Decl.lines, List.map_cons, List.map_append]
    rfl

/- A newline in a literal is escaped, so a line is broken only by a name. -/

def VarDecl.written (v : VarDecl) : List Ident :=
  v.type?.toList ++ v.ident :: v.initial?.elim [] Expr.uses

def Stmt.written : Stmt → List Ident
  | .var decl => decl.written
  | .expr value => value.uses

def Field.written (f : Field) : List Ident := [f.type, f.ident]

def Param.written (p : Param) : List Ident := [p.type, p.ident]

/-- The names that stand in the lines of a declaration. -/
def Decl.written : Decl → List Ident
  | .triad decl => decl.ident :: decl.fields.flatMap Field.written
  | .function decl =>
    decl.result?.toList ++ decl.ident ::
      (decl.params.flatMap Param.written ++ decl.body.stmts.flatMap Stmt.written)

/-- No newline is in these names. -/
def OnLine (is : List Ident) : Prop := ∀ i ∈ is, '\n' ∉ i.name.toList

theorem onLine_append {is js : List Ident} : OnLine (is ++ js) ↔ OnLine is ∧ OnLine js :=
  List.forall_mem_append

theorem onLine_cons {i : Ident} {is : List Ident} :
    OnLine (i :: is) ↔ '\n' ∉ i.name.toList ∧ OnLine is := List.forall_mem_cons

theorem not_mem_toString (n : Nat) : '\n' ∉ (toString n).toList := by
  rw [Nat.toString_eq_ofList_toDigits, String.toList_ofList]
  intro hmem
  exact absurd (Nat.isDigit_of_mem_toDigits (by decide) (by decide) hmem) (by decide)

theorem not_mem_commaChars {items : List (List Char)} (h : ∀ item ∈ items, '\n' ∉ item) :
    '\n' ∉ commaChars items := by
  induction items with
  | nil => exact List.not_mem_nil
  | cons item items ih =>
    obtain ⟨hitem, hitems⟩ := List.forall_mem_cons.1 h
    cases items with
    | nil => simpa [commaChars] using hitem
    | cons next items =>
      rw [commaChars, List.intercalate_cons_cons, List.mem_append, List.mem_append, not_or, not_or]
      exact ⟨⟨hitem, by decide⟩, ih hitems⟩

theorem Literal.not_mem_lower (l : Literal) : '\n' ∉ l.lower.toList := by
  cases l with
  | text value =>
    rw [Literal.lower, toList_literalQuote]
    simp [not_mem_literalChar]
  | int value => exact not_mem_toString value
  | bool value => cases value <;> decide
  | absent => decide

mutual

theorem Expr.not_mem_chars : ∀ {e : Expr}, OnLine e.uses → '\n' ∉ e.chars
  | .literal value _, _ => value.not_mem_lower
  | .name ident _, h => h ident List.mem_cons_self
  | .call callee args _, h => by
    rw [Expr.uses, onLine_append] at h
    have hargs := not_mem_commaChars (Expr.not_mem_charsOfArgs h.2)
    simp [Expr.chars, Expr.not_mem_chars h.1, hargs]
  | .matching .., _ => List.not_mem_nil

theorem Expr.not_mem_charsOfArgs : ∀ {es : List Expr}, OnLine (Expr.usesOfArgs es) →
    ∀ item ∈ Expr.charsOfArgs es, '\n' ∉ item
  | [], _ => by simp [Expr.charsOfArgs]
  | e :: es, h => by
    rw [Expr.usesOfArgs, onLine_append] at h
    exact List.forall_mem_cons.2 ⟨Expr.not_mem_chars h.1, Expr.not_mem_charsOfArgs h.2⟩

end

theorem VarDecl.not_mem_chars {v : VarDecl} (h : OnLine v.written) : '\n' ∉ v.chars := by
  rw [VarDecl.written, onLine_append, onLine_cons] at h
  obtain ⟨htype, hident, hinitial⟩ := h
  have hword : '\n' ∉ if v.isMutable then "mutable ".toList else [] := by
    cases v.isMutable <;> decide
  have htype' : '\n' ∉ (v.type?.elim "auto" Ident.name).toList := by
    cases ht : v.type? with
    | none => decide
    | some t => exact htype t (by rw [ht]; exact List.mem_singleton_self t)
  have hinitial' : '\n' ∉ v.initial?.elim [] (fun e => " = ".toList ++ e.chars) := by
    cases hi : v.initial? with
    | none => exact List.not_mem_nil
    | some e =>
      rw [hi] at hinitial
      rw [Option.elim_some, List.mem_append, not_or]
      exact ⟨by decide, Expr.not_mem_chars hinitial⟩
  simp only [VarDecl.chars, List.mem_append, List.mem_cons, List.not_mem_nil, or_false, not_or]
  exact ⟨hword, htype', by decide, hident, hinitial', by decide⟩

theorem Stmt.not_mem_chars {s : Stmt} (h : OnLine s.written) : '\n' ∉ s.chars := by
  cases s with
  | var v => exact VarDecl.not_mem_chars h
  | expr e =>
    rw [Stmt.chars, List.mem_append, List.mem_singleton, not_or]
    exact ⟨Expr.not_mem_chars h, by decide⟩

theorem Field.not_mem_chars {f : Field} (h : OnLine f.written) : '\n' ∉ f.chars := by
  rw [Field.written, onLine_cons, onLine_cons] at h
  have hsize : '\n' ∉ f.arraySize?.elim [] (fun n => '[' :: ((toString n).toList ++ [']'])) := by
    cases f.arraySize? with
    | none => exact List.not_mem_nil
    | some n =>
      simp only [Option.elim_some, List.mem_append, List.mem_cons, List.not_mem_nil, or_false,
        not_or]
      exact ⟨by decide, not_mem_toString n, by decide⟩
  simp only [Field.chars, List.mem_append, List.mem_cons, List.not_mem_nil, or_false, not_or]
  exact ⟨h.1, hsize, by decide, h.2.1, by decide⟩

theorem Param.not_mem_chars {p : Param} (h : OnLine p.written) : '\n' ∉ p.chars := by
  rw [Param.written, onLine_cons, onLine_cons] at h
  simp only [Param.chars, List.mem_append, List.mem_cons, not_or]
  exact ⟨h.1, by decide, h.2.1⟩

theorem Decl.not_mem_lines {d : Decl} (h : OnLine d.written) : ∀ line ∈ d.lines, '\n' ∉ line := by
  cases d with
  | triad d =>
    rw [Decl.written, onLine_cons] at h
    obtain ⟨hident, hfields⟩ := h
    refine List.forall_mem_cons.2 ⟨?_, List.forall_mem_append.2 ⟨?_, ?_⟩⟩
    · simp only [List.mem_append, not_or]
      exact ⟨by decide, hident, by decide⟩
    · intro line hline
      obtain ⟨f, hf, rfl⟩ := List.mem_map.1 hline
      have hwritten : OnLine f.written := fun i hi =>
        hfields i (List.mem_flatMap.2 ⟨f, hf, hi⟩)
      simp only [indentedChars, List.mem_cons, not_or]
      exact ⟨by decide, by decide, Field.not_mem_chars hwritten⟩
    · decide
  | function f =>
    rw [Decl.written, onLine_append, onLine_cons, onLine_append] at h
    obtain ⟨hresult, hident, hparams, hstmts⟩ := h
    have hresult' : '\n' ∉ (f.result?.elim "void" Ident.name).toList := by
      cases hr : f.result? with
      | none => decide
      | some r => exact hresult r (by rw [hr]; exact List.mem_singleton_self r)
    have hparams' : '\n' ∉ commaChars (f.params.map Param.chars) := by
      refine not_mem_commaChars fun item hitem => ?_
      obtain ⟨p, hp, rfl⟩ := List.mem_map.1 hitem
      exact Param.not_mem_chars fun i hi => hparams i (List.mem_flatMap.2 ⟨p, hp, hi⟩)
    refine List.forall_mem_cons.2 ⟨?_, List.forall_mem_append.2 ⟨?_, ?_⟩⟩
    · simp only [List.mem_append, List.mem_cons, not_or]
      exact ⟨hresult', by decide, hident, by decide, hparams', by decide⟩
    · intro line hline
      obtain ⟨s, hs, rfl⟩ := List.mem_map.1 hline
      have hwritten : OnLine s.written := fun i hi =>
        hstmts i (List.mem_flatMap.2 ⟨s, hs, hi⟩)
      simp only [indentedChars, List.mem_cons, not_or]
      exact ⟨by decide, by decide, Stmt.not_mem_chars hwritten⟩
    · decide

theorem Expr.hasMatchInArgs_eq_any (es : List Expr) :
    Expr.hasMatchInArgs es = es.any Expr.hasMatch := by
  induction es with
  | nil => rfl
  | cons e es ih => rw [Expr.hasMatchInArgs, ih, List.any_cons]

theorem Expr.Plain.hasMatch {e : Expr} (h : e.Plain) : e.hasMatch = false := by
  induction h with
  | literal _ => rfl
  | name _ => rfl
  | call _ _ ih =>
    rw [Expr.hasMatch, Expr.hasMatchInArgs_eq_any]
    exact List.any_eq_false.2 fun a ha => by rw [ih a ha]; decide

theorem Stmt.WellFormed.hasMatch {s : Stmt} (h : s.WellFormed) : s.hasMatch = false := by
  cases s with
  | var v =>
    rw [Stmt.hasMatch]
    cases hv : v.initial? with
    | none => rfl
    | some e => exact (VarDecl.WellFormed.initial? h e hv).plain.hasMatch
  | expr e => exact h.plain.hasMatch

theorem Decl.WellFormed.hasMatch {d : Decl} (h : d.WellFormed) : d.hasMatch = false := by
  cases d with
  | triad d => rfl
  | function f =>
    refine List.any_eq_false.2 fun s hs => ?_
    rw [Stmt.WellFormed.hasMatch (Function.WellFormed.body h s hs)]
    decide

theorem Expr.Plain.isName_of_mem_uses {e : Expr} (h : e.Plain) : ∀ i ∈ e.uses, IsName i.name := by
  induction h with
  | literal _ => exact fun i hi => absurd hi List.not_mem_nil
  | @name i _ hi =>
    intro j hj
    rwa [List.mem_singleton.1 hj]
  | @call i args _ _ hi _ ih =>
    intro j hj
    rw [Expr.uses, Expr.uses, List.singleton_append, List.mem_cons, Expr.usesOfArgs_eq_flatMap,
      List.mem_flatMap] at hj
    rcases hj with rfl | ⟨a, ha, hj⟩
    · exact hi
    · exact ih a ha j hj

theorem Stmt.WellFormed.isName_of_mem_written {s : Stmt} (h : s.WellFormed) :
    ∀ i ∈ s.written, IsName i.name := by
  cases s with
  | var v =>
    obtain ⟨hident, htype, hinitial⟩ := h
    refine List.forall_mem_append.2 ⟨?_, List.forall_mem_cons.2 ⟨hident, ?_⟩⟩
    · exact fun t ht => htype t (Option.mem_toList.1 ht)
    · cases hi : v.initial? with
      | none => exact fun i hi => absurd hi List.not_mem_nil
      | some e => exact (hinitial e hi).plain.isName_of_mem_uses
  | expr e => exact h.plain.isName_of_mem_uses

theorem Field.WellFormed.isName_of_mem_written {f : Field} (h : f.WellFormed) :
    ∀ i ∈ f.written, IsName i.name :=
  List.forall_mem_cons.2 ⟨h.type, List.forall_mem_singleton.2 h.ident⟩

theorem Param.WellFormed.isName_of_mem_written {p : Param} (h : p.WellFormed) :
    ∀ i ∈ p.written, IsName i.name :=
  List.forall_mem_cons.2 ⟨h.type, List.forall_mem_singleton.2 h.ident⟩

theorem Decl.WellFormed.isName_of_mem_written {d : Decl} (h : d.WellFormed) :
    ∀ i ∈ d.written, IsName i.name := by
  cases d with
  | triad d =>
    obtain ⟨hident, hfields⟩ := h
    refine List.forall_mem_cons.2 ⟨hident, fun i hi => ?_⟩
    obtain ⟨f, hf, hi⟩ := List.mem_flatMap.1 hi
    exact (hfields f hf).isName_of_mem_written i hi
  | function f =>
    obtain ⟨hident, hparams, hresult, hbody⟩ := h
    refine List.forall_mem_append.2 ⟨?_, List.forall_mem_cons.2 ⟨hident,
      List.forall_mem_append.2 ⟨fun i hi => ?_, fun i hi => ?_⟩⟩⟩
    · exact fun r hr => hresult r (Option.mem_toList.1 hr)
    · obtain ⟨p, hp, hi⟩ := List.mem_flatMap.1 hi
      exact (hparams p hp).isName_of_mem_written i hi
    · obtain ⟨s, hs, hi⟩ := List.mem_flatMap.1 hi
      exact Stmt.WellFormed.isName_of_mem_written (hbody s hs) i hi

theorem Decl.WellFormed.not_mem_lines {d : Decl} (h : d.WellFormed) :
    ∀ line ∈ d.lines, '\n' ∉ line :=
  Decl.not_mem_lines fun i hi => (h.isName_of_mem_written i hi).not_mem_newline

theorem toList_joinLines (lines : List (List Char)) :
    (joinLines (lines.map String.ofList)).toList = List.intercalate ['\n'] lines := by
  rw [joinLines, String.toList_intercalate, map_ofList_toList]
  rfl

theorem splitOn_joinLines {lines : List (List Char)} (h : ∀ line ∈ lines, '\n' ∉ line)
    (hne : lines ≠ []) : (joinLines (lines.map String.ofList)).toList.splitOn '\n' = lines := by
  rw [toList_joinLines]
  exact List.splitOn_intercalate '\n' h hne

/-- Lines are known by their text, if it is not the empty line that they are. -/
theorem joinLines_inj {ls ks : List (List Char)} (hls : ∀ line ∈ ls, '\n' ∉ line)
    (hks : ∀ line ∈ ks, '\n' ∉ line) (hl : ls ≠ [[]]) (hk : ks ≠ [[]])
    (h : joinLines (ls.map String.ofList) = joinLines (ks.map String.ofList)) : ls = ks := by
  have hempty : (joinLines (([] : List (List Char)).map String.ofList)).toList.splitOn '\n' =
      [[]] := by
    rw [toList_joinLines]
    rfl
  by_cases hln : ls = []
  · by_cases hkn : ks = []
    · rw [hln, hkn]
    · rw [hln] at h
      rw [h, splitOn_joinLines hks hkn] at hempty
      exact absurd hempty hk
  · by_cases hkn : ks = []
    · rw [hkn] at h
      rw [← h, splitOn_joinLines hls hln] at hempty
      exact absurd hempty hl
    · rw [← splitOn_joinLines hls hln, h, splitOn_joinLines hks hkn]

theorem Program.lines_ne_singleton_nil (p : Program) : p.lines ≠ [[]] := by
  intro h
  exact p.nil_not_mem_lines (h ▸ List.mem_singleton_self [])

theorem Program.WellFormed.not_mem_lines {p : Program} (h : p.WellFormed) :
    ∀ line ∈ p.lines, '\n' ∉ line := by
  intro line hline
  obtain ⟨d, hd, hline⟩ := List.mem_flatMap.1 hline
  exact (h d hd).not_mem_lines line hline

end TriadLang
