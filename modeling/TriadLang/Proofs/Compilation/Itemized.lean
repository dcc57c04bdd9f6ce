import Mathlib.Algebra.GroupWithZero.Nat
import TriadLang.Proofs.Compilation.Course
import TriadLang.Proofs.Source.Lines

namespace TriadLang

/-- How many fields a triad has, or how many statements a function. -/
def Decl.items : Decl → Nat
  | .triad decl => decl.fields.length
  | .function decl => decl.body.stmts.length

def Program.lineCount (p : Program) : Nat := 2 * p.decls.length + (p.decls.map Decl.items).sum

/-- The line of a field is its text behind two blanks. -/
def Field.IsLine (f : Field) (line : String) : Prop := line = "  " ++ f.lower

/-- The line of a statement is its text, which ends in a semicolon, behind two blanks. -/
def Stmt.IsLine (s : Stmt) (line : String) : Prop :=
  ∃ text, s.lower = .ok (text ++ ";") ∧ line = "  " ++ (text ++ ";")

/-- The lines of a declaration: one that opens it, one for each item, and one that
closes it. -/
inductive Decl.LaidOut : Decl → List String → Prop where
  | triad {decl : Triad} {items : List String}
      (h : List.Forall₂ Field.IsLine decl.fields items) :
      LaidOut (.triad decl) (("struct " ++ decl.ident.name ++ " \x7b") :: (items ++ ["\x7d;"]))
  | function {decl : Function} {head : String} {items : List String}
      (hs : decl.signature = head ++ " \x7b")
      (h : List.Forall₂ Stmt.IsLine decl.body.stmts items) :
      LaidOut (.function decl) ((head ++ " \x7b") :: (items ++ ["\x7d"]))

theorem Decl.LaidOut.length_eq {d : Decl} {lines : List String} (h : d.LaidOut lines) :
    lines.length = 2 + d.items := by
  cases h with
  | triad h =>
    rw [Decl.items, h.length_eq, List.length_cons, List.length_append, List.length_singleton]
    omega
  | function _ h =>
    rw [Decl.items, h.length_eq, List.length_cons, List.length_append, List.length_singleton]
    omega

theorem Stmt.exists_chars (s : Stmt) : ∃ cs, s.chars = cs ++ [';'] := by
  cases s with
  | var v =>
    refine ⟨(if v.isMutable then "mutable ".toList else []) ++
      ((v.type?.elim "auto" Ident.name).toList ++ ' ' :: (v.ident.name.toList ++
        v.initial?.elim [] fun e => " = ".toList ++ e.chars)), ?_⟩
    simp only [Stmt.chars, VarDecl.chars, List.append_assoc, List.cons_append]
  | expr e => exact ⟨e.chars, rfl⟩

theorem Stmt.isLine_of_lower {s : Stmt} {text : String} (h : s.lower = .ok text) :
    s.IsLine (indented text) := by
  obtain ⟨cs, hcs⟩ := s.exists_chars
  have htext : String.ofList s.chars = text := eq_of_ite_eq_ok (s.lower_eq ▸ h)
  rw [hcs, String.ofList_append] at htext
  subst htext
  exact ⟨String.ofList cs, h, rfl⟩

theorem forall₂_of_mapM_eq_ok {ε α β : Type} {f : α → Except ε β} {as : List α} {bs : List β}
    (h : as.mapM f = .ok bs) : List.Forall₂ (fun a b => f a = .ok b) as bs := by
  induction as generalizing bs with
  | nil =>
    cases h
    exact .nil
  | cons a as ih =>
    rw [List.mapM_cons] at h
    cases ha : f a with
    | error e =>
      rw [ha] at h
      cases h
    | ok b =>
      cases has : as.mapM f with
      | error e =>
        rw [ha, has] at h
        cases h
      | ok rest =>
        rw [ha, has] at h
        cases h
        exact .cons ha (ih has)

theorem Decl.laidOut_of_lower {d : Decl} {lines : List String} (h : d.lower = .ok lines) :
    d.LaidOut lines := by
  cases d with
  | triad d =>
    cases h
    exact .triad (List.forall₂_map_right_iff.2 (List.forall₂_same.2 fun _ _ => rfl))
  | function f =>
    rw [Decl.lower, Function.lower] at h
    cases hstmts : f.body.stmts.mapM Stmt.lower with
    | error fault =>
      rw [hstmts] at h
      cases h
    | ok texts =>
      rw [hstmts] at h
      cases h
      have hitems : List.Forall₂ Stmt.IsLine f.body.stmts (texts.map indented) :=
        List.forall₂_map_right_iff.2
          ((forall₂_of_mapM_eq_ok hstmts).imp fun _ _ => Stmt.isLine_of_lower)
      have hsignature : f.signature = f.result?.elim "void" Ident.name ++ " " ++ f.ident.name ++
          "(" ++ ", ".intercalate (f.params.map Param.lower) ++ ")" ++ " \x7b" := by
        have hclose : ") \x7b" = ")" ++ " \x7b" := rfl
        rw [Function.signature, hclose, ← String.append_assoc]
      rw [hsignature]
      exact .function hsignature hitems

theorem Decl.lines_of_lower {d : Decl} {lines : List String} (h : d.lower = .ok lines) :
    d.lines.map String.ofList = lines :=
  eq_of_ite_eq_ok (d.lower_eq ▸ h)

section

variable {p : Program} {blocks : List (List String)}

theorem Program.Lowers.forall₂ (h : p.Lowers blocks) :
    List.Forall₂ (fun d lines => Decl.lower d = .ok lines) p.decls blocks := by
  rw [Program.Lowers, ← List.forall₂_eq_eq_eq, List.forall₂_map_left_iff,
    List.forall₂_map_right_iff] at h
  exact h

theorem Program.Lowers.flatten_eq (h : p.Lowers blocks) :
    blocks.flatten = p.lines.map String.ofList := by
  have hlines : List.Forall₂ Eq (p.decls.map fun d => d.lines.map String.ofList) blocks :=
    List.forall₂_map_left_iff.2 (h.forall₂.imp fun _ _ => Decl.lines_of_lower)
  rw [List.forall₂_eq_eq_eq] at hlines
  rw [← hlines, p.flatten_lines]

theorem length_flatten_of_laidOut {ds : List Decl} (h : List.Forall₂ Decl.LaidOut ds blocks) :
    blocks.flatten.length = 2 * ds.length + (ds.map Decl.items).sum := by
  induction h with
  | nil => rfl
  | cons hd _ ih =>
    rw [List.flatten_cons, List.length_append, hd.length_eq, ih, List.length_cons, List.map_cons,
      List.sum_cons]
    omega

theorem Program.Lowers.laidOut (h : p.Lowers blocks) :
    List.Forall₂ Decl.LaidOut p.decls blocks :=
  h.forall₂.imp fun _ _ => Decl.laidOut_of_lower

end

theorem joinLines_eq_empty_iff {lines : List (List Char)} (h : [] ∉ lines) :
    joinLines (lines.map String.ofList) = "" ↔ lines = [] := by
  rw [← String.toList_eq_nil_iff, toList_joinLines]
  cases lines with
  | nil => exact iff_of_true rfl rfl
  | cons line lines =>
    have hline : line ≠ [] := fun hnil => h (hnil ▸ List.mem_cons_self)
    refine iff_of_false ?_ (List.cons_ne_nil _ _)
    cases lines with
    | nil => rwa [List.intercalate_singleton]
    | cons next lines =>
      rw [List.intercalate_cons_cons, List.append_assoc]
      exact List.append_ne_nil_of_left_ne_nil hline _

theorem getLast?_ne_newline {cs : List Char} (h : [] ∉ cs.splitOn '\n') :
    cs.getLast? ≠ some '\n' := by
  intro hlast
  obtain ⟨before, rfl⟩ := List.getLast?_eq_some_iff.1 hlast
  rw [List.splitOn_append_cons_self] at h
  exact h (List.mem_append_right _ List.mem_cons_self)

/-- What lowering a program gives and what it says at its end.  The text is empty
exactly if there is no declaration, and the lines that are counted are two for each
declaration and one for each field and statement.  If no name has a newline in it, the
text of some declarations has these lines and no others, declaration by declaration, and
no newline at its end. -/
theorem lines_of_lowering {p : Program} {text : String} {j j' : Journal}
    (h : Lowering.program p j = .ok text j') :
    (text = "" ↔ p.decls = []) ∧
    j'.toList.getLast? = some (.lowered p.lineCount) ∧
    (p.decls ≠ [] → (∀ d ∈ p.decls, OnLine d.written) →
      ∃ blocks, List.Forall₂ Decl.LaidOut p.decls blocks ∧
        text.toList.splitOn '\n' = blocks.flatten.map String.toList ∧
        (text.toList.splitOn '\n').length = p.lineCount ∧ text.toList.getLast? ≠ some '\n') := by
  obtain ⟨blocks, j₁, hl, rfl, rfl⟩ := Lowering.pushed_of_program h
  have hlength : blocks.flatten.length = p.lineCount := length_flatten_of_laidOut hl.laidOut
  have hnil : p.lines = [] ↔ p.decls = [] := by
    rw [← hl.flatten_eq_nil, hl.flatten_eq, List.map_eq_nil_iff]
  refine ⟨?_, ?_, fun hne hnames => ?_⟩
  · rw [hl.flatten_eq, joinLines_eq_empty_iff p.nil_not_mem_lines, hnil]
  · rw [Array.toList_push, List.getLast?_concat, hlength]
  · have honline : ∀ line ∈ p.lines, '\n' ∉ line := by
      intro line hline
      obtain ⟨d, hd, hline⟩ := List.mem_flatMap.1 hline
      exact Decl.not_mem_lines (hnames d hd) line hline
    have hsplit : (joinLines blocks.flatten).toList.splitOn '\n' = p.lines := by
      rw [hl.flatten_eq]
      exact splitOn_joinLines honline (mt hnil.1 hne)
    refine ⟨blocks, hl.laidOut, ?_, ?_, ?_⟩
    · rw [hsplit, hl.flatten_eq, map_ofList_toList]
    · rw [hsplit, ← hlength, hl.flatten_eq, List.length_map]
    · exact getLast?_ne_newline (hsplit ▸ p.nil_not_mem_lines)

/-- A newline in a string literal does not break the line of its statement. -/
theorem lines_of_lowering_newline :
    ∃ p text j', Lowering.program p #[] = .ok text j' ∧
      text = "struct T \x7b\n  int x;\n\x7d;\nvoid f() \x7b\n  print(\"a\\nb\", \"\");\n\x7d" ∧
      (text.toList.splitOn '\n').length = 6 ∧ p.lineCount = 6 := by
  let print : Expr := .call (.name ⟨"print", .zero⟩ .zero)
    [.literal (.text "a\nb") .zero, .literal (.text "") .zero] .zero
  let p : Program := ⟨[.triad ⟨⟨"T", .zero⟩, [⟨⟨"x", .zero⟩, ⟨"int", .zero⟩, none⟩]⟩,
    .function ⟨⟨"f", .zero⟩, [], none, ⟨[.expr print], .zero⟩, false⟩]⟩
  have hlowers : p.Lowers (p.decls.map fun d => d.lines.map String.ofList) :=
    map_lower_of_not_hasMatch (by decide)
  obtain ⟨j', hp, -⟩ := Lowering.program_of_lowers hlowers #[]
  have hnames : ∀ d ∈ p.decls, OnLine d.written := by
    unfold OnLine
    decide +kernel
  obtain ⟨-, -, hlines⟩ := lines_of_lowering hp
  obtain ⟨-, -, -, hlength, -⟩ := hlines (List.cons_ne_nil _ _) hnames
  exact ⟨p, _, j', hp, by decide +kernel, hlength, rfl⟩

end TriadLang
