import TriadLang.Proofs.Tree.Legible

namespace TriadLang

/-- A variable without its spans and with its type written out. -/
def VarDecl.kept (v : VarDecl) : VarDecl where
  ident := v.ident.mapSpan .erase
  type? := some ⟨v.type?.elim "auto" Ident.name, .zero⟩
  isMutable := v.isMutable
  initial? := v.initial?.map (Expr.mapSpans .erase)

def Stmt.kept : Stmt → Stmt
  | .var decl => .var decl.kept
  | .expr value => .expr (value.mapSpans .erase)

/-- A function without its spans and without its mark, with its result type written
out. -/
def Function.kept (f : Function) : Function where
  ident := f.ident.mapSpan .erase
  params := f.params.map (Param.mapSpans .erase)
  result? := some ⟨f.result?.elim "void" Ident.name, .zero⟩
  body := ⟨f.body.stmts.map Stmt.kept, .zero⟩
  isFractal := false

def Decl.kept : Decl → Decl
  | .triad decl => .triad (decl.mapSpans .erase)
  | .function decl => .function decl.kept

/-- What lowering keeps of a program. -/
def Program.kept (p : Program) : Program := ⟨p.decls.map Decl.kept⟩

mutual

theorem Expr.chars_mapSpans (f : Span → Span) : ∀ e : Expr, (e.mapSpans f).chars = e.chars
  | .literal .. => rfl
  | .name .. => rfl
  | .call callee args _ => by
    rw [Expr.mapSpans, Expr.chars, Expr.chars, callee.chars_mapSpans f,
      Expr.charsOfArgs_mapSpans f]
  | .matching .. => rfl

theorem Expr.charsOfArgs_mapSpans (f : Span → Span) : ∀ es : List Expr,
    Expr.charsOfArgs (Expr.mapSpansOfArgs f es) = Expr.charsOfArgs es
  | [] => rfl
  | e :: es => by
    rw [Expr.mapSpansOfArgs, Expr.charsOfArgs, Expr.charsOfArgs, e.chars_mapSpans f,
      Expr.charsOfArgs_mapSpans f]

end

theorem Stmt.chars_kept (s : Stmt) : s.kept.chars = s.chars := by
  cases s with
  | var v =>
    rw [Stmt.kept, Stmt.chars, Stmt.chars, VarDecl.chars, VarDecl.chars, VarDecl.kept]
    cases v.initial? with
    | none => rfl
    | some e =>
      dsimp only [Option.map_some, Option.elim_some]
      rw [e.chars_mapSpans]
      rfl
  | expr e => rw [Stmt.kept, Stmt.chars, Stmt.chars, e.chars_mapSpans]

theorem Decl.lines_kept (d : Decl) : d.kept.lines = d.lines := by
  cases d with
  | triad d =>
    rw [Decl.kept, Decl.lines, Decl.lines, Triad.mapSpans, List.map_map]
    rfl
  | function f =>
    have hstmts : (f.body.stmts.map Stmt.kept).map (fun s => indentedChars s.chars) =
        f.body.stmts.map (fun s => indentedChars s.chars) := by
      rw [List.map_map]
      refine List.map_congr_left fun s _ => ?_
      show indentedChars s.kept.chars = _
      rw [s.chars_kept]
    rw [Decl.kept, Decl.lines, Decl.lines, Function.kept, List.map_map, hstmts]
    rfl

theorem size_unique {m? n? : Option Nat} {rest rest' : List Char}
    (h : m?.elim [] (fun n => '[' :: ((toString n).toList ++ [']'])) ++ ' ' :: rest =
      n?.elim [] (fun n => '[' :: ((toString n).toList ++ [']'])) ++ ' ' :: rest') :
    m? = n? ∧ rest = rest' := by
  cases m? with
  | none =>
    cases n? with
    | none => exact ⟨rfl, (List.cons.inj h).2⟩
    | some n => exact absurd (List.cons.inj h).1 (by decide)
  | some m =>
    cases n? with
    | none => exact absurd (List.cons.inj h).1 (by decide)
    | some n =>
      have hsize := (List.cons.inj h).2
      rw [List.append_eq, List.append_eq, List.append_assoc, List.append_assoc] at hsize
      obtain ⟨hnumber, hmore⟩ := (consists_toString m).unique (consists_toString n)
        (halts_cons.2 rfl) (halts_cons.2 rfl) hsize
      exact ⟨by rw [toString_inj hnumber], (List.cons.inj (List.cons.inj hmore).2).2⟩

theorem Field.eq_of_chars {f g : Field} (hf : f.WellFormed) (hg : g.WellFormed)
    (h : f.chars = g.chars) : f.mapSpans .erase = g.mapSpans .erase := by
  have hhalts : ∀ (n? : Option Nat) (rest : List Char), Halts Rule.isWordPart
      (n?.elim [] (fun n => '[' :: ((toString n).toList ++ [']'])) ++ ' ' :: rest) := by
    intro n? rest
    cases n? <;> exact halts_cons.2 rfl
  obtain ⟨htype, hrest⟩ := hf.type.consists.unique hg.type.consists (hhalts _ _) (hhalts _ _) h
  obtain ⟨hsize, hname⟩ := size_unique hrest
  obtain ⟨hident, -⟩ := hf.ident.consists.unique hg.ident.consists (halts_cons.2 rfl)
    (halts_cons.2 rfl) hname
  rw [Field.mapSpans, Field.mapSpans, Ident.mapSpan_erase htype, Ident.mapSpan_erase hident, hsize]

theorem consists_elim {i? : Option Ident} {default : String} (h : ∀ i ∈ i?, IsName i.name)
    (hdefault : Consists Rule.isWordPart default) :
    Consists Rule.isWordPart (i?.elim default Ident.name) := by
  cases i? with
  | none => exact hdefault
  | some i => exact (h i rfl).consists

theorem VarDecl.WellFormed.consists_type {v : VarDecl} (h : v.WellFormed) :
    Consists Rule.isWordPart (v.type?.elim "auto" Ident.name) :=
  consists_elim h.type? (by decide +kernel)

theorem VarDecl.WellFormed.type_ne_mutable {v : VarDecl} (h : v.WellFormed) :
    v.type?.elim "auto" Ident.name ≠ "mutable" := by
  cases ht : v.type? with
  | none => decide
  | some t =>
    intro hm
    have hname := (h.type? t ht).2
    rw [show t.name = "mutable" from hm] at hname
    exact absurd hname (by decide)

theorem initial_unique {e? e'? : Option Expr} (he : ∀ e ∈ e?, e.WellFormed)
    (he' : ∀ e ∈ e'?, e.WellFormed)
    (h : e?.elim [] (fun e => " = ".toList ++ e.chars) ++ [';'] =
      e'?.elim [] (fun e => " = ".toList ++ e.chars) ++ [';']) :
    e?.map (Expr.mapSpans .erase) = e'?.map (Expr.mapSpans .erase) := by
  cases e? with
  | none =>
    cases e'? with
    | none => rfl
    | some e' => exact absurd (List.cons.inj h).1 (by decide)
  | some e =>
    cases e'? with
    | none => exact absurd (List.cons.inj h).1 (by decide)
    | some e' =>
      rw [Option.elim_some, Option.elim_some, List.append_assoc, List.append_assoc] at h
      obtain ⟨hbare, -⟩ := (he e rfl).plain.legible (he' e' rfl).plain (halts_cons.2 rfl)
        (halts_cons.2 rfl) (List.append_cancel_left h)
      rw [Option.map_some, Option.map_some, hbare]

/-- What follows the word `mutable`, or the whole line if there is none. -/
theorem VarDecl.kept_eq_of_tail {v w : VarDecl} (hv : v.WellFormed) (hw : w.WellFormed)
    (hm : v.isMutable = w.isMutable)
    (h : (v.type?.elim "auto" Ident.name).toList ++ ' ' :: (v.ident.name.toList ++
        (v.initial?.elim [] (fun e => " = ".toList ++ e.chars) ++ [';'])) =
      (w.type?.elim "auto" Ident.name).toList ++ ' ' :: (w.ident.name.toList ++
        (w.initial?.elim [] (fun e => " = ".toList ++ e.chars) ++ [';']))) : v.kept = w.kept := by
  have hhalts : ∀ e? : Option Expr, Halts Rule.isWordPart
      (e?.elim [] (fun e => " = ".toList ++ e.chars) ++ [';']) := by
    intro e?
    cases e? <;> exact halts_cons.2 rfl
  obtain ⟨htype, hrest⟩ := hv.consists_type.unique hw.consists_type (halts_cons.2 rfl)
    (halts_cons.2 rfl) h
  obtain ⟨hident, hinitial⟩ := hv.ident.consists.unique hw.ident.consists (hhalts _) (hhalts _)
    (List.cons.inj hrest).2
  rw [VarDecl.kept, VarDecl.kept, htype, hm, Ident.mapSpan_erase hident,
    initial_unique hv.initial? hw.initial? hinitial]

theorem VarDecl.kept_eq_of_chars {v w : VarDecl} (hv : v.WellFormed) (hw : w.WellFormed)
    (h : v.chars = w.chars) : v.kept = w.kept := by
  have hword : Consists Rule.isWordPart "mutable" := by decide +kernel
  have hsplit : "mutable ".toList = "mutable".toList ++ [' '] := by decide +kernel
  rw [VarDecl.chars, VarDecl.chars] at h
  cases hvm : v.isMutable with
  | true =>
    cases hwm : w.isMutable with
    | true =>
      rw [hvm, hwm] at h
      exact VarDecl.kept_eq_of_tail hv hw (hvm.trans hwm.symm) (List.append_cancel_left h)
    | false =>
      rw [hvm, hwm, if_pos rfl, hsplit, List.append_assoc] at h
      obtain ⟨htype, -⟩ := hword.unique hw.consists_type (halts_cons.2 rfl) (halts_cons.2 rfl) h
      exact absurd htype.symm hw.type_ne_mutable
  | false =>
    cases hwm : w.isMutable with
    | true =>
      rw [hvm, hwm, if_pos rfl, hsplit, List.append_assoc] at h
      obtain ⟨htype, -⟩ := hv.consists_type.unique hword (halts_cons.2 rfl) (halts_cons.2 rfl) h
      exact absurd htype hv.type_ne_mutable
    | false =>
      rw [hvm, hwm] at h
      exact VarDecl.kept_eq_of_tail hv hw (hvm.trans hwm.symm) h

theorem Expr.Plain.exists_atom {e : Expr} (h : e.Plain) : ∃ k s tail, IsAtom k s ∧
    e.chars ++ [';'] = s.toList ++ tail ∧ (tail = [';'] ∨ ∃ cs, tail = '(' :: cs) := by
  cases h with
  | literal hl => exact ⟨_, _, _, hl.isAtom, rfl, Or.inl rfl⟩
  | name hi => exact ⟨_, _, _, isAtom_of_isName hi, rfl, Or.inl rfl⟩
  | call hi _ => exact ⟨_, _, _, isAtom_of_isName hi, Expr.chars_call_append .., Or.inr ⟨_, rfl⟩⟩

/-- The first word of a variable is followed by a blank, and no expression begins in
this way. -/
theorem VarDecl.chars_ne_expr {v : VarDecl} {e : Expr} (hv : v.WellFormed) (he : e.Plain) :
    v.chars ≠ e.chars ++ [';'] := by
  intro h
  obtain ⟨k, s, tail, hs, hchars, htail⟩ := he.exists_atom
  have hatom : ∀ {t : String}, Consists Rule.isWordPart t → Consists isAtomPart t := by
    intro t ht c hc
    rw [isAtomPart, ht c hc]
    rfl
  have hhalts : Halts isAtomPart tail := by
    rcases htail with rfl | ⟨cs, rfl⟩ <;> exact halts_cons.2 rfl
  have hfirst : ∃ t : String, Consists Rule.isWordPart t ∧
      ∃ rest, v.chars = t.toList ++ ' ' :: rest := by
    rw [VarDecl.chars]
    cases v.isMutable with
    | true => exact ⟨"mutable", by decide +kernel, _, rfl⟩
    | false => exact ⟨_, hv.consists_type, _, rfl⟩
  obtain ⟨t, ht, rest, hrest⟩ := hfirst
  rw [hrest, hchars] at h
  obtain ⟨-, hblank⟩ := (hatom ht).unique hs.consists (halts_cons.2 rfl) hhalts h
  rcases htail with rfl | ⟨cs, rfl⟩
  · exact absurd (List.cons.inj hblank).1 (by decide)
  · exact absurd (List.cons.inj hblank).1 (by decide)

theorem Stmt.kept_eq_of_chars {s t : Stmt} (hs : s.WellFormed) (ht : t.WellFormed)
    (h : s.chars = t.chars) : s.kept = t.kept := by
  cases s with
  | var v =>
    cases t with
    | var w => exact congrArg Stmt.var (VarDecl.kept_eq_of_chars hs ht h)
    | expr e => exact absurd h (VarDecl.chars_ne_expr hs (Expr.WellFormed.plain ht))
  | expr e =>
    cases t with
    | var w => exact absurd h.symm (VarDecl.chars_ne_expr ht (Expr.WellFormed.plain hs))
    | expr e' =>
      obtain ⟨hbare, -⟩ := (Expr.WellFormed.plain hs).legible (Expr.WellFormed.plain ht)
        (halts_cons.2 rfl) (halts_cons.2 rfl) h
      rw [Stmt.kept, Stmt.kept, hbare]

theorem body_unique {α β : Type} {ok : α → Prop} {chars : α → List Char} {kept : α → β}
    {footer : List Char} (hkept : ∀ a b, ok a → ok b → chars a = chars b → kept a = kept b)
    (hfooter : footer.head? ≠ some ' ') {as bs : List α} {rest rest' : List (List Char)}
    (ha : ∀ a ∈ as, ok a) (hb : ∀ b ∈ bs, ok b)
    (h : as.map (fun a => indentedChars (chars a)) ++ footer :: rest =
      bs.map (fun b => indentedChars (chars b)) ++ footer :: rest') :
    as.map kept = bs.map kept ∧ rest = rest' := by
  have hne : ∀ a, indentedChars (chars a) ≠ footer := by
    rintro a rfl
    exact hfooter rfl
  induction as generalizing bs with
  | nil =>
    cases bs with
    | nil => exact ⟨rfl, (List.cons.inj h).2⟩
    | cons b bs => exact absurd (List.cons.inj h).1.symm (hne b)
  | cons a as ih =>
    cases bs with
    | nil => exact absurd (List.cons.inj h).1 (hne a)
    | cons b bs =>
      obtain ⟨hline, hlines⟩ := List.cons.inj h
      have hchars := (List.cons.inj (List.cons.inj hline).2).2
      have hone := hkept a b (ha a List.mem_cons_self) (hb b List.mem_cons_self) hchars
      obtain ⟨hall, hrest⟩ := ih (fun a ha' => ha a (List.mem_cons_of_mem _ ha'))
        (fun b hb' => hb b (List.mem_cons_of_mem _ hb')) hlines
      exact ⟨by rw [List.map_cons, List.map_cons, hone, hall], hrest⟩

theorem Triad.unique {d d' : Triad} (hd : d.WellFormed) (hd' : d'.WellFormed)
    {rest rest' : List (List Char)}
    (h : (Decl.triad d).lines ++ rest = (Decl.triad d').lines ++ rest') :
    d.mapSpans .erase = d'.mapSpans .erase ∧ rest = rest' := by
  obtain ⟨hheader, hbody⟩ := List.cons.inj h
  obtain ⟨hident, -⟩ := hd.ident.consists.unique hd'.ident.consists (halts_cons.2 rfl)
    (halts_cons.2 rfl) (List.append_cancel_left hheader)
  rw [List.append_eq, List.append_eq, List.append_assoc, List.append_assoc] at hbody
  obtain ⟨hfields, hrest⟩ := body_unique (fun _ _ => Field.eq_of_chars) (by decide) hd.fields
    hd'.fields hbody
  exact ⟨by rw [Triad.mapSpans, Triad.mapSpans, Ident.mapSpan_erase hident, hfields], hrest⟩

theorem Function.WellFormed.consists_result {f : Function} (h : f.WellFormed) :
    Consists Rule.isWordPart (f.result?.elim "void" Ident.name) :=
  consists_elim h.result? (by decide +kernel)

theorem Param.WellFormed.exists_first {p : Param} (h : p.WellFormed) :
    ∃ c cs, p.chars = c :: cs ∧ c ≠ ')' := by
  obtain ⟨c, cs, hcs, hc⟩ := (isAtom_of_isName h.type).exists_first
  refine ⟨c, cs ++ ' ' :: p.ident.name.toList, by rw [Param.chars, hcs]; rfl, ?_⟩
  rintro rfl
  exact absurd hc (by decide)

theorem Function.unique {f g : Function} (hf : f.WellFormed) (hg : g.WellFormed)
    {rest rest' : List (List Char)}
    (h : (Decl.function f).lines ++ rest = (Decl.function g).lines ++ rest') :
    f.kept = g.kept ∧ rest = rest' := by
  obtain ⟨hheader, hbody⟩ := List.cons.inj h
  have hclose : ") \x7b".toList = ')' :: " \x7b".toList := by decide +kernel
  obtain ⟨hresult, hmore⟩ := hf.consists_result.unique hg.consists_result (halts_cons.2 rfl)
    (halts_cons.2 rfl) hheader
  obtain ⟨hident, hopen⟩ := hf.ident.consists.unique hg.ident.consists (halts_cons.2 rfl)
    (halts_cons.2 rfl) (List.cons.inj hmore).2
  have hcommas := (List.cons.inj hopen).2
  rw [hclose] at hcommas
  obtain ⟨hparams, -⟩ := commaChars_unique rfl rfl (fun _ => Param.WellFormed.exists_first)
    (fun p hp => ⟨hf.params p hp, (hf.params p hp).legible⟩) hg.params hcommas
  rw [List.append_eq, List.append_eq, List.append_assoc, List.append_assoc] at hbody
  obtain ⟨hstmts, hrest⟩ := body_unique (fun _ _ => Stmt.kept_eq_of_chars) (by decide) hf.body
    hg.body hbody
  refine ⟨?_, hrest⟩
  rw [Function.kept, Function.kept, hresult, Ident.mapSpan_erase hident, hparams, hstmts]

theorem header_ne {d : Triad} {f : Function} (hd : d.WellFormed) (hf : f.WellFormed)
    {rest rest' : List (List Char)} :
    (Decl.triad d).lines ++ rest ≠ (Decl.function f).lines ++ rest' := by
  intro h
  have hstruct : Consists Rule.isWordPart "struct" := by decide +kernel
  have hsplit : "struct ".toList = "struct".toList ++ [' '] := by decide +kernel
  obtain ⟨hheader, -⟩ := List.cons.inj h
  rw [hsplit, List.append_assoc] at hheader
  obtain ⟨-, hmore⟩ := hstruct.unique hf.consists_result (halts_cons.2 rfl) (halts_cons.2 rfl)
    hheader
  obtain ⟨-, hrest⟩ := hd.ident.consists.unique hf.ident.consists (halts_cons.2 rfl)
    (halts_cons.2 rfl) (List.cons.inj hmore).2
  exact absurd (List.cons.inj hrest).1 (by decide)

/-- A declaration is read off from its lines, whatever lines follow. -/
theorem Decl.unique {d d' : Decl} (hd : d.WellFormed) (hd' : d'.WellFormed)
    {rest rest' : List (List Char)} (h : d.lines ++ rest = d'.lines ++ rest') :
    d.kept = d'.kept ∧ rest = rest' := by
  cases d with
  | triad d =>
    cases d' with
    | triad d' =>
      obtain ⟨hbare, hrest⟩ := Triad.unique hd hd' h
      exact ⟨congrArg Decl.triad hbare, hrest⟩
    | function f => exact absurd h (header_ne hd hd')
  | function f =>
    cases d' with
    | triad d' => exact absurd h.symm (header_ne hd' hd)
    | function g =>
      obtain ⟨hkept, hrest⟩ := Function.unique hd hd' h
      exact ⟨congrArg Decl.function hkept, hrest⟩

theorem Program.lines_kept (p : Program) : p.kept.lines = p.lines := by
  rw [Program.lines, Program.kept, List.flatMap_map]
  exact congrArg (List.flatMap · p.decls) (funext Decl.lines_kept)

theorem Program.lines_eq_iff {p q : Program} (hp : p.WellFormed) (hq : q.WellFormed) :
    p.lines = q.lines ↔ p.kept = q.kept := by
  constructor
  · intro h
    obtain ⟨ds⟩ := p
    obtain ⟨es⟩ := q
    have hkept : ds.map Decl.kept = es.map Decl.kept := by
      rw [Program.lines, Program.lines] at h
      induction ds generalizing es with
      | nil =>
        cases es with
        | nil => rfl
        | cons e es =>
          obtain ⟨header, lines, hlines, -⟩ := e.exists_header
          rw [List.flatMap_cons, hlines] at h
          cases h
      | cons d ds ih =>
        cases es with
        | nil =>
          obtain ⟨header, lines, hlines, -⟩ := d.exists_header
          rw [List.flatMap_cons, hlines] at h
          cases h
        | cons e es =>
          obtain ⟨hd, hds⟩ := List.forall_mem_cons.1 hp
          obtain ⟨he, hes⟩ := List.forall_mem_cons.1 hq
          obtain ⟨hone, hrest⟩ := Decl.unique hd he h
          rw [List.map_cons, List.map_cons, hone, ih hds es hes hrest]
    exact congrArg Program.mk hkept
  · intro h
    rw [← p.lines_kept, h, q.lines_kept]

end TriadLang
