import TriadLang.Proofs.Tree.Drafting
import TriadLang.Proofs.Tree.Grammar
import TriadLang.Proofs.Tree.Spans

namespace TriadLang

section

variable {α : Type} {f : Span → Span} {move : α → α} {L : Spelling α}

/-- What tokens spell moves with them. -/
def Moves (f : Span → Span) (move : α → α) (L : Spelling α) : Prop :=
  ∀ ⦃a ts⦄, L a ts → L (move a) (ts.map (Token.mapSpan f))

theorem many_moves (h : Moves f move L) : Moves f (List.map move) (Spelling.Many L) := by
  intro as ts has
  induction has with
  | nil => exact .nil
  | cons ha _ ih =>
    rw [List.map_append]
    exact .cons (h ha) ih

theorem separated_moves (h : Moves f move L) :
    Moves f (List.map move) (Spelling.Separated L) := by
  intro as ts has
  induction has with
  | single ha => exact .single (h ha)
  | cons ha hc _ ih =>
    rw [List.map_append, List.map_cons]
    exact .cons (h ha) hc ih

theorem commaList_moves (h : Moves f move L) :
    Moves f (List.map move) (Spelling.CommaList L) := by
  intro as ts has
  cases has with
  | nil => exact .nil
  | some hs => exact .some (separated_moves h hs)

theorem after_moves {k : Kind} (h : Moves f move L) :
    Moves f (Option.map move) (Spelling.After k L) := by
  intro a? ts ha
  cases ha with
  | none => exact .none
  | some hk ha => exact .some hk (h ha)

end

section

variable {f : Span → Span}

theorem ident_moves : Moves f (Ident.mapSpan f) Ident.Spelled := by
  intro i ts h
  cases h with
  | @mk t hk => exact .mk (t := t.mapSpan f) hk

theorem Literal.Spelled.mapSpan {l : Literal} {t : Token} (h : l.Spelled t) :
    l.Spelled (t.mapSpan f) := by
  cases h with
  | int hk hn => exact .int hk hn
  | litTrue hk => exact .litTrue hk
  | litFalse hk => exact .litFalse hk
  | uncertain hk => exact .uncertain (t := t.mapSpan f) hk

theorem size_moves : Moves f id SpelledSize := by
  intro n ts h
  cases h with
  | mk hs hn hc => exact .mk hs hn hc

end

section

variable {f : Span → Span} (hf : ∀ s t : Span, f (s.cover t) = (f s).cover (f t))
include hf

theorem exprWith_moves {Args : Spelling (List Expr)}
    (ha : Moves f (List.map (Expr.mapSpans f)) Args) :
    Moves f (Expr.mapSpans f) (Expr.SpelledWith Args) := by
  intro e ts h
  cases h with
  | @literal l t hl => exact .literal (t := t.mapSpan f) hl.mapSpan
  | @name t hk => exact .name (t := t.mapSpan f) hk
  | @call t opening closing args ts hk ho hargs hc =>
    rw [Expr.mapSpans, Expr.mapSpans, Expr.mapSpansOfArgs_eq_map, hf, List.map_cons,
      List.map_cons, List.map_append]
    exact @.call _ (t.mapSpan f) _ (closing.mapSpan f) _ _ hk ho (ha hargs) hc

theorem expr_moves (budget : Nat) : Moves f (Expr.mapSpans f) (Expr.Spelled budget) := by
  induction budget with
  | zero => exact exprWith_moves hf fun _ _ h => h.elim
  | succ budget ih => exact exprWith_moves hf (commaList_moves ih)

theorem varDecl_moves : Moves f (VarDecl.mapSpans f) VarDecl.Spelled := by
  intro v ts h
  cases h with
  | @mk word semicolon ident type? initial? is ts es hw hi ht he hs =>
    simp only [List.map_cons, List.map_append, List.map_nil]
    exact @.mk (word.mapSpan f) _ _ _ _ _ _ _ hw (ident_moves hi) (after_moves ident_moves ht)
      (after_moves (expr_moves hf _) he) hs

theorem stmt_moves : Moves f (Stmt.mapSpans f) Stmt.Spelled := by
  intro s ts h
  cases h with
  | var hv => exact .var (varDecl_moves hf hv)
  | expr he hs =>
    rw [List.map_append]
    exact .expr (expr_moves hf _ he) hs

theorem block_moves : Moves f (Block.mapSpans f) Block.Spelled := by
  intro b ts h
  cases h with
  | @mk opening closing stmts ts ho hs hc =>
    rw [List.map_cons, List.map_append, Block.mapSpans, hf]
    exact @.mk (opening.mapSpan f) (closing.mapSpan f) _ _ ho
      (many_moves (stmt_moves hf) hs) hc

omit hf in
theorem param_moves : Moves f (Param.mapSpans f) Param.Spelled := by
  intro p ts h
  cases h with
  | mk hi hc ht =>
    rw [List.map_append, List.map_cons]
    exact .mk (ident_moves hi) hc (ident_moves ht)

theorem function_moves (isFractal : Bool) :
    Moves f (Function.mapSpans f) (Function.Spelled isFractal) := by
  intro d ts h
  cases h with
  | mk hw hi ho hp hc hr hb =>
    simp only [List.map_cons, List.map_append]
    exact .mk hw (ident_moves hi) ho (commaList_moves param_moves hp) hc
      (after_moves ident_moves hr) (block_moves hf hb)

omit hf in
theorem field_moves : Moves f (Field.mapSpans f) Field.Spelled := by
  intro d ts h
  cases h with
  | @mk ident type size? colon semicolon is ts as hi hc ht ha hs =>
    simp only [List.map_cons, List.map_append, List.map_nil]
    have ha' := after_moves size_moves ha (f := f)
    rw [Option.map_id, id] at ha'
    exact .mk (ident_moves hi) hc (ident_moves ht) ha' hs

omit hf in
theorem triad_moves : Moves f (Triad.mapSpans f) Triad.Spelled := by
  intro d ts h
  cases h with
  | mk hw hi ho hfs hc =>
    simp only [List.map_cons, List.map_append, List.map_nil]
    exact .mk hw (ident_moves hi) ho (many_moves field_moves hfs) hc

theorem decl_moves : Moves f (Decl.mapSpans f) Decl.Spelled := by
  intro d ts h
  cases h with
  | triad ht => exact .triad (triad_moves ht)
  | fractal hw hfun => exact .fractal hw (function_moves hf true hfun)
  | function hfun => exact .function (function_moves hf false hfun)

theorem program_moves : Moves f (Program.mapSpans f) Program.Spelled :=
  fun _ _ h => many_moves (decl_moves hf) h

end

section

variable (f : Span → Span)

mutual

theorem Expr.lower_mapSpans : ∀ e : Expr, (e.mapSpans f).lower = e.lower
  | .literal .. => rfl
  | .name .. => rfl
  | .call callee args _ => by
    rw [Expr.mapSpans, Expr.lower, Expr.lower, callee.lower_mapSpans, Expr.lowerArgs_mapSpans]
  | .matching .. => rfl

theorem Expr.lowerArgs_mapSpans :
    ∀ es : List Expr, Expr.lowerArgs (Expr.mapSpansOfArgs f es) = Expr.lowerArgs es
  | [] => rfl
  | e :: es => by
    rw [Expr.mapSpansOfArgs, Expr.lowerArgs, Expr.lowerArgs, e.lower_mapSpans,
      Expr.lowerArgs_mapSpans]

end

theorem Stmt.lower_mapSpans (s : Stmt) : (s.mapSpans f).lower = s.lower := by
  cases s with
  | var v =>
    obtain ⟨ident, type?, isMutable, initial?⟩ := v
    cases initial? with
    | none => cases type? <;> rfl
    | some e =>
      have he := e.lower_mapSpans f
      cases type? <;>
        simp [Stmt.mapSpans, Stmt.lower, VarDecl.mapSpans, VarDecl.lower, VarDecl.lowerInitial,
          Ident.mapSpan, he]
  | expr e => simp [Stmt.mapSpans, Stmt.lower, e.lower_mapSpans f]

theorem Triad.lower_mapSpans (d : Triad) : (d.mapSpans f).lower = d.lower := by
  simp only [Triad.lower, Triad.mapSpans, List.map_map]
  rfl

theorem Function.lower_mapSpans (d : Function) : (d.mapSpans f).lower = d.lower := by
  have hs : (d.mapSpans f).signature = d.signature := by
    simp only [Function.signature, Function.mapSpans, List.map_map]
    cases d.result? <;> rfl
  have hb : (d.mapSpans f).body.stmts.mapM Stmt.lower = d.body.stmts.mapM Stmt.lower := by
    simp only [Function.mapSpans, Block.mapSpans, List.mapM_map]
    exact congrArg (fun g => d.body.stmts.mapM g) (funext (Stmt.lower_mapSpans f))
  rw [Function.lower, Function.lower, hs, hb]

end

end TriadLang
