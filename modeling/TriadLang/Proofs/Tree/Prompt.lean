import TriadLang.Proofs.Tree.Lookahead

namespace TriadLang

open Spelling

namespace Reader

variable {c d : Cursor} {D : List Token → Prop}

theorem exprWith_of_call {arguments : Span → Reader (List Expr)} {t opening : Token}
    (hk : t.kind = .ident) (ho : opening.kind = .openParen) (hp : c.Passes [t, opening] d) :
    exprWith arguments c = (do
      let args ← arguments t.span
      let close ← expect .closeParen
      return .call (.name t.ident t.span) args (t.span.cover close.span) : Reader Expr) d := by
  obtain ⟨hp₁, hp₂⟩ := Cursor.passes_cons.1 hp
  rw [exprWith, bind_of_ok (show peek c = .ok c.peek c from rfl), hp.peek, hk]
  dsimp only
  rw [bind_of_ok (show skip c = .ok () c.advance from rfl), bind_of_ok (accept_of_passes ho hp₂),
    hp₂.advance]
  rfl

theorem exprWith_of_not_literal (arguments : Span → Reader (List Expr)) {t : Token}
    (hk : t.kind ≠ .ident) (hl : ¬ ∃ l, Literal.Spelled l t) :
    ∃ e : ParseFault, e.MetAt D [] t ∧ ∀ c, c.peek = t → exprWith arguments c = .error e c := by
  obtain ⟨k, lexeme, span⟩ := t
  cases k
  case ident => exact absurd rfl hk
  case litTrue => exact absurd ⟨_, .litTrue rfl⟩ hl
  case litFalse => exact absurd ⟨_, .litFalse rfl⟩ hl
  case uncertain => exact absurd ⟨_, .uncertain rfl⟩ hl
  case number =>
    cases hn : readInteger? lexeme with
    | some n => exact absurd ⟨_, .int rfl hn⟩ hl
    | none =>
      refine ⟨.numberOutOfRange lexeme span, ⟨rfl, rfl, rfl⟩, fun c hc => ?_⟩
      have hvalue : integer ⟨.number, lexeme, span⟩ c =
          .error (.numberOutOfRange lexeme span) c := by
        rw [integer, hn]
        rfl
      have hliteral : (Literal.int <$> integer ⟨.number, lexeme, span⟩ : Reader Literal) c =
          .error (.numberOutOfRange lexeme span) c := bind_of_error hvalue _
      rw [exprWith, bind_of_ok (show peek c = .ok c.peek c from rfl), hc]
      exact bind_of_error hliteral _
  all_goals
    refine ⟨.unexpected .expression _ span, ParseFault.metAt_unexpected .expression _, fun c hc => ?_⟩
    rw [exprWith, bind_of_ok (show peek c = .ok c.peek c from rfl), hc]
    rfl

theorem exprWith_promptAt {arguments : Span → Reader (List Expr)} {Args : Spelling (List Expr)}
    (hstart : (Expr.SpelledWith Args).Extends [])
    (hcall : c.peek.kind = .ident → c.advance.peek.kind = .openParen →
      (exprWith arguments).PromptAt (Expr.SpelledWith Args) D c) :
    (exprWith arguments).PromptAt (Expr.SpelledWith Args) D c := by
  by_cases hk : c.peek.kind = .ident
  · by_cases ho : c.advance.peek.kind = .openParen
    · exact hcall hk ho
    · refine .ok (.name hk) (Cursor.passes_advance (by rw [hk]; decide)) fun c' d' hp hd => ?_
      rw [exprWith_name (by rwa [hp.peek]), hp.peek, hp.advance, hd]
      exact Or.inl ⟨ho, rfl, rfl⟩
  · by_cases hl : ∃ l, Literal.Spelled l c.peek
    · obtain ⟨l, hl⟩ := hl
      have hne : c.peek.kind ≠ .eof := by
        intro heof
        have hopens := hl.opensExpr.1
        rw [heof] at hopens
        exact absurd hopens (by decide)
      refine .ok (.literal hl) (Cursor.passes_advance hne) fun c' d' hp _ => ?_
      rw [exprWith_literal (by rwa [hp.peek]), hp.peek, hp.advance]
      exact ⟨l, hl, rfl, rfl⟩
    · obtain ⟨e, hmet, hx⟩ := exprWith_of_not_literal arguments hk hl
      exact promptAt_of_peek hmet hstart fun c' hc => ⟨c', hx c' hc⟩

/-- A call is too deep at its opening parenthesis, inside of as many others as there may
be. -/
theorem expr_prompt (budget : Nat) :
    (expr budget).Prompt (Expr.Spelled budget) (InCalls budget) := by
  have hstart : ∀ Args, (Expr.SpelledWith Args).Extends [] := fun Args =>
    ⟨_, [Token.sample .litTrue], .literal (.litTrue rfl),
      List.forall_mem_singleton.2 ⟨by decide, Token.fits_sample _⟩⟩
  have hpair : ∀ c : Cursor, c.peek.kind = .ident → c.advance.peek.kind = .openParen →
      c.Passes [c.peek, c.advance.peek] c.advance.advance := fun c hk ho =>
    Cursor.passes_cons.2 ⟨Cursor.passes_advance (by rw [hk]; decide),
      Cursor.passes_advance (by rw [ho]; decide)⟩
  induction budget with
  | zero =>
    refine ⟨hstart _, fun c => exprWith_promptAt (hstart _) fun hk ho => ?_⟩
    have hview : [c.peek] ++ [c.advance.peek] <+: c.view := by
      rw [(hpair c hk ho).view_eq]
      exact List.prefix_append _ _
    have hmet : ParseFault.MetAt (InCalls 0) [c.peek] c.advance.peek
        (.nestingTooDeep maxNesting c.peek.span) :=
      ⟨[], c.peek, rfl, ⟨hk, rfl, rfl⟩, ho, .outside⟩
    refine .error hmet (extends_of_spelled (.name hk)) hview fun c' hview' => ?_
    obtain ⟨d', hp⟩ := Cursor.exists_passes_of_singleton hview' (by rw [ho]; decide)
    exact ⟨d', exprWith_of_call hk ho hp⟩
  | succ budget ih =>
    refine ⟨hstart _, fun c => exprWith_promptAt (hstart _) fun hk ho => ?_⟩
    have hargs : (commaList (expr budget)).Prompt (CommaList (Expr.Spelled budget))
        fun us => InCalls (budget + 1) (c.peek :: c.advance.peek :: us) :=
      commaList_prompt ih fun as ts us has hus => .inside hk ho has hus
    refine .step (hpair c hk ho) (fun c' d' hp' _ => exprWith_of_call hk ho hp')
      ((hargs.promptAt _).bind (fun args ts hts => ?_) fun us h => h)
    refine (expect_prompt (by decide)).map ?_ fun us h => h
    rintro closing us ⟨hc, rfl⟩
    exact .call hk ho hts hc

theorem expr_steady : (expr maxNesting).Steady (Expr.Spelled maxNesting) :=
  (expr_prompt maxNesting).mono (fun _ _ h => h) fun us hus =>
    ⟨[], us, rfl, hus, fun _ _ he => extends_of_spelled he⟩

theorem varDecl_promptAt (hk : c.peek.kind = .immutable ∨ c.peek.kind = .mutable) :
    varDecl.PromptAt VarDecl.Spelled (Deep VarDecl.Spelled) c := by
  have hrest : (do
      let ident ← ident
      let type? ← after? .colon Reader.ident
      let initial? ← after? .assign (expr maxNesting)
      let _ ← expect .semicolon
      return { ident, type?, isMutable := c.peek.kind == .mutable, initial? } :
        Reader VarDecl).Steady (VarDecl.Spelled.behind [c.peek]) := by
    refine Steady.bind ident_prompt fun i is hi => ?_
    refine (after?_steady (by decide) ident_prompt).bind fun t ts ht => ?_
    refine (after?_steady (by decide) expr_steady).bind fun e es he => ?_
    refine Steady.map (expect_prompt (by decide)) ?_
    rintro semicolon us ⟨hs, rfl⟩
    exact .mk hk hi ht he hs
  have hword := Cursor.passes_advance (c := c) (by rcases hk with hk | hk <;> rw [hk] <;> decide)
  refine .step_deep hword (fun c' d' hp _ => ?_) (hrest.promptAt c.advance)
  rw [varDecl, bind_of_ok (show peek c' = .ok c'.peek c' from rfl),
    bind_of_ok (show skip c' = .ok () c'.advance from rfl), hp.peek, hp.advance]

theorem stmt_steady : stmt.Steady Stmt.Spelled := by
  have hexpr : (do
      let value ← expr maxNesting
      let _ ← expect .semicolon
      return .expr value : Reader Stmt).Steady Stmt.Spelled := by
    refine expr_steady.bind fun e ts he => ?_
    refine Steady.map (expect_prompt (by decide)) ?_
    rintro semicolon us ⟨hs, rfl⟩
    exact .expr he hs
  refine ⟨hexpr.start, fun c => ?_⟩
  by_cases hk : c.peek.kind = .immutable ∨ c.peek.kind = .mutable
  · have hvar : (varDecl >>= fun v => pure (.var v)).PromptAt Stmt.Spelled (Deep Stmt.Spelled) c :=
      (varDecl_promptAt hk).map (fun v ts hv => .var hv) fun us hus =>
        hus.mono fun v ts hv => ⟨_, .var hv⟩
    refine .step_deep (Cursor.passes_nil.2 rfl) (fun c' d' hp hd => ?_) hvar
    cases Cursor.passes_nil.1 hp
    rw [stmt, bind_of_ok (show peek c' = .ok c'.peek c' from rfl), hd]
    rcases hk with hk | hk <;> rw [hk]
  · rw [not_or] at hk
    refine .step_deep (Cursor.passes_nil.2 rfl) (fun c' d' hp hd => ?_) (hexpr.promptAt c)
    cases Cursor.passes_nil.1 hp
    exact stmt_of_ne (by rw [hd]; exact hk.1) (by rw [hd]; exact hk.2)

theorem block_steady : block.Steady Block.Spelled := by
  have hfirst : ∀ s ts, Stmt.Spelled s ts → ∃ t us, ts = t :: us := by
    intro s ts h
    obtain ⟨t, us, rfl, -⟩ := h.first
    exact ⟨t, us, rfl⟩
  refine Steady.bind (expect_prompt (by decide)) ?_
  rintro opening _ ⟨ho, rfl⟩
  refine (repeatUntil_steady stmt_steady hfirst).bind fun stmts ts hs => ?_
  refine Steady.map (expect_prompt (by decide)) ?_
  rintro closing _ ⟨hc, rfl⟩
  exact .mk ho hs hc

theorem param_steady : param.Steady Param.Spelled := by
  refine Steady.bind ident_prompt fun i is hi => ?_
  refine Steady.bind (expect_prompt (by decide)) ?_
  rintro colon _ ⟨hc, rfl⟩
  exact Steady.map ident_prompt fun t ts ht => .mk hi hc ht

theorem function_steady (isFractal : Bool) :
    (function isFractal).Steady (Function.Spelled isFractal) := by
  have hrest : ∀ word : Token, word.isFunctionWord → (do
      let ident ← ident
      let _ ← expect .openParen
      let params ← commaList param
      let _ ← expect .closeParen
      let result? ← after? .arrow Reader.ident
      let body ← block
      return { ident, params, result?, body, isFractal } :
        Reader Function).Steady ((Function.Spelled isFractal).behind [word]) := by
    intro word hw
    refine Steady.bind ident_prompt fun i is hi => ?_
    refine Steady.bind (expect_prompt (by decide)) ?_
    rintro opening _ ⟨ho, rfl⟩
    refine (commaList_steady param_steady).bind fun params ps hp => ?_
    refine Steady.bind (expect_prompt (by decide)) ?_
    rintro closing _ ⟨hc, rfl⟩
    refine (after?_steady (by decide) ident_prompt).bind fun result? rs hr => ?_
    refine block_steady.map fun body bs hb => ?_
    have hspelled : Function.Spelled isFractal _ _ := .mk hw hi ho hp hc hr hb
    exact hspelled
  have hstart : (Function.Spelled isFractal).Extends [] :=
    extends_of_behind_singleton (t := ⟨.ident, "function", .zero⟩) (by decide)
      (by decide : IsName "function") (hrest _ rfl).start
  refine ⟨hstart, fun c => ?_⟩
  by_cases hw : c.peek.isFunctionWord
  · have hword := Cursor.passes_advance (c := c) (by rw [Token.kind_of_isFunctionWord hw]; decide)
    refine .step_deep hword (fun c' d' hp _ => ?_) ((hrest _ hw).promptAt c.advance)
    rw [function, bind_of_ok (show peek c' = .ok c'.peek c' from rfl), hp.peek, if_pos hw,
      bind_of_ok (show skip c' = .ok () c'.advance from rfl), hp.advance]
  · refine promptAt_of_peek (ParseFault.metAt_unexpected .functionWord c.peek) hstart
      fun c' hc => ⟨c', ?_⟩
    rw [function, bind_of_ok (show peek c' = .ok c'.peek c' from rfl), hc, if_neg hw]
    rfl

theorem arraySize_steady : arraySize.Steady SpelledSize := by
  have heq : arraySize = (do
      let size ← (expect .number >>= integer)
      let _ ← expect .closeSquare
      return size : Reader Nat) := by
    rw [arraySize, bind_assoc]
  rw [heq]
  refine Steady.bind number_prompt ?_
  rintro n _ ⟨t, rfl, hk, hn⟩
  refine Steady.map (expect_prompt (by decide)) ?_
  rintro closing _ ⟨hc, rfl⟩
  exact .mk hk hn hc

theorem field_steady : field.Steady Field.Spelled := by
  refine Steady.bind ident_prompt fun i is hi => ?_
  refine Steady.bind (expect_prompt (by decide)) ?_
  rintro colon _ ⟨hc, rfl⟩
  refine Steady.bind ident_prompt fun t ts ht => ?_
  refine (after?_steady (by decide) arraySize_steady).bind fun size? as ha => ?_
  refine Steady.map (expect_prompt (by decide)) ?_
  rintro semicolon _ ⟨hs, rfl⟩
  exact .mk hi hc ht ha hs

theorem triad_steady : triad.Steady Triad.Spelled := by
  have hfirst : ∀ f ts, Field.Spelled f ts → ∃ t us, ts = t :: us := by
    intro f ts h
    obtain ⟨t, us, rfl, -⟩ := h.first
    exact ⟨t, us, rfl⟩
  refine Steady.bind (expect_prompt (by decide)) ?_
  rintro word _ ⟨hw, rfl⟩
  refine Steady.bind ident_prompt fun i is hi => ?_
  refine Steady.bind (expect_prompt (by decide)) ?_
  rintro opening _ ⟨ho, rfl⟩
  refine (repeatUntil_steady field_steady hfirst).bind fun fields fs hf => ?_
  refine Steady.map (expect_prompt (by decide)) ?_
  rintro closing _ ⟨hc, rfl⟩
  exact .mk hw hi ho hf hc

theorem decl_steady : decl.Steady Decl.Spelled := by
  have htriad : (triad >>= fun d => pure (.triad d)).Steady Decl.Spelled :=
    triad_steady.map fun d ts hd => .triad hd
  refine ⟨htriad.start, fun c => ?_⟩
  by_cases ht : c.peek.kind = .triad
  · refine .step_deep (Cursor.passes_nil.2 rfl) (fun c' d' hp hd => ?_) (htriad.promptAt c)
    cases Cursor.passes_nil.1 hp
    rw [decl, bind_of_ok (show peek c' = .ok c'.peek c' from rfl), hd, if_pos ht]
  by_cases hf : c.peek.kind = .fractal
  · have hfunction : (function true >>= fun f => pure (.function f)).Steady
        (Decl.Spelled.behind [c.peek]) :=
      (function_steady true).map fun f ts hspelled => .fractal hf hspelled
    have hword := Cursor.passes_advance (c := c) (by rw [hf]; decide)
    refine .step_deep hword (fun c' d' hp _ => ?_) (hfunction.promptAt c.advance)
    rw [decl, bind_of_ok (show peek c' = .ok c'.peek c' from rfl), hp.peek, if_neg ht, if_pos hf,
      bind_of_ok (show skip c' = .ok () c'.advance from rfl), hp.advance]
  by_cases hw : c.peek.isFunctionWord
  · have hfunction : (function false >>= fun f => pure (.function f)).Steady Decl.Spelled :=
      (function_steady false).map fun f ts hspelled => .function hspelled
    refine .step_deep (Cursor.passes_nil.2 rfl) (fun c' d' hp hd => ?_) (hfunction.promptAt c)
    cases Cursor.passes_nil.1 hp
    rw [decl, bind_of_ok (show peek c' = .ok c'.peek c' from rfl), hd, if_neg ht, if_neg hf,
      if_pos hw]
  · refine promptAt_of_peek (ParseFault.metAt_unexpected .declaration c.peek) htriad.start
      fun c' hc => ⟨c', ?_⟩
    rw [decl, bind_of_ok (show peek c' = .ok c'.peek c' from rfl), hc, if_neg ht, if_neg hf,
      if_neg hw]
    rfl

theorem program_steady : program.Steady Program.Spelled := by
  have hfirst : ∀ d ts, Decl.Spelled d ts → ∃ t us, ts = t :: us := by
    intro d ts h
    obtain ⟨t, us, rfl, -⟩ := h.first
    exact ⟨t, us, rfl⟩
  exact (repeatUntil_steady decl_steady hfirst).map fun decls ts h => h

end Reader

end TriadLang
