import TriadLang.Proofs.Tree.Reads

namespace TriadLang

namespace Reader

variable {c d : Cursor}

theorem integer_eq_ok {t : Token} {n : Nat} :
    integer t c = .ok n d ↔ readInteger? t.lexeme = some n ∧ c = d := by
  rw [integer]
  cases readInteger? t.lexeme with
  | none =>
    constructor
    · intro h
      cases h
    · rintro ⟨h, -⟩
      cases h
  | some m =>
    show (pure m : Reader Nat) c = _ ↔ _
    rw [pure_eq_ok, Option.some.injEq]

theorem literal_eq_ok {t : Token} {value : Reader Literal} {e : Expr} :
    literal t value c = .ok e d ↔
      ∃ l c', value c = .ok l c' ∧ e = .literal l t.span ∧ d = c'.advance := by
  rw [literal, bind_eq_ok]
  constructor
  · rintro ⟨l, c', hv, h⟩
    obtain ⟨_, c'', hs, h⟩ := bind_eq_ok.1 h
    cases hs
    obtain ⟨rfl, rfl⟩ := pure_eq_ok.1 h
    exact ⟨l, c', hv, rfl, rfl⟩
  · rintro ⟨l, c', hv, rfl, rfl⟩
    exact ⟨l, c', hv, rfl⟩

theorem exprWith_literal {arguments : Span → Reader (List Expr)} {e : Expr}
    (hk : c.peek.kind ≠ .ident) :
    exprWith arguments c = .ok e d ↔
      ∃ l, Literal.Spelled l c.peek ∧ e = .literal l c.peek.span ∧ d = c.advance := by
  rw [exprWith, bind_of_ok (show peek c = .ok c.peek c from rfl)]
  generalize c.peek = t at hk ⊢
  obtain ⟨k, lexeme, span⟩ := t
  cases k
  case ident => exact absurd rfl hk
  case number =>
    show literal _ (.int <$> integer _) c = _ ↔ _
    rw [literal_eq_ok]
    constructor
    · rintro ⟨l, c', hv, rfl, rfl⟩
      obtain ⟨n, c'', hn, hl⟩ := bind_eq_ok.1 hv
      obtain ⟨hval, rfl⟩ := integer_eq_ok.1 hn
      obtain ⟨rfl, rfl⟩ := pure_eq_ok.1 hl
      exact ⟨_, .int rfl hval, rfl, rfl⟩
    · rintro ⟨l, hl, rfl, rfl⟩
      cases hl with
      | int _ hn => exact ⟨_, c, bind_of_ok (integer_eq_ok.2 ⟨hn, rfl⟩) _, rfl, rfl⟩
      | _ => contradiction
  case litTrue | litFalse | uncertain =>
    show literal _ (pure _) c = _ ↔ _
    rw [literal_eq_ok]
    constructor
    · rintro ⟨l, c', hv, rfl, rfl⟩
      obtain ⟨rfl, rfl⟩ := pure_eq_ok.1 hv
      exact ⟨_, by first | exact .litTrue rfl | exact .litFalse rfl | exact .uncertain rfl, rfl, rfl⟩
    · rintro ⟨l, hl, rfl, rfl⟩
      cases hl <;> first | contradiction | exact ⟨_, c, rfl, rfl, rfl⟩
  all_goals
    constructor
    · intro h
      cases h
    · rintro ⟨l, hl, -, -⟩
      cases hl <;> contradiction

theorem exprWith_name {arguments : Span → Reader (List Expr)} {e : Expr}
    (hk : c.peek.kind = .ident) :
    exprWith arguments c = .ok e d ↔
      (c.advance.peek.kind ≠ .openParen ∧ e = .name c.peek.ident c.peek.span ∧ d = c.advance) ∨
      (c.advance.peek.kind = .openParen ∧ ∃ args c' closing,
        arguments c.peek.span c.advance.advance = .ok args c' ∧
        expect .closeParen c' = .ok closing d ∧
        e = .call (.name c.peek.ident c.peek.span) args (c.peek.span.cover closing.span)) := by
  rw [exprWith, bind_of_ok (show peek c = .ok c.peek c from rfl), hk]
  dsimp only
  rw [bind_of_ok (show skip c = .ok () c.advance from rfl)]
  by_cases ho : c.advance.peek.kind = .openParen
  · rw [bind_of_ok ((accept_eq .openParen c.advance).trans (if_pos ho)), if_pos rfl, bind_eq_ok]
    constructor
    · rintro ⟨args, c', hargs, h⟩
      obtain ⟨closing, c'', hclose, h⟩ := bind_eq_ok.1 h
      obtain ⟨rfl, rfl⟩ := pure_eq_ok.1 h
      exact Or.inr ⟨ho, args, c', closing, hargs, hclose, rfl⟩
    · rintro (⟨hn, -⟩ | ⟨-, args, c', closing, hargs, hclose, rfl⟩)
      · exact absurd ho hn
      · exact ⟨args, c', hargs, bind_of_ok hclose _⟩
  · rw [bind_of_ok (accept_of_ne ho), if_neg (by decide), pure_eq_ok]
    constructor
    · rintro ⟨rfl, rfl⟩
      exact Or.inl ⟨ho, rfl, rfl⟩
    · rintro (⟨-, rfl, rfl⟩ | ⟨hn, -⟩)
      · exact ⟨rfl, rfl⟩
      · exact absurd hn ho

theorem exprWith_reads {arguments : Span → Reader (List Expr)} {Args : Spelling (List Expr)}
    (ha : ∀ span, Reads (arguments span) Args fun n => n = .closeParen) :
    Reads (exprWith arguments) (Expr.SpelledWith Args) fun n => n ≠ .openParen where
  sound {c e d} h := by
    by_cases hk : c.peek.kind = .ident
    · have hp := Cursor.passes_advance (c := c) (by rw [hk]; decide)
      rcases (exprWith_name hk).1 h with ⟨-, rfl, rfl⟩ | ⟨ho, args, c', closing, hargs, hclose, rfl⟩
      · exact ⟨_, .name hk, hp⟩
      · have hp' := Cursor.passes_advance (c := c.advance) (by rw [ho]; decide)
        obtain ⟨ts, hts, hpargs⟩ := (ha _).sound hargs
        obtain ⟨hc, hpc⟩ := (expect_eq_ok (by decide)).1 hclose
        refine ⟨_, .call hk ho hts hc, ?_⟩
        exact Cursor.passes_cons.2 ⟨hp, Cursor.passes_cons.2 ⟨hp',
          Cursor.passes_append.2 ⟨c', hpargs, hpc⟩⟩⟩
    · obtain ⟨l, hl, rfl, rfl⟩ := (exprWith_literal hk).1 h
      refine ⟨_, .literal hl, Cursor.passes_advance ?_⟩
      cases hl <;> simp [*]
  complete {c e ts d} h hp hn := by
    cases h with
    | literal hl =>
      have ht := hp.peek
      subst ht
      refine (exprWith_literal ?_).2 ⟨_, hl, rfl, hp.advance.symm⟩
      cases hl <;> simp [*]
    | name hk =>
      have ht := hp.peek
      subst ht
      refine (exprWith_name hk).2 (Or.inl ⟨?_, rfl, hp.advance.symm⟩)
      rw [hp.advance]
      exact hn
    | call hk ho hargs hc =>
      have ht := hp.peek
      subst ht
      have hp' := (Cursor.passes_cons.1 hp).2
      obtain ⟨c', hpargs, hpc⟩ := Cursor.passes_append.1 (Cursor.passes_cons.1 hp').2
      refine (exprWith_name hk).2 (Or.inr ⟨?_, _, c', _, ?_, ?_, rfl⟩)
      · rw [hp'.peek, ho]
      · exact (ha _).complete hargs hpargs (by rw [hpc.peek, hc])
      · exact (expect_eq_ok (by decide)).2 ⟨hc, hpc⟩

theorem expr_reads (budget : Nat) :
    Reads (expr budget) (Expr.Spelled budget) fun n => n ≠ .openParen := by
  induction budget with
  | zero =>
    refine exprWith_reads fun span => ⟨?_, ?_⟩
    · intro c args d h
      cases h
    · intro c args ts d h
      exact h.elim
  | succ budget ih =>
    refine exprWith_reads fun _ => commaList_reads ih (by decide) (by decide) ?_
    intro e ts h
    obtain ⟨t, us, rfl, ht⟩ := Expr.Spelled.first h
    refine ⟨t, us, rfl, ?_⟩
    rintro hk
    rw [hk] at ht
    exact absurd ht (by decide)

theorem varDecl_eq_ok {v : VarDecl}
    (hk : c.peek.kind = .immutable ∨ c.peek.kind = .mutable) :
    varDecl c = .ok v d ↔ ∃ ts, v.Spelled ts ∧ c.Passes ts d := by
  have hword := Cursor.passes_advance (c := c) (by rcases hk with hk | hk <;> rw [hk] <;> decide)
  rw [varDecl, bind_of_ok (show peek c = .ok c.peek c from rfl),
    bind_of_ok (show skip c = .ok () c.advance from rfl)]
  constructor
  · intro h
    obtain ⟨ident, c₁, hi, h⟩ := bind_eq_ok.1 h
    obtain ⟨type?, c₂, ht, h⟩ := bind_eq_ok.1 h
    obtain ⟨initial?, c₃, he, h⟩ := bind_eq_ok.1 h
    obtain ⟨semicolon, c₄, hs, h⟩ := bind_eq_ok.1 h
    obtain ⟨rfl, rfl⟩ := pure_eq_ok.1 h
    obtain ⟨is, his, hpi⟩ := ident_reads.sound hi
    obtain ⟨ts, hts, hpt⟩ := (after?_reads (by decide) ident_reads).sound ht
    obtain ⟨es, hes, hpe⟩ := (after?_reads (by decide) (expr_reads maxNesting)).sound he
    obtain ⟨hsemi, hps⟩ := (expect_eq_ok (by decide)).1 hs
    refine ⟨_, .mk hk his hts hes hsemi, Cursor.passes_cons.2 ⟨hword, ?_⟩⟩
    exact Cursor.passes_append.2 ⟨c₁, hpi, Cursor.passes_append.2 ⟨c₂, hpt,
      Cursor.passes_append.2 ⟨c₃, hpe, hps⟩⟩⟩
  · rintro ⟨_, ⟨hw, his, hts, hes, hsemi⟩, hp⟩
    cases hp.peek
    obtain ⟨c₁, hpi, hp⟩ := Cursor.passes_append.1 (Cursor.passes_cons.1 hp).2
    obtain ⟨c₂, hpt, hp⟩ := Cursor.passes_append.1 hp
    obtain ⟨c₃, hpe, hps⟩ := Cursor.passes_append.1 hp
    refine (bind_of_ok (ident_reads.complete his hpi True.intro) _).trans ?_
    have h₃ : c₃.peek.kind = .semicolon := by rw [hps.peek, hsemi]
    have h₂ : c₂.peek.kind = .assign ∨ c₂.peek.kind = c₃.peek.kind := peek_of_after hes hpe
    refine (bind_of_ok ((after?_reads (by decide) ident_reads).complete hts hpt ⟨True.intro, ?_⟩)
      _).trans ?_
    · rcases h₂ with h₂ | h₂ <;> rw [h₂] <;> simp [h₃]
    refine (bind_of_ok ((after?_reads (by decide) (expr_reads maxNesting)).complete hes hpe ?_)
      _).trans ?_
    · simp [h₃]
    exact bind_of_ok ((expect_eq_ok (by decide)).2 ⟨hsemi, hps⟩) _

theorem stmt_of_ne (h₁ : c.peek.kind ≠ .immutable) (h₂ : c.peek.kind ≠ .mutable) :
    stmt c = (do
      let value ← expr maxNesting
      let _ ← expect .semicolon
      return .expr value : Reader Stmt) c := by
  rw [stmt, bind_of_ok (show peek c = .ok c.peek c from rfl)]
  generalize c.peek.kind = k at h₁ h₂ ⊢
  cases k <;> first | contradiction | rfl

theorem stmt_reads : Reads stmt Stmt.Spelled Any where
  sound {c s d} h := by
    by_cases hk : c.peek.kind = .immutable ∨ c.peek.kind = .mutable
    · have heq : stmt c = (Stmt.var <$> varDecl) c := by
        rw [stmt, bind_of_ok (show peek c = .ok c.peek c from rfl)]
        rcases hk with hk | hk <;> rw [hk] <;> rfl
      rw [heq] at h
      obtain ⟨v, c', hv, h⟩ := bind_eq_ok.1 h
      obtain ⟨rfl, rfl⟩ := pure_eq_ok.1 h
      obtain ⟨ts, hts, hp⟩ := (varDecl_eq_ok hk).1 hv
      exact ⟨ts, .var hts, hp⟩
    · rw [not_or] at hk
      rw [stmt_of_ne hk.1 hk.2] at h
      obtain ⟨e, c', he, h⟩ := bind_eq_ok.1 h
      obtain ⟨semicolon, c'', hs, h⟩ := bind_eq_ok.1 h
      obtain ⟨rfl, rfl⟩ := pure_eq_ok.1 h
      obtain ⟨ts, hts, hp⟩ := (expr_reads maxNesting).sound he
      obtain ⟨hs, hps⟩ := (expect_eq_ok (by decide)).1 hs
      exact ⟨_, .expr hts hs, Cursor.passes_append.2 ⟨c', hp, hps⟩⟩
  complete {c s ts d} h hp _ := by
    cases h with
    | @var v ts hv =>
      have hk : c.peek.kind = .immutable ∨ c.peek.kind = .mutable := by
        cases hv with
        | mk hw _ _ _ _ => rwa [hp.peek]
      have hok : (Stmt.var <$> varDecl) c = .ok (.var v) d :=
        bind_of_ok ((varDecl_eq_ok hk).2 ⟨ts, hv, hp⟩) _
      rw [← hok, stmt, bind_of_ok (show peek c = .ok c.peek c from rfl)]
      rcases hk with hk | hk <;> rw [hk] <;> rfl
    | @expr e ts semicolon he hs =>
      obtain ⟨c', hp, hps⟩ := Cursor.passes_append.1 hp
      obtain ⟨t, us, rfl, ht⟩ := he.first
      have hne : ∀ k, k ∉ Kind.opensExpr → c.peek.kind ≠ k := by
        rintro k hk rfl
        rw [hp.peek] at hk
        exact hk ht
      rw [stmt_of_ne (hne _ (by decide)) (hne _ (by decide))]
      refine (bind_of_ok ((expr_reads maxNesting).complete he hp ?_) _).trans ?_
      · rw [hps.peek, hs]
        decide
      · exact bind_of_ok ((expect_eq_ok (by decide)).2 ⟨hs, hps⟩) _

theorem block_reads : Reads block Block.Spelled Any := by
  have hfirst : ∀ s ts, Stmt.Spelled s ts →
      ∃ t us, ts = t :: us ∧ (t.kind == .closeBrace || t.kind == .eof) = false := by
    intro s ts h
    obtain ⟨t, us, rfl, ht⟩ := h.first
    refine ⟨t, us, rfl, ?_⟩
    revert ht
    cases t.kind <;> decide
  have hstmts : Reads (repeatUntil (fun k => k == .closeBrace || k == .eof) stmt)
      (Spelling.Many Stmt.Spelled) fun n => n == .closeBrace || n == .eof :=
    repeatUntil_reads stmt_reads hfirst
  constructor
  · intro c b d h
    obtain ⟨opening, c₁, ho, h⟩ := bind_eq_ok.1 h
    obtain ⟨stmts, c₂, hs, h⟩ := bind_eq_ok.1 h
    obtain ⟨closing, c₃, hc, h⟩ := bind_eq_ok.1 h
    obtain ⟨rfl, rfl⟩ := pure_eq_ok.1 h
    obtain ⟨ho, hpo⟩ := (expect_eq_ok (by decide)).1 ho
    obtain ⟨ts, hts, hpt⟩ := hstmts.sound hs
    obtain ⟨hc, hpc⟩ := (expect_eq_ok (by decide)).1 hc
    refine ⟨_, .mk ho hts hc, ?_⟩
    exact Cursor.passes_append.2 ⟨c₁, hpo, Cursor.passes_append.2 ⟨c₂, hpt, hpc⟩⟩
  · rintro c _ _ d ⟨ho, hs, hc⟩ hp -
    obtain ⟨c₁, hpo, hp⟩ := Cursor.passes_append.1 (List.singleton_append ▸ hp)
    obtain ⟨c₂, hpt, hpc⟩ := Cursor.passes_append.1 hp
    refine (bind_of_ok ((expect_eq_ok (by decide)).2 ⟨ho, hpo⟩) _).trans ?_
    refine (bind_of_ok (hstmts.complete hs hpt ?_) _).trans ?_
    · rw [hpc.peek, hc]
      rfl
    · exact bind_of_ok ((expect_eq_ok (by decide)).2 ⟨hc, hpc⟩) _

theorem param_reads : Reads param Param.Spelled Any where
  sound {c p d} h := by
    obtain ⟨ident, c₁, hi, h⟩ := bind_eq_ok.1 h
    obtain ⟨colon, c₂, hc, h⟩ := bind_eq_ok.1 h
    obtain ⟨type, c₃, ht, h⟩ := bind_eq_ok.1 h
    obtain ⟨rfl, rfl⟩ := pure_eq_ok.1 h
    obtain ⟨is, his, hpi⟩ := ident_reads.sound hi
    obtain ⟨hc, hpc⟩ := (expect_eq_ok (by decide)).1 hc
    obtain ⟨ts, hts, hpt⟩ := ident_reads.sound ht
    refine ⟨_, .mk his hc hts, ?_⟩
    exact Cursor.passes_append.2 ⟨c₁, hpi, Cursor.passes_append.2 ⟨c₂, hpc, hpt⟩⟩
  complete {c p ts d} h hp _ := by
    obtain ⟨his, hc, hts⟩ := h
    obtain ⟨c₁, hpi, hp⟩ := Cursor.passes_append.1 hp
    obtain ⟨c₂, hpc, hpt⟩ := Cursor.passes_append.1 (List.singleton_append ▸ hp)
    refine (bind_of_ok (ident_reads.complete his hpi True.intro) _).trans ?_
    refine (bind_of_ok ((expect_eq_ok (by decide)).2 ⟨hc, hpc⟩) _).trans ?_
    exact bind_of_ok (ident_reads.complete hts hpt True.intro) _

theorem function_reads (isFractal : Bool) :
    Reads (function isFractal) (Function.Spelled isFractal) Any := by
  have hparams : Reads (commaList param) (Spelling.CommaList Param.Spelled)
      fun n => n = .closeParen := by
    refine commaList_reads param_reads True.intro True.intro fun p ts h => ?_
    obtain ⟨t, us, rfl, ht⟩ := h.first
    exact ⟨t, us, rfl, by rw [ht]; decide⟩
  have hresult := after?_reads (k := .arrow) (by decide) ident_reads
  constructor
  · intro c f d h
    rw [function, bind_of_ok (show peek c = .ok c.peek c from rfl)] at h
    split at h
    · next hw =>
      rw [bind_of_ok (show skip c = .ok () c.advance from rfl)] at h
      obtain ⟨ident, c₁, hi, h⟩ := bind_eq_ok.1 h
      obtain ⟨opening, c₂, ho, h⟩ := bind_eq_ok.1 h
      obtain ⟨params, c₃, hps, h⟩ := bind_eq_ok.1 h
      obtain ⟨closing, c₄, hc, h⟩ := bind_eq_ok.1 h
      obtain ⟨result?, c₅, hr, h⟩ := bind_eq_ok.1 h
      obtain ⟨body, c₆, hb, h⟩ := bind_eq_ok.1 h
      obtain ⟨rfl, rfl⟩ := pure_eq_ok.1 h
      have hword := Cursor.passes_advance (c := c) (by rw [Token.kind_of_isFunctionWord hw]; decide)
      obtain ⟨is, his, hpi⟩ := ident_reads.sound hi
      obtain ⟨ho, hpo⟩ := (expect_eq_ok (by decide)).1 ho
      obtain ⟨ps, hps, hpp⟩ := hparams.sound hps
      obtain ⟨hc, hpc⟩ := (expect_eq_ok (by decide)).1 hc
      obtain ⟨rs, hrs, hpr⟩ := hresult.sound hr
      obtain ⟨bs, hbs, hpb⟩ := block_reads.sound hb
      refine ⟨_, .mk hw his ho hps hc hrs hbs, ?_⟩
      exact Cursor.passes_cons.2 ⟨hword, Cursor.passes_append.2 ⟨c₁, hpi,
        Cursor.passes_append.2 ⟨c₂, hpo, Cursor.passes_append.2 ⟨c₃, hpp,
        Cursor.passes_append.2 ⟨c₄, hpc, Cursor.passes_append.2 ⟨c₅, hpr, hpb⟩⟩⟩⟩⟩⟩
    · cases h
  · rintro c _ _ d ⟨hw, his, ho, hps, hc, hrs, hbs⟩ hp -
    cases hp.peek
    rw [function, bind_of_ok (show peek c = .ok c.peek c from rfl), if_pos hw,
      bind_of_ok (show skip c = .ok () c.advance from rfl)]
    obtain ⟨c₁, hpi, hp⟩ := Cursor.passes_append.1 (Cursor.passes_cons.1 hp).2
    obtain ⟨c₂, hpo, hp⟩ := Cursor.passes_append.1 (List.singleton_append ▸ hp)
    obtain ⟨c₃, hpp, hp⟩ := Cursor.passes_append.1 hp
    obtain ⟨c₄, hpc, hp⟩ := Cursor.passes_append.1 (List.singleton_append ▸ hp)
    obtain ⟨c₅, hpr, hpb⟩ := Cursor.passes_append.1 hp
    have h₅ : c₅.peek.kind = .openBrace := by
      obtain ⟨t, us, rfl, ht⟩ := hbs.first
      rw [hpb.peek, ht]
    refine (bind_of_ok (ident_reads.complete his hpi True.intro) _).trans ?_
    refine (bind_of_ok ((expect_eq_ok (by decide)).2 ⟨ho, hpo⟩) _).trans ?_
    refine (bind_of_ok (hparams.complete hps hpp (by rw [hpc.peek, hc])) _).trans ?_
    refine (bind_of_ok ((expect_eq_ok (by decide)).2 ⟨hc, hpc⟩) _).trans ?_
    refine (bind_of_ok (hresult.complete hrs hpr ⟨True.intro, by rw [h₅]; decide⟩) _).trans ?_
    exact bind_of_ok (block_reads.complete hbs hpb True.intro) _

theorem arraySize_reads : Reads arraySize SpelledSize Any where
  sound {c n d} h := by
    obtain ⟨size, c₁, hs, h⟩ := bind_eq_ok.1 h
    obtain ⟨m, c₂, hm, h⟩ := bind_eq_ok.1 h
    obtain ⟨closing, c₃, hc, h⟩ := bind_eq_ok.1 h
    obtain ⟨rfl, rfl⟩ := pure_eq_ok.1 h
    obtain ⟨hs, hps⟩ := (expect_eq_ok (by decide)).1 hs
    obtain ⟨hn, rfl⟩ := integer_eq_ok.1 hm
    obtain ⟨hc, hpc⟩ := (expect_eq_ok (by decide)).1 hc
    exact ⟨_, .mk hs hn hc, Cursor.passes_append.2 ⟨c₁, hps, hpc⟩⟩
  complete {c n ts d} h hp _ := by
    obtain ⟨hs, hm, hc⟩ := h
    obtain ⟨c₁, hps, hpc⟩ := Cursor.passes_append.1 (List.singleton_append ▸ hp)
    refine (bind_of_ok ((expect_eq_ok (by decide)).2 ⟨hs, hps⟩) _).trans ?_
    refine (bind_of_ok (integer_eq_ok.2 ⟨hm, rfl⟩) _).trans ?_
    exact bind_of_ok ((expect_eq_ok (by decide)).2 ⟨hc, hpc⟩) _

theorem field_reads : Reads field Field.Spelled Any := by
  have hsize := after?_reads (k := .openSquare) (by decide) arraySize_reads
  constructor
  · intro c f d h
    obtain ⟨ident, c₁, hi, h⟩ := bind_eq_ok.1 h
    obtain ⟨colon, c₂, hc, h⟩ := bind_eq_ok.1 h
    obtain ⟨type, c₃, ht, h⟩ := bind_eq_ok.1 h
    obtain ⟨size?, c₄, ha, h⟩ := bind_eq_ok.1 h
    obtain ⟨semicolon, c₅, hs, h⟩ := bind_eq_ok.1 h
    obtain ⟨rfl, rfl⟩ := pure_eq_ok.1 h
    obtain ⟨is, his, hpi⟩ := ident_reads.sound hi
    obtain ⟨hc, hpc⟩ := (expect_eq_ok (by decide)).1 hc
    obtain ⟨ts, hts, hpt⟩ := ident_reads.sound ht
    obtain ⟨as, has, hpa⟩ := hsize.sound ha
    obtain ⟨hs, hps⟩ := (expect_eq_ok (by decide)).1 hs
    refine ⟨_, .mk his hc hts has hs, ?_⟩
    exact Cursor.passes_append.2 ⟨c₁, hpi, Cursor.passes_append.2 ⟨c₂, hpc,
      Cursor.passes_append.2 ⟨c₃, hpt, Cursor.passes_append.2 ⟨c₄, hpa, hps⟩⟩⟩⟩
  · rintro c _ _ d ⟨his, hc, hts, has, hs⟩ hp -
    obtain ⟨c₁, hpi, hp⟩ := Cursor.passes_append.1 hp
    obtain ⟨c₂, hpc, hp⟩ := Cursor.passes_append.1 (List.singleton_append ▸ hp)
    obtain ⟨c₃, hpt, hp⟩ := Cursor.passes_append.1 hp
    obtain ⟨c₄, hpa, hps⟩ := Cursor.passes_append.1 hp
    refine (bind_of_ok (ident_reads.complete his hpi True.intro) _).trans ?_
    refine (bind_of_ok ((expect_eq_ok (by decide)).2 ⟨hc, hpc⟩) _).trans ?_
    refine (bind_of_ok (ident_reads.complete hts hpt True.intro) _).trans ?_
    refine (bind_of_ok (hsize.complete has hpa ⟨True.intro, by rw [hps.peek, hs]; decide⟩) _).trans ?_
    exact bind_of_ok ((expect_eq_ok (by decide)).2 ⟨hs, hps⟩) _

theorem triad_reads : Reads triad Triad.Spelled Any := by
  have hfields : Reads (repeatUntil (· == .closeBrace) field)
      (Spelling.Many Field.Spelled) fun n => n == .closeBrace := by
    refine repeatUntil_reads field_reads fun f ts h => ?_
    obtain ⟨t, us, rfl, ht⟩ := h.first
    exact ⟨t, us, rfl, by rw [ht]; rfl⟩
  constructor
  · intro c t d h
    obtain ⟨word, c₁, hw, h⟩ := bind_eq_ok.1 h
    obtain ⟨ident, c₂, hi, h⟩ := bind_eq_ok.1 h
    obtain ⟨opening, c₃, ho, h⟩ := bind_eq_ok.1 h
    obtain ⟨fields, c₄, hf, h⟩ := bind_eq_ok.1 h
    obtain ⟨closing, c₅, hc, h⟩ := bind_eq_ok.1 h
    obtain ⟨rfl, rfl⟩ := pure_eq_ok.1 h
    obtain ⟨hw, hpw⟩ := (expect_eq_ok (by decide)).1 hw
    obtain ⟨is, his, hpi⟩ := ident_reads.sound hi
    obtain ⟨ho, hpo⟩ := (expect_eq_ok (by decide)).1 ho
    obtain ⟨fs, hfs, hpf⟩ := hfields.sound hf
    obtain ⟨hc, hpc⟩ := (expect_eq_ok (by decide)).1 hc
    refine ⟨_, .mk hw his ho hfs hc, ?_⟩
    exact Cursor.passes_append.2 ⟨c₁, hpw, Cursor.passes_append.2 ⟨c₂, hpi,
      Cursor.passes_append.2 ⟨c₃, hpo, Cursor.passes_append.2 ⟨c₄, hpf, hpc⟩⟩⟩⟩
  · rintro c _ _ d ⟨hw, his, ho, hfs, hc⟩ hp -
    obtain ⟨c₁, hpw, hp⟩ := Cursor.passes_append.1 (List.singleton_append ▸ hp)
    obtain ⟨c₂, hpi, hp⟩ := Cursor.passes_append.1 hp
    obtain ⟨c₃, hpo, hp⟩ := Cursor.passes_append.1 (List.singleton_append ▸ hp)
    obtain ⟨c₄, hpf, hpc⟩ := Cursor.passes_append.1 hp
    refine (bind_of_ok ((expect_eq_ok (by decide)).2 ⟨hw, hpw⟩) _).trans ?_
    refine (bind_of_ok (ident_reads.complete his hpi True.intro) _).trans ?_
    refine (bind_of_ok ((expect_eq_ok (by decide)).2 ⟨ho, hpo⟩) _).trans ?_
    refine (bind_of_ok (hfields.complete hfs hpf ?_) _).trans ?_
    · rw [hpc.peek, hc]
      rfl
    · exact bind_of_ok ((expect_eq_ok (by decide)).2 ⟨hc, hpc⟩) _

theorem decl_reads : Reads decl Decl.Spelled Any where
  sound {c x d} h := by
    rw [decl, bind_of_ok (show peek c = .ok c.peek c from rfl)] at h
    split at h
    · obtain ⟨t, c₁, ht, h⟩ := bind_eq_ok.1 h
      obtain ⟨rfl, rfl⟩ := pure_eq_ok.1 h
      obtain ⟨ts, hts, hp⟩ := triad_reads.sound ht
      exact ⟨ts, .triad hts, hp⟩
    split at h
    · next hf =>
      rw [bind_of_ok (show skip c = .ok () c.advance from rfl)] at h
      obtain ⟨f, c₁, hfun, h⟩ := bind_eq_ok.1 h
      obtain ⟨rfl, rfl⟩ := pure_eq_ok.1 h
      obtain ⟨ts, hts, hp⟩ := (function_reads true).sound hfun
      have hword := Cursor.passes_advance (c := c) (by rw [hf]; decide)
      exact ⟨_, .fractal hf hts, Cursor.passes_cons.2 ⟨hword, hp⟩⟩
    split at h
    · obtain ⟨f, c₁, hfun, h⟩ := bind_eq_ok.1 h
      obtain ⟨rfl, rfl⟩ := pure_eq_ok.1 h
      obtain ⟨ts, hts, hp⟩ := (function_reads false).sound hfun
      exact ⟨ts, .function hts, hp⟩
    · cases h
  complete {c x ts d} h hp _ := by
    rw [decl, bind_of_ok (show peek c = .ok c.peek c from rfl)]
    cases h with
    | triad ht =>
      have hk : c.peek.kind = .triad := by
        obtain ⟨t, us, rfl, hk⟩ := ht.first
        rw [hp.peek, hk]
      rw [if_pos hk]
      exact bind_of_ok (triad_reads.complete ht hp True.intro) _
    | @fractal word f ts hw hf =>
      have hk : c.peek.kind = .fractal := by rw [hp.peek, hw]
      rw [if_neg (by rw [hk]; decide), if_pos hk,
        bind_of_ok (show skip c = .ok () c.advance from rfl)]
      exact bind_of_ok ((function_reads true).complete hf (Cursor.passes_cons.1 hp).2 True.intro) _
    | function hf =>
      have hw : c.peek.isFunctionWord := by
        obtain ⟨t, us, rfl, hw⟩ := hf.first
        rwa [hp.peek]
      have hk := Token.kind_of_isFunctionWord hw
      rw [if_neg (by rw [hk]; decide), if_neg (by rw [hk]; decide), if_pos hw]
      exact bind_of_ok ((function_reads false).complete hf hp True.intro) _

theorem program_eq_ok {p : Program} :
    program c = .ok p d ↔ ∃ ts, p.Spelled ts ∧ c.Passes ts d ∧ d.peek.kind = .eof := by
  have hfirst : ∀ x ts, Decl.Spelled x ts → ∃ t us, ts = t :: us ∧ (t.kind == .eof) = false := by
    intro x ts h
    obtain ⟨t, us, rfl, ht⟩ := h.first
    refine ⟨t, us, rfl, ?_⟩
    revert ht
    cases t.kind <;> decide
  rw [program, bind_eq_ok]
  constructor
  · rintro ⟨decls, c', h, hp⟩
    obtain ⟨rfl, rfl⟩ := pure_eq_ok.1 hp
    obtain ⟨as, ts, rfl, hts, hp, hs⟩ := repeatUntil_sound decl_reads hfirst [] decls h
    exact ⟨ts, hts, hp, eq_of_beq hs⟩
  · rintro ⟨ts, hts, hp, hs⟩
    exact ⟨_, _, repeatUntil_complete decl_reads hfirst hts [] hp (beq_iff_eq.2 hs), rfl⟩

end Reader

/-- A program is read exactly from the tokens that spell it; what comes after an
end token is not looked at. -/
theorem parse_eq_ok_iff {ts : List Token} {p : Program} :
    parse ts = .ok p ↔
      ∃ us rest, ts = us ++ rest ∧ p.Spelled us ∧ ∀ t ∈ rest.head?, t.kind = .eof := by
  have hparse : parse ts = .ok p ↔ ∃ d, Reader.program (.ofTokens ts) = .ok p d := by
    rw [parse]
    cases Reader.program (.ofTokens ts) with
    | ok q d => simp
    | error fault d => simp
  rw [hparse]
  constructor
  · rintro ⟨d, h⟩
    obtain ⟨us, hus, hp, hd⟩ := Reader.program_eq_ok.1 h
    refine ⟨us, d.rest, hp.1, hus, ?_⟩
    intro t ht
    rw [Cursor.peek] at hd
    cases hr : d.rest with
    | nil => simp [hr] at ht
    | cons u rest =>
      rw [hr] at ht hd
      cases ht
      exact hd
  · rintro ⟨us, rest, rfl, hus, hrest⟩
    refine ⟨⟨rest, (Cursor.ofTokens (us ++ rest)).stop, _, rfl⟩, ?_⟩
    refine Reader.program_eq_ok.2 ⟨us, hus, ⟨rfl, rfl⟩, ?_⟩
    cases rest with
    | nil => rfl
    | cons t rest => exact hrest t rfl

end TriadLang
