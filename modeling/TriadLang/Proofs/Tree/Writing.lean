import TriadLang.Proofs.Tree.Unparse

/-!
# Spellings and words

A spelling is written with words if the tokens that spell a value are the words
of it, and the words of a value are those of tokens that spell it, up to spans.
Tokens of a text fit their kinds; other tokens could have any lexeme.
-/

namespace TriadLang

def Token.Fits (t : Token) : Prop := t.kind.Fits t.lexeme

theorem Token.word_of_ne {t : Token} (hk : t.kind ≠ .number) : t.word = (t.kind, t.lexeme) := by
  rw [word, if_neg hk]

theorem Token.kind_of_word {t : Token} {k : Kind} {lexeme : String} (h : t.word = (k, lexeme)) :
    t.kind = k :=
  (Prod.mk.inj h).1

theorem Token.lexeme_of_word {t : Token} {k : Kind} {lexeme : String} (h : t.word = (k, lexeme))
    (hk : k ≠ .number) : t.lexeme = lexeme := by
  rw [word_of_ne (by rwa [kind_of_word h])] at h
  exact (Prod.mk.inj h).2

/-- The kinds of which every token is the same word. -/
def Kind.fixed : List Kind := reserved ++ signs

theorem Token.word_of_fits {t : Token} {k : Kind} (hk : t.kind = k) (hf : t.Fits)
    (hm : k ∈ Kind.fixed) : t.word = k.word := by
  subst hk
  have hne : t.kind ≠ .number := by
    intro h
    rw [h] at hm
    exact absurd hm (by decide)
  have hl : t.lexeme = t.kind.spelling := by
    rcases List.mem_append.1 hm with hm | hm
    · exact (Kind.fits_reserved hm).1 hf
    · exact (Kind.fits_sign hm).1 hf
  rw [word_of_ne hne, hl, Kind.word]

theorem Token.word_number {t : Token} {n : Nat} (hk : t.kind = .number) :
    t.word = (.number, toString n) ↔ dropZeros t.lexeme.toList = Nat.toDigits 10 n := by
  rw [word, if_pos hk, hk, Prod.mk.injEq, Nat.toString_eq_ofList_toDigits, String.ofList_inj]
  simp

/-! ## Spellings that are written with words -/

/-- The values that `ok` allows are spelled by the tokens that are the words
`words`; `bare` takes away what words do not tell. -/
structure Writes {α : Type} (L : Spelling α) (ok : α → Prop) (words : α → List Token.Word)
    (bare : α → α) : Prop where
  sound : ∀ {a ts}, L a ts → (∀ t ∈ ts, t.Fits) → ok a ∧ ts.map Token.word = words a
  complete : ∀ {a ts}, ok a → ts.map Token.word = words a → ∃ a', bare a' = bare a ∧ L a' ts

section

variable {α : Type} {L : Spelling α} {ok : α → Prop} {words : α → List Token.Word} {bare : α → α}

theorem many_writes (h : Writes L ok words bare) :
    Writes (Spelling.Many L) (fun as => ∀ a ∈ as, ok a) (fun as => as.flatMap words)
      (List.map bare) where
  sound {as ts} hts hf := by
    induction hts with
    | nil => simp
    | @cons a as ts us ha _ ih =>
      obtain ⟨hok, hw⟩ := h.sound ha fun t ht => hf t (List.mem_append_left _ ht)
      obtain ⟨hoks, hws⟩ := ih fun t ht => hf t (List.mem_append_right _ ht)
      refine ⟨?_, by rw [List.map_append, hw, hws, List.flatMap_cons]⟩
      simpa using ⟨hok, hoks⟩
  complete {as ts} hok hw := by
    induction as generalizing ts with
    | nil =>
      cases List.map_eq_nil_iff.1 hw
      exact ⟨[], rfl, .nil⟩
    | cons a as ih =>
      rw [List.flatMap_cons] at hw
      obtain ⟨ts, us, rfl, hts, hus⟩ := List.map_eq_append_iff.1 hw
      obtain ⟨a', hb, ha'⟩ := h.complete (hok a List.mem_cons_self) hts
      obtain ⟨as', hbs, has'⟩ := ih (fun a ha => hok a (List.mem_cons_of_mem _ ha)) hus
      exact ⟨a' :: as', by rw [List.map_cons, List.map_cons, hb, hbs], .cons ha' has'⟩

theorem commaWords_cons_cons (ws vs : List Token.Word) (rest : List (List Token.Word)) :
    commaWords (ws :: vs :: rest) = ws ++ Kind.comma.word :: commaWords (vs :: rest) := by
  rw [commaWords, List.intercalate_cons_cons, commaWords, List.append_assoc]
  rfl

theorem separated_sound (h : Writes L ok words bare) {as : List α} {ts : List Token}
    (hts : Spelling.Separated L as ts) (hf : ∀ t ∈ ts, t.Fits) :
    (∀ a ∈ as, ok a) ∧ ts.map Token.word = commaWords (as.map words) := by
  induction hts with
  | single ha =>
    obtain ⟨hok, hw⟩ := h.sound ha hf
    exact ⟨by simpa using hok, by rw [hw, commaWords]; simp⟩
  | @cons a as ts us comma ha hc hs ih =>
    obtain ⟨hok, hw⟩ := h.sound ha fun t ht => hf t (List.mem_append_left _ ht)
    have hf' : ∀ t ∈ comma :: us, t.Fits := fun t ht => hf t (List.mem_append_right _ ht)
    obtain ⟨hoks, hws⟩ := ih fun t ht => hf' t (List.mem_cons_of_mem _ ht)
    have hcw := Token.word_of_fits hc (hf' comma List.mem_cons_self) (by decide)
    refine ⟨by simpa using ⟨hok, hoks⟩, ?_⟩
    have hne : ∃ b bs, as = b :: bs := by cases hs <;> exact ⟨_, _, rfl⟩
    obtain ⟨b, bs, rfl⟩ := hne
    rw [List.map_append, List.map_cons, hw, hcw, hws]
    exact (commaWords_cons_cons _ _ _).symm

theorem separated_complete (h : Writes L ok words bare) {a : α} {as : List α} {ts : List Token}
    (hok : ∀ b ∈ a :: as, ok b) (hw : ts.map Token.word = commaWords ((a :: as).map words)) :
    ∃ bs, bs.map bare = (a :: as).map bare ∧ Spelling.Separated L bs ts := by
  induction as generalizing a ts with
  | nil =>
    have hw' : ts.map Token.word = words a := by simpa [commaWords] using hw
    obtain ⟨a', hb, ha'⟩ := h.complete (hok a List.mem_cons_self) hw'
    exact ⟨[a'], by rw [List.map_singleton, hb, List.map_singleton], .single ha'⟩
  | cons b as ih =>
    rw [List.map_cons, List.map_cons, commaWords_cons_cons] at hw
    obtain ⟨ts, us, rfl, hts, hus⟩ := List.map_eq_append_iff.1 hw
    obtain ⟨comma, us, rfl, hc, hus⟩ := List.map_eq_cons_iff.1 hus
    obtain ⟨a', hb, ha'⟩ := h.complete (hok a List.mem_cons_self) hts
    obtain ⟨bs, hbs, hs⟩ := ih (fun b hb => hok b (List.mem_cons_of_mem _ hb)) hus
    refine ⟨a' :: bs, ?_, .cons ha' (Token.kind_of_word hc) hs⟩
    rw [List.map_cons, hb, hbs, List.map_cons (a := a)]

theorem commaList_writes (h : Writes L ok words bare) :
    Writes (Spelling.CommaList L) (fun as => ∀ a ∈ as, ok a)
      (fun as => commaWords (as.map words)) (List.map bare) where
  sound {as ts} hts hf := by
    cases hts with
    | nil => exact ⟨by simp, rfl⟩
    | some hs => exact separated_sound h hs hf
  complete {as ts} hok hw := by
    cases as with
    | nil =>
      cases List.map_eq_nil_iff.1 hw
      exact ⟨[], rfl, .nil⟩
    | cons a as =>
      obtain ⟨bs, hb, hs⟩ := separated_complete h hok hw
      exact ⟨bs, hb, .some hs⟩

theorem after_writes (h : Writes L ok words bare) {k : Kind} (hk : k ∈ Kind.fixed) :
    Writes (Spelling.After k L) (fun a? => ∀ a ∈ a?, ok a) (wordsAfter k words)
      (Option.map bare) where
  sound {a? ts} hts hf := by
    cases hts with
    | none => exact ⟨by simp, rfl⟩
    | @some a t ts ht ha =>
      obtain ⟨hok, hw⟩ := h.sound ha fun t ht => hf t (List.mem_cons_of_mem _ ht)
      refine ⟨by simpa using hok, ?_⟩
      rw [List.map_cons, Token.word_of_fits ht (hf t List.mem_cons_self) hk, hw, wordsAfter]
  complete {a? ts} hok hw := by
    cases a? with
    | none =>
      cases List.map_eq_nil_iff.1 hw
      exact ⟨none, rfl, .none⟩
    | some a =>
      obtain ⟨t, ts, rfl, ht, hts⟩ := List.map_eq_cons_iff.1 hw
      obtain ⟨a', hb, ha'⟩ := h.complete (hok a rfl) hts
      exact ⟨some a', congrArg some hb, .some (Token.kind_of_word ht) ha'⟩

end

theorem ident_writes :
    Writes Ident.Spelled (fun i => IsName i.name) Ident.unparse (Ident.mapSpan .erase) where
  sound {i ts} hts hf := by
    cases hts with
    | @mk t hk =>
      have ht : t.kind.Fits t.lexeme := hf t List.mem_cons_self
      have hne : t.kind ≠ .number := by rw [hk]; decide
      rw [List.map_singleton, Token.word_of_ne hne, hk]
      rw [hk] at ht
      exact ⟨ht, rfl⟩
  complete {i ts} _ hw := by
    obtain ⟨t, us, rfl, ht, hus⟩ := List.map_eq_cons_iff.1 hw
    cases List.map_eq_nil_iff.1 hus
    refine ⟨t.ident, ?_, .mk (Token.kind_of_word ht)⟩
    have hl : t.lexeme = i.name := Token.lexeme_of_word ht (by decide)
    rw [Token.ident, hl]
    rfl

theorem literal_sound {l : Literal} {t : Token} (h : l.Spelled t) (hf : t.Fits) :
    l.WellFormed ∧ [t.word] = l.unparse := by
  have hfits : t.kind.Fits t.lexeme := hf
  cases h with
  | @int _ n hk hn =>
    rw [hk] at hfits
    obtain ⟨hw, hlt⟩ := dropZeros_of_readInteger? hfits.1 hfits.2 hn
    exact ⟨hlt, by rw [(Token.word_number hk).2 hw, Literal.unparse]⟩
  | litTrue hk => exact ⟨True.intro, by rw [Token.word_of_fits hk hf (by decide)]; rfl⟩
  | litFalse hk => exact ⟨True.intro, by rw [Token.word_of_fits hk hf (by decide)]; rfl⟩
  | uncertain hk =>
    rw [hk] at hfits
    have hl : t.lexeme = "uncertain" := hfits
    refine ⟨hl, ?_⟩
    rw [Token.word_of_fits hk hf (by decide), Literal.unparse, hl]
    rfl

theorem literal_complete {l : Literal} {ts : List Token} (hok : l.WellFormed)
    (hw : ts.map Token.word = l.unparse) : ∃ t, ts = [t] ∧ l.Spelled t := by
  have hone : ∀ {w : Token.Word}, ts.map Token.word = [w] → ∃ t, ts = [t] ∧ t.word = w := by
    intro w hw
    obtain ⟨t, us, rfl, ht, hus⟩ := List.map_eq_cons_iff.1 hw
    exact ⟨t, by rw [List.map_eq_nil_iff.1 hus], ht⟩
  cases l with
  | text value =>
    obtain ⟨t, rfl, ht⟩ := hone hw
    have hl : t.lexeme = value := Token.lexeme_of_word ht (by decide)
    exact ⟨t, rfl, hl ▸ .uncertain (Token.kind_of_word ht)⟩
  | int value =>
    obtain ⟨t, rfl, ht⟩ := hone hw
    have hk : t.kind = .number := Token.kind_of_word ht
    exact ⟨t, rfl, .int hk (readInteger?_of_dropZeros hok ((Token.word_number hk).1 ht))⟩
  | bool value =>
    cases value with
    | false =>
      obtain ⟨t, rfl, ht⟩ := hone hw
      exact ⟨t, rfl, .litFalse (Token.kind_of_word ht)⟩
    | true =>
      obtain ⟨t, rfl, ht⟩ := hone hw
      exact ⟨t, rfl, .litTrue (Token.kind_of_word ht)⟩
  | absent => exact hok.elim

theorem nestingOfArgs_le_iff {es : List Expr} {n : Nat} :
    Expr.nestingOfArgs es ≤ n ↔ ∀ e ∈ es, e.nesting ≤ n := by
  induction es with
  | nil => simp [Expr.nestingOfArgs]
  | cons e es ih => rw [Expr.nestingOfArgs, Nat.max_le, ih, List.forall_mem_cons]

theorem exprWith_writes {Args : Spelling (List Expr)} {budget : Nat}
    (ha : Writes Args (fun args => (∀ a ∈ args, a.Plain) ∧ Expr.nestingOfArgs args < budget)
      (fun args => commaWords (args.map Expr.unparse)) (List.map (Expr.mapSpans .erase))) :
    Writes (Expr.SpelledWith Args) (fun e => e.Plain ∧ e.nesting ≤ budget) Expr.unparse
      (Expr.mapSpans .erase) where
  sound {e ts} hts hf := by
    cases hts with
    | @literal l t hl =>
      obtain ⟨hok, hw⟩ := literal_sound hl (hf t List.mem_cons_self)
      exact ⟨⟨.literal hok, Nat.zero_le _⟩, hw⟩
    | @name t hk =>
      obtain ⟨hok, hw⟩ := ident_writes.sound (.mk hk) hf
      exact ⟨⟨.name hok, Nat.zero_le _⟩, hw⟩
    | @call t opening closing args ts hk ho hargs hc =>
      have hft : ∀ u ∈ [t], u.Fits := by simpa using hf t List.mem_cons_self
      obtain ⟨hokn, hwn⟩ := ident_writes.sound (.mk hk) hft
      obtain ⟨⟨hplain, hlt⟩, hwa⟩ := ha.sound hargs fun u hu => hf u (by simp [hu])
      have hwo := Token.word_of_fits ho (hf opening (by simp)) (by decide)
      have hwc := Token.word_of_fits hc (hf closing (by simp)) (by decide)
      refine ⟨⟨.call hokn hplain, ?_⟩, ?_⟩
      · rw [Expr.nesting, Expr.nesting]
        omega
      · rw [Expr.unparse, Expr.unparse, Expr.unparseEach_eq_map, ← hwa, ← hwn, ← hwo, ← hwc]
        simp
  complete {e ts} hok hw := by
    obtain ⟨hplain, hle⟩ := hok
    cases hplain with
    | @literal l span hl =>
      obtain ⟨t, rfl, hlt⟩ := literal_complete hl hw
      exact ⟨.literal l t.span, rfl, .literal hlt⟩
    | @name i span hi =>
      obtain ⟨i', hb, hs⟩ := ident_writes.complete hi hw
      cases hs with
      | @mk t hk =>
        refine ⟨_, ?_, .name hk⟩
        rw [Expr.mapSpans, Expr.mapSpans, hb]
        rfl
    | @call i args at' span hi hargs =>
      rw [Expr.unparse, Expr.unparse, Expr.unparseEach_eq_map] at hw
      obtain ⟨is, us, rfl, his, hus⟩ := List.map_eq_append_iff.1 hw
      obtain ⟨opening, us, rfl, ho, hus⟩ := List.map_eq_cons_iff.1 hus
      obtain ⟨ts, cs, rfl, hts, hcs⟩ := List.map_eq_append_iff.1 hus
      obtain ⟨closing, cs, rfl, hc, hcs⟩ := List.map_eq_cons_iff.1 hcs
      cases List.map_eq_nil_iff.1 hcs
      have hlt : Expr.nestingOfArgs args < budget := by
        rw [Expr.nesting] at hle
        omega
      obtain ⟨i', hbi, hs⟩ := ident_writes.complete hi his
      obtain ⟨args', hba, hargs'⟩ := ha.complete ⟨hargs, hlt⟩ hts
      cases hs with
      | @mk t hk =>
        refine ⟨_, ?_, .call hk (Token.kind_of_word ho) hargs' (Token.kind_of_word hc)⟩
        rw [Expr.mapSpans, Expr.mapSpans, Expr.mapSpansOfArgs_eq_map, Expr.mapSpans,
          Expr.mapSpans, Expr.mapSpansOfArgs_eq_map, hbi, hba]
        rfl

theorem expr_writes (budget : Nat) :
    Writes (Expr.Spelled budget) (fun e => e.Plain ∧ e.nesting ≤ budget) Expr.unparse
      (Expr.mapSpans .erase) := by
  induction budget with
  | zero =>
    refine exprWith_writes ⟨fun h => h.elim, ?_⟩
    rintro args ts ⟨-, hlt⟩
    exact absurd hlt (Nat.not_lt_zero _)
  | succ budget ih =>
    have hok : ∀ args : List Expr, (∀ a ∈ args, a.Plain ∧ a.nesting ≤ budget) ↔
        (∀ a ∈ args, a.Plain) ∧ Expr.nestingOfArgs args < budget + 1 := by
      intro args
      rw [Nat.lt_succ_iff, nestingOfArgs_le_iff]
      constructor
      · exact fun h => ⟨fun a ha => (h a ha).1, fun a ha => (h a ha).2⟩
      · exact fun h a ha => ⟨h.1 a ha, h.2 a ha⟩
    have h := commaList_writes ih
    simp only [hok] at h
    exact exprWith_writes h

theorem initial_writes :
    Writes (Expr.Spelled maxNesting) Expr.WellFormed Expr.unparse (Expr.mapSpans .erase) where
  sound hts hf := by
    obtain ⟨⟨hplain, hle⟩, hw⟩ := (expr_writes maxNesting).sound hts hf
    exact ⟨⟨hplain, hle⟩, hw⟩
  complete hok hw := (expr_writes maxNesting).complete ⟨hok.plain, hok.nesting⟩ hw

theorem varDecl_writes :
    Writes VarDecl.Spelled VarDecl.WellFormed VarDecl.unparse (VarDecl.mapSpans .erase) where
  sound {v ts} hts hf := by
    cases hts with
    | @mk word semicolon ident type? initial? is ts es hw hi ht he hs =>
      obtain ⟨hoki, hwi⟩ := ident_writes.sound hi fun u hu => hf u (by simp [hu])
      obtain ⟨hokt, hwt⟩ := (after_writes ident_writes (by decide)).sound ht fun u hu =>
        hf u (by simp [hu])
      obtain ⟨hoke, hwe⟩ := (after_writes initial_writes (by decide)).sound he fun u hu =>
        hf u (by simp [hu])
      have hws := Token.word_of_fits hs (hf semicolon (by simp)) (by decide)
      have hww : word.word =
          if word.kind == .mutable then Kind.mutable.word else Kind.immutable.word := by
        have hfw := hf word List.mem_cons_self
        rcases hw with hw | hw
        · rw [Token.word_of_fits hw hfw (by decide), hw]
          rfl
        · rw [Token.word_of_fits hw hfw (by decide), hw]
          rfl
      refine ⟨⟨hoki, hokt, hoke⟩, ?_⟩
      rw [VarDecl.unparse, ← hwi, ← hwt, ← hwe, ← hws, ← hww]
      simp
  complete {v ts} hok hw := by
    rw [VarDecl.unparse] at hw
    obtain ⟨word, us, rfl, hww, hus⟩ := List.map_eq_cons_iff.1 hw
    obtain ⟨is, us, rfl, his, hus⟩ := List.map_eq_append_iff.1 hus
    obtain ⟨ts, us, rfl, hts, hus⟩ := List.map_eq_append_iff.1 hus
    obtain ⟨es, us, rfl, hes, hus⟩ := List.map_eq_append_iff.1 hus
    obtain ⟨semicolon, us, rfl, hs, hus⟩ := List.map_eq_cons_iff.1 hus
    cases List.map_eq_nil_iff.1 hus
    obtain ⟨i, hbi, hi⟩ := ident_writes.complete hok.ident his
    obtain ⟨t?, hbt, ht⟩ := (after_writes ident_writes (by decide)).complete hok.type? hts
    obtain ⟨e?, hbe, he⟩ := (after_writes initial_writes (by decide)).complete hok.initial? hes
    have hkind : (word.kind = .immutable ∨ word.kind = .mutable) ∧
        (word.kind == .mutable) = v.isMutable := by
      cases hm : v.isMutable with
      | false =>
        have hk : word.kind = .immutable := Token.kind_of_word (hww.trans (if_neg (by simp [hm])))
        exact ⟨Or.inl hk, by rw [hk]; rfl⟩
      | true =>
        have hk : word.kind = .mutable := Token.kind_of_word (hww.trans (if_pos hm))
        exact ⟨Or.inr hk, by rw [hk]; rfl⟩
    refine ⟨_, ?_, .mk hkind.1 hi ht he (Token.kind_of_word hs)⟩
    rw [VarDecl.mapSpans, VarDecl.mapSpans, hbi, hbt, hbe, hkind.2]

theorem stmt_writes :
    Writes Stmt.Spelled Stmt.WellFormed Stmt.unparse (Stmt.mapSpans .erase) where
  sound {s ts} hts hf := by
    cases hts with
    | var hv => exact varDecl_writes.sound hv hf
    | @expr e ts semicolon he hs =>
      obtain ⟨hok, hw⟩ := initial_writes.sound he fun u hu => hf u (by simp [hu])
      have hws := Token.word_of_fits hs (hf semicolon (by simp)) (by decide)
      refine ⟨hok, ?_⟩
      rw [List.map_append, hw, List.map_singleton, hws, Stmt.unparse]
  complete {s ts} hok hw := by
    cases s with
    | var v =>
      obtain ⟨v', hb, hv⟩ := varDecl_writes.complete hok hw
      exact ⟨.var v', congrArg Stmt.var hb, .var hv⟩
    | expr e =>
      obtain ⟨es, us, rfl, hes, hus⟩ := List.map_eq_append_iff.1 hw
      obtain ⟨semicolon, us, rfl, hs, hus⟩ := List.map_eq_cons_iff.1 hus
      cases List.map_eq_nil_iff.1 hus
      obtain ⟨e', hb, he⟩ := initial_writes.complete hok hes
      exact ⟨.expr e', congrArg Stmt.expr hb, .expr he (Token.kind_of_word hs)⟩

theorem block_writes :
    Writes Block.Spelled Block.WellFormed Block.unparse (Block.mapSpans .erase) where
  sound {b ts} hts hf := by
    cases hts with
    | @mk opening closing stmts ts ho hs hc =>
      obtain ⟨hok, hw⟩ := (many_writes stmt_writes).sound hs fun u hu => hf u (by simp [hu])
      have hwo := Token.word_of_fits ho (hf opening (by simp)) (by decide)
      have hwc := Token.word_of_fits hc (hf closing (by simp)) (by decide)
      refine ⟨hok, ?_⟩
      rw [Block.unparse, ← hw, ← hwo, ← hwc]
      simp
  complete {b ts} hok hw := by
    obtain ⟨opening, us, rfl, ho, hus⟩ := List.map_eq_cons_iff.1 hw
    obtain ⟨ss, us, rfl, hss, hus⟩ := List.map_eq_append_iff.1 hus
    obtain ⟨closing, us, rfl, hc, hus⟩ := List.map_eq_cons_iff.1 hus
    cases List.map_eq_nil_iff.1 hus
    obtain ⟨stmts, hb, hs⟩ := (many_writes stmt_writes).complete hok hss
    refine ⟨_, ?_, .mk (Token.kind_of_word ho) hs (Token.kind_of_word hc)⟩
    rw [Block.mapSpans, Block.mapSpans, hb]
    rfl

theorem param_writes :
    Writes Param.Spelled Param.WellFormed Param.unparse (Param.mapSpans .erase) where
  sound {p ts} hts hf := by
    cases hts with
    | @mk ident type colon is ts hi hc ht =>
      obtain ⟨hoki, hwi⟩ := ident_writes.sound hi fun u hu => hf u (by simp [hu])
      obtain ⟨hokt, hwt⟩ := ident_writes.sound ht fun u hu => hf u (by simp [hu])
      have hwc := Token.word_of_fits hc (hf colon (by simp)) (by decide)
      refine ⟨⟨hoki, hokt⟩, ?_⟩
      rw [Param.unparse, ← hwi, ← hwt, ← hwc]
      simp
  complete {p ts} hok hw := by
    obtain ⟨is, us, rfl, his, hus⟩ := List.map_eq_append_iff.1 hw
    obtain ⟨colon, ts, rfl, hc, hts⟩ := List.map_eq_cons_iff.1 hus
    obtain ⟨i, hbi, hi⟩ := ident_writes.complete hok.ident his
    obtain ⟨t, hbt, ht⟩ := ident_writes.complete hok.type hts
    refine ⟨_, ?_, .mk hi (Token.kind_of_word hc) ht⟩
    rw [Param.mapSpans, Param.mapSpans, hbi, hbt]

/-- The two sorts of functions differ in front of the word `function` only. -/
theorem function_writes (isFractal : Bool) :
    Writes (Function.Spelled isFractal) (fun f => f.WellFormed ∧ f.isFractal = isFractal)
      Function.unparse (Function.mapSpans .erase) where
  sound {f ts} hts hf := by
    cases hts with
    | @mk word opening closing ident params result? body is ps rs bs hw hi ho hp hc hr hb =>
      obtain ⟨hoki, hwi⟩ := ident_writes.sound hi fun u hu => hf u (by simp [hu])
      obtain ⟨hokp, hwp⟩ := (commaList_writes param_writes).sound hp fun u hu =>
        hf u (by simp [hu])
      obtain ⟨hokr, hwr⟩ := (after_writes ident_writes (by decide)).sound hr fun u hu =>
        hf u (by simp [hu])
      obtain ⟨hokb, hwb⟩ := block_writes.sound hb fun u hu => hf u (by simp [hu])
      have hwo := Token.word_of_fits ho (hf opening (by simp)) (by decide)
      have hwc := Token.word_of_fits hc (hf closing (by simp)) (by decide)
      have hww : word.word = (.ident, "function") := by
        rw [Token.isFunctionWord, Bool.and_eq_true, beq_iff_eq, beq_iff_eq] at hw
        rw [Token.word_of_ne (by rw [hw.1]; decide), hw.1, hw.2]
      refine ⟨⟨⟨hoki, hokp, hokr, hokb⟩, rfl⟩, ?_⟩
      rw [Function.unparse, ← hwi, ← hwp, ← hwr, ← hwb, ← hwo, ← hwc, ← hww]
      simp
  complete {f ts} hok hw := by
    obtain ⟨hok, rfl⟩ := hok
    obtain ⟨word, us, rfl, hww, hus⟩ := List.map_eq_cons_iff.1 hw
    obtain ⟨is, us, rfl, his, hus⟩ := List.map_eq_append_iff.1 hus
    obtain ⟨opening, us, rfl, ho, hus⟩ := List.map_eq_cons_iff.1 hus
    obtain ⟨ps, us, rfl, hps, hus⟩ := List.map_eq_append_iff.1 hus
    obtain ⟨closing, us, rfl, hc, hus⟩ := List.map_eq_cons_iff.1 hus
    obtain ⟨rs, bs, rfl, hrs, hbs⟩ := List.map_eq_append_iff.1 hus
    obtain ⟨i, hbi, hi⟩ := ident_writes.complete hok.ident his
    obtain ⟨params, hbp, hp⟩ := (commaList_writes param_writes).complete hok.params hps
    obtain ⟨r?, hbr, hr⟩ := (after_writes ident_writes (by decide)).complete hok.result? hrs
    obtain ⟨body, hbb, hb⟩ := block_writes.complete hok.body hbs
    have hword : word.isFunctionWord := by
      rw [Token.isFunctionWord, Bool.and_eq_true, beq_iff_eq, beq_iff_eq]
      exact ⟨Token.kind_of_word hww, Token.lexeme_of_word hww (by decide)⟩
    refine ⟨_, ?_, .mk hword hi (Token.kind_of_word ho) hp (Token.kind_of_word hc) hr hb⟩
    rw [Function.mapSpans, Function.mapSpans, hbi, hbp, hbr, hbb]

theorem size_writes : Writes SpelledSize (fun n => n < UInt64.size) sizeWords id where
  sound {n ts} hts hf := by
    cases hts with
    | @mk size closing n hs hn hc =>
      have hfs : size.kind.Fits size.lexeme := hf size List.mem_cons_self
      rw [hs] at hfs
      obtain ⟨hw, hlt⟩ := dropZeros_of_readInteger? hfs.1 hfs.2 hn
      have hwc := Token.word_of_fits hc (hf closing (by simp)) (by decide)
      refine ⟨hlt, ?_⟩
      rw [List.map_cons, List.map_singleton, (Token.word_number hs).2 hw, hwc, sizeWords]
  complete {n ts} hok hw := by
    obtain ⟨size, us, rfl, hs, hus⟩ := List.map_eq_cons_iff.1 hw
    obtain ⟨closing, us, rfl, hc, hus⟩ := List.map_eq_cons_iff.1 hus
    cases List.map_eq_nil_iff.1 hus
    have hk : size.kind = .number := Token.kind_of_word hs
    have hn := readInteger?_of_dropZeros hok ((Token.word_number hk).1 hs)
    exact ⟨n, rfl, .mk hk hn (Token.kind_of_word hc)⟩

theorem field_writes :
    Writes Field.Spelled Field.WellFormed Field.unparse (Field.mapSpans .erase) where
  sound {f ts} hts hf := by
    cases hts with
    | @mk ident type size? colon semicolon is ts as hi hc ht ha hs =>
      obtain ⟨hoki, hwi⟩ := ident_writes.sound hi fun u hu => hf u (by simp [hu])
      obtain ⟨hokt, hwt⟩ := ident_writes.sound ht fun u hu => hf u (by simp [hu])
      obtain ⟨hoka, hwa⟩ := (after_writes size_writes (by decide)).sound ha fun u hu =>
        hf u (by simp [hu])
      have hwc := Token.word_of_fits hc (hf colon (by simp)) (by decide)
      have hws := Token.word_of_fits hs (hf semicolon (by simp)) (by decide)
      refine ⟨⟨hoki, hokt, hoka⟩, ?_⟩
      rw [Field.unparse, ← hwi, ← hwt, ← hwa, ← hwc, ← hws]
      simp
  complete {f ts} hok hw := by
    obtain ⟨is, us, rfl, his, hus⟩ := List.map_eq_append_iff.1 hw
    obtain ⟨colon, us, rfl, hc, hus⟩ := List.map_eq_cons_iff.1 hus
    obtain ⟨ts, us, rfl, hts, hus⟩ := List.map_eq_append_iff.1 hus
    obtain ⟨as, us, rfl, has, hus⟩ := List.map_eq_append_iff.1 hus
    obtain ⟨semicolon, us, rfl, hs, hus⟩ := List.map_eq_cons_iff.1 hus
    cases List.map_eq_nil_iff.1 hus
    obtain ⟨i, hbi, hi⟩ := ident_writes.complete hok.ident his
    obtain ⟨t, hbt, ht⟩ := ident_writes.complete hok.type hts
    obtain ⟨size?, hba, ha⟩ := (after_writes size_writes (by decide)).complete hok.arraySize? has
    rw [Option.map_id, id, id] at hba
    refine ⟨_, ?_, .mk hi (Token.kind_of_word hc) ht ha (Token.kind_of_word hs)⟩
    rw [Field.mapSpans, Field.mapSpans, hbi, hbt, hba]

theorem triad_writes :
    Writes Triad.Spelled Triad.WellFormed Triad.unparse (Triad.mapSpans .erase) where
  sound {d ts} hts hf := by
    cases hts with
    | @mk word opening closing ident fields is fs hw hi ho hfs hc =>
      obtain ⟨hoki, hwi⟩ := ident_writes.sound hi fun u hu => hf u (by simp [hu])
      obtain ⟨hokf, hwf⟩ := (many_writes field_writes).sound hfs fun u hu => hf u (by simp [hu])
      have hww := Token.word_of_fits hw (hf word (by simp)) (by decide)
      have hwo := Token.word_of_fits ho (hf opening (by simp)) (by decide)
      have hwc := Token.word_of_fits hc (hf closing (by simp)) (by decide)
      refine ⟨⟨hoki, hokf⟩, ?_⟩
      rw [Triad.unparse, ← hwi, ← hwf, ← hww, ← hwo, ← hwc]
      simp
  complete {d ts} hok hw := by
    obtain ⟨word, us, rfl, hww, hus⟩ := List.map_eq_cons_iff.1 hw
    obtain ⟨is, us, rfl, his, hus⟩ := List.map_eq_append_iff.1 hus
    obtain ⟨opening, us, rfl, ho, hus⟩ := List.map_eq_cons_iff.1 hus
    obtain ⟨fs, us, rfl, hfs, hus⟩ := List.map_eq_append_iff.1 hus
    obtain ⟨closing, us, rfl, hc, hus⟩ := List.map_eq_cons_iff.1 hus
    cases List.map_eq_nil_iff.1 hus
    obtain ⟨i, hbi, hi⟩ := ident_writes.complete hok.ident his
    obtain ⟨fields, hbf, hf⟩ := (many_writes field_writes).complete hok.fields hfs
    refine ⟨_, ?_, .mk (Token.kind_of_word hww) hi (Token.kind_of_word ho) hf
      (Token.kind_of_word hc)⟩
    rw [Triad.mapSpans, Triad.mapSpans, hbi, hbf]

theorem decl_writes :
    Writes Decl.Spelled Decl.WellFormed Decl.unparse (Decl.mapSpans .erase) where
  sound {d ts} hts hf := by
    cases hts with
    | triad ht => exact triad_writes.sound ht hf
    | @fractal word f ts hw hfun =>
      obtain ⟨⟨hok, hfr⟩, hwf⟩ := (function_writes true).sound hfun fun u hu =>
        hf u (List.mem_cons_of_mem _ hu)
      have hww := Token.word_of_fits hw (hf word List.mem_cons_self) (by decide)
      refine ⟨hok, ?_⟩
      rw [Decl.unparse, if_pos hfr, List.map_cons, hww, hwf]
      rfl
    | @function f ts hfun =>
      obtain ⟨⟨hok, hfr⟩, hwf⟩ := (function_writes false).sound hfun hf
      refine ⟨hok, ?_⟩
      rw [Decl.unparse, if_neg (by rw [hfr]; decide), hwf]
      rfl
  complete {d ts} hok hw := by
    cases d with
    | triad d =>
      obtain ⟨d', hb, hd⟩ := triad_writes.complete hok hw
      exact ⟨.triad d', congrArg Decl.triad hb, .triad hd⟩
    | function f =>
      rw [Decl.unparse] at hw
      cases hfr : f.isFractal with
      | true =>
        rw [if_pos hfr] at hw
        obtain ⟨word, ts, rfl, hww, hts⟩ := List.map_eq_cons_iff.1 hw
        obtain ⟨f', hb, hf⟩ := (function_writes true).complete ⟨hok, hfr⟩ hts
        exact ⟨.function f', congrArg Decl.function hb, .fractal (Token.kind_of_word hww) hf⟩
      | false =>
        rw [if_neg (by rw [hfr]; decide)] at hw
        obtain ⟨f', hb, hf⟩ := (function_writes false).complete ⟨hok, hfr⟩ hw
        exact ⟨.function f', congrArg Decl.function hb, .function hf⟩

theorem program_writes :
    Writes Program.Spelled Program.WellFormed Program.unparse Program.bare where
  sound hts hf := (many_writes decl_writes).sound hts hf
  complete {p ts} hok hw := by
    obtain ⟨decls, hb, hs⟩ := (many_writes decl_writes).complete hok hw
    exact ⟨⟨decls⟩, congrArg Program.mk hb, hs⟩

end TriadLang
