import TriadLang.Proofs.Tree.Reading
import TriadLang.Proofs.Tree.Writing

namespace TriadLang

/-- The kinds of words that programs are written with. -/
def Kind.inPrograms : List Kind :=
  [triad, fractal, immutable, mutable, litTrue, litFalse, uncertain, ident, number, colon,
    semicolon, comma, openParen, closeParen, openBrace, closeBrace, openSquare, closeSquare,
    arrow, assign]

/-- A word of a program, such as the lexer makes it. -/
structure Token.Word.Good (w : Token.Word) : Prop where
  kind : w.1 ∈ Kind.inPrograms
  fits : w.1.Fits w.2
  zeros : w.1 = .number → dropZeros w.2.toList = w.2.toList

theorem Kind.good_word {k : Kind} (hk : k ∈ inPrograms) (hf : k ∈ fixed) : k.word.Good where
  kind := hk
  fits := by
    rcases List.mem_append.1 hf with hf | hf
    · exact (fits_reserved hf).2 rfl
    · exact (fits_sign hf).2 rfl
  zeros h := by
    have hn : k = .number := h
    rw [hn] at hf
    exact absurd hf (by decide)

theorem good_name {s : String} (h : IsName s) : Token.Word.Good (.ident, s) where
  kind := (by decide : Kind.ident ∈ Kind.inPrograms)
  fits := h
  zeros h := by cases h

theorem good_number (n : Nat) : Token.Word.Good (.number, toString n) where
  kind := (by decide : Kind.number ∈ Kind.inPrograms)
  fits := by
    show (toString n).toList ≠ [] ∧ ∀ c ∈ (toString n).toList, c.isDigit
    rw [Nat.toString_eq_ofList_toDigits, String.toList_ofList]
    exact ⟨Nat.toDigits_ne_nil, fun c hc => Nat.isDigit_of_mem_toDigits (by decide) (by decide) hc⟩
  zeros _ := by
    show dropZeros (toString n).toList = (toString n).toList
    rw [Nat.toString_eq_ofList_toDigits, String.toList_ofList, dropZeros_toDigits]

def GoodWords (ws : List Token.Word) : Prop := ∀ w ∈ ws, w.Good

theorem goodWords_nil : GoodWords [] := by simp [GoodWords]

theorem goodWords_cons {w : Token.Word} {ws : List Token.Word} :
    GoodWords (w :: ws) ↔ w.Good ∧ GoodWords ws := List.forall_mem_cons

theorem goodWords_append {ws vs : List Token.Word} :
    GoodWords (ws ++ vs) ↔ GoodWords ws ∧ GoodWords vs := List.forall_mem_append

theorem goodWords_fixed {k : Kind} {ws : List Token.Word} (hk : k ∈ Kind.inPrograms)
    (hf : k ∈ Kind.fixed) : GoodWords (k.word :: ws) ↔ GoodWords ws := by
  rw [goodWords_cons]
  exact and_iff_right (Kind.good_word hk hf)

section

variable {α : Type} {words : α → List Token.Word}

theorem goodWords_flatMap {as : List α} (h : ∀ a ∈ as, GoodWords (words a)) :
    GoodWords (as.flatMap words) := by
  intro w hw
  obtain ⟨a, ha, hw⟩ := List.mem_flatMap.1 hw
  exact h a ha w hw

theorem goodWords_commaWords {as : List α} (h : ∀ a ∈ as, GoodWords (words a)) :
    GoodWords (commaWords (as.map words)) := by
  induction as with
  | nil => exact goodWords_nil
  | cons a as ih =>
    have ha := h a List.mem_cons_self
    cases as with
    | nil => simpa [commaWords] using ha
    | cons b as =>
      rw [List.map_cons, List.map_cons, commaWords_cons_cons, goodWords_append,
        goodWords_fixed (by decide) (by decide)]
      exact ⟨ha, ih fun b hb => h b (List.mem_cons_of_mem _ hb)⟩

theorem goodWords_after {k : Kind} {a? : Option α} (hk : k ∈ Kind.inPrograms)
    (hf : k ∈ Kind.fixed) (h : ∀ a ∈ a?, GoodWords (words a)) :
    GoodWords (wordsAfter k words a?) := by
  cases a? with
  | none => exact goodWords_nil
  | some a => exact (goodWords_fixed hk hf).2 (h a rfl)

end

theorem Ident.goodWords {i : Ident} (h : IsName i.name) : GoodWords i.unparse :=
  goodWords_cons.2 ⟨good_name h, goodWords_nil⟩

theorem Literal.goodWords {l : Literal} (h : l.WellFormed) : GoodWords l.unparse := by
  cases l with
  | text value =>
    have hv : value = "uncertain" := h
    rw [hv]
    exact (goodWords_fixed (k := .uncertain) (by decide) (by decide)).2 goodWords_nil
  | int value => exact goodWords_cons.2 ⟨good_number value, goodWords_nil⟩
  | bool value => cases value <;> exact (goodWords_fixed (by decide) (by decide)).2 goodWords_nil
  | absent => exact h.elim

theorem Expr.Plain.goodWords {e : Expr} (h : e.Plain) : GoodWords e.unparse := by
  induction h with
  | literal hl => exact Literal.goodWords hl
  | name hi => exact Ident.goodWords hi
  | @call i args at' span hi _ ih =>
    rw [Expr.unparse, Expr.unparse, Expr.unparseEach_eq_map, goodWords_append,
      goodWords_fixed (by decide) (by decide), goodWords_append]
    refine ⟨Ident.goodWords hi, goodWords_commaWords ih, ?_⟩
    exact (goodWords_fixed (by decide) (by decide)).2 goodWords_nil

theorem VarDecl.WellFormed.goodWords {v : VarDecl} (h : v.WellFormed) : GoodWords v.unparse := by
  have hword : (if v.isMutable then Kind.mutable.word else Kind.immutable.word).Good := by
    split <;> exact Kind.good_word (by decide) (by decide)
  rw [VarDecl.unparse, goodWords_cons, goodWords_append, goodWords_append, goodWords_append]
  refine ⟨hword, Ident.goodWords h.ident, ?_, ?_, ?_⟩
  · exact goodWords_after (by decide) (by decide) fun t ht => Ident.goodWords (h.type? t ht)
  · exact goodWords_after (by decide) (by decide) fun e he => (h.initial? e he).plain.goodWords
  · exact (goodWords_fixed (by decide) (by decide)).2 goodWords_nil

theorem Stmt.goodWords {s : Stmt} (h : s.WellFormed) : GoodWords s.unparse := by
  cases s with
  | var v => exact VarDecl.WellFormed.goodWords h
  | expr e =>
    rw [Stmt.unparse, goodWords_append, goodWords_fixed (by decide) (by decide)]
    exact ⟨h.plain.goodWords, goodWords_nil⟩

theorem Block.goodWords {b : Block} (h : b.WellFormed) : GoodWords b.unparse := by
  rw [Block.unparse, goodWords_fixed (by decide) (by decide), goodWords_append,
    goodWords_fixed (by decide) (by decide)]
  exact ⟨goodWords_flatMap fun s hs => Stmt.goodWords (h s hs), goodWords_nil⟩

theorem Function.WellFormed.goodWords {f : Function} (h : f.WellFormed) :
    GoodWords f.unparse := by
  rw [Function.unparse, goodWords_cons, goodWords_append,
    goodWords_fixed (by decide) (by decide), goodWords_append,
    goodWords_fixed (by decide) (by decide), goodWords_append]
  refine ⟨good_name (by decide), Ident.goodWords h.ident, ?_, ?_, Block.goodWords h.body⟩
  · refine goodWords_commaWords fun p hp => ?_
    rw [Param.unparse, goodWords_append, goodWords_fixed (by decide) (by decide)]
    exact ⟨Ident.goodWords (h.params p hp).ident, Ident.goodWords (h.params p hp).type⟩
  · exact goodWords_after (by decide) (by decide) fun r hr => Ident.goodWords (h.result? r hr)

theorem Field.WellFormed.goodWords {f : Field} (h : f.WellFormed) : GoodWords f.unparse := by
  rw [Field.unparse, goodWords_append, goodWords_fixed (by decide) (by decide),
    goodWords_append, goodWords_append, goodWords_fixed (by decide) (by decide)]
  refine ⟨Ident.goodWords h.ident, Ident.goodWords h.type, ?_, goodWords_nil⟩
  refine goodWords_after (by decide) (by decide) fun n _ => ?_
  rw [sizeWords, goodWords_cons, goodWords_fixed (by decide) (by decide)]
  exact ⟨good_number n, goodWords_nil⟩

theorem Triad.WellFormed.goodWords {d : Triad} (h : d.WellFormed) : GoodWords d.unparse := by
  rw [Triad.unparse, goodWords_fixed (by decide) (by decide), goodWords_append,
    goodWords_fixed (by decide) (by decide), goodWords_append,
    goodWords_fixed (by decide) (by decide)]
  exact ⟨Ident.goodWords h.ident, goodWords_flatMap fun f hf => (h.fields f hf).goodWords,
    goodWords_nil⟩

theorem Program.WellFormed.goodWords {p : Program} (h : p.WellFormed) :
    GoodWords p.unparse := by
  refine goodWords_flatMap fun d hd => ?_
  have hok := h d hd
  cases d with
  | triad d => exact Triad.WellFormed.goodWords hok
  | function f =>
    rw [Decl.unparse, goodWords_append]
    refine ⟨?_, Function.WellFormed.goodWords hok⟩
    split
    · exact (goodWords_fixed (by decide) (by decide)).2 goodWords_nil
    · exact goodWords_nil

theorem Program.Spelled.kind_mem {p : Program} {ts : List Token} (h : p.Spelled ts)
    (hf : ∀ t ∈ ts, t.Fits) : ∀ t ∈ ts, t.kind ∈ Kind.inPrograms := by
  obtain ⟨hok, hw⟩ := program_writes.sound h hf
  intro t ht
  have hword : t.word ∈ p.unparse := hw ▸ List.mem_map_of_mem ht
  exact (hok.goodWords t.word hword).kind

theorem Program.Spelled.kind_ne_eof {p : Program} {ts : List Token} (h : p.Spelled ts)
    (hf : ∀ t ∈ ts, t.Fits) : ∀ t ∈ ts, t.kind ≠ .eof := by
  intro t ht heof
  have hmem := h.kind_mem hf t ht
  rw [heof] at hmem
  exact absurd hmem (by decide)

/-- The end token of a text is the only one, and nothing before it is left out. -/
theorem parse_append_eof {us : List Token} (hus : ∀ t ∈ us, t.kind ≠ .eof ∧ t.Fits)
    (n : Nat) {p : Program} : parse (us ++ [.eof n]) = .ok p ↔ p.Spelled us := by
  rw [parse_eq_ok_iff]
  constructor
  · rintro ⟨vs, rest, heq, hvs, hrest⟩
    have hf : ∀ t ∈ vs, t.Fits := by
      intro t ht
      have hmem : t ∈ us ++ [.eof n] := heq ▸ List.mem_append_left _ ht
      rcases List.mem_append.1 hmem with hmem | hmem
      · exact (hus t hmem).2
      · rw [List.mem_singleton.1 hmem]
        rfl
    have hne := hvs.kind_ne_eof hf
    rcases List.append_eq_append_iff.1 heq with ⟨as, rfl, has⟩ | ⟨as, rfl, has⟩
    · cases as with
      | nil => rwa [List.append_nil] at hvs
      | cons a as =>
        have ha : a = .eof n := (List.cons.inj has).1.symm
        exact absurd rfl (hne (.eof n) (by simp [ha]))
    · cases as with
      | nil => rwa [List.append_nil]
      | cons a as =>
        rw [has] at hrest
        exact absurd (hrest a rfl) (hus a (by simp)).1
  · intro h
    refine ⟨us, [.eof n], rfl, h, ?_⟩
    rintro t ⟨⟩
    rfl

theorem parse_tokenize_eq_ok {src : String} {ts : List Token} (h : tokenize src = .ok ts) :
    ∃ us, ts = us ++ [.eof (byteLength src.toList)] ∧ (∀ t ∈ us, t.Fits) ∧
      ∀ p, parse ts = .ok p ↔ p.Spelled us := by
  obtain ⟨us, hus, rfl⟩ := tokenize_eq_ok_iff_lexes.1 h
  exact ⟨us, rfl, fun t ht => (hus.forall_fits t ht).2,
    fun p => parse_append_eof hus.forall_fits _⟩

/-- The text of a program is read back. -/
theorem tokenize_print {q : Program} (hq : q.WellFormed) :
    ∃ ts, tokenize q.print = .ok ts ∧ ts.map Token.word = q.unparse ++ [(.eof, "")] := by
  have hgood : ∀ w ∈ q.unparse, w.1 ≠ .eof ∧ w.1.Fits w.2 := by
    intro w hw
    have h := hq.goodWords w hw
    refine ⟨?_, h.fits⟩
    intro hk
    have hmem := h.kind
    rw [hk] at hmem
    exact absurd hmem (by decide)
  obtain ⟨us, hus, hw⟩ := exists_lexes_spaced hgood 0
  refine ⟨_, tokenize_eq_ok_iff_lexes.2 ⟨us, hus, rfl⟩, ?_⟩
  have hword : ∀ t ∈ us, t.word = (t.kind, t.lexeme) := by
    intro t ht
    by_cases hk : t.kind = .number
    · have hmem : (t.kind, t.lexeme) ∈ q.unparse := by
        rw [← hw]
        exact List.mem_map_of_mem ht
      have hz : dropZeros t.lexeme.toList = t.lexeme.toList := (hq.goodWords _ hmem).zeros hk
      rw [Token.word, if_pos hk, hz, String.ofList_toList]
    · exact Token.word_of_ne hk
  rw [List.map_append, List.map_congr_left hword, hw]
  rfl

theorem exists_parse_of_words {src : String} {ts : List Token} (h : tokenize src = .ok ts)
    {q : Program} (hq : q.WellFormed) (hw : ts.map Token.word = q.unparse ++ [(.eof, "")]) :
    ∃ p, parse ts = .ok p ∧ p.bare = q.bare := by
  obtain ⟨us, rfl, -, hparse⟩ := parse_tokenize_eq_ok h
  rw [List.map_append] at hw
  obtain ⟨p, hb, hp⟩ := program_writes.complete hq (List.append_inj_left' hw rfl)
  exact ⟨p, (hparse p).2 hp, hb⟩

theorem words_of_parse {src : String} {ts : List Token} (h : tokenize src = .ok ts)
    {p : Program} (hp : parse ts = .ok p) :
    p.WellFormed ∧ ts.map Token.word = p.unparse ++ [(.eof, "")] := by
  obtain ⟨us, rfl, hf, hparse⟩ := parse_tokenize_eq_ok h
  obtain ⟨hok, hw⟩ := program_writes.sound ((hparse p).1 hp) hf
  exact ⟨hok, by rw [List.map_append, hw]; rfl⟩

/-- A text is read as a program, up to spans, exactly if its tokens are the words
of one that can be written; what is read can be written; every program that can be
written is read back from its text; and no two programs have the same words. -/
theorem parse_eq_ok_iff_unparse {src : String} {ts : List Token} (h : tokenize src = .ok ts) :
    (∀ p : Program, (∃ p', parse ts = .ok p' ∧ p'.bare = p.bare) ↔
      ∃ q : Program, q.WellFormed ∧ q.bare = p.bare ∧
        ts.map Token.word = q.unparse ++ [(.eof, "")]) ∧
    (∀ p : Program, parse ts = .ok p →
      p.WellFormed ∧ ts.map Token.word = p.unparse ++ [(.eof, "")]) ∧
    (∀ q : Program, q.WellFormed →
      ∃ us p, tokenize q.print = .ok us ∧ parse us = .ok p ∧ p.bare = q.bare) ∧
    ∀ q q' : Program, q.WellFormed → q'.WellFormed → q.unparse = q'.unparse →
      q.bare = q'.bare := by
  refine ⟨?_, fun p hp => words_of_parse h hp, ?_, ?_⟩
  · intro p
    constructor
    · rintro ⟨p', hp', hb⟩
      obtain ⟨hok, hw⟩ := words_of_parse h hp'
      exact ⟨p', hok, hb, hw⟩
    · rintro ⟨q, hq, hb, hw⟩
      obtain ⟨p', hp', hb'⟩ := exists_parse_of_words h hq hw
      exact ⟨p', hp', hb'.trans hb⟩
  · intro q hq
    obtain ⟨us, hus, hw⟩ := tokenize_print hq
    obtain ⟨p, hp, hb⟩ := exists_parse_of_words hus hq hw
    exact ⟨us, p, hus, hp, hb⟩
  · intro q q' hq hq' heq
    obtain ⟨us, hus, hw⟩ := tokenize_print hq
    obtain ⟨p, hp, hb⟩ := exists_parse_of_words hus hq hw
    obtain ⟨p', hp', hb'⟩ := exists_parse_of_words hus hq' (heq ▸ hw)
    rw [hp] at hp'
    cases hp'
    exact hb.symm.trans hb'

/-- The word `function` is a name where no declaration begins, and the zero in
front of a numeral is not part of the tree. -/
theorem parse_function_named_function : ∃ ts p,
    tokenize "function function()\x7bf(07);\x7d" = .ok ts ∧ parse ts = .ok p ∧
      p.bare = Program.mk [.function {
        ident := ⟨"function", .zero⟩
        body := ⟨[.expr (.call (.name ⟨"f", .zero⟩ .zero) [.literal (.int 7) .zero] .zero)], .zero⟩ }] := by
  have htok : tokenize "function function()\x7bf(07);\x7d" = .ok
      [⟨.ident, "function", ⟨0, 8⟩⟩, ⟨.ident, "function", ⟨9, 17⟩⟩, ⟨.openParen, "(", ⟨17, 18⟩⟩,
        ⟨.closeParen, ")", ⟨18, 19⟩⟩, ⟨.openBrace, "\x7b", ⟨19, 20⟩⟩, ⟨.ident, "f", ⟨20, 21⟩⟩,
        ⟨.openParen, "(", ⟨21, 22⟩⟩, ⟨.number, "07", ⟨22, 24⟩⟩, ⟨.closeParen, ")", ⟨24, 25⟩⟩,
        ⟨.semicolon, ";", ⟨25, 26⟩⟩, ⟨.closeBrace, "\x7d", ⟨26, 27⟩⟩, .eof 27] := by
    with_unfolding_all rfl
  let call : Expr := .call (.name ⟨"f", .zero⟩ .zero) [.literal (.int 7) .zero] .zero
  let q : Program := ⟨[.function { ident := ⟨"function", .zero⟩, body := ⟨[.expr call], .zero⟩ }]⟩
  have hcall : call.WellFormed := by
    refine ⟨.call (by decide) ?_, by decide⟩
    intro a ha
    rw [List.mem_singleton.1 ha]
    exact .literal (by decide : (7 : Nat) < UInt64.size)
  have hq : q.WellFormed := by
    intro d hd
    rw [List.mem_singleton.1 hd]
    refine ⟨by decide, by simp, by simp, ?_⟩
    intro s hs
    rw [List.mem_singleton.1 hs]
    exact hcall
  obtain ⟨p, hp, hb⟩ := ((parse_eq_ok_iff_unparse htok).1 q).2 ⟨q, hq, rfl, by cbv⟩
  exact ⟨_, p, htok, hp, hb⟩

end TriadLang
