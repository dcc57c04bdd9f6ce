import TriadLang.Editor.CompileDiagnostics
import TriadLang.Proofs.Compilation.Stages
import TriadLang.Proofs.Editor.Balance

namespace TriadLang

/-- The braces in the lexemes of a kind that programs are written with. -/
def Kind.braces : Kind → List Char
  | openBrace => ['{']
  | closeBrace => ['}']
  | _ => []

def bracesOf (ws : List Token.Word) : List Char := ws.flatMap fun w => w.1.braces

theorem bracesOf_append (ws vs : List Token.Word) :
    bracesOf (ws ++ vs) = bracesOf ws ++ bracesOf vs := List.flatMap_append

theorem bracesOf_cons (w : Token.Word) (ws : List Token.Word) :
    bracesOf (w :: ws) = w.1.braces ++ bracesOf ws := List.flatMap_cons

section

variable {α : Type} {words : α → List Token.Word}

theorem bracesOf_flatMap {as : List α} (h : ∀ a ∈ as, bracesOf (words a) = []) :
    bracesOf (as.flatMap words) = [] := by
  rw [bracesOf, List.flatMap_eq_nil_iff]
  intro w hw
  obtain ⟨a, ha, hw⟩ := List.mem_flatMap.1 hw
  exact List.flatMap_eq_nil_iff.1 (h a ha) w hw

theorem bracesOf_commaWords {as : List α} (h : ∀ a ∈ as, bracesOf (words a) = []) :
    bracesOf (commaWords (as.map words)) = [] := by
  induction as with
  | nil => rfl
  | cons a as ih =>
    have ha := h a List.mem_cons_self
    cases as with
    | nil => simpa [commaWords] using ha
    | cons b as =>
      have hrest := ih fun b hb => h b (List.mem_cons_of_mem _ hb)
      rw [List.map_cons, List.map_cons, commaWords_cons_cons, bracesOf_append, bracesOf_cons, ha]
      exact hrest

theorem bracesOf_after {k : Kind} (hk : k.braces = []) {a? : Option α}
    (h : ∀ a ∈ a?, bracesOf (words a) = []) : bracesOf (wordsAfter k words a?) = [] := by
  cases a? with
  | none => rfl
  | some a =>
    rw [wordsAfter, bracesOf_cons, h a rfl, List.append_nil]
    exact hk

end

theorem Literal.bracesOf_unparse (l : Literal) : bracesOf l.unparse = [] := by
  cases l with
  | bool value => cases value <;> rfl
  | _ => rfl

theorem Expr.Plain.bracesOf_unparse {e : Expr} (h : e.Plain) : bracesOf e.unparse = [] := by
  induction h with
  | @literal l _ _ => exact l.bracesOf_unparse
  | name => rfl
  | call _ _ ih =>
    rw [Expr.unparse, Expr.unparse, Expr.unparseEach_eq_map, bracesOf_append, bracesOf_cons,
      bracesOf_append, bracesOf_commaWords ih]
    rfl

theorem VarDecl.WellFormed.bracesOf_unparse {v : VarDecl} (h : v.WellFormed) :
    bracesOf v.unparse = [] := by
  have hword : (if v.isMutable then Kind.mutable.word else Kind.immutable.word).1.braces = [] := by
    split <;> rfl
  have htype : bracesOf (wordsAfter .colon Ident.unparse v.type?) = [] :=
    bracesOf_after rfl fun _ _ => rfl
  have hinitial : bracesOf (wordsAfter .assign Expr.unparse v.initial?) = [] :=
    bracesOf_after rfl fun e he => (h.initial? e he).plain.bracesOf_unparse
  rw [VarDecl.unparse, bracesOf_cons, hword, bracesOf_append, bracesOf_append, htype,
    bracesOf_append, hinitial]
  rfl

theorem Stmt.bracesOf_unparse {s : Stmt} (h : s.WellFormed) : bracesOf s.unparse = [] := by
  cases s with
  | var v => exact VarDecl.WellFormed.bracesOf_unparse h
  | expr e =>
    rw [Stmt.unparse, bracesOf_append, h.plain.bracesOf_unparse]
    rfl

theorem Field.bracesOf_unparse (f : Field) : bracesOf f.unparse = [] := by
  have hsize : bracesOf (wordsAfter .openSquare sizeWords f.arraySize?) = [] :=
    bracesOf_after rfl fun _ _ => rfl
  rw [Field.unparse, bracesOf_append, bracesOf_cons, bracesOf_append, bracesOf_append, hsize]
  rfl

theorem Function.WellFormed.bracesOf_unparse {f : Function} (h : f.WellFormed) :
    bracesOf f.unparse = ['{', '}'] := by
  have hparams : bracesOf (commaWords (f.params.map Param.unparse)) = [] :=
    bracesOf_commaWords fun _ _ => rfl
  have hresult : bracesOf (wordsAfter .arrow Ident.unparse f.result?) = [] :=
    bracesOf_after rfl fun _ _ => rfl
  have hstmts : bracesOf (f.body.stmts.flatMap Stmt.unparse) = [] :=
    bracesOf_flatMap fun s hs => Stmt.bracesOf_unparse (h.body s hs)
  rw [Function.unparse, bracesOf_cons, bracesOf_append, bracesOf_cons, bracesOf_append, hparams,
    bracesOf_cons, bracesOf_append, hresult, Block.unparse, bracesOf_cons, bracesOf_append, hstmts]
  rfl

theorem Decl.bracesOf_unparse {d : Decl} (h : d.WellFormed) : bracesOf d.unparse = ['{', '}'] := by
  cases d with
  | triad d =>
    have hfields : bracesOf (d.fields.flatMap Field.unparse) = [] :=
      bracesOf_flatMap fun f _ => f.bracesOf_unparse
    rw [Decl.unparse, Triad.unparse, bracesOf_cons, bracesOf_append, bracesOf_cons,
      bracesOf_append, hfields]
    rfl
  | function f =>
    rw [Decl.unparse, bracesOf_append, Function.WellFormed.bracesOf_unparse h]
    split <;> rfl

theorem Program.WellFormed.openAfter?_bracesOf {p : Program} (h : p.WellFormed) :
    openAfter? 0 (bracesOf p.unparse) = some 0 := by
  obtain ⟨decls⟩ := p
  show openAfter? 0 (bracesOf (decls.flatMap Decl.unparse)) = some 0
  induction decls with
  | nil => rfl
  | cons d ds ih =>
    rw [List.flatMap_cons, bracesOf_append, Decl.bracesOf_unparse (h d List.mem_cons_self)]
    exact ih fun d hd => h d (List.mem_cons_of_mem _ hd)

theorem ne_brace {p : Char → Bool} (ho : p '{' = false) (hc : p '}' = false) {c : Char}
    (h : p c) : c ≠ '{' ∧ c ≠ '}' := by
  constructor
  · rintro rfl
    rw [ho] at h
    cases h
  · rintro rfl
    rw [hc] at h
    cases h

theorem Kind.Fits.forall_ne_brace {k : Kind} (hk : k = .ident ∨ k = .number) {lexeme : String}
    (hf : k.Fits lexeme) : ∀ c ∈ lexeme.toList, c ≠ '{' ∧ c ≠ '}' := by
  intro c hc
  rcases hk with rfl | rfl
  · have hword : Rule.isWord lexeme.toList := hf.1
    cases hs : lexeme.toList with
    | nil =>
      rw [hs] at hc
      cases hc
    | cons d ds =>
      rw [hs] at hc hword
      rw [Rule.isWord, Bool.and_eq_true, List.all_eq_true] at hword
      rcases List.mem_cons.1 hc with rfl | hc
      · exact ne_brace rfl rfl hword.1
      · exact ne_brace rfl rfl (hword.2 c hc)
  · exact ne_brace rfl rfl (hf.2 c hc)

/-- A lexeme has the braces of its kind. -/
theorem openAfter?_lexeme {t : Token} (hk : t.kind ∈ Kind.inPrograms) (hf : t.Fits) (n : Nat) :
    openAfter? n t.lexeme.toList = openAfter? n t.kind.braces := by
  by_cases hfix : t.kind ∈ Kind.fixed
  · have hw := Token.word_of_fits rfl hf hfix
    have hne : t.kind ≠ .number := by
      intro h
      rw [h] at hfix
      exact absurd hfix (by decide)
    have hl : t.lexeme = t.kind.spelling := Token.lexeme_of_word hw hne
    rw [hl]
    cases t.kind <;> rfl
  · have hrest : t.kind = .ident ∨ t.kind = .number := by
      revert hk hfix
      cases t.kind <;> decide
    have hno : t.kind.braces = [] := by
      rcases hrest with h | h <;> rw [h] <;> rfl
    rw [hno]
    exact openAfter?_of_no_braces (Kind.Fits.forall_ne_brace hrest hf) n

/-- Comments with balanced braces leave those of the tokens. -/
theorem openAfter?_text {ps : List Piece} (hskip : ∀ p ∈ ps, p.kind? = none → Balanced p.chars)
    {offset : Nat}
    (htok : ∀ t ∈ Piece.tokens offset ps, t.kind ∈ Kind.inPrograms ∧ t.Fits) (n : Nat) :
    openAfter? n (Piece.text ps) =
      openAfter? n ((Piece.tokens offset ps).flatMap fun t => t.kind.braces) := by
  induction ps generalizing offset n with
  | nil => rfl
  | cons p ps ih =>
    obtain ⟨kind?, cs⟩ := p
    rw [Piece.text_cons, openAfter?_append]
    have hskip' : ∀ p ∈ ps, p.kind? = none → Balanced p.chars :=
      fun p hp => hskip p (List.mem_cons_of_mem _ hp)
    cases kind? with
    | none =>
      have hb : Balanced cs := hskip _ List.mem_cons_self rfl
      rw [hb.openAfter?]
      exact ih hskip' htok n
    | some k =>
      obtain ⟨hk, hf⟩ := htok _ List.mem_cons_self
      have hlex := openAfter?_lexeme hk hf n
      have hchars : (Token.ofChars k cs offset).lexeme.toList = cs := String.toList_ofList
      rw [hchars] at hlex
      have htok' := fun t ht => htok t (List.mem_cons_of_mem _ ht)
      show _ = openAfter? n ((Token.ofChars k cs offset :: Piece.tokens _ ps).flatMap _)
      rw [List.flatMap_cons, openAfter?_append, hlex]
      exact congrArg _ (funext fun m => ih hskip' htok' m)

theorem balanced_of_compile {src text : String} (h : (compile src).result = .ok text)
    {ps : List Piece} (hps : Cuts [] ps) (htext : Piece.text ps = src.toList)
    (hskip : ∀ p ∈ ps, p.kind? = none → Balanced p.chars) : Balanced src.toList := by
  obtain ⟨p, lines, hread, -⟩ := exists_of_compile_eq_ok h
  obtain ⟨ts, htok, hparse⟩ := read_eq_ok_iff.1 hread
  have hlex : Lexes 0 src.toList (Piece.tokens 0 ps) := htext ▸ lexes_of_cuts hps 0
  have hts : tokenize src = .ok (Piece.tokens 0 ps ++ [.eof (byteLength src.toList)]) :=
    tokenize_eq_ok_iff_lexes.2 ⟨_, hlex, rfl⟩
  rw [hts] at htok
  cases htok
  have hp : p.Spelled (Piece.tokens 0 ps) := (parse_append_eof hlex.forall_fits _).1 hparse
  have hfits : ∀ t ∈ Piece.tokens 0 ps, t.Fits := fun t ht => (hlex.forall_fits t ht).2
  obtain ⟨hok, hw⟩ := program_writes.sound hp hfits
  have hbraces : (Piece.tokens 0 ps).flatMap (fun t => t.kind.braces) = bracesOf p.unparse := by
    rw [← hw, bracesOf, List.flatMap_map]
    rfl
  rw [balanced_iff, ← htext,
    openAfter?_text hskip fun t ht => ⟨hp.kind_mem hfits t ht, hfits t ht⟩, hbraces]
  exact hok.openAfter?_bracesOf

/-- Nothing is shown about a text exactly if it compiles and its braces are
balanced, those in comments included.  If those in each comment are balanced on
their own, nothing is shown exactly if the text compiles. -/
theorem compileDiagnostics_eq_nil_iff (src : String) :
    (compileDiagnostics src = [] ↔
      (∃ text, (compile src).result = .ok text) ∧ Balanced src.toList) ∧
    ∀ ps : List Piece, Cuts [] ps → Piece.text ps = src.toList →
      (∀ p ∈ ps, p.kind? = none → Balanced p.chars) →
      (compileDiagnostics src = [] ↔ ∃ text, (compile src).result = .ok text) := by
  have hiff : compileDiagnostics src = [] ↔
      (∃ text, (compile src).result = .ok text) ∧ Balanced src.toList := by
    rw [← braceDiagnostics_eq_nil_iff, compileDiagnostics]
    cases hb : braceDiagnostics src with
    | nil =>
      cases hc : (compile src).result with
      | ok text => simp
      | error fault => simp
    | cons d ds => simp
  refine ⟨hiff, ?_⟩
  intro ps hps htext hskip
  rw [hiff]
  constructor
  · exact fun h => h.1
  · rintro ⟨text, h⟩
    exact ⟨⟨text, h⟩, balanced_of_compile h hps htext hskip⟩

/-- A brace in a comment is reported, although the text compiles. -/
theorem compileDiagnostics_comment :
    (compile "/* \x7b */").result = .ok "" ∧
      compileDiagnostics "/* \x7b */" = [⟨⟨0, 0⟩, ⟨0, 1⟩, "unmatched opening brace"⟩] ∧
      ¬ (compileDiagnostics "/* \x7b */" = [] ↔
        ∃ text, (compile "/* \x7b */").result = .ok text) := by
  have hc : (compile "/* \x7b */").result = .ok "" := ok_of_toOption (by decide +kernel)
  have hd : compileDiagnostics "/* \x7b */" = [⟨⟨0, 0⟩, ⟨0, 1⟩, "unmatched opening brace"⟩] := by
    decide +kernel
  refine ⟨hc, hd, fun h => ?_⟩
  have hnil := h.2 ⟨"", hc⟩
  rw [hd] at hnil
  cases hnil

end TriadLang
