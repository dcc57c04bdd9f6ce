import TriadLang.Proofs.Token.Lexes

namespace TriadLang

theorem Rule.isWordPart_of_isWordStart {c : Char} (h : isWordStart c) : isWordPart c := by
  rw [isWordStart, Bool.or_eq_true] at h
  rw [isWordPart, Char.isAlphanum, Bool.or_eq_true, Bool.or_eq_true]
  exact h.imp_left Or.inl

/-- The shape of an identifier: a letter or an underscore, and then letters,
underscores and digits. -/
def Rule.isWord : List Char → Bool
  | [] => false
  | c :: cs => isWordStart c && cs.all isWordPart

def IsName (s : String) : Prop := Rule.isWord s.toList ∧ Kind.ofReserved? s = none

instance : DecidablePred IsName := fun _ => inferInstanceAs (Decidable (_ ∧ _))

theorem IsName.forall_isWordPart {s : String} (h : IsName s) :
    ∀ c ∈ s.toList, Rule.isWordPart c := by
  obtain ⟨hword, -⟩ := h
  intro c hc
  cases hs : s.toList with
  | nil =>
    rw [hs] at hc
    cases hc
  | cons d cs =>
    rw [hs] at hword hc
    rw [Rule.isWord, Bool.and_eq_true, List.all_eq_true] at hword
    rcases List.mem_cons.1 hc with rfl | hc
    · exact Rule.isWordPart_of_isWordStart hword.1
    · exact hword.2 c hc

theorem IsName.not_mem_newline {s : String} (h : IsName s) : '\n' ∉ s.toList := by
  intro hmem
  exact absurd (h.forall_isWordPart _ hmem) (by decide)

/-- The lexemes of a kind. -/
def Kind.Fits (k : Kind) (lexeme : String) : Prop :=
  match k with
  | .ident => IsName lexeme
  | .number => lexeme.toList ≠ [] ∧ ∀ c ∈ lexeme.toList, c.isDigit
  | .text => ∃ cs, lexeme.toList = '"' :: cs ∧ Rule.toClosingQuote? false cs = some cs.length
  | .eof => lexeme = ""
  | k => lexeme = k.spelling

theorem Kind.fits_reserved {k : Kind} (hk : k ∈ reserved) {lexeme : String} :
    k.Fits lexeme ↔ lexeme = k.spelling := by
  cases k <;> first | exact Iff.rfl | exact absurd hk (by decide)

theorem Kind.fits_sign {k : Kind} (hk : k ∈ signs) {lexeme : String} :
    k.Fits lexeme ↔ lexeme = k.spelling := by
  cases k <;> first | exact Iff.rfl | exact absurd hk (by decide)

theorem Kind.ofReserved?_eq_some {k : Kind} {lexeme : String} (h : ofReserved? lexeme = some k) :
    k ∈ reserved ∧ lexeme = k.spelling := by
  have hs := List.find?_some h
  exact ⟨List.mem_of_find?_eq_some h, (eq_of_beq hs).symm⟩

theorem Kind.ofReserved?_spelling {k : Kind} (hk : k ∈ reserved) :
    ofReserved? k.spelling = some k := by
  revert k
  decide

theorem Kind.isWord_spelling {k : Kind} (hk : k ∈ reserved) :
    Rule.isWord k.spelling.toList := by
  revert k
  decide

/-- What the lexer cuts off fits the kind that it gives to it. -/
theorem fits_of_cut {k : Kind} {cs rest : List Char} (h : Cut (some k) cs rest) (offset : Nat) :
    (Token.ofChars k cs offset).kind.Fits (Token.ofChars k cs offset).lexeme := by
  show (k.classify (String.ofList cs)).Fits (String.ofList cs)
  cases h with
  | sign hk hr =>
    have hne : k ≠ .ident := by
      rintro rfl
      exact absurd hk (by decide)
    rw [Kind.classify, if_neg hne, Kind.fits_sign hk, String.ofList_toList]
  | digits hn hcs hr =>
    show (String.ofList cs).toList ≠ [] ∧ _
    rw [String.toList_ofList]
    exact ⟨hn, hcs⟩
  | @string cs _ hcs => exact ⟨cs, String.toList_ofList, hcs⟩
  | @word c cs _ hc hcs hr =>
    rw [Kind.classify, if_pos rfl]
    cases hres : Kind.ofReserved? (String.ofList (c :: cs)) with
    | none =>
      refine ⟨?_, hres⟩
      rw [String.toList_ofList, Rule.isWord, hc, Bool.true_and]
      exact List.all_eq_true.2 hcs
    | some k' =>
      obtain ⟨hk', hl⟩ := Kind.ofReserved?_eq_some hres
      exact (Kind.fits_reserved hk').2 hl

theorem Lexes.forall_fits {offset : Nat} {text : List Char} {ts : List Token}
    (h : Lexes offset text ts) : ∀ t ∈ ts, t.kind ≠ .eof ∧ t.kind.Fits t.lexeme := by
  induction h with
  | nil => simp
  | skip _ _ ih => exact ih
  | token hc _ ih =>
    intro t ht
    rcases List.mem_cons.1 ht with rfl | ht
    · exact ⟨Lexer.kind_ofChars_ne_eof hc _, fits_of_cut hc _⟩
    · exact ih t ht

theorem isBlank_iff {c : Char} :
    Rule.isBlank c ↔ c = ' ' ∨ c = '\t' ∨ c = '\r' ∨ c = '\n' := by
  simp [Rule.isBlank, or_assoc]

theorem Kind.ends_of_blank {k : Kind} {rest : List Char}
    (hr : ∀ c ∈ rest.head?, Rule.isBlank c) : k.Ends rest := by
  have hne : ∀ c : Char, Rule.isBlank c = false → rest.head? ≠ some c := by
    intro c hc hs
    have := hr c hs
    rw [hc] at this
    cases this
  cases k
  case minus | assign | bang | less | greater => exact hne _ rfl
  case slash =>
    refine ⟨hne _ rfl, ?_⟩
    rintro cs rfl
    exact absurd rfl (hne '*' rfl)
  all_goals exact True.intro

/-- A lexeme that fits a kind is cut off in front of a blank, and takes that
kind. -/
theorem exists_cut_of_fits {k : Kind} {lexeme : String} (hf : k.Fits lexeme) (hk : k ≠ .eof)
    {rest : List Char} (hr : ∀ c ∈ rest.head?, Rule.isBlank c) :
    ∃ k', Cut (some k') lexeme.toList rest ∧ k'.classify lexeme = k := by
  have hblank : ∀ {p : Char → Bool}, p ' ' = false → p '\t' = false → p '\r' = false →
      p '\n' = false → Halts p rest := by
    intro p h1 h2 h3 h4 c hc
    rcases isBlank_iff.1 (hr c hc) with rfl | rfl | rfl | rfl <;> assumption
  have hword : Rule.isWord lexeme.toList → Cut (some .ident) lexeme.toList rest := by
    intro hw
    cases hs : lexeme.toList with
    | nil => simp [hs, Rule.isWord] at hw
    | cons c cs =>
      rw [hs, Rule.isWord, Bool.and_eq_true, List.all_eq_true] at hw
      exact .word hw.1 hw.2 (hblank rfl rfl rfl rfl)
  have hmem := Kind.mem_all k
  simp only [Kind.all, List.mem_append, List.mem_cons, List.not_mem_nil, or_false] at hmem
  rcases hmem with ((hres | rfl | rfl | rfl) | hsign) | rfl
  · have hl := (Kind.fits_reserved hres).1 hf
    subst hl
    refine ⟨.ident, hword (Kind.isWord_spelling hres), ?_⟩
    rw [Kind.classify, if_pos rfl, Kind.ofReserved?_spelling hres]
    rfl
  · refine ⟨.ident, hword hf.1, ?_⟩
    rw [Kind.classify, if_pos rfl, hf.2]
    rfl
  · exact ⟨.number, .digits hf.1 hf.2 (hblank rfl rfl rfl rfl), rfl⟩
  · obtain ⟨cs, hcs, hq⟩ := hf
    rw [hcs]
    exact ⟨.text, .string hq, rfl⟩
  · have hl := (Kind.fits_sign hsign).1 hf
    subst hl
    refine ⟨k, .sign hsign (Kind.ends_of_blank hr), if_neg ?_⟩
    rintro rfl
    exact absurd hsign (by decide)
  · exact absurd rfl hk

/-- A lexeme tells its kind. -/
theorem Kind.eq_of_fits {k k' : Kind} {lexeme : String} (h : k.Fits lexeme) (h' : k'.Fits lexeme)
    (hk : k ≠ .eof) (hk' : k' ≠ .eof) : k = k' := by
  have hnil : ∀ c ∈ ([] : List Char).head?, Rule.isBlank c := by simp
  obtain ⟨j, hj, hjk⟩ := exists_cut_of_fits h hk hnil
  obtain ⟨j', hj', hjk'⟩ := exists_cut_of_fits h' hk' hnil
  obtain ⟨r, hr, hrk, -⟩ := Rule.exists_first?_of_cut hj
  obtain ⟨r', hr', hrk', -⟩ := Rule.exists_first?_of_cut hj'
  rw [hr] at hr'
  cases hr'
  rw [hrk] at hrk'
  cases hrk'
  exact hjk.symm.trans hjk'

theorem tokenize_of_fits {k : Kind} {lexeme : String} (hf : k.Fits lexeme) (hk : k ≠ .eof) :
    tokenize lexeme = .ok [⟨k, lexeme, ⟨0, byteLength lexeme.toList⟩⟩,
      .eof (byteLength lexeme.toList)] := by
  have hend : ∀ c ∈ ([] : List Char).head?, Rule.isBlank c := by simp
  obtain ⟨k', hc, rfl⟩ := exists_cut_of_fits hf hk hend
  have hlexes : Lexes 0 (lexeme.toList ++ []) [Token.ofChars k' lexeme.toList 0] :=
    .token hc (.nil _)
  rw [List.append_nil] at hlexes
  refine tokenize_eq_ok_iff_lexes.2 ⟨_, hlexes, ?_⟩
  rw [Token.ofChars, String.ofList_toList, Nat.zero_add]
  rfl

/-- The text of some lexemes, with a blank between any two of them. -/
def spaced (lexemes : List String) : String := " ".intercalate lexemes

/-- Lexemes with blanks between them are read one by one. -/
theorem exists_lexes_spaced {ws : List (Kind × String)}
    (h : ∀ w ∈ ws, w.1 ≠ .eof ∧ w.1.Fits w.2) (offset : Nat) :
    ∃ ts, Lexes offset (spaced (ws.map Prod.snd)).toList ts ∧
      ts.map (fun t => (t.kind, t.lexeme)) = ws := by
  induction ws generalizing offset with
  | nil => exact ⟨[], .nil offset, rfl⟩
  | cons w ws ih =>
    obtain ⟨k, lexeme⟩ := w
    obtain ⟨hk, hf⟩ := h _ List.mem_cons_self
    have ih := ih fun w hw => h w (List.mem_cons_of_mem _ hw)
    -- what follows the first lexeme is nothing, or a blank and the other lexemes
    have hcons : ∃ rest, (spaced (((k, lexeme) :: ws).map Prod.snd)).toList =
        lexeme.toList ++ rest ∧ (∀ c ∈ rest.head?, Rule.isBlank c) ∧
        ∀ offset, ∃ ts, Lexes offset rest ts ∧ ts.map (fun t => (t.kind, t.lexeme)) = ws := by
      cases ws with
      | nil =>
        refine ⟨[], ?_, by simp, fun offset => ⟨[], .nil offset, rfl⟩⟩
        simp [spaced]
      | cons w' ws =>
        refine ⟨' ' :: (spaced ((w' :: ws).map Prod.snd)).toList, ?_, by simp [Rule.isBlank], ?_⟩
        · simp [spaced]
        · intro offset
          obtain ⟨ts, hts, hw⟩ := ih (offset + ' '.utf8Size)
          exact ⟨ts, .blank rfl hts, hw⟩
    obtain ⟨rest, htext, hr, hrest⟩ := hcons
    obtain ⟨k', hc, hk'⟩ := exists_cut_of_fits hf hk hr
    obtain ⟨ts, hts, hw⟩ := hrest (offset + byteLength lexeme.toList)
    rw [htext]
    refine ⟨_, .token hc hts, ?_⟩
    rw [List.map_cons, hw, Token.ofChars, String.ofList_toList, hk']

end TriadLang
