import TriadLang.Proofs.Editor.Words
import TriadLang.Proofs.Token.Partition

/-!
# Words of the lexer under the cursor

The lexer and the editor find words in ways of their own: the lexer from where a token may
begin, and with the letters of ASCII, the editor line by line, and with all letters there
are.  For what both call a word they have the same boundaries.  In front of a token there
stands a sign, a quote, a blank or the end of a comment, none of which is in a word, unless
a numeral ends there (`Cut.apart`); and behind a word the next character is one of ASCII,
because something else is read from there on.
-/

namespace TriadLang

/-- On ASCII the editor and the lexer agree which characters make words. -/
theorem isWordChar_of_lt {c : Char} (h : c.toNat < 128) : isWordChar c = Rule.isWordPart c := by
  have hall : ∀ n < 128, isWordChar (Char.ofNat n) = Rule.isWordPart (Char.ofNat n) := by
    decide +kernel
  have hc := hall c.toNat h
  rwa [Char.ofNat_toNat] at hc

theorem lt_of_isWordPart {c : Char} (h : Rule.isWordPart c) : c.toNat < 128 := by
  have hle : ∀ d : Char, d.toNat < 128 → c ≤ d → c.toNat < 128 :=
    fun d hd hcd => Nat.lt_of_le_of_lt hcd hd
  rw [Rule.isWordPart, Bool.or_eq_true, beq_iff_eq] at h
  rcases h with halphanum | rfl
  · rcases Bool.or_eq_true_iff.1 halphanum with halpha | hdigit
    · rcases Bool.or_eq_true_iff.1 halpha with hupper | hlower
      · exact hle 'Z' (by decide) (of_decide_eq_true hupper).2
      · exact hle 'z' (by decide) (of_decide_eq_true (Bool.and_eq_true_iff.1 hlower).2)
    · exact hle '9' (by decide) (of_decide_eq_true (Bool.and_eq_true_iff.1 hdigit).2)
  · decide

theorem isWordChar_of_isWordPart {c : Char} (h : Rule.isWordPart c) : isWordChar c := by
  rwa [isWordChar_of_lt (lt_of_isWordPart h)]

theorem isWordPart_of_isDigit {c : Char} (h : c.isDigit) : Rule.isWordPart c := by
  rw [Rule.isWordPart, Char.isAlphanum, h, Bool.or_true, Bool.true_or]

theorem StringTail.getLast?_eq {cs : List Char} (h : StringTail cs) : cs.getLast? = some '"' := by
  induction h with
  | close => rfl
  | plain _ _ _ ih => rw [List.getLast?_cons, ih]; rfl
  | escape _ _ ih => rw [List.getLast?_cons, List.getLast?_cons, ih]; rfl

section

variable {kind? : Option Kind} {cs rest : List Char}

theorem Cut.head_lt (h : Cut kind? cs rest) : ∃ c ds, cs = c :: ds ∧ c.toNat < 128 := by
  cases h with
  | blanks hn hcs _ =>
    obtain ⟨c, ds, rfl⟩ := List.exists_cons_of_ne_nil hn
    refine ⟨c, ds, rfl, ?_⟩
    rcases isBlank_iff.1 (hcs c List.mem_cons_self) with rfl | rfl | rfl | rfl <;> decide
  | lineComment _ _ => exact ⟨_, _, rfl, by decide⟩
  | blockComment _ => exact ⟨_, _, rfl, by decide⟩
  | @sign k _ hk _ =>
    have hsigns : ∀ k ∈ Kind.signs, k.spelling.toList.all (·.toNat < 128) := by decide
    obtain ⟨c, ds, hcs, -⟩ := Rule.exists_head_sign hk
    have hc := hsigns k hk
    rw [hcs, List.all_cons, Bool.and_eq_true, decide_eq_true_eq] at hc
    exact ⟨c, ds, hcs, hc.1⟩
  | digits hn hcs _ =>
    obtain ⟨c, ds, rfl⟩ := List.exists_cons_of_ne_nil hn
    exact ⟨c, ds, rfl, lt_of_isWordPart (isWordPart_of_isDigit (hcs c List.mem_cons_self))⟩
  | string _ => exact ⟨_, _, rfl, by decide⟩
  | word hc _ _ => exact ⟨_, _, rfl, lt_of_isWordPart (Rule.isWordPart_of_isWordStart hc)⟩

/-- Behind a chunk that is no numeral there begins no word, unless there is no word
character at the end of the chunk. -/
theorem Cut.apart (h : Cut kind? cs rest) :
    kind? = some .number ∨ Halts Rule.isWordStart rest ∨ HaltsBehind isWordChar cs := by
  cases h with
  | blanks _ hcs _ =>
    refine .inr (.inr fun c hc => ?_)
    rcases isBlank_iff.1 (hcs c (List.mem_of_getLast? hc)) with rfl | rfl | rfl | rfl <;> rfl
  | lineComment _ hr =>
    refine .inr (.inl fun c hc => ?_)
    obtain rfl : c = '\n' := by simpa using hr c hc
    rfl
  | blockComment hcs =>
    rcases exists_body_of_toCommentEnd? hcs with ⟨hs, -⟩ | ⟨body, rfl, -⟩
    · cases hs
    · refine .inr (.inr fun c hc => ?_)
      have heq : '/' :: '*' :: (body ++ ['*', '/']) = ('/' :: '*' :: (body ++ ['*'])) ++ ['/'] := by
        simp
      rw [heq, List.getLast?_concat, Option.mem_some_iff] at hc
      subst hc
      rfl
  | sign hk _ =>
    have hsigns : ∀ k ∈ Kind.signs, k.spelling.toList.all fun c => !isWordChar c := by
      decide +kernel
    refine .inr (.inr fun c hc => ?_)
    simpa using List.all_eq_true.1 (hsigns _ hk) c (List.mem_of_getLast? hc)
  | digits _ _ _ => exact .inl rfl
  | string hcs =>
    have hlast := (stringTail_of_toClosingQuote? hcs).getLast?_eq
    refine .inr (.inr fun c hc => ?_)
    rw [if_neg (by decide)] at hlast
    rw [List.getLast?_cons, hlast] at hc
    cases hc
    rfl
  | word _ _ hr =>
    refine .inr (.inl fun c hc => ?_)
    have hpart := hr c hc
    by_contra hstart
    rw [Rule.isWordPart_of_isWordStart (by simpa using hstart)] at hpart
    cases hpart

end

theorem Cut.of_isWord {k : Kind} {cs rest : List Char} (h : Cut (some k) cs rest) {offset : Nat}
    (hk : (Token.ofChars k cs offset).kind = .ident ∨
      (Token.ofChars k cs offset).kind ∈ Kind.reserved) :
    ∃ c ds, cs = c :: ds ∧ Rule.isWordStart c ∧ (∀ d ∈ ds, Rule.isWordPart d) ∧
      Halts Rule.isWordPart rest := by
  have hkind : k = .ident ∨ k ∈ Kind.reserved := by
    change k.classify _ = _ ∨ k.classify _ ∈ _ at hk
    by_cases hident : k = .ident
    · exact .inl hident
    · rwa [Kind.classify, if_neg hident] at hk
  cases h with
  | sign hs _ =>
    have hsigns : ∀ k ∈ Kind.signs, ¬ (k = .ident ∨ k ∈ Kind.reserved) := by decide
    exact absurd hkind (hsigns k hs)
  | digits _ _ _ => exact absurd hkind (by decide)
  | string _ => exact absurd hkind (by decide)
  | word hc hcs hr => exact ⟨_, _, rfl, hc, hcs, hr⟩

/-- Behind a word of the lexer no word of the editor goes on either. -/
theorem Lexes.halts_isWordChar {offset : Nat} {rest : List Char} {ts : List Token}
    (h : Lexes offset rest ts) (hr : Halts Rule.isWordPart rest) : Halts isWordChar rest := by
  have hhead : ∀ c ∈ rest.head?, c.toNat < 128 := by
    cases h with
    | nil => simp
    | skip hc _ =>
      obtain ⟨c, ds, rfl, hlt⟩ := hc.head_lt
      simpa using hlt
    | token hc _ =>
      obtain ⟨c, ds, rfl, hlt⟩ := hc.head_lt
      simpa using hlt
  intro c hc
  rw [isWordChar_of_lt (hhead c hc)]
  exact hr c hc

/-- The lexeme of a token is a longest run of word characters in the text. -/
def Token.StandsApart (text : List Char) (t : Token) : Prop :=
  ∃ before after, text = before ++ (t.lexeme.toList ++ after) ∧ t.span.lo = byteLength before ∧
    IsRun before t.lexeme.toList after

/-- What is known where the lexer begins to read a token goes on to its next one: either no
word begins there, or none has just ended. -/
theorem Lexes.standsApart_append {offset : Nat} {rest : List Char} {ts : List Token}
    (h : Lexes offset rest ts) (before : List Char) (ho : offset = byteLength before)
    {t : Token} (ht : t ∈ ts) (hk : t.kind = .ident ∨ t.kind ∈ Kind.reserved)
    (hn : ∀ u ∈ ts, u.kind = .number → u.span.hi ≠ t.span.lo)
    (hb : t.span.lo = offset → Halts Rule.isWordStart rest ∨ HaltsBehind isWordChar before) :
    t.StandsApart (before ++ rest) := by
  induction h generalizing before with
  | nil => cases ht
  | @skip offset cs rest ts hc _ ih =>
    rw [← List.append_assoc]
    refine ih (before ++ cs) (by rw [ho, byteLength_append]) ht hn fun _ => ?_
    rw [haltsBehind_append hc.ne_nil]
    exact hc.apart.resolve_left (by simp)
  | @token offset k cs rest ts hc hrest ih =>
    rcases List.mem_cons.1 ht with rfl | ht
    · obtain ⟨c, ds, rfl, hstart, hpart, hhalts⟩ := hc.of_isWord hk
      have hchars : (Token.ofChars k (c :: ds) offset).lexeme.toList = c :: ds :=
        String.toList_ofList
      refine ⟨before, rest, by rw [hchars], ho, ?_⟩
      rw [hchars]
      refine ⟨List.cons_ne_nil _ _, ?_, ?_, hrest.halts_isWordChar hhalts⟩
      · intro d hd
        rcases List.mem_cons.1 hd with rfl | hd
        · exact isWordChar_of_isWordPart (Rule.isWordPart_of_isWordStart hstart)
        · exact isWordChar_of_isWordPart (hpart d hd)
      · refine (hb rfl).resolve_left fun h => ?_
        rw [List.cons_append, halts_cons, hstart] at h
        cases h
    · rw [← List.append_assoc]
      refine ih (before ++ cs) (by rw [ho, byteLength_append]) ht
        (fun u hu => hn u (List.mem_cons_of_mem _ hu)) fun hlo => ?_
      rw [haltsBehind_append hc.ne_nil]
      refine hc.apart.resolve_left fun hnumber => ?_
      cases hnumber
      exact hn _ List.mem_cons_self rfl hlo.symm

theorem Lexes.standsApart {text : List Char} {ts : List Token} (h : Lexes 0 text ts) {t : Token}
    (ht : t ∈ ts) (hk : t.kind = .ident ∨ t.kind ∈ Kind.reserved)
    (hn : ∀ u ∈ ts, u.kind = .number → u.span.hi ≠ t.span.lo) : t.StandsApart text :=
  h.standsApart_append [] rfl ht hk hn fun _ => .inr (by simp [HaltsBehind])

theorem IsRun.onLine {before cs after : List Char} (h : IsRun before cs after) :
    IsRun (lineHead before) cs (lineTail after) := by
  refine ⟨h.ne_nil, h.word, ?_, ?_⟩
  · rcases List.eq_nil_or_concat before with rfl | ⟨front, c, rfl⟩
    · exact h.starts
    · rw [List.concat_eq_append, lineHead_concat]
      by_cases hc : c = '\n'
      · rw [if_pos hc]
        simp [HaltsBehind]
      · rw [if_neg hc, haltsBehind_concat]
        exact haltsBehind_concat.1 (List.concat_eq_append ▸ h.starts)
  · cases after with
    | nil => exact halts_nil _
    | cons c after =>
      rw [lineTail_cons]
      by_cases hc : c = '\n'
      · rw [if_pos hc]
        exact halts_nil _
      · rw [if_neg hc]
        exact halts_cons.2 (halts_cons.1 h.ends)

theorem IsRun.not_mem_newline {before cs after : List Char} (h : IsRun before cs after) :
    '\n' ∉ cs := by
  intro hmem
  exact absurd (h.word _ hmem) (by decide +kernel)

theorem Token.StandsApart.onLine {src : String} {t : Token} (h : t.StandsApart src.toList) :
    (⟨(Position.ofOffset src t.span.lo).character, t.lexeme.toList⟩ : Word).StandsIn
      0 (line (Position.ofOffset src t.span.lo).line src.toList) := by
  obtain ⟨before, after, htext, hlo, hrun⟩ := h
  rw [hlo, Position.ofOffset_byteLength htext, Position.after_eq, htext, line_append,
    lineTail_append, lineTail_of_not_mem hrun.not_mem_newline, if_neg hrun.not_mem_newline]
  exact ⟨lineHead before, lineTail after, rfl, (Nat.zero_add _).symm, hrun.onLine⟩

theorem hover_eq {src : String} {pos : Position} {t : Token} (hw : wordAt src pos = some t.lexeme)
    (hf : t.kind.Fits t.lexeme) (hk : t.kind = .ident ∨ t.kind ∈ Kind.reserved) :
    hover src pos =
      if t.kind.isKeyword then some ("keyword: " ++ t.lexeme)
      else if t.kind.isBuiltinType then some ("built-in type: " ++ t.lexeme)
      else none := by
  rcases hk with hk | hk
  · rw [hk] at hf ⊢
    obtain ⟨-, hname⟩ := hf
    rw [hover, hw, Option.bind_eq_bind, Option.bind_some, hname]
    rfl
  · have hlexeme := (Kind.fits_reserved hk).1 hf
    have hres : Kind.ofReserved? t.lexeme = some t.kind := by
      rw [hlexeme, Kind.ofReserved?_spelling hk]
    rw [hover, hw, Option.bind_eq_bind, Option.bind_some, hres]
    show some ((if t.kind.isKeyword then "keyword: " else "built-in type: ") ++ t.lexeme) = _
    by_cases hkeyword : t.kind.isKeyword
    · rw [if_pos hkeyword, if_pos hkeyword]
    · have hbuiltin : t.kind.isBuiltinType := by
        have hparts := List.mem_append.1 hk
        rw [Kind.isKeyword, List.contains_iff_mem] at hkeyword
        rw [Kind.isBuiltinType, List.contains_iff_mem]
        exact hparts.resolve_left hkeyword
      rw [if_neg hkeyword, if_neg hkeyword, if_pos hbuiltin]

/-- A name, a keyword or a built-in type among the tokens is the word at every column that
it touches, also at the one behind its end; no other word of the line touches any of them;
and what is said about it is said about the kind of the token.  Left out is a token that
begins where a numeral ends: the editor finds one word there where the lexer finds two
tokens. -/
theorem hover_of_tokenize {src : String} {ts : List Token} (h : tokenize src = .ok ts)
    {t : Token} (ht : t ∈ ts) (hk : t.kind = .ident ∨ t.kind ∈ Kind.reserved)
    (hn : ∀ u ∈ ts, u.kind = .number → u.span.hi ≠ t.span.lo) {column : Nat}
    (hlo : (Position.ofOffset src t.span.lo).character ≤ column)
    (hhi : column ≤ (Position.ofOffset src t.span.lo).character + t.lexeme.length) :
    let start := Position.ofOffset src t.span.lo
    wordAt src ⟨start.line, column⟩ = some t.lexeme ∧
      hover src ⟨start.line, column⟩ =
        (if t.kind.isKeyword then some ("keyword: " ++ t.lexeme)
        else if t.kind.isBuiltinType then some ("built-in type: " ++ t.lexeme)
        else none) ∧
      ∀ w : Word, w.StandsIn 0 (line start.line src.toList) ∧ w.touches column ↔
        w = ⟨start.character, t.lexeme.toList⟩ := by
  obtain ⟨us, hlexes, rfl⟩ := tokenize_eq_ok_iff_lexes.1 h
  have hmem : t ∈ us := by
    refine (List.mem_append.1 ht).resolve_right fun heof => ?_
    rw [List.mem_singleton.1 heof] at hk
    have hother : ¬ (Kind.eof = .ident ∨ Kind.eof ∈ Kind.reserved) := by decide
    exact hother hk
  have hstands := (hlexes.standsApart hmem hk fun u hu =>
    hn u (List.mem_append_left _ hu)).onLine
  have htouches : Word.touches ⟨(Position.ofOffset src t.span.lo).character, t.lexeme.toList⟩
      column := by
    rw [Word.touches, Bool.and_eq_true, decide_eq_true_eq, decide_eq_true_eq]
    exact ⟨hlo, hhi⟩
  intro start
  have hword : wordAt src ⟨start.line, column⟩ = some t.lexeme :=
    calc wordAt src ⟨start.line, column⟩ = some (String.ofList t.lexeme.toList) :=
          wordAt_of_standsIn hstands htouches
      _ = some t.lexeme := by rw [String.ofList_toList]
  refine ⟨hword, hover_eq hword (hlexes.forall_fits t hmem).2 hk, fun w => ?_⟩
  constructor
  · rintro ⟨hw, htw⟩
    exact hw.eq_of_touches hstands htw htouches
  · rintro rfl
    exact ⟨hstands, htouches⟩

/-- A keyword right behind a string, whose letter has two bytes and one column. -/
theorem hover_behind_text :
    let src := "\"é\"triad x"
    tokenize src = .ok [⟨.text, "\"é\"", ⟨0, 4⟩⟩, ⟨.triad, "triad", ⟨4, 9⟩⟩,
        ⟨.ident, "x", ⟨10, 11⟩⟩, .eof 11] ∧
      Position.ofOffset src 4 = ⟨0, 3⟩ ∧
      hover src ⟨0, 8⟩ = some "keyword: triad" ∧
      ∀ w : Word, w.StandsIn 0 (line 0 src.toList) ∧ w.touches 8 ↔ w = ⟨3, "triad".toList⟩ := by
  intro src
  have htokens : tokenize src = .ok [⟨.text, "\"é\"", ⟨0, 4⟩⟩, ⟨.triad, "triad", ⟨4, 9⟩⟩,
      ⟨.ident, "x", ⟨10, 11⟩⟩, .eof 11] := ok_of_toOption (by decide +kernel +zetaReduce)
  have hstart : Position.ofOffset src 4 = ⟨0, 3⟩ := by decide +kernel +zetaReduce
  have hlo : (Position.ofOffset src 4).character ≤ 8 := by rw [hstart]; decide
  have hhi : 8 ≤ (Position.ofOffset src 4).character + "triad".length := by rw [hstart]; decide
  obtain ⟨-, hhover, honly⟩ := hover_of_tokenize htokens (t := ⟨.triad, "triad", ⟨4, 9⟩⟩)
    (by decide) (by decide) (by decide) hlo hhi
  rw [hstart] at hhover honly
  exact ⟨htokens, hstart, hhover, honly⟩

/-- Two tokens that are one word. -/
example : (tokenize "1triad").toOption =
      some [⟨.number, "1", ⟨0, 1⟩⟩, ⟨.triad, "triad", ⟨1, 6⟩⟩, .eof 6] ∧
    wordAt "1triad" ⟨0, 3⟩ = some "1triad" ∧ hover "1triad" ⟨0, 3⟩ = none := by
  decide +kernel

end TriadLang
