import TriadLang.Token.Rule

/-!
# Cuts

What the first rule of the table takes, said without the table: for each sort of
chunk, what its characters look like and what may not come next.  A run ends
where the next character does not belong to it, a sign ends where no longer sign
begins with it, and a comment or a string ends by itself.

`exists_first?_of_cut` and `cut_of_first?` say that the table and this list of
chunks are the same, so nothing after them opens the table again.
-/

namespace TriadLang

/-- No run of `p` goes on at the front of a text. -/
def Halts (p : Char → Bool) (rest : List Char) : Prop := ∀ c ∈ rest.head?, p c = false

theorem halts_nil (p : Char → Bool) : Halts p [] := by simp [Halts]

theorem halts_cons {p : Char → Bool} {c : Char} {cs : List Char} :
    Halts p (c :: cs) ↔ p c = false := by simp [Halts]

theorem halts_dropWhile (p : Char → Bool) (cs : List Char) : Halts p (cs.dropWhile p) := by
  intro c hc
  have h := List.head?_dropWhile_not p cs
  rw [hc] at h
  simpa using h

theorem forall_mem_takeWhile (p : Char → Bool) (cs : List Char) : ∀ c ∈ cs.takeWhile p, p c :=
  List.all_eq_true.1 List.all_takeWhile

theorem takeWhile_append_of_halts {p : Char → Bool} {cs rest : List Char}
    (hcs : ∀ c ∈ cs, p c) (hr : Halts p rest) : (cs ++ rest).takeWhile p = cs := by
  rw [List.takeWhile_append_of_pos hcs]
  cases rest with
  | nil => simp
  | cons c rest => simp [halts_cons.1 hr]

namespace Rule

theorem toCommentEnd?_append {star : Bool} {cs : List Char} {n : Nat}
    (h : toCommentEnd? star cs = some n) (ds : List Char) :
    toCommentEnd? star (cs ++ ds) = some n := by
  induction cs generalizing star n with
  | nil => simp [toCommentEnd?] at h
  | cons c cs ih =>
    rw [List.cons_append, toCommentEnd?]
    rw [toCommentEnd?] at h
    split
    · rw [if_pos ‹_›] at h
      exact h
    · rw [if_neg ‹_›] at h
      obtain ⟨m, hm, rfl⟩ := Option.map_eq_some_iff.1 h
      rw [ih hm]
      rfl

/-- The closing of a comment is all that the reader of comments looks at. -/
theorem toCommentEnd?_eq_some {star : Bool} {cs : List Char} {n : Nat}
    (h : toCommentEnd? star cs = some n) :
    ∃ body rest, cs = body ++ rest ∧ body.length = n ∧ toCommentEnd? star body = some n := by
  induction cs generalizing star n with
  | nil => simp [toCommentEnd?] at h
  | cons c cs ih =>
    rw [toCommentEnd?] at h
    split at h
    · cases h
      exact ⟨[c], cs, rfl, rfl, by rw [toCommentEnd?, if_pos ‹_›]⟩
    · obtain ⟨m, hm, rfl⟩ := Option.map_eq_some_iff.1 h
      obtain ⟨body, rest, rfl, hl, hb⟩ := ih hm
      refine ⟨c :: body, rest, rfl, by simp [hl], ?_⟩
      rw [toCommentEnd?, if_neg ‹_›, hb]
      rfl

theorem toClosingQuote?_append {escaped : Bool} {cs : List Char} {n : Nat}
    (h : toClosingQuote? escaped cs = some n) (ds : List Char) :
    toClosingQuote? escaped (cs ++ ds) = some n := by
  induction cs generalizing escaped n with
  | nil => simp [toClosingQuote?] at h
  | cons c cs ih =>
    cases escaped with
    | true =>
      rw [List.cons_append, toClosingQuote?]
      rw [toClosingQuote?] at h
      split
      · rw [if_pos ‹_›] at h
        cases h
      · rw [if_neg ‹_›] at h
        obtain ⟨m, hm, rfl⟩ := Option.map_eq_some_iff.1 h
        rw [ih hm]
        rfl
    | false =>
      rw [List.cons_append, toClosingQuote?]
      rw [toClosingQuote?] at h
      split
      · rw [if_pos ‹_›] at h
        exact h
      · rw [if_neg ‹_›] at h
        obtain ⟨m, hm, rfl⟩ := Option.map_eq_some_iff.1 h
        rw [ih hm]
        rfl

theorem toClosingQuote?_eq_some {escaped : Bool} {cs : List Char} {n : Nat}
    (h : toClosingQuote? escaped cs = some n) :
    ∃ body rest, cs = body ++ rest ∧ body.length = n ∧ toClosingQuote? escaped body = some n := by
  induction cs generalizing escaped n with
  | nil => simp [toClosingQuote?] at h
  | cons c cs ih =>
    cases escaped with
    | true =>
      rw [toClosingQuote?] at h
      split at h
      · cases h
      · obtain ⟨m, hm, rfl⟩ := Option.map_eq_some_iff.1 h
        obtain ⟨body, rest, rfl, hl, hb⟩ := ih hm
        refine ⟨c :: body, rest, rfl, by simp [hl], ?_⟩
        rw [toClosingQuote?, if_neg ‹_›, hb]
        rfl
    | false =>
      rw [toClosingQuote?] at h
      split at h
      · cases h
        exact ⟨[c], cs, rfl, rfl, by rw [toClosingQuote?, if_pos ‹_›]⟩
      · obtain ⟨m, hm, rfl⟩ := Option.map_eq_some_iff.1 h
        obtain ⟨body, rest, rfl, hl, hb⟩ := ih hm
        refine ⟨c :: body, rest, rfl, by simp [hl], ?_⟩
        rw [toClosingQuote?, if_neg ‹_›, hb]
        rfl

end Rule

/-- The sign of a kind is not the beginning of a longer sign or of a comment. -/
def Kind.Ends (k : Kind) (rest : List Char) : Prop :=
  match k with
  | .minus => rest.head? ≠ some '>'
  | .assign | .bang | .less | .greater => rest.head? ≠ some '='
  | .slash => rest.head? ≠ some '/' ∧ ∀ cs, rest = '*' :: cs → Rule.toCommentEnd? false cs = none
  | _ => True

/-- `Cut kind? cs rest`: a text that begins with `cs` and goes on with `rest` is
cut between the two.  The chunk `cs` makes a token of the kind `kind?`, where
every word counts as a name, or none. -/
inductive Cut : Option Kind → List Char → List Char → Prop where
  | blanks {cs rest : List Char} (hn : cs ≠ []) (hcs : ∀ c ∈ cs, Rule.isBlank c)
      (hr : Halts Rule.isBlank rest) : Cut none cs rest
  | lineComment {cs rest : List Char} (hcs : ∀ c ∈ cs, c != '\n')
      (hr : Halts (· != '\n') rest) : Cut none ('/' :: '/' :: cs) rest
  | blockComment {cs rest : List Char} (hcs : Rule.toCommentEnd? false cs = some cs.length) :
      Cut none ('/' :: '*' :: cs) rest
  | sign {k : Kind} {rest : List Char} (hk : k ∈ Kind.signs) (hr : k.Ends rest) :
      Cut (some k) k.spelling.toList rest
  | digits {cs rest : List Char} (hn : cs ≠ []) (hcs : ∀ c ∈ cs, c.isDigit)
      (hr : Halts Char.isDigit rest) : Cut (some .number) cs rest
  | string {cs rest : List Char} (hcs : Rule.toClosingQuote? false cs = some cs.length) :
      Cut (some .text) ('"' :: cs) rest
  | word {c : Char} {cs rest : List Char} (hc : Rule.isWordStart c)
      (hcs : ∀ c ∈ cs, Rule.isWordPart c) (hr : Halts Rule.isWordPart rest) :
      Cut (some .ident) (c :: cs) rest

namespace Rule

/-! ## The table by its parts -/

/-- The signs in the order in which they are tried. -/
def signOrder : List Kind :=
  [.arrow, .colon, .semicolon, .comma, .dot, .openParen, .closeParen, .openBrace, .closeBrace,
    .openSquare, .closeSquare, .equal, .notEqual, .lessEqual, .greaterEqual, .less, .greater,
    .assign, .plus, .minus, .star, .slash, .percent, .andAnd, .orOr, .bang]

theorem table_eq :
    table = blanks :: lineComment :: blockComment ::
      (signOrder.map sign ++ [digits, string, word]) :=
  rfl

theorem mem_signOrder {k : Kind} : k ∈ signOrder ↔ k ∈ Kind.signs := by
  have h : signOrder.Perm Kind.signs := by decide
  exact h.mem_iff

theorem length_sign (k : Kind) (cs : List Char) :
    (sign k).length cs =
      if k.spelling.toList <+: cs then k.spelling.toList.length else 0 := by
  simp [sign]

theorem exists_digitChar {c : Char} (h : c.isDigit) : ∃ n, n < 10 ∧ c = n.digitChar := by
  have hc : 48 ≤ c.toNat ∧ c.toNat ≤ 57 := by
    rw [Char.isDigit, Bool.and_eq_true, decide_eq_true_eq, decide_eq_true_eq] at h
    exact h
  have hlt : c.toNat - 48 < 10 := by omega
  refine ⟨c.toNat - 48, hlt, ?_⟩
  apply Char.toNat_inj.1
  rw [Nat.toNat_digitChar_of_lt_ten hlt]
  omega

theorem isDigit_of_isWordStart {c : Char} (hc : isWordStart c) : c.isDigit = false := by
  have hdigits : ∀ n < 10, isWordStart n.digitChar = false := by decide
  cases hd : c.isDigit with
  | false => rfl
  | true =>
    obtain ⟨n, hn, rfl⟩ := exists_digitChar hd
    rw [hdigits n hn] at hc
    cases hc

theorem exists_head_sign {k : Kind} (hk : k ∈ Kind.signs) :
    ∃ d ds, k.spelling.toList = d :: ds ∧ isBlank d = false ∧ d.isDigit = false ∧
      isWordStart d = false ∧ d ≠ '"' := by
  have h : ∀ k ∈ Kind.signs, k.spelling.toList.head?.any fun d =>
      !isBlank d && !d.isDigit && !isWordStart d && d != '"' := by decide
  have hd := h k hk
  cases hs : k.spelling.toList with
  | nil => simp [hs] at hd
  | cons d ds =>
    simp only [hs, List.head?_cons, Option.any_some, Bool.and_eq_true, Bool.not_eq_true',
      bne_iff_ne] at hd
    exact ⟨d, ds, rfl, hd.1.1.1, hd.1.1.2, hd.1.2, hd.2⟩

theorem ne_of_wordPart {c : Char} (hc : c.isDigit ∨ isWordStart c) {d : Char}
    (hd : d.isDigit = false) (hw : isWordStart d = false) : c ≠ d := by
  rintro rfl
  simp [hd, hw] at hc

theorem isBlank_of_wordPart {c : Char} (hc : c.isDigit ∨ isWordStart c) : isBlank c = false := by
  simp [isBlank, ne_of_wordPart hc (d := ' ') rfl rfl, ne_of_wordPart hc (d := '\t') rfl rfl,
    ne_of_wordPart hc (d := '\r') rfl rfl, ne_of_wordPart hc (d := '\n') rfl rfl]

theorem first?_of_wordPart {c : Char} (hc : c.isDigit ∨ isWordStart c) (cs : List Char) :
    first? (c :: cs) = [digits, word].find? fun r => r.length (c :: cs) != 0 := by
  have hslash : c ≠ '/' := ne_of_wordPart hc rfl rfl
  have hquote : c ≠ '"' := ne_of_wordPart hc rfl rfl
  have hblanks : blanks.length (c :: cs) = 0 := by simp [blanks, isBlank_of_wordPart hc]
  have hline : lineComment.length (c :: cs) = 0 := by simp [lineComment, hslash]
  have hblock : blockComment.length (c :: cs) = 0 := by simp [blockComment, hslash]
  have hstring : string.length (c :: cs) = 0 := by simp [string, hquote]
  have hsigns : (signOrder.map sign).find? (fun r => r.length (c :: cs) != 0) = none := by
    rw [List.find?_eq_none]
    intro r hr
    obtain ⟨k, hk, rfl⟩ := List.mem_map.1 hr
    obtain ⟨d, ds, hs, -, hd, hw, -⟩ := exists_head_sign (mem_signOrder.1 hk)
    have hdc : c ≠ d := ne_of_wordPart hc hd hw
    rw [length_sign, hs, if_neg]
    · simp
    · rw [List.cons_prefix_cons]
      exact fun h => hdc h.1.symm
  rw [first?, table_eq]
  simp [hblanks, hline, hblock, hsigns, hstring, List.find?_cons, List.find?_append]

theorem first?_blanks {cs rest : List Char} (hn : cs ≠ []) (hcs : ∀ c ∈ cs, isBlank c)
    (hr : Halts isBlank rest) :
    first? (cs ++ rest) = some blanks ∧ blanks.length (cs ++ rest) = cs.length := by
  have hl : blanks.length (cs ++ rest) = cs.length := by
    show ((cs ++ rest).takeWhile isBlank).length = _
    rw [takeWhile_append_of_halts hcs hr]
  have hpos := List.length_pos_iff.2 hn
  refine ⟨List.find?_cons_of_pos ?_, hl⟩
  rw [hl]
  simp
  omega

theorem first?_lineComment {cs rest : List Char} (hcs : ∀ c ∈ cs, c != '\n')
    (hr : Halts (· != '\n') rest) :
    first? ('/' :: '/' :: cs ++ rest) = some lineComment ∧
      lineComment.length ('/' :: '/' :: cs ++ rest) = ('/' :: '/' :: cs).length := by
  have hl : lineComment.length ('/' :: '/' :: cs ++ rest) = ('/' :: '/' :: cs).length := by
    show 2 + ((cs ++ rest).takeWhile (· != '\n')).length = cs.length + 1 + 1
    rw [takeWhile_append_of_halts hcs hr]
    omega
  refine ⟨?_, hl⟩
  rw [first?, table_eq, List.find?_cons_of_neg, List.find?_cons_of_pos]
  · rw [hl]
    simp
  · simp [blanks, isBlank]

theorem first?_blockComment {cs : List Char} (hcs : toCommentEnd? false cs = some cs.length)
    (rest : List Char) :
    first? ('/' :: '*' :: cs ++ rest) = some blockComment ∧
      blockComment.length ('/' :: '*' :: cs ++ rest) = ('/' :: '*' :: cs).length := by
  have hl : blockComment.length ('/' :: '*' :: cs ++ rest) = ('/' :: '*' :: cs).length := by
    show ((toCommentEnd? false (cs ++ rest)).map (· + 2)).getD 0 = _
    rw [toCommentEnd?_append hcs rest]
    rfl
  refine ⟨?_, hl⟩
  rw [first?, table_eq, List.find?_cons_of_neg, List.find?_cons_of_neg, List.find?_cons_of_pos]
  · rw [hl]
    simp
  · simp [lineComment]
  · simp [blanks, isBlank]

theorem first?_string {cs : List Char} (hcs : toClosingQuote? false cs = some cs.length)
    (rest : List Char) :
    first? ('"' :: cs ++ rest) = some string ∧
      string.length ('"' :: cs ++ rest) = ('"' :: cs).length := by
  have hl : string.length ('"' :: cs ++ rest) = ('"' :: cs).length := by
    show ((toClosingQuote? false (cs ++ rest)).map (· + 1)).getD 0 = _
    rw [toClosingQuote?_append hcs rest]
    rfl
  have hsigns : (signOrder.map sign).find? (fun r => r.length ('"' :: cs ++ rest) != 0) = none := by
    rw [List.find?_eq_none]
    intro r hr
    obtain ⟨k, hk, rfl⟩ := List.mem_map.1 hr
    obtain ⟨d, ds, hs, -, -, -, hq⟩ := exists_head_sign (mem_signOrder.1 hk)
    rw [length_sign, hs, if_neg]
    · simp
    · rw [List.cons_append, List.cons_prefix_cons]
      exact fun h => hq h.1
  refine ⟨?_, hl⟩
  rw [first?, table_eq]
  rw [List.cons_append] at hl hsigns ⊢
  simp [blanks, isBlank, lineComment, blockComment, digits, hl, hsigns, List.find?_append]

/-- Six signs begin a longer sign or a comment, and what follows them decides; for
the others the table answers by itself. -/
theorem first?_sign {k : Kind} {rest : List Char} (hk : k ∈ Kind.signs) (hr : k.Ends rest) :
    first? (k.spelling.toList ++ rest) = some (sign k) := by
  cases k
  case minus | assign | bang | less | greater =>
    cases rest with
    | nil => rfl
    | cons c rest =>
      have hc : some c ≠ _ := hr
      simp only [ne_eq, Option.some.injEq] at hc
      simp [first?, table, length_sign, Kind.spelling, blanks, isBlank, lineComment, blockComment,
        Ne.symm hc]
  case slash =>
    obtain ⟨hline, hblock⟩ := hr
    cases rest with
    | nil => rfl
    | cons c rest =>
      have hc : c ≠ '/' := by simpa using hline
      have hl : lineComment.length ('/' :: c :: rest) = 0 := by simp [lineComment, hc]
      have hb : blockComment.length ('/' :: c :: rest) = 0 := by
        by_cases hs : c = '*'
        · subst hs
          simp [blockComment, hblock rest rfl]
        · simp [blockComment, hs]
      simp [first?, table, length_sign, Kind.spelling, blanks, isBlank, hl, hb]
  all_goals first | exact absurd hk (by decide) | rfl

theorem first?_digits {cs rest : List Char} (hn : cs ≠ []) (hcs : ∀ c ∈ cs, c.isDigit)
    (hr : Halts Char.isDigit rest) :
    first? (cs ++ rest) = some digits ∧ digits.length (cs ++ rest) = cs.length := by
  have hl : digits.length (cs ++ rest) = cs.length := by
    show ((cs ++ rest).takeWhile Char.isDigit).length = _
    rw [takeWhile_append_of_halts hcs hr]
  refine ⟨?_, hl⟩
  cases cs with
  | nil => exact absurd rfl hn
  | cons c cs =>
    rw [List.cons_append] at hl ⊢
    rw [first?_of_wordPart (Or.inl (hcs c (by simp))), List.find?_cons_of_pos]
    rw [hl]
    simp

theorem first?_word {c : Char} {cs rest : List Char} (hc : isWordStart c)
    (hcs : ∀ c ∈ cs, isWordPart c) (hr : Halts isWordPart rest) :
    first? (c :: cs ++ rest) = some word ∧ word.length (c :: cs ++ rest) = (c :: cs).length := by
  have hl : word.length (c :: cs ++ rest) = (c :: cs).length := by
    show (if isWordStart c then 1 + ((cs ++ rest).takeWhile isWordPart).length else 0) = _
    rw [if_pos hc, takeWhile_append_of_halts hcs hr, List.length_cons, Nat.add_comm]
  have hd : c.isDigit = false := isDigit_of_isWordStart hc
  refine ⟨?_, hl⟩
  rw [List.cons_append] at hl ⊢
  rw [first?_of_wordPart (Or.inr hc), List.find?_cons_of_neg, List.find?_cons_of_pos]
  · rw [hl]
    simp
  · simp [digits, hd]

/-- The table takes every chunk of the list. -/
theorem exists_first?_of_cut {kind? : Option Kind} {cs rest : List Char}
    (h : Cut kind? cs rest) :
    ∃ r, first? (cs ++ rest) = some r ∧ r.kind? = kind? ∧ r.length (cs ++ rest) = cs.length := by
  cases h with
  | blanks hn hcs hr =>
    obtain ⟨hf, hl⟩ := first?_blanks hn hcs hr
    exact ⟨blanks, hf, rfl, hl⟩
  | lineComment hcs hr =>
    obtain ⟨hf, hl⟩ := first?_lineComment hcs hr
    exact ⟨lineComment, hf, rfl, hl⟩
  | blockComment hcs =>
    obtain ⟨hf, hl⟩ := first?_blockComment hcs rest
    exact ⟨blockComment, hf, rfl, hl⟩
  | @sign k _ hk hr =>
    refine ⟨sign k, first?_sign hk hr, rfl, ?_⟩
    rw [length_sign, if_pos (List.prefix_append _ _)]
  | digits hn hcs hr =>
    obtain ⟨hf, hl⟩ := first?_digits hn hcs hr
    exact ⟨digits, hf, rfl, hl⟩
  | string hcs =>
    obtain ⟨hf, hl⟩ := first?_string hcs rest
    exact ⟨string, hf, rfl, hl⟩
  | word hc hcs hr =>
    obtain ⟨hf, hl⟩ := first?_word hc hcs hr
    exact ⟨word, hf, rfl, hl⟩

theorem first?_slashes (cs : List Char) : first? ('/' :: '/' :: cs) = some lineComment := by
  have h := (first?_lineComment (forall_mem_takeWhile (· != '\n') cs) (halts_dropWhile _ cs)).1
  rwa [List.cons_append, List.cons_append, List.takeWhile_append_dropWhile] at h

theorem ends_of_first? {k : Kind} {rest : List Char}
    (h : first? (k.spelling.toList ++ rest) = some (sign k)) : k.Ends rest := by
  cases k
  case minus | assign | bang | less | greater =>
    show rest.head? ≠ _
    intro hr
    obtain ⟨rest, rfl⟩ := List.head?_eq_some_iff.1 hr
    cases h
  case slash =>
    constructor
    · intro hr
      obtain ⟨rest, rfl⟩ := List.head?_eq_some_iff.1 hr
      have hs := congrArg (Option.map Rule.kind?) ((first?_slashes rest).symm.trans h)
      cases hs
    · rintro cs rfl
      cases hc : toCommentEnd? false cs with
      | none => rfl
      | some n =>
        obtain ⟨body, rest, rfl, rfl, hb⟩ := toCommentEnd?_eq_some hc
        have hs := congrArg (Option.map Rule.kind?) ((first?_blockComment hb rest).1.symm.trans h)
        cases hs
  all_goals exact True.intro

theorem exists_of_lineComment {text : List Char} (h : lineComment.length text ≠ 0) :
    ∃ cs, text = '/' :: '/' :: cs := by
  simp only [lineComment] at h
  split at h
  · exact ⟨_, rfl⟩
  · exact absurd rfl h

theorem exists_of_blockComment {text : List Char} (h : blockComment.length text ≠ 0) :
    ∃ cs rest, text = '/' :: '*' :: cs ++ rest ∧ toCommentEnd? false cs = some cs.length := by
  simp only [blockComment] at h
  split at h
  · next cs =>
    cases hc : toCommentEnd? false cs with
    | none => simp [hc] at h
    | some n =>
      obtain ⟨body, rest, rfl, rfl, hb⟩ := toCommentEnd?_eq_some hc
      exact ⟨body, rest, rfl, hb⟩
  · exact absurd rfl h

theorem exists_of_string {text : List Char} (h : string.length text ≠ 0) :
    ∃ cs rest, text = '"' :: cs ++ rest ∧ toClosingQuote? false cs = some cs.length := by
  simp only [string] at h
  split at h
  · next cs =>
    cases hc : toClosingQuote? false cs with
    | none => simp [hc] at h
    | some n =>
      obtain ⟨body, rest, rfl, rfl, hb⟩ := toClosingQuote?_eq_some hc
      exact ⟨body, rest, rfl, hb⟩
  · exact absurd rfl h

theorem exists_of_word {text : List Char} (h : word.length text ≠ 0) :
    ∃ c cs, text = c :: cs ∧ isWordStart c := by
  simp only [word] at h
  split at h
  · next c cs =>
    split at h
    · exact ⟨c, cs, rfl, ‹_›⟩
    · exact absurd rfl h
  · exact absurd rfl h

/-- What the table takes is a chunk of the list. -/
theorem cut_of_first? {text : List Char} {r : Rule} (h : first? text = some r) :
    ∃ cs rest, text = cs ++ rest ∧ Cut r.kind? cs rest := by
  have hn : r.length text ≠ 0 := length_ne_zero_of_first? h
  have hmem : r ∈ table := List.mem_of_find?_eq_some h
  rw [table_eq] at hmem
  simp only [List.mem_cons, List.mem_append, List.mem_map, List.not_mem_nil, or_false] at hmem
  rcases hmem with rfl | rfl | rfl | ⟨k, hk, rfl⟩ | rfl | rfl | rfl
  · refine ⟨_, _, List.takeWhile_append_dropWhile.symm,
      .blanks ?_ (forall_mem_takeWhile isBlank text) (halts_dropWhile _ text)⟩
    intro h0
    exact hn (by simp [blanks, h0])
  · obtain ⟨cs, rfl⟩ := exists_of_lineComment hn
    refine ⟨_, _, ?_,
      .lineComment (forall_mem_takeWhile (· != '\n') cs) (halts_dropWhile _ cs)⟩
    rw [List.cons_append, List.cons_append, List.takeWhile_append_dropWhile]
  · obtain ⟨cs, rest, rfl, hcs⟩ := exists_of_blockComment hn
    exact ⟨_, _, rfl, .blockComment hcs⟩
  · rw [length_sign] at hn
    have hp : k.spelling.toList <+: text := by
      by_cases hp : k.spelling.toList <+: text
      · exact hp
      · rw [if_neg hp] at hn
        exact absurd rfl hn
    obtain ⟨rest, rfl⟩ := hp
    exact ⟨_, _, rfl, .sign (mem_signOrder.1 hk) (ends_of_first? h)⟩
  · refine ⟨_, _, List.takeWhile_append_dropWhile.symm,
      .digits ?_ (forall_mem_takeWhile Char.isDigit text) (halts_dropWhile _ text)⟩
    intro h0
    exact hn (by simp [digits, h0])
  · obtain ⟨cs, rest, rfl, hcs⟩ := exists_of_string hn
    exact ⟨_, _, rfl, .string hcs⟩
  · obtain ⟨c, cs, rfl, hc⟩ := exists_of_word hn
    refine ⟨_, _, ?_, .word hc (forall_mem_takeWhile isWordPart cs) (halts_dropWhile _ cs)⟩
    rw [List.cons_append, List.takeWhile_append_dropWhile]

end Rule

theorem Cut.ne_nil {kind? : Option Kind} {cs rest : List Char} (h : Cut kind? cs rest) :
    cs ≠ [] := by
  cases h with
  | blanks hn _ _ => exact hn
  | digits hn _ _ => exact hn
  | @sign k _ hk _ =>
    obtain ⟨d, ds, hs, -⟩ := Rule.exists_head_sign hk
    rw [hs]
    exact List.cons_ne_nil d ds
  | _ => exact List.cons_ne_nil _ _

end TriadLang
