import Mathlib.Data.List.MinMax
import TriadLang.Proofs.Stateful
import TriadLang.Proofs.Token.Pieces
import TriadLang.Proofs.Token.Regex

/-!
# The longest match

The first rule that takes something is also the one that takes most.  This rests
on the order of the table: where two rules take something from one text, the one
that stands first takes more (`pairwise_outranks`).  A sign that stood before a
longer one that begins with it would break this.

So the order is only a way to find the longest match.  `Regex.munch` tries all
expressions of a list and takes the longest match, and for every order of the
table it reads the tokens of a text.
-/

namespace TriadLang

namespace Rule

/-- Where both rules take something, the first one takes more. -/
def Outranks (r s : Rule) : Prop :=
  ∀ text, r.length text ≠ 0 → s.length text ≠ 0 → s.length text < r.length text

/-- The rule takes only text that begins with one of some characters. -/
def BeginsWith (r : Rule) (p : Char → Prop) : Prop :=
  ∀ text, r.length text ≠ 0 → ∃ c cs, text = c :: cs ∧ p c

theorem BeginsWith.mono {r : Rule} {p q : Char → Prop} (h : r.BeginsWith p)
    (hpq : ∀ c, p c → q c) : r.BeginsWith q := by
  intro text hn
  obtain ⟨c, cs, rfl, hc⟩ := h text hn
  exact ⟨c, cs, rfl, hpq c hc⟩

theorem BeginsWith.outranks {r s : Rule} {p q : Char → Prop} (hr : r.BeginsWith p)
    (hs : s.BeginsWith q) (hpq : ∀ c, p c → ¬ q c) : r.Outranks s := by
  intro text hrn hsn
  obtain ⟨c, cs, rfl, hc⟩ := hr text hrn
  obtain ⟨d, ds, heq, hd⟩ := hs _ hsn
  cases heq
  exact absurd hd (hpq c hc)

theorem beginsWith_takeWhile {kind? : Option Kind} {p : Char → Bool} :
    BeginsWith ⟨kind?, fun cs => (cs.takeWhile p).length⟩ (p ·) := by
  intro text hn
  cases text with
  | nil => exact absurd rfl hn
  | cons c cs =>
    refine ⟨c, cs, rfl, ?_⟩
    by_contra hc
    exact hn (congrArg List.length (List.takeWhile_cons_of_neg hc))

theorem blanks_beginsWith : blanks.BeginsWith (isBlank ·) := beginsWith_takeWhile

theorem digits_beginsWith : digits.BeginsWith (Char.isDigit ·) := beginsWith_takeWhile

theorem lineComment_beginsWith : lineComment.BeginsWith (· = '/') := by
  intro text hn
  obtain ⟨cs, rfl⟩ := exists_of_lineComment hn
  exact ⟨'/', _, rfl, rfl⟩

theorem blockComment_beginsWith : blockComment.BeginsWith (· = '/') := by
  intro text hn
  obtain ⟨cs, rest, rfl, -⟩ := exists_of_blockComment hn
  exact ⟨'/', _, rfl, rfl⟩

theorem string_beginsWith : string.BeginsWith (· = '"') := by
  intro text hn
  obtain ⟨cs, rest, rfl, -⟩ := exists_of_string hn
  exact ⟨'"', _, rfl, rfl⟩

theorem word_beginsWith : word.BeginsWith (isWordStart ·) := by
  intro text hn
  obtain ⟨c, cs, rfl, hc⟩ := exists_of_word hn
  exact ⟨c, cs, rfl, hc⟩

theorem prefix_of_sign {k : Kind} {text : List Char} (hn : (sign k).length text ≠ 0) :
    k.spelling.toList <+: text ∧ (sign k).length text = k.spelling.toList.length := by
  rw [length_sign] at hn ⊢
  by_cases hp : k.spelling.toList <+: text
  · exact ⟨hp, if_pos hp⟩
  · exact absurd (if_neg hp) hn

theorem sign_beginsWith {k : Kind} (hk : k ∈ Kind.signs) :
    (sign k).BeginsWith fun c => isBlank c = false ∧ c.isDigit = false ∧ isWordStart c = false ∧
      c ≠ '"' := by
  intro text hn
  obtain ⟨d, ds, hs, hd⟩ := exists_head_sign hk
  obtain ⟨rest, rfl⟩ := (prefix_of_sign hn).1
  exact ⟨d, ds ++ rest, by rw [hs, List.cons_append], hd⟩

theorem literals_beginsWith {r : Rule} (hr : r ∈ [digits, string, word]) :
    r.BeginsWith fun c => c.isDigit ∨ isWordStart c ∨ c = '"' := by
  simp only [List.mem_cons, List.not_mem_nil, or_false] at hr
  rcases hr with rfl | rfl | rfl
  · exact digits_beginsWith.mono fun c hc => Or.inl hc
  · exact string_beginsWith.mono fun c hc => Or.inr (Or.inr hc)
  · exact word_beginsWith.mono fun c hc => Or.inr (Or.inl hc)

theorem blanks_outranks {s : Rule} {q : Char → Prop} (hs : s.BeginsWith q)
    (hq : ∀ c, q c → isBlank c = false) : blanks.Outranks s := by
  refine blanks_beginsWith.outranks hs fun c hc hqc => ?_
  rw [hq c hqc] at hc
  cases hc

theorem comment_outranks_sign {r : Rule} (hr : r.BeginsWith (· = '/'))
    (hlen : ∀ text, r.length text ≠ 0 → 2 ≤ r.length text) {k : Kind} (hk : k ∈ Kind.signs) :
    r.Outranks (sign k) := by
  have hone : ∀ k ∈ Kind.signs, k.spelling.toList.head? = some '/' →
      k.spelling.toList.length = 1 := by decide
  intro text hrn hsn
  obtain ⟨c, cs, rfl, rfl⟩ := hr text hrn
  obtain ⟨hp, hl⟩ := prefix_of_sign hsn
  obtain ⟨d, ds, hs, -⟩ := exists_head_sign hk
  have hhead : k.spelling.toList.head? = some '/' := by
    rw [hs, List.cons_prefix_cons] at hp
    rw [hs, hp.1, List.head?_cons]
  rw [hl, hone k hk hhead]
  exact hlen _ hrn

theorem comment_outranks_literal {r s : Rule} (hr : r.BeginsWith (· = '/'))
    (hs : s ∈ [digits, string, word]) : r.Outranks s := by
  refine hr.outranks (literals_beginsWith hs) ?_
  rintro c rfl
  decide

theorem two_le_lineComment {text : List Char} (hn : lineComment.length text ≠ 0) :
    2 ≤ lineComment.length text := by
  obtain ⟨cs, rfl⟩ := exists_of_lineComment hn
  exact Nat.le_add_right ..

theorem two_le_blockComment {text : List Char} (hn : blockComment.length text ≠ 0) :
    2 ≤ blockComment.length text := by
  obtain ⟨cs, rest, rfl, hcs⟩ := exists_of_blockComment hn
  rw [(first?_blockComment hcs rest).2]
  exact Nat.le_add_left ..

theorem lineComment_outranks_blockComment : lineComment.Outranks blockComment := by
  intro text hl hb
  obtain ⟨cs, rfl⟩ := exists_of_lineComment hl
  obtain ⟨ds, rest, heq, -⟩ := exists_of_blockComment hb
  cases heq

theorem pairwise_signOrder :
    signOrder.Pairwise fun k k' => ¬ k.spelling.toList <+: k'.spelling.toList := by
  decide

theorem sign_outranks_sign {k k' : Kind} (h : ¬ k.spelling.toList <+: k'.spelling.toList) :
    (sign k).Outranks (sign k') := by
  intro text hk hk'
  obtain ⟨hp, hl⟩ := prefix_of_sign hk
  obtain ⟨hp', hl'⟩ := prefix_of_sign hk'
  rw [hl, hl']
  by_contra hle
  exact h (List.prefix_of_prefix_length_le hp hp' (Nat.le_of_not_lt hle))

theorem sign_outranks_literal {k : Kind} (hk : k ∈ Kind.signs) {s : Rule}
    (hs : s ∈ [digits, string, word]) : (sign k).Outranks s := by
  refine (sign_beginsWith hk).outranks (literals_beginsWith hs) ?_
  rintro c ⟨-, hd, hw, hq⟩ (hc | hc | hc)
  · rw [hd] at hc
    cases hc
  · rw [hw] at hc
    cases hc
  · exact hq hc

theorem pairwise_literals : [digits, string, word].Pairwise Outranks := by
  refine .cons ?_ (.cons ?_ (List.pairwise_singleton ..))
  · intro s hs
    simp only [List.mem_cons, List.not_mem_nil, or_false] at hs
    rcases hs with rfl | rfl
    · refine digits_beginsWith.outranks string_beginsWith ?_
      rintro c hc rfl
      cases hc
    · refine digits_beginsWith.outranks word_beginsWith fun c hd hw => ?_
      rw [isDigit_of_isWordStart hw] at hd
      cases hd
  · intro s hs
    rw [List.mem_singleton.1 hs]
    refine string_beginsWith.outranks word_beginsWith ?_
    rintro c rfl
    decide

/-- Where two rules of the table take something, the one that stands first takes
more. -/
theorem pairwise_outranks : table.Pairwise Outranks := by
  have hsigns : ∀ r ∈ signOrder.map sign, ∃ k ∈ Kind.signs, r = sign k := by
    intro r hr
    obtain ⟨k, hk, rfl⟩ := List.mem_map.1 hr
    exact ⟨k, mem_signOrder.1 hk, rfl⟩
  have hcomment : ∀ {r : Rule}, r.BeginsWith (· = '/') →
      (∀ text, r.length text ≠ 0 → 2 ≤ r.length text) →
      ∀ s ∈ signOrder.map sign ++ [digits, string, word], r.Outranks s := by
    intro r hr hlen s hs
    rcases List.mem_append.1 hs with hs | hs
    · obtain ⟨k, hk, rfl⟩ := hsigns s hs
      exact comment_outranks_sign hr hlen hk
    · exact comment_outranks_literal hr hs
  have htail : (signOrder.map sign ++ [digits, string, word]).Pairwise Outranks := by
    rw [List.pairwise_append, List.pairwise_map]
    refine ⟨pairwise_signOrder.imp sign_outranks_sign, pairwise_literals, ?_⟩
    intro r hr s hs
    obtain ⟨k, hk, rfl⟩ := hsigns r hr
    exact sign_outranks_literal hk hs
  have hblank : ∀ s ∈ lineComment :: blockComment ::
      (signOrder.map sign ++ [digits, string, word]), blanks.Outranks s := by
    intro s hs
    rcases List.mem_cons.1 hs with rfl | hs
    · exact blanks_outranks lineComment_beginsWith (by rintro c rfl; rfl)
    rcases List.mem_cons.1 hs with rfl | hs
    · exact blanks_outranks blockComment_beginsWith (by rintro c rfl; rfl)
    rcases List.mem_append.1 hs with hs | hs
    · obtain ⟨k, hk, rfl⟩ := hsigns s hs
      exact blanks_outranks (sign_beginsWith hk) fun c hc => hc.1
    · refine blanks_outranks (literals_beginsWith hs) ?_
      rintro c (hc | hc | rfl)
      · exact isBlank_of_wordPart (Or.inl hc)
      · exact isBlank_of_wordPart (Or.inr hc)
      · rfl
  have hline := List.forall_mem_cons.2 ⟨lineComment_outranks_blockComment,
    hcomment lineComment_beginsWith fun _ => two_le_lineComment⟩
  have hblock := hcomment blockComment_beginsWith fun _ => two_le_blockComment
  rw [table_eq]
  exact .cons hblank (.cons hline (.cons hblock htail))

/-- The first rule that takes something takes more than every other one. -/
theorem exists_index_of_first? {text : List Char} {r : Rule} (h : first? text = some r) :
    ∃ i, table[i]? = some r ∧
      (∀ (j : Nat) (s : Rule), table[j]? = some s → j < i → s.length text = 0) ∧
      ∀ (j : Nat) (s : Rule), table[j]? = some s → j ≠ i → s.length text < r.length text := by
  have hn := length_ne_zero_of_first? h
  obtain ⟨-, i, hi, rfl, hfirst⟩ := List.find?_eq_some_iff_getElem.1 h
  have hbefore : ∀ (j : Nat) (s : Rule), table[j]? = some s → j < i → s.length text = 0 := by
    intro j s hs hlt
    obtain ⟨hj, rfl⟩ := List.getElem?_eq_some_iff.1 hs
    simpa using hfirst j hlt
  refine ⟨i, List.getElem?_eq_getElem hi, hbefore, ?_⟩
  intro j s hs hji
  by_cases hzero : s.length text = 0
  · rw [hzero]
    exact Nat.pos_of_ne_zero hn
  · rcases Nat.lt_or_gt_of_ne hji with hlt | hlt
    · exact absurd (hbefore j s hs hlt) hzero
    · obtain ⟨hj, rfl⟩ := List.getElem?_eq_some_iff.1 hs
      exact List.pairwise_iff_getElem.1 pairwise_outranks i j hi hj hlt text hn hzero

end Rule

namespace Regex

/-! ## The longest match -/

/-- Of some expressions, each with the kind of its token, the one at an index takes
`n` characters from the front of a text, and every other one takes less or does not
match. -/
structure LongestAt (es : List (Option Kind × Regex)) (text : List Char) (i : Nat)
    (kind? : Option Kind) (n : Nat) : Prop where
  takes : ∃ e, es[i]? = some (kind?, e) ∧ e.taken? text = some n
  others : ∀ j k e m, es[j]? = some (k, e) → j ≠ i → e.taken? text = some m → m < n

def NoneBefore (es : List (Option Kind × Regex)) (text : List Char) (i : Nat) : Prop :=
  ∀ (j : Nat) (e : Option Kind × Regex), es[j]? = some e → j < i → e.2.taken? text = none

/-- What the expressions match at the front of a text.  A match of nothing does not
count. -/
def found (es : List (Option Kind × Regex)) (text : List Char) : List (Option Kind × Nat) :=
  es.filterMap fun e => ((e.2.taken? text).filter (· != 0)).map (e.1, ·)

/-- The longest of the matches. -/
def longest? (es : List (Option Kind × Regex)) (text : List Char) : Option (Option Kind × Nat) :=
  (found es text).argmax Prod.snd

section

variable {es : List (Option Kind × Regex)} {text : List Char} {kind? : Option Kind} {n : Nat}

theorem mem_found :
    (kind?, n) ∈ found es text ↔ n ≠ 0 ∧ ∃ e, (kind?, e) ∈ es ∧ e.taken? text = some n := by
  simp only [found, List.mem_filterMap, Option.map_eq_some_iff, Option.filter_eq_some_iff,
    bne_iff_ne, Prod.mk.injEq]
  constructor
  · rintro ⟨⟨k, e⟩, he, m, ⟨hm, hn⟩, rfl, rfl⟩
    exact ⟨hn, e, he, hm⟩
  · rintro ⟨hn, e, he, hm⟩
    exact ⟨(kind?, e), he, n, ⟨hm, hn⟩, rfl, rfl⟩

theorem ne_zero_of_longest? (h : longest? es text = some (kind?, n)) : n ≠ 0 :=
  (mem_found.1 (List.argmax_mem h)).1

/-- Reads a text that begins at a byte offset: wherever it stands, it tries all
expressions and takes the longest match. -/
def munch (es : List (Option Kind × Regex)) (text : List Char) (offset : Nat) :
    Except LexFault (List Token) :=
  match text with
  | [] => .ok [.eof offset]
  | c :: cs =>
    match _h : longest? es (c :: cs) with
    | none => .error (.unexpectedChar c offset)
    | some (kind?, n) =>
      let lexeme := (c :: cs).take n
      (munch es ((c :: cs).drop n) (offset + byteLength lexeme)).map
        ((kind?.map fun k => Token.ofChars k lexeme offset).toList ++ ·)
termination_by text.length
decreasing_by
  have hn := ne_zero_of_longest? ‹_›
  simp only [List.length_drop, List.length_cons]
  omega

theorem exists_table_of_rule {i : Nat} {r : Rule} (h : Rule.table[i]? = some r) :
    ∃ e, table[i]? = some (r.kind?, e) ∧ r.Finds e := by
  obtain ⟨hlen, hget⟩ := List.forall₂_iff_get.1 Rule.forall₂_finds
  obtain ⟨hi, rfl⟩ := List.getElem?_eq_some_iff.1 h
  obtain ⟨hk, hfinds⟩ := hget i hi (hlen ▸ hi)
  refine ⟨_, ?_, hfinds⟩
  rw [List.getElem?_eq_getElem (hlen ▸ hi)]
  exact congrArg some (Prod.ext hk.symm rfl)

theorem exists_rule_of_table {i : Nat} {e : Regex} (h : table[i]? = some (kind?, e)) :
    ∃ r, Rule.table[i]? = some r ∧ r.kind? = kind? ∧ r.Finds e := by
  obtain ⟨hlen, -⟩ := List.forall₂_iff_get.1 Rule.forall₂_finds
  obtain ⟨hi, -⟩ := List.getElem?_eq_some_iff.1 h
  have hr : Rule.table[i]? = some Rule.table[i] := List.getElem?_eq_getElem (hlen ▸ hi)
  obtain ⟨e', he', hfinds⟩ := exists_table_of_rule hr
  rw [h, Option.some.injEq, Prod.mk.injEq] at he'
  obtain ⟨rfl, rfl⟩ := he'
  exact ⟨_, hr, rfl, hfinds⟩

/-- The first rule that takes something stands for the first expression that matches,
and this match is the longest one. -/
theorem longestAt_of_first? {r : Rule} (h : Rule.first? text = some r) :
    ∃ i, Rule.table[i]? = some r ∧ NoneBefore table text i ∧
      LongestAt table text i r.kind? (r.length text) := by
  have hn := Rule.length_ne_zero_of_first? h
  obtain ⟨i, hi, hbefore, hothers⟩ := Rule.exists_index_of_first? h
  obtain ⟨e, he, hfinds⟩ := exists_table_of_rule hi
  refine ⟨i, hi, ?_, ⟨e, he, ?_⟩, ?_⟩
  · rintro j ⟨k, e'⟩ he' hlt
    obtain ⟨s, hs, -, hfinds'⟩ := exists_rule_of_table he'
    rw [hfinds' text, if_pos (hbefore j s hs hlt)]
  · rw [hfinds text, if_neg hn]
  · intro j k e' m he' hji hm
    obtain ⟨s, hs, -, hfinds'⟩ := exists_rule_of_table he'
    rw [hfinds' text] at hm
    split at hm
    · cases hm
    · cases hm
      exact hothers j s hs hji

theorem taken?_of_first?_eq_none (h : Rule.first? text = none)
    {e : Option Kind × Regex} (he : e ∈ table) : e.2.taken? text = none := by
  obtain ⟨i, hi⟩ := List.mem_iff_getElem?.1 he
  obtain ⟨r, hr, -, hfinds⟩ := exists_rule_of_table hi
  have hzero := List.find?_eq_none.1 h r (List.mem_of_getElem? hr)
  rw [hfinds text, if_pos (by simpa using hzero)]

theorem longest?_of_longestAt {fs : List (Option Kind × Regex)} (hp : es.Perm fs) {i : Nat}
    (h : LongestAt fs text i kind? n) (hn : n ≠ 0) : longest? es text = some (kind?, n) := by
  obtain ⟨e, he, htake⟩ := h.takes
  have hmem : (kind?, n) ∈ found es text :=
    mem_found.2 ⟨hn, e, hp.mem_iff.2 (List.mem_of_getElem? he), htake⟩
  have hothers : ∀ p ∈ found es text, p = (kind?, n) ∨ p.2 < n := by
    rintro ⟨k, m⟩ hpm
    obtain ⟨-, e', he', hm⟩ := mem_found.1 hpm
    obtain ⟨j, hj⟩ := List.mem_iff_getElem?.1 (hp.mem_iff.1 he')
    by_cases hji : j = i
    · subst hji
      rw [he, Option.some.injEq, Prod.mk.injEq] at hj
      obtain ⟨rfl, rfl⟩ := hj
      rw [htake, Option.some.injEq] at hm
      exact Or.inl (by rw [hm])
    · exact Or.inr (h.others j k e' m hj hji hm)
  rw [longest?]
  cases hmax : (found es text).argmax Prod.snd with
  | none =>
    rw [List.argmax_eq_none.1 hmax] at hmem
    cases hmem
  | some p =>
    have hle : n ≤ p.2 := List.le_of_mem_argmax hmem hmax
    rcases hothers p (List.argmax_mem hmax) with hpn | hlt
    · rw [hpn]
    · exact absurd hle (Nat.not_le_of_lt hlt)

theorem longest?_of_first? (hp : es.Perm table) {r : Rule} (h : Rule.first? text = some r) :
    longest? es text = some (r.kind?, r.length text) := by
  obtain ⟨i, -, -, hlong⟩ := longestAt_of_first? h
  exact longest?_of_longestAt hp hlong (Rule.length_ne_zero_of_first? h)

theorem longest?_of_cut (hp : es.Perm table) {cs rest : List Char} (h : Cut kind? cs rest) :
    longest? es (cs ++ rest) = some (kind?, cs.length) := by
  obtain ⟨r, hf, hk, hl⟩ := Rule.exists_first?_of_cut h
  rw [longest?_of_first? hp hf, hk, hl]

theorem longest?_of_first?_eq_none (hp : es.Perm table) (h : Rule.first? text = none) :
    longest? es text = none := by
  rw [longest?, List.argmax_eq_none, List.eq_nil_iff_forall_not_mem]
  rintro ⟨k, n⟩ hmem
  obtain ⟨-, e, he, hn⟩ := mem_found.1 hmem
  rw [taken?_of_first?_eq_none h (hp.mem_iff.1 he)] at hn
  cases hn

theorem munch_of_longest?_eq_none {c : Char} {cs : List Char}
    (h : longest? es (c :: cs) = none) (offset : Nat) :
    munch es (c :: cs) offset = .error (.unexpectedChar c offset) := by
  rw [munch]
  split
  · rfl
  · next hs =>
    rw [h] at hs
    cases hs

theorem munch_of_longest? {cs rest : List Char} (hcs : cs ≠ [])
    (h : longest? es (cs ++ rest) = some (kind?, cs.length))
    (offset : Nat) :
    munch es (cs ++ rest) offset = (munch es rest (offset + byteLength cs)).map
      ((kind?.map fun k => Token.ofChars k cs offset).toList ++ ·) := by
  obtain ⟨c, cs', rfl⟩ := List.exists_cons_of_ne_nil hcs
  rw [List.cons_append] at h ⊢
  rw [munch]
  split
  · next hs =>
    rw [h] at hs
    cases hs
  · next hs =>
    rw [h] at hs
    cases hs
    simp only [← List.cons_append, List.take_left, List.drop_left]

theorem munch_of_cuts (hp : es.Perm table) {tail : List Char} {ps : List Piece}
    (h : Cuts tail ps) (offset : Nat) :
    munch es (Piece.text ps ++ tail) offset =
      (munch es tail (offset + byteLength (Piece.text ps))).map (Piece.tokens offset ps ++ ·) := by
  induction ps generalizing offset with
  | nil =>
    rw [Piece.text, List.flatMap_nil, byteLength_nil, Nat.add_zero, List.nil_append]
    cases munch es tail offset <;> rfl
  | cons p ps ih =>
    obtain ⟨hc, hps⟩ := h
    rw [Piece.add_byteLength_text_cons, Piece.text_cons, List.append_assoc,
      munch_of_longest? hc.ne_nil (longest?_of_cut hp hc), ih hps]
    cases munch es tail (offset + byteLength p.chars + byteLength (Piece.text ps)) with
    | error fault => rfl
    | ok ts => exact congrArg Except.ok (List.append_assoc ..).symm

end

end Regex

theorem Lexer.drain_eq_munch {es : List (Option Kind × Regex)} (hp : es.Perm Regex.table)
    (text : List Char) (offset : Nat) :
    (⟨text, offset⟩ : Lexer).drain = Regex.munch es text offset := by
  obtain ⟨ps, tail, rfl, hps, ht⟩ := exists_cuts text
  rw [drain_of_cuts hps, Regex.munch_of_cuts hp hps]
  cases tail with
  | nil =>
    rw [drain_nil, Regex.munch, List.append_nil, List.reverse_reverse]
    rfl
  | cons c cs =>
    rw [drain_of_next_error (next_of_first?_eq_none ht _),
      Regex.munch_of_longest?_eq_none (Regex.longest?_of_first?_eq_none hp ht)]
    rfl

/-- At each place of a text where an expression of the table matches, the first one
that matches is the one whose match is longest, and no other match is as long.  So a
text has the tokens and the faults that the longest matches give, in whatever order
the expressions are tried. -/
theorem tokenize_eq_munch {es : List (Option Kind × Regex)} (hp : es.Perm Regex.table)
    (src : String) :
    (∀ before text, src.toList = before ++ text → (∃ e ∈ Regex.table, e.2.taken? text ≠ none) →
      ∃ i r, Rule.table[i]? = some r ∧ Rule.first? text = some r ∧
        Regex.NoneBefore Regex.table text i ∧
        Regex.LongestAt Regex.table text i r.kind? (r.length text)) ∧
    tokenize src = Regex.munch es src.toList 0 := by
  constructor
  · rintro before text - ⟨e, he, hmatch⟩
    cases hf : Rule.first? text with
    | none => exact absurd (Regex.taken?_of_first?_eq_none hf he) hmatch
    | some r =>
      obtain ⟨i, hi, hfirst, hlong⟩ := Regex.longestAt_of_first? hf
      exact ⟨i, r, hi, rfl, hfirst, hlong⟩
  · exact Lexer.drain_eq_munch hp src.toList 0

/-- Tried in the opposite order, a minus would come before an arrow, and a slash
before a comment. -/
theorem tokenize_eq_munch_reverse :
    Regex.munch Regex.table.reverse "a->b/*//*/&".toList 0 = .error (.unexpectedChar '&' 10) ∧
      Regex.munch Regex.table.reverse "a->b/*//*/".toList 0 =
        .ok [⟨.ident, "a", ⟨0, 1⟩⟩, ⟨.arrow, "->", ⟨1, 3⟩⟩, ⟨.ident, "b", ⟨3, 4⟩⟩, .eof 10] ∧
      ∃ i r, Rule.table[i]? = some r ∧ Rule.first? "->b/*//*/".toList = some r ∧
        Regex.NoneBefore Regex.table "->b/*//*/".toList i ∧
        Regex.LongestAt Regex.table "->b/*//*/".toList i r.kind? (r.length "->b/*//*/".toList) := by
  have hp : Regex.table.reverse.Perm Regex.table := List.reverse_perm _
  obtain ⟨hplace, htok⟩ := tokenize_eq_munch hp "a->b/*//*/"
  refine ⟨?_, ?_, hplace ['a'] _ rfl ⟨(some .arrow, .chars ['-', '>']), ?_, ?_⟩⟩
  · rw [← (tokenize_eq_munch hp "a->b/*//*/&").2]
    exact error_of_match (by decide +kernel)
  · rw [← htok]
    exact ok_of_toOption (by decide +kernel)
  · decide +kernel
  · decide +kernel

end TriadLang
