import Mathlib.Data.List.DropRight
import TriadLang.Proofs.Source.Positions

/-!
# Offsets and positions

The position of an offset is found in two cuts: the text is cut off at the offset, or at
the start of the character that the offset is in, and what is left is cut behind its last
newline.  A cut that falls inside a character has no answer, so it has to be shown that
both fall between two characters (`slicedPosition?_eq`).

Where an offset is between two characters, its position says all there is to know about
it: the bytes of the lines before, with their newlines, and those of the characters
before it on its own line add up to the offset (`toOffset_ofOffset`).  So positions come
in the order of the offsets.
-/

namespace TriadLang

/-- The offset is between two characters, or at an end of the text. -/
def IsBoundary (offset : Nat) (cs : List Char) : Prop := (splitAtByte? offset cs).isSome

instance (offset : Nat) (cs : List Char) : Decidable (IsBoundary offset cs) :=
  inferInstanceAs (Decidable (_ = true))

theorem isBoundary_iff {offset : Nat} {cs : List Char} :
    IsBoundary offset cs ↔ ∃ before, before <+: cs ∧ offset = byteLength before := by
  constructor
  · intro h
    obtain ⟨⟨before, after⟩, hsplit⟩ := Option.isSome_iff_exists.1 h
    obtain ⟨rfl, hlength⟩ := splitAtByte?_eq_some hsplit
    exact ⟨before, List.prefix_append _ _, hlength.symm⟩
  · rintro ⟨before, ⟨after, rfl⟩, rfl⟩
    rw [IsBoundary, splitAtByte?_append]
    rfl

theorem not_isBoundary_iff {offset : Nat} {cs : List Char} :
    ¬ IsBoundary offset cs ↔ splitAtByte? offset cs = none :=
  Option.not_isSome_iff_eq_none

/-- The last place between two characters up to an offset, found by going back byte by
byte. -/
def floorBoundary : Nat → List Char → Nat
  | 0, _ => 0
  | offset + 1, cs =>
    if IsBoundary (offset + 1) cs then offset + 1 else floorBoundary offset cs

theorem byteLength_takeBytes_le (offset : Nat) (cs : List Char) :
    byteLength (takeBytes offset cs) ≤ offset := by
  fun_induction takeBytes offset cs with
  | case1 => exact Nat.zero_le _
  | case2 offset c cs hc ih =>
    rw [byteLength_cons]
    omega
  | case3 => exact Nat.zero_le _

theorem prefix_takeBytes {offset : Nat} {cs before : List Char} (h : before <+: cs)
    (hle : byteLength before ≤ offset) : before <+: takeBytes offset cs := by
  obtain ⟨after, rfl⟩ := h
  have hmono := takeBytes_mono hle (before ++ after)
  rwa [takeBytes_append] at hmono

/-- Going back stops behind the longest beginning of the text that fits. -/
theorem floorBoundary_eq (offset : Nat) (cs : List Char) :
    floorBoundary offset cs = byteLength (takeBytes offset cs) := by
  induction offset with
  | zero =>
    have hle := byteLength_takeBytes_le 0 cs
    rw [floorBoundary]
    omega
  | succ offset ih =>
    rw [floorBoundary]
    by_cases hb : IsBoundary (offset + 1) cs
    · obtain ⟨before, ⟨after, rfl⟩, hlength⟩ := isBoundary_iff.1 hb
      rw [if_pos hb, hlength, takeBytes_append]
    · rw [if_neg hb, ih]
      have hpre := takeBytes_prefix (offset + 1) cs
      have hle := byteLength_takeBytes_le (offset + 1) cs
      have hne : byteLength (takeBytes (offset + 1) cs) ≠ offset + 1 :=
        fun heq => hb (isBoundary_iff.2 ⟨_, hpre, heq.symm⟩)
      have hless : takeBytes (offset + 1) cs <+: takeBytes offset cs :=
        prefix_takeBytes hpre (by omega)
      have hmore : takeBytes offset cs <+: takeBytes (offset + 1) cs :=
        takeBytes_mono (Nat.le_succ offset) cs
      rw [hless.eq_of_length_le hmore.length_le]

theorem takeBytes_of_le {offset : Nat} {cs : List Char} (h : byteLength cs ≤ offset) :
    takeBytes offset cs = cs := by
  have hpre := takeBytes_prefix offset cs
  exact hpre.eq_of_length_le (prefix_takeBytes (List.prefix_refl cs) h).length_le

theorem takeBytes_min (offset : Nat) (cs : List Char) :
    takeBytes (min offset (byteLength cs)) cs = takeBytes offset cs := by
  rcases Nat.le_total offset (byteLength cs) with h | h
  · rw [Nat.min_eq_left h]
  · rw [Nat.min_eq_right h, takeBytes_of_le h, takeBytes_of_le (Nat.le_refl _)]

theorem takeBytes_inside {offset : Nat} {before after : List Char} {c : Char}
    (hlo : byteLength before ≤ offset) (hhi : offset < byteLength before + c.utf8Size) :
    takeBytes offset (before ++ c :: after) = before := by
  have hmore : before <+: takeBytes offset (before ++ c :: after) :=
    prefix_takeBytes (List.prefix_append _ _) hlo
  obtain ⟨more, hmore⟩ := hmore
  have hle := byteLength_takeBytes_le offset (before ++ c :: after)
  have hpre := takeBytes_prefix offset (before ++ c :: after)
  rw [← hmore] at hle hpre ⊢
  rw [List.prefix_append_right_inj] at hpre
  rcases List.prefix_cons_iff.1 hpre with rfl | ⟨rest, rfl, -⟩
  · rw [List.append_nil]
  · rw [byteLength_append, byteLength_cons] at hle
    omega

namespace Position

/-- The offset behind the last newline of a text, or its start if there is none. -/
def lineStart (cs : List Char) : Nat := byteLength (cs.rdropWhile (· != '\n'))

/-- The position of an offset, by cutting the text at the offset and then in front of the
line.  There is no answer if one of the cuts falls inside a character. -/
def slicedPosition? (src : String) (offset : Nat) : Option Position := do
  let cs := src.toList
  let (before, _) ← splitAtByte? (floorBoundary (min offset (byteLength cs)) cs) cs
  let (_, head) ← splitAtByte? (lineStart before) before
  return ⟨before.count '\n', head.length⟩

theorem splitAtByte?_lineStart (cs : List Char) :
    splitAtByte? (lineStart cs) cs = some (cs.rdropWhile (· != '\n'), lineHead cs) := by
  have hparts : cs.rdropWhile (· != '\n') ++ lineHead cs = cs :=
    List.rdropWhile_append_rtakeWhile
  have hsplit := splitAtByte?_append (cs.rdropWhile (· != '\n')) (lineHead cs)
  rwa [hparts] at hsplit

/-- Both cuts fall between two characters. -/
theorem slicedPosition?_eq (src : String) (offset : Nat) :
    slicedPosition? src offset = some (ofOffset src offset) := by
  obtain ⟨after, hsrc⟩ := takeBytes_prefix offset src.toList
  have hfloor : floorBoundary (min offset (byteLength src.toList)) src.toList =
      byteLength (takeBytes offset src.toList) := by
    rw [floorBoundary_eq, takeBytes_min]
  have hsplit : splitAtByte? (byteLength (takeBytes offset src.toList)) src.toList =
      some (takeBytes offset src.toList, after) := by
    have h := splitAtByte?_append (takeBytes offset src.toList) after
    rwa [hsrc] at h
  rw [slicedPosition?, hfloor]
  simp only [hsplit, splitAtByte?_lineStart, Option.bind_eq_bind, Option.bind_some, ofOffset,
    after_eq]
  rfl

end Position

/-- The number of bytes of some lines, with one more for the newline of each of them. -/
def linesLength : List (List Char) → Nat
  | [] => 0
  | line :: lines => byteLength line + 1 + linesLength lines

/-- The offset of a position: the bytes of the lines before, with their newlines, and those
of the characters before on the line itself. -/
def Position.toOffset (src : String) (p : Position) : Nat :=
  let lines := src.toList.splitOn '\n'
  linesLength (lines.take p.line) + byteLength ((lines[p.line]?.getD []).take p.character)

theorem linesLength_splitOn (cs : List Char) :
    linesLength (cs.splitOn '\n') = byteLength cs + 1 := by
  induction cs with
  | nil => rfl
  | cons c cs ih =>
    rw [List.splitOn_cons_eq_if_modifyHead]
    by_cases hc : c = '\n'
    · have hsize : '\n'.utf8Size = 1 := by decide
      rw [if_pos (by rw [hc]; decide), linesLength, ih, byteLength_nil, hc, byteLength_cons, hsize]
      omega
    · rw [if_neg (by simpa using hc)]
      cases hl : cs.splitOn '\n' with
      | nil => exact absurd hl (List.splitOn_ne_nil _ _)
      | cons line lines =>
        rw [hl, linesLength] at ih
        rw [List.modifyHead_cons, linesLength, byteLength_cons, byteLength_cons]
        omega

/-- The bytes before a place are those of the lines before its line, and of what is before
it on the line. -/
theorem linesLength_take_splitOn (before rest : List Char) :
    linesLength (((before ++ rest).splitOn '\n').take (before.count '\n')) +
      byteLength (lineHead before) = byteLength before := by
  induction before using List.reverseRecOn generalizing rest with
  | nil => rfl
  | append_singleton before c ih =>
    rw [lineHead_concat, List.append_assoc, List.singleton_append]
    by_cases hc : c = '\n'
    · subst hc
      have hcount : (before ++ ['\n']).count '\n' = (before.splitOn '\n').length := by
        rw [length_splitOn, List.count_append]
        rfl
      rw [List.splitOn_append_cons_self, hcount, List.take_left, linesLength_splitOn,
        if_pos rfl, byteLength_append]
      rfl
    · have hrest := ih (c :: rest)
      rw [count_newline_concat hc, if_neg hc, byteLength_append, byteLength_append]
      omega

namespace Position

theorem toOffset_after {src : String} {before rest : List Char}
    (h : src.toList = before ++ rest) : toOffset src (after before) = byteLength before := by
  have hline := getElem?_splitOn before rest
  have hbytes := linesLength_take_splitOn before rest
  rw [toOffset, after_eq, h]
  show linesLength (((before ++ rest).splitOn '\n').take (before.count '\n')) +
    byteLength ((((before ++ rest).splitOn '\n')[before.count '\n']?.getD []).take _) = _
  rw [hline, Option.getD_some, List.take_left, hbytes]

theorem toOffset_ofOffset {src : String} {offset : Nat} (h : IsBoundary offset src.toList) :
    toOffset src (ofOffset src offset) = offset := by
  obtain ⟨before, ⟨rest, hsrc⟩, rfl⟩ := isBoundary_iff.1 h
  rw [ofOffset_byteLength hsrc.symm, toOffset_after hsrc.symm]

theorem after_lt_after {cs ds : List Char} (h : cs <+: ds) (hne : cs ≠ ds) :
    after cs < after ds := by
  obtain ⟨rest, rfl⟩ := h
  have hrest : rest ≠ [] := by
    rintro rfl
    exact hne (List.append_nil cs).symm
  by_cases hmem : '\n' ∈ rest
  · exact .inl (line_after_lt cs hmem)
  · obtain ⟨hline, hcharacter⟩ := after_append_of_not_mem cs hmem
    have hpos := List.length_pos_iff.2 hrest
    refine .inr ⟨hline.symm, ?_⟩
    omega

theorem ofOffset_lt_ofOffset {src : String} {m n : Nat} (hm : IsBoundary m src.toList)
    (hn : IsBoundary n src.toList) (h : m < n) : ofOffset src m < ofOffset src n := by
  obtain ⟨cs, hcs, rfl⟩ := isBoundary_iff.1 hm
  obtain ⟨ds, hds, rfl⟩ := isBoundary_iff.1 hn
  have hpre : cs <+: ds := prefix_of_byteLength_le hcs hds (Nat.le_of_lt h)
  obtain ⟨rest, hrest⟩ := hcs
  obtain ⟨rest', hrest'⟩ := hds
  rw [ofOffset_byteLength hrest.symm, ofOffset_byteLength hrest'.symm]
  refine after_lt_after hpre ?_
  rintro rfl
  exact absurd h (Nat.lt_irrefl _)

end Position

/-- Every offset has a position, and the cuts that it is found by fall between two
characters.  An offset behind the end has the position of the end, one inside a character
that of the start of the character.  An offset between two characters is read back from
its position, which is on a line of the text and not behind the end of that line.  So of
two such offsets the lower one has the lower position, and no two have the same one. -/
theorem ofOffset_coordinates (src : String) :
    (∀ offset, Position.slicedPosition? src offset = some (.ofOffset src offset) ∧
      (byteLength src.toList ≤ offset →
        Position.ofOffset src offset = .ofOffset src (byteLength src.toList)) ∧
      ∀ before c after, src.toList = before ++ c :: after → byteLength before ≤ offset →
        offset < byteLength before + c.utf8Size →
        Position.ofOffset src offset = .ofOffset src (byteLength before)) ∧
    (∀ offset, IsBoundary offset src.toList →
      (Position.ofOffset src offset).FitsLine src ∧
      Position.toOffset src (.ofOffset src offset) = offset) ∧
    ∀ m n, IsBoundary m src.toList → IsBoundary n src.toList →
      (m < n → Position.ofOffset src m < .ofOffset src n) ∧
      (Position.ofOffset src m = .ofOffset src n → m = n) := by
  refine ⟨fun offset => ⟨Position.slicedPosition?_eq src offset, fun h => ?_, ?_⟩,
    fun offset h => ⟨(Position.isIn_ofOffset src offset).fitsLine, Position.toOffset_ofOffset h⟩,
    fun m n hm hn => ⟨Position.ofOffset_lt_ofOffset hm hn, fun h => ?_⟩⟩
  · rw [Position.ofOffset, Position.ofOffset, takeBytes_of_le h, takeBytes_of_le (Nat.le_refl _)]
  · intro before c after hsrc hlo hhi
    rw [Position.ofOffset_byteLength hsrc, Position.ofOffset, hsrc, takeBytes_inside hlo hhi]
  · rw [← Position.toOffset_ofOffset hm, h, Position.toOffset_ofOffset hn]

end TriadLang
