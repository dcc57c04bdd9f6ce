import TriadLang.Proofs.Source.Offsets

namespace TriadLang

theorem isBoundary_add {offset : Nat} (before after : List Char) :
    IsBoundary (byteLength before + offset) (before ++ after) ↔ IsBoundary offset after := by
  rw [isBoundary_iff, isBoundary_iff]
  constructor
  · rintro ⟨cs, hcs, hlength⟩
    obtain ⟨ds, rfl⟩ : before <+: cs :=
      prefix_of_byteLength_le (List.prefix_append _ _) hcs (by omega)
    rw [byteLength_append, Nat.add_left_cancel_iff] at hlength
    exact ⟨ds, (List.prefix_append_right_inj before).1 hcs, hlength⟩
  · rintro ⟨ds, hds, rfl⟩
    exact ⟨before ++ ds, (List.prefix_append_right_inj before).2 hds,
      (byteLength_append before ds).symm⟩

theorem isBoundary_append {offset : Nat} {cs : List Char} (h : offset ≤ byteLength cs)
    (rest : List Char) : IsBoundary offset (cs ++ rest) ↔ IsBoundary offset cs := by
  rw [isBoundary_iff, isBoundary_iff]
  constructor
  · rintro ⟨before, hbefore, rfl⟩
    exact ⟨before, prefix_of_byteLength_le hbefore (List.prefix_append _ _) h, rfl⟩
  · rintro ⟨before, hbefore, rfl⟩
    exact ⟨before, hbefore.trans (List.prefix_append _ _), rfl⟩

/-- Where the line of an offset ends: in front of the first newline from there on, or at
the end of the text. -/
def lineEnd (offset : Nat) : List Char → Nat
  | [] => 0
  | c :: cs =>
    if offset = 0 ∧ c = '\n' then 0 else c.utf8Size + lineEnd (offset - c.utf8Size) cs

theorem lineEnd_zero (cs : List Char) : lineEnd 0 cs = byteLength (lineTail cs) := by
  induction cs with
  | nil => rfl
  | cons c cs ih =>
    rw [lineEnd, lineTail_cons]
    by_cases hc : c = '\n'
    · rw [if_pos ⟨rfl, hc⟩, if_pos hc, byteLength_nil]
    · rw [if_neg fun h => hc h.2, if_neg hc, Nat.zero_sub, ih, byteLength_cons]

theorem lineEnd_append (before after : List Char) :
    lineEnd (byteLength before) (before ++ after) =
      byteLength before + byteLength (lineTail after) := by
  induction before with
  | nil => rw [byteLength_nil, List.nil_append, lineEnd_zero, Nat.zero_add]
  | cons c before ih =>
    have hc := c.utf8Size_pos
    have hrest : c.utf8Size + byteLength before - c.utf8Size = byteLength before := by omega
    have hne : ¬ (c.utf8Size + byteLength before = 0 ∧ c = '\n') := fun h => by omega
    rw [List.cons_append, byteLength_cons, lineEnd, if_neg hne, hrest, ih]
    omega

namespace Excerpt

variable {src : String} {span : Span} {before after : List Char}

theorem ofSpan?_of_not_isBoundary
    (h : ¬ IsBoundary (span.onText src.toList).lo src.toList) : ofSpan? src span = none := by
  rw [not_isBoundary_iff] at h
  rw [ofSpan?]
  dsimp only
  rw [h, Option.bind_eq_bind, Option.bind_none]

theorem ofSpan?_of_append {s : Span} (hs : span.onText src.toList = s)
    (htext : src.toList = before ++ after) (hlo : s.lo = byteLength before) :
    ofSpan? src span =
      if s.lo ≤ s.hi then
        (splitAtByte? (min (s.hi - s.lo) (byteLength (lineTail after))) (lineTail after)).map
          fun (marked, _) =>
            { position := .after before
              line := lineHead before ++ lineTail after
              indent := (lineHead before).length
              width := max 1 marked.length }
      else none := by
  have hsplit : splitAtByte? s.lo src.toList = some (before, after) := by
    rw [hlo, htext, splitAtByte?_append]
  have hposition : Position.ofOffset src s.lo = .after before := by
    rw [hlo, Position.ofOffset_byteLength htext]
  rw [ofSpan?, hs]
  dsimp only
  rw [hsplit, hposition, Option.bind_eq_bind, Option.bind_some]
  by_cases hle : s.lo ≤ s.hi
  · rw [if_pos hle, guard, if_pos hle, Option.map_eq_bind]
    rfl
  · rw [if_neg hle, guard, if_neg hle]
    rfl

theorem isBoundary_stop {s : Span} (hle : s.lo ≤ s.hi) (htext : src.toList = before ++ after)
    (hlo : s.lo = byteLength before) :
    min s.hi (lineEnd s.lo src.toList) =
        s.lo + min (s.hi - s.lo) (byteLength (lineTail after)) ∧
      (IsBoundary (min s.hi (lineEnd s.lo src.toList)) src.toList ↔
        IsBoundary (min (s.hi - s.lo) (byteLength (lineTail after))) (lineTail after)) := by
  have hend : lineEnd s.lo src.toList = s.lo + byteLength (lineTail after) := by
    rw [htext, hlo, lineEnd_append]
  have hmin : min s.hi (lineEnd s.lo src.toList) =
      s.lo + min (s.hi - s.lo) (byteLength (lineTail after)) := by omega
  refine ⟨hmin, ?_⟩
  have htail := isBoundary_append (Nat.min_le_right (s.hi - s.lo) (byteLength (lineTail after)))
    (after.dropWhile (· != '\n'))
  rw [lineTail_append_dropWhile] at htail
  rw [hmin, hlo, htext, isBoundary_add, ← hlo]
  exact htail

/-- There is no excerpt exactly if one of the cuts falls inside a character or they are
out of order. -/
theorem ofSpan?_eq_none_iff {s : Span} (hs : span.onText src.toList = s) :
    ofSpan? src span = none ↔ ¬ IsBoundary s.lo src.toList ∨ s.hi < s.lo ∨
      ¬ IsBoundary (min s.hi (lineEnd s.lo src.toList)) src.toList := by
  by_cases hb : IsBoundary s.lo src.toList
  · obtain ⟨before, ⟨after, htext⟩, hlo⟩ := isBoundary_iff.1 hb
    rw [ofSpan?_of_append hs htext.symm hlo]
    by_cases hle : s.lo ≤ s.hi
    · rw [if_pos hle, Option.map_eq_none_iff, (isBoundary_stop hle htext.symm hlo).2,
        ← not_isBoundary_iff]
      constructor
      · exact fun h => .inr (.inr h)
      · rintro (h | h | h)
        · exact absurd hb h
        · omega
        · exact h
    · rw [if_neg hle]
      exact iff_of_true rfl (.inr (.inl (Nat.lt_of_not_le hle)))
  · rw [ofSpan?_of_not_isBoundary (by rwa [hs])]
    exact iff_of_true rfl (.inl hb)

/-- What an excerpt shows: the line that the span begins on, and a marker from the column
of the start on, with as many carets as characters are marked, but one at least. -/
theorem of_ofSpan?_eq_some {s : Span} (hs : span.onText src.toList = s) {e : Excerpt}
    (h : ofSpan? src span = some e) :
    ∃ marked, Span.Selects ⟨s.lo, min s.hi (lineEnd s.lo src.toList)⟩ src.toList marked ∧
      e.position = .ofOffset src s.lo ∧
      (src.toList.splitOn '\n')[e.position.line]? = some e.line ∧
      e.indent = e.position.character ∧ e.width = max 1 marked.length ∧
      e.indent + e.width ≤ e.line.length + 1 := by
  have hb : IsBoundary s.lo src.toList := by
    by_contra hb
    rw [ofSpan?_of_not_isBoundary (by rwa [hs])] at h
    cases h
  obtain ⟨before, ⟨after, htext⟩, hlo⟩ := isBoundary_iff.1 hb
  rw [ofSpan?_of_append hs htext.symm hlo] at h
  split at h
  · next hle =>
    obtain ⟨⟨marked, rest⟩, hsplit, rfl⟩ := Option.map_eq_some_iff.1 h
    obtain ⟨htail, hlength⟩ := splitAtByte?_eq_some hsplit
    have hselects : Span.Selects ⟨s.lo, min s.hi (lineEnd s.lo src.toList)⟩ src.toList marked := by
      refine ⟨before, rest ++ after.dropWhile (· != '\n'), ?_, hlo, ?_⟩
      · rw [← List.append_assoc marked, ← htail, lineTail_append_dropWhile, htext]
      · show min s.hi (lineEnd s.lo src.toList) = s.lo + byteLength marked
        rw [(isBoundary_stop hle htext.symm hlo).1, hlength]
    have hline := getElem?_splitOn before after
    rw [htext] at hline
    refine ⟨marked, hselects, ?_, ?_, ?_, rfl, ?_⟩
    · rw [hlo, Position.ofOffset_byteLength htext.symm]
    · show (src.toList.splitOn '\n')[(Position.after before).line]? = _
      rw [Position.after_eq]
      exact hline
    · show (lineHead before).length = (Position.after before).character
      rw [Position.after_eq]
    · show (lineHead before).length + max 1 marked.length ≤
        (lineHead before ++ lineTail after).length + 1
      rw [htail, List.length_append, List.length_append]
      omega
  · cases h

end Excerpt

/-- A report about any span.  For an empty text it is the message alone.  Otherwise a span
at or behind the end is replaced by that of the last character; there is no report exactly
if the span does not start between two characters, or ends before it starts, or if its
end, or the end of the line if that comes before, is not between two characters; and a
report is the message, the position of the start, counted from one, the line of the text
that it is on, and a marker in the column of the start under the characters of the span on
that line, or under one, which goes at most one column past the line. -/
theorem report_of_any_span (src : String) (span : Span) (message : String) :
    (src = "" → report src span message = some ("error: " ++ message)) ∧
    (src ≠ "" → ∃ s : Span,
      (span.lo < byteLength src.toList → s = span) ∧
      (byteLength src.toList ≤ span.lo → ∃ before c, src.toList = before ++ [c] ∧
        s = ⟨byteLength before, byteLength src.toList⟩) ∧
      (report src span message = none ↔ ¬ IsBoundary s.lo src.toList ∨ s.hi < s.lo ∨
        ¬ IsBoundary (min s.hi (lineEnd s.lo src.toList)) src.toList) ∧
      ∀ text, report src span message = some text →
        ∃ (position : Position) (line marked : List Char), position = .ofOffset src s.lo ∧
        (src.toList.splitOn '\n')[position.line]? = some line ∧
        Span.Selects ⟨s.lo, min s.hi (lineEnd s.lo src.toList)⟩ src.toList marked ∧
        text = "error: " ++ message ++
          "\n --> " ++ toString (position.line + 1) ++ ":" ++ toString (position.character + 1) ++
          "\n" ++ String.ofList line ++
          "\n" ++ String.ofList (List.replicate position.character ' ' ++
            List.replicate (max 1 marked.length) '^') ∧
        position.character + max 1 marked.length ≤ line.length + 1) := by
  constructor
  · rintro rfl
    rfl
  · intro hne
    have hempty : src.isEmpty = false := by simpa using hne
    have hnil : src.toList ≠ [] := fun h => hne (String.toList_eq_nil_iff.1 h)
    have hreport : report src span message =
        (Excerpt.ofSpan? src span).map (·.render message) := by
      rw [report, hempty]
      rfl
    refine ⟨span.onText src.toList, fun hlt => ?_, fun hle => ?_, ?_, fun text htext => ?_⟩
    · rw [Span.onText, if_neg (Nat.not_le.2 hlt)]
    · obtain ⟨before, c, htext⟩ := (List.eq_nil_or_concat src.toList).resolve_left hnil
      rw [List.concat_eq_append] at htext
      rw [htext] at hle ⊢
      refine ⟨before, c, rfl, ?_⟩
      rw [Span.onText_concat hle, byteLength_append]
      rfl
    · rw [hreport, Option.map_eq_none_iff]
      exact Excerpt.ofSpan?_eq_none_iff rfl
    · rw [hreport] at htext
      obtain ⟨e, he, rfl⟩ := Option.map_eq_some_iff.1 htext
      obtain ⟨marked, hselects, hposition, hline, hindent, hwidth, hbound⟩ :=
        Excerpt.of_ofSpan?_eq_some rfl he
      obtain ⟨position, line, indent, width⟩ := e
      obtain rfl : indent = position.character := hindent
      obtain rfl : width = max 1 marked.length := hwidth
      exact ⟨position, line, marked, hposition, hline, hselects, rfl, hbound⟩

/-- The second end may fall inside a character on a later line, but not on the same one. -/
example : report "é\né" ⟨0, 4⟩ "m" = some "error: m\n --> 1:1\né\n^" ∧
    report "é\né" ⟨0, 1⟩ "m" = none := by
  decide +kernel

end TriadLang
