import TriadLang.Proofs.Source.Lines

namespace TriadLang

theorem takeBytes_mono {m n : Nat} (h : m ≤ n) (cs : List Char) :
    takeBytes m cs <+: takeBytes n cs := by
  induction cs generalizing m n with
  | nil => exact List.prefix_refl _
  | cons c cs ih =>
    rw [takeBytes, takeBytes]
    by_cases hc : c.utf8Size ≤ m
    · rw [if_pos hc, if_pos (Nat.le_trans hc h), List.prefix_cons_inj]
      exact ih (Nat.sub_le_sub_right h _)
    · rw [if_neg hc]
      exact List.nil_prefix

namespace Position

/-- Positions in the order in which a text comes to them. -/
instance : LE Position where
  le p q := p.line < q.line ∨ p.line = q.line ∧ p.character ≤ q.character

instance : LT Position where
  lt p q := p.line < q.line ∨ p.line = q.line ∧ p.character < q.character

section

variable {cs : List Char}

theorem after_append_of_not_mem (before : List Char) (h : '\n' ∉ cs) :
    (after (before ++ cs)).line = (after before).line ∧
      (after (before ++ cs)).character = (after before).character + cs.length := by
  rw [after_eq, after_eq]
  constructor
  · show (before ++ cs).count '\n' = before.count '\n'
    rw [List.count_append, List.count_eq_zero.2 h, Nat.add_zero]
  · show (lineHead (before ++ cs)).length = (lineHead before).length + cs.length
    rw [lineHead_append_of_not_mem before h, List.length_append]

theorem line_after_lt (before : List Char) (h : '\n' ∈ cs) :
    (after before).line < (after (before ++ cs)).line := by
  rw [after_eq, after_eq]
  show before.count '\n' < (before ++ cs).count '\n'
  have hpos := List.count_pos_iff.2 h
  rw [List.count_append]
  omega

end

theorem after_le_after {cs ds : List Char} (h : cs <+: ds) : after cs ≤ after ds := by
  obtain ⟨rest, rfl⟩ := h
  by_cases hrest : '\n' ∈ rest
  · exact .inl (line_after_lt cs hrest)
  · obtain ⟨hline, hcharacter⟩ := after_append_of_not_mem cs hrest
    refine .inr ⟨hline.symm, ?_⟩
    rw [hcharacter]
    exact Nat.le_add_right _ _

theorem ofOffset_le_ofOffset {m n : Nat} (h : m ≤ n) (src : String) :
    ofOffset src m ≤ ofOffset src n :=
  after_le_after (takeBytes_mono h src.toList)

/-- A position of a text: that of an offset from the start to the end of it. -/
def IsIn (p : Position) (src : String) : Prop :=
  ∃ offset, offset ≤ byteLength src.toList ∧ p = ofOffset src offset

/-- There is such a line, and it is long enough. -/
def FitsLine (p : Position) (src : String) : Prop :=
  ∃ line, (src.toList.splitOn '\n')[p.line]? = some line ∧ p.character ≤ line.length

theorem isIn_iff {p : Position} {src : String} :
    p.IsIn src ↔ ∃ before, before <+: src.toList ∧ p = after before := by
  constructor
  · rintro ⟨offset, -, rfl⟩
    exact ⟨_, takeBytes_prefix offset src.toList, rfl⟩
  · rintro ⟨before, ⟨rest, h⟩, rfl⟩
    refine ⟨byteLength before, ?_, (ofOffset_byteLength h.symm).symm⟩
    rw [← h, byteLength_append]
    exact Nat.le_add_right _ _

theorem isIn_ofOffset (src : String) (offset : Nat) : (ofOffset src offset).IsIn src :=
  isIn_iff.2 ⟨_, takeBytes_prefix offset src.toList, rfl⟩

theorem IsIn.fitsLine {p : Position} {src : String} (h : p.IsIn src) : p.FitsLine src := by
  obtain ⟨before, ⟨rest, hsrc⟩, rfl⟩ := isIn_iff.1 h
  refine ⟨lineHead before ++ lineTail rest, ?_, ?_⟩
  · rw [← hsrc, after_eq]
    exact getElem?_splitOn before rest
  · rw [after_eq, List.length_append]
    exact Nat.le_add_right _ _

end Position

theorem exists_lineHead (cs : List Char) :
    ∃ before, cs = before ++ lineHead cs ∧ Position.after before = ⟨cs.count '\n', 0⟩ := by
  induction cs using List.reverseRecOn with
  | nil => exact ⟨[], rfl, rfl⟩
  | append_singleton cs c ih =>
    rw [lineHead_concat]
    by_cases hc : c = '\n'
    · refine ⟨cs ++ [c], by rw [if_pos hc, List.append_nil], ?_⟩
      rw [Position.after_eq, lineHead_concat, if_pos hc]
      rfl
    · obtain ⟨before, hcs, hafter⟩ := ih
      refine ⟨before, ?_, by rw [hafter, count_newline_concat hc]⟩
      rw [if_neg hc, ← List.append_assoc, ← hcs]

end TriadLang
