import TriadLang.Editor.Hover
import TriadLang.Proofs.Source.Lines
import TriadLang.Proofs.Token.Cut

namespace TriadLang

theorem line_eq_getD (n : Nat) (cs : List Char) : line n cs = (cs.splitOn '\n')[n]?.getD [] := by
  induction n generalizing cs with
  | zero =>
    rw [getElem?_zero_splitOn]
    rfl
  | succ n ih =>
    have hparts := lineTail_append_dropWhile cs
    have hcount : (lineTail cs).count '\n' = 0 := List.count_eq_zero.2 (not_mem_lineTail cs)
    rw [line]
    cases hrest : cs.dropWhile (· != '\n') with
    | nil =>
      rw [hrest, List.append_nil] at hparts
      have hlength := length_splitOn cs
      rw [← hparts, hcount] at hlength
      rw [← hparts, List.getElem?_eq_none (by omega)]
      rfl
    | cons d rest =>
      have hd : d = '\n' := by
        have hhalts := halts_dropWhile (· != '\n') cs
        rw [hrest, halts_cons] at hhalts
        simpa using hhalts
      have hlength := length_splitOn (lineTail cs)
      rw [hrest, hd] at hparts
      conv_rhs => rw [← hparts, List.splitOn_append_cons_self]
      rw [List.getElem?_append_right (by omega), hlength, hcount]
      exact ih rest

theorem line_append (before rest : List Char) :
    line (before.count '\n') (before ++ rest) = lineHead before ++ lineTail rest := by
  rw [line_eq_getD, getElem?_splitOn]
  rfl

/-- No run of `p` goes on behind a text. -/
def HaltsBehind (p : Char → Bool) (before : List Char) : Prop :=
  ∀ c ∈ before.getLast?, p c = false

section

variable {p : Char → Bool} {before cs ds : List Char}

theorem haltsBehind_concat {c : Char} : HaltsBehind p (before ++ [c]) ↔ p c = false := by
  rw [HaltsBehind, List.getLast?_concat]
  simp

theorem haltsBehind_append (hne : ds ≠ []) : HaltsBehind p (cs ++ ds) ↔ HaltsBehind p ds := by
  obtain ⟨front, c, rfl⟩ := (List.eq_nil_or_concat ds).resolve_left hne
  rw [List.concat_eq_append, ← List.append_assoc, haltsBehind_concat, haltsBehind_concat]

theorem HaltsBehind.of_append (h : HaltsBehind p (cs ++ ds)) : HaltsBehind p ds := by
  intro c hc
  refine h c ?_
  rw [List.getLast?_append, hc]
  rfl

theorem HaltsBehind.eq_nil (h : HaltsBehind p before) (hpre : before <+: cs)
    (hcs : ∀ c ∈ cs, p c) : before = [] := by
  rcases List.eq_nil_or_concat before with hnil | ⟨front, c, rfl⟩
  · exact hnil
  · rw [List.concat_eq_append] at h hpre
    have hlast := haltsBehind_concat.1 h
    rw [hcs c (hpre.subset (by simp))] at hlast
    cases hlast

end

/-- The characters `cs` make a word, and it is not a part of a longer one. -/
structure IsRun (before cs after : List Char) : Prop where
  ne_nil : cs ≠ []
  word : ∀ c ∈ cs, isWordChar c
  starts : HaltsBehind isWordChar before
  ends : Halts isWordChar after

namespace IsRun

variable {before before' cs cs' after after' : List Char}

theorem exists_cons (h : IsRun before cs after) : ∃ c rest, cs = c :: rest ∧ isWordChar c := by
  obtain ⟨c, rest, rfl⟩ := List.exists_cons_of_ne_nil h.ne_nil
  exact ⟨c, rest, rfl, h.word c List.mem_cons_self⟩

theorem ne_nil_of_halts (h : IsRun before cs after)
    (hhalts : Halts isWordChar (before ++ (cs ++ after))) : before ≠ [] := by
  rintro rfl
  obtain ⟨c, rest, rfl, hc⟩ := h.exists_cons
  rw [List.nil_append, List.cons_append, halts_cons, hc] at hhalts
  cases hhalts

theorem unique (h : IsRun before cs after) (h' : IsRun before' cs' after')
    (heq : cs ++ after = cs' ++ after') : cs = cs' := by
  rw [← takeWhile_append_of_halts h.word h.ends, heq,
    takeWhile_append_of_halts h'.word h'.ends]

end IsRun

namespace Word

variable {w v : Word} {column : Nat} {cs rest line : List Char}

/-- The word is a longest run of word characters in a line, where `column` is the column of
the first character of the line. -/
def StandsIn (w : Word) (column : Nat) (line : List Char) : Prop :=
  ∃ before after, line = before ++ (w.chars ++ after) ∧ w.column = column + before.length ∧
    IsRun before w.chars after

theorem not_standsIn_nil : ¬ w.StandsIn column [] := by
  rintro ⟨before, after, hnil, -, hrun⟩
  exact hrun.ne_nil (List.append_eq_nil_iff.1 (List.append_eq_nil_iff.1 hnil.symm).2).1

/-- Behind a character that is in no word the same words follow. -/
theorem standsIn_cons {c : Char} (hc : isWordChar c = false) :
    w.StandsIn column (c :: cs) ↔ w.StandsIn (column + 1) cs := by
  constructor
  · rintro ⟨before, after, hcs, hcolumn, hrun⟩
    have hne := hrun.ne_nil_of_halts (hcs ▸ halts_cons.2 hc)
    obtain ⟨d, before, rfl⟩ := List.exists_cons_of_ne_nil hne
    obtain ⟨rfl, rfl⟩ := List.cons_eq_cons.1 hcs
    have hstarts : HaltsBehind isWordChar ([c] ++ before) := hrun.starts
    refine ⟨before, after, rfl, ?_, hrun.ne_nil, hrun.word, hstarts.of_append, hrun.ends⟩
    rw [hcolumn, List.length_cons]
    omega
  · rintro ⟨before, after, rfl, hcolumn, hrun⟩
    refine ⟨c :: before, after, rfl, ?_, hrun.ne_nil, hrun.word, ?_, hrun.ends⟩
    · rw [hcolumn, List.length_cons]
      omega
    · show HaltsBehind isWordChar ([c] ++ before)
      by_cases hne : before = []
      · have hhalts : HaltsBehind isWordChar ([] ++ [c]) := haltsBehind_concat.2 hc
        rw [hne]
        exact hhalts
      · rw [haltsBehind_append hne]
        exact hrun.starts

/-- A run at the front of a line is its first word, and the others follow it. -/
theorem standsIn_append (hrun : IsRun [] cs rest) :
    w.StandsIn column (cs ++ rest) ↔
      w = ⟨column, cs⟩ ∨ w.StandsIn (column + cs.length) rest := by
  constructor
  · rintro ⟨before, after, hline, hcolumn, hw⟩
    rcases List.append_eq_append_iff.1 hline with ⟨ds, rfl, hrest⟩ | ⟨ds, hchars, -⟩
    · refine .inr ⟨ds, after, hrest, ?_, hw.ne_nil, hw.word, hw.starts.of_append, hw.ends⟩
      rw [hcolumn, List.length_append]
      omega
    · -- the word begins inside of the run, so at its front
      obtain rfl : before = [] := hw.starts.eq_nil ⟨ds, hchars.symm⟩ hrun.word
      have hsame : w.chars = cs := hw.unique hrun hline.symm
      obtain ⟨wcolumn, wchars⟩ := w
      exact .inl (congrArg₂ Word.mk hcolumn hsame)
  · rintro (rfl | ⟨before, after, rfl, hcolumn, hw⟩)
    · exact ⟨[], rest, rfl, rfl, hrun⟩
    · have hne := hw.ne_nil_of_halts hrun.ends
      refine ⟨cs ++ before, after, (List.append_assoc ..).symm, ?_, hw.ne_nil, hw.word,
        (haltsBehind_append hne).2 hw.starts, hw.ends⟩
      rw [hcolumn, List.length_append]
      omega

theorem mem_ofLine_iff : w ∈ ofLine column cs ↔ w.StandsIn column cs := by
  fun_induction ofLine column cs with
  | case1 column => exact iff_of_false List.not_mem_nil not_standsIn_nil
  | case2 column c cs hc first ih =>
    have hparts : first.chars ++ cs.dropWhile isWordChar = c :: cs :=
      congrArg (c :: ·) List.takeWhile_append_dropWhile
    have hfirst : IsRun [] first.chars (cs.dropWhile isWordChar) := by
      refine ⟨List.cons_ne_nil _ _, List.forall_mem_cons.2 ⟨hc, forall_mem_takeWhile _ cs⟩, ?_,
        halts_dropWhile _ cs⟩
      intro d hd
      cases hd
    rw [List.mem_cons, ih, ← hparts, standsIn_append hfirst]
    rfl
  | case3 column c cs hc ih => rw [ih, standsIn_cons (by simpa using hc)]

theorem StandsIn.eq_of_le (hw : w.StandsIn column line) (hv : v.StandsIn column line)
    (hlo : w.column ≤ v.column) (hhi : v.column ≤ w.stop) : w = v := by
  obtain ⟨before, after, hline, hcolumn, hrun⟩ := hw
  obtain ⟨before', after', hline', hcolumn', hrun'⟩ := hv
  obtain ⟨ds, rfl⟩ : before <+: before' :=
    List.prefix_of_prefix_length_le ⟨_, hline.symm⟩ ⟨_, hline'.symm⟩ (by omega)
  have hrest : w.chars ++ after = ds ++ (v.chars ++ after') := by
    rw [hline, List.append_assoc] at hline'
    exact List.append_cancel_left hline'
  rw [stop, hcolumn, hcolumn', List.length_append] at hhi
  have hpre : ds <+: w.chars :=
    List.prefix_of_prefix_length_le ⟨_, hrest.symm⟩ (List.prefix_append _ _) (by omega)
  obtain rfl : ds = [] := hrun'.starts.of_append.eq_nil hpre hrun.word
  have hchars : w.chars = v.chars := hrun.unique hrun' hrest
  obtain ⟨wcolumn, wchars⟩ := w
  obtain ⟨vcolumn, vchars⟩ := v
  rw [List.append_nil] at hcolumn'
  exact congrArg₂ Word.mk (hcolumn.trans hcolumn'.symm) hchars

/-- Two words of a line that touch one column are one word. -/
theorem StandsIn.eq_of_touches {touched : Nat} (hw : w.StandsIn column line)
    (hv : v.StandsIn column line) (htw : w.touches touched) (htv : v.touches touched) :
    w = v := by
  rw [touches, Bool.and_eq_true, decide_eq_true_eq, decide_eq_true_eq] at htw htv
  rcases Nat.le_total w.column v.column with hle | hle
  · exact hw.eq_of_le hv hle (Nat.le_trans htv.1 htw.2)
  · exact (hv.eq_of_le hw hle (Nat.le_trans htw.1 htv.2)).symm

end Word

theorem wordAt_of_standsIn {src : String} {l column : Nat} {w : Word}
    (h : w.StandsIn 0 (line l src.toList)) (ht : w.touches column) :
    wordAt src ⟨l, column⟩ = some (String.ofList w.chars) := by
  have hmem := Word.mem_ofLine_iff.2 h
  rw [wordAt]
  show ((Word.ofLine 0 (line l src.toList)).find? (·.touches column)).map _ = _
  cases hfind : (Word.ofLine 0 (line l src.toList)).find? (·.touches column) with
  | none => exact absurd ht (List.find?_eq_none.1 hfind w hmem)
  | some v =>
    have hv := Word.mem_ofLine_iff.1 (List.mem_of_find?_eq_some hfind)
    have htv : v.touches column := by simpa using List.find?_some hfind
    rw [hv.eq_of_touches h htv ht]
    rfl

end TriadLang
