import Mathlib.Data.List.Induction
import Mathlib.Data.List.TakeWhile
import TriadLang.Proofs.Source.Slices
import TriadLang.Report

namespace TriadLang

theorem lineHead_concat (cs : List Char) (c : Char) :
    lineHead (cs ++ [c]) = if c = '\n' then [] else lineHead cs ++ [c] := by
  rw [lineHead, List.reverse_append, List.reverse_singleton, List.singleton_append,
    List.takeWhile_cons]
  by_cases hc : c = '\n'
  · rw [if_pos hc, hc]
    rfl
  · rw [if_neg hc, if_pos (by simpa using hc), List.reverse_cons]
    rfl

theorem not_mem_lineTail (cs : List Char) : '\n' ∉ lineTail cs := by
  intro hmem
  have h := List.all_eq_true.1 List.all_takeWhile '\n' hmem
  exact absurd h (by decide)

theorem not_mem_lineHead (cs : List Char) : '\n' ∉ lineHead cs := by
  rw [lineHead, List.mem_reverse]
  exact not_mem_lineTail cs.reverse

theorem lineTail_cons (c : Char) (cs : List Char) :
    lineTail (c :: cs) = if c = '\n' then [] else c :: lineTail cs := by
  rw [lineTail, List.takeWhile_cons]
  by_cases hc : c = '\n'
  · rw [if_pos hc, hc]
    rfl
  · rw [if_neg hc, if_pos (by simpa using hc)]
    rfl

theorem lineTail_append_dropWhile (cs : List Char) :
    lineTail cs ++ cs.dropWhile (· != '\n') = cs :=
  List.takeWhile_append_dropWhile

theorem lineTail_append (cs rest : List Char) :
    lineTail (cs ++ rest) = lineTail cs ++ if '\n' ∈ cs then [] else lineTail rest := by
  induction cs with
  | nil => rfl
  | cons c cs ih =>
    rw [List.cons_append, lineTail_cons, lineTail_cons, ih]
    by_cases hc : c = '\n'
    · rw [if_pos hc, if_pos hc, if_pos (by rw [hc]; exact List.mem_cons_self)]
      rfl
    · have hmem : '\n' ∈ c :: cs ↔ '\n' ∈ cs := by
        rw [List.mem_cons]
        exact or_iff_right (Ne.symm hc)
      simp only [if_neg hc, hmem, List.cons_append]

theorem lineTail_of_not_mem {cs : List Char} (h : '\n' ∉ cs) : lineTail cs = cs := by
  have hall : ∀ c ∈ cs, c != '\n' := by
    intro c hc
    have hne : c ≠ '\n' := fun heq => h (heq ▸ hc)
    simpa using hne
  exact List.takeWhile_eq_self_iff.2 hall

theorem lineHead_append_of_not_mem {cs : List Char} (before : List Char) (h : '\n' ∉ cs) :
    lineHead (before ++ cs) = lineHead before ++ cs := by
  have hrev : '\n' ∉ cs.reverse := by rwa [List.mem_reverse]
  have htail := lineTail_append cs.reverse before.reverse
  rw [lineTail_of_not_mem hrev, if_neg hrev, ← List.reverse_append] at htail
  show (lineTail (before ++ cs).reverse).reverse = _
  rw [htail, List.reverse_append, List.reverse_reverse]
  rfl

theorem count_newline_concat {c : Char} (hc : c ≠ '\n') (cs : List Char) :
    (cs ++ [c]).count '\n' = cs.count '\n' := by
  rw [List.count_append, List.count_singleton, if_neg (by simpa using hc), Nat.add_zero]

theorem length_splitOn (cs : List Char) : (cs.splitOn '\n').length = cs.count '\n' + 1 := by
  induction cs with
  | nil => rfl
  | cons c cs ih =>
    rw [List.splitOn_cons_eq_if_modifyHead, List.count_cons]
    by_cases hc : c = '\n'
    · rw [if_pos (by rw [hc]; decide), if_pos (by rw [hc]; decide), List.length_cons, ih]
    · rw [if_neg (by simpa using hc), if_neg (by simpa using hc), List.length_modifyHead, ih]

theorem getElem?_zero_splitOn (cs : List Char) : (cs.splitOn '\n')[0]? = some (lineTail cs) := by
  induction cs with
  | nil => rfl
  | cons c cs ih =>
    rw [List.splitOn_cons_eq_if_modifyHead, lineTail_cons]
    by_cases hc : c = '\n'
    · rw [if_pos (by rw [hc]; decide), if_pos hc]
      rfl
    · rw [if_neg (by simpa using hc), if_neg hc]
      cases hl : cs.splitOn '\n' with
      | nil => exact absurd hl (List.splitOn_ne_nil _ _)
      | cons line lines =>
        rw [hl] at ih
        obtain rfl : line = lineTail cs := by simpa using ih
        rfl

theorem getElem?_splitOn (before rest : List Char) :
    ((before ++ rest).splitOn '\n')[before.count '\n']? =
      some (lineHead before ++ lineTail rest) := by
  induction before using List.reverseRecOn generalizing rest with
  | nil => exact getElem?_zero_splitOn rest
  | append_singleton before c ih =>
    rw [List.append_assoc, List.singleton_append, lineHead_concat]
    by_cases hc : c = '\n'
    · subst hc
      rw [List.count_append, List.splitOn_append_cons_self, if_pos rfl, List.nil_append,
        List.getElem?_append_right (by rw [length_splitOn]; simp), length_splitOn]
      simpa using getElem?_zero_splitOn rest
    · rw [count_newline_concat hc, ih, if_neg hc, lineTail_cons, if_neg hc, List.append_assoc]
      rfl

/-- The position of a place counts the newlines before it, and the characters since
the last one. -/
theorem Position.after_eq (cs : List Char) :
    Position.after cs = ⟨cs.count '\n', (lineHead cs).length⟩ := by
  induction cs using List.reverseRecOn with
  | nil => rfl
  | append_singleton cs c ih =>
    rw [Position.after_append, ih, lineHead_concat, List.count_append, List.count_singleton]
    show Position.advance _ c = _
    rw [Position.advance]
    by_cases hc : c = '\n'
    · rw [if_pos hc, if_pos hc, if_pos (by simpa using hc)]
      rfl
    · rw [if_neg hc, if_neg hc, if_neg (by simpa using hc), List.length_append]
      rfl

theorem takeBytes_append (before after : List Char) :
    takeBytes (byteLength before) (before ++ after) = before := by
  induction before with
  | nil =>
    cases after with
    | nil => rfl
    | cons c after =>
      have hc := c.utf8Size_pos
      rw [byteLength_nil, List.nil_append, takeBytes, if_neg (by omega)]
  | cons c before ih =>
    have hrest : byteLength (c :: before) - c.utf8Size = byteLength before := by
      rw [byteLength_cons]
      omega
    rw [List.cons_append, takeBytes, hrest, ih, if_pos]
    rw [byteLength_cons]
    omega

theorem Position.ofOffset_byteLength {src : String} {before after : List Char}
    (h : src.toList = before ++ after) :
    Position.ofOffset src (byteLength before) = Position.after before := by
  rw [Position.ofOffset, h, takeBytes_append]

theorem Span.onText_concat {s : Span} {before : List Char} {c : Char}
    (h : byteLength (before ++ [c]) ≤ s.lo) :
    s.onText (before ++ [c]) = ⟨byteLength before, byteLength before + c.utf8Size⟩ := by
  rw [onText, if_pos h, List.getLast?_concat, byteLength_append]
  show Span.mk (byteLength before + (c.utf8Size + 0) - c.utf8Size) _ = _
  rw [Nat.add_zero, Nat.add_sub_cancel]
  rfl

/-- The excerpt for the part `cs` of a text: the line on which it begins, with the part
marked as far as it is on that line. -/
def Excerpt.ofPart (before cs after : List Char) : Excerpt where
  position := ⟨before.count '\n', (lineHead before).length⟩
  line := lineHead before ++ lineTail (cs ++ after)
  indent := (lineHead before).length
  width := max 1 (lineTail cs).length

theorem Excerpt.ofSpan?_eq {src : String} {span : Span} {before cs after : List Char}
    (htext : src.toList = before ++ (cs ++ after))
    (hspan : span.onText src.toList = ⟨byteLength before, byteLength before + byteLength cs⟩) :
    Excerpt.ofSpan? src span = some (ofPart before cs after) := by
  have hmarked : ∃ rest, splitAtByte? (min (byteLength cs) (byteLength (lineTail (cs ++ after))))
      (lineTail (cs ++ after)) = some (lineTail cs, rest) := by
    refine ⟨if '\n' ∈ cs then [] else lineTail after, ?_⟩
    have hmin : min (byteLength cs) (byteLength (lineTail (cs ++ after))) =
        byteLength (lineTail cs) := by
      rw [lineTail_append, byteLength_append]
      by_cases hc : '\n' ∈ cs
      · have hle : byteLength (lineTail cs) ≤ byteLength cs := by
          conv_rhs => rw [← List.takeWhile_append_dropWhile (p := (· != '\n')) (l := cs)]
          rw [byteLength_append]
          exact Nat.le_add_right _ _
        rw [if_pos hc, byteLength_nil]
        omega
      · rw [lineTail_of_not_mem hc]
        omega
    rw [hmin, lineTail_append, splitAtByte?_append]
  obtain ⟨rest, hmarked⟩ := hmarked
  have hsub : byteLength before + byteLength cs - byteLength before = byteLength cs := by omega
  have hguard : byteLength before ≤ byteLength before + byteLength cs := by omega
  rw [Excerpt.ofSpan?, hspan, ofPart]
  simp only [htext, splitAtByte?_append, Option.bind_eq_bind, Option.bind_some, hsub, hmarked,
    guard, if_pos hguard, ← Position.after_eq, ← Position.ofOffset_byteLength htext]
  rfl

end TriadLang
