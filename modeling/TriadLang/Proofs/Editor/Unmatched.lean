import Mathlib.Data.List.Infix
import TriadLang.Proofs.Editor.Balance
import TriadLang.Proofs.Editor.Ranges

/-!
# Braces without a partner

Which closing braces find no partner can be said without matching any.  Count the closing
braces of each beginning of the text, less the opening ones: a brace is left over where
this excess gets higher than ever before, and higher than zero.  After each such brace the
count starts anew, so the number of braces that are open is what is missing to the highest
excess so far, and it is this that a step of the matching keeps up (`counted_step`).
-/

namespace TriadLang

/-- How many more closing braces there are than opening ones. -/
def excess (cs : List Char) : Int := cs.count '}' - cs.count '{'

/-- The larger of zero and the highest excess of a beginning of the text. -/
def peak (cs : List Char) : Int := (cs.inits.map excess).foldl max 0

/-- What is in front of each closing brace with which the excess is higher than ever
before, and higher than zero. -/
def unmatchedClosings (cs : List Char) : List (List Char) :=
  (List.range cs.length).filterMap fun i =>
    if cs[i]? = some '}' ∧ peak (cs.take i) < excess (cs.take (i + 1)) then some (cs.take i)
    else none

theorem excess_concat_open (cs : List Char) : excess (cs ++ ['{']) = excess cs - 1 := by
  simp [excess]
  omega

theorem excess_concat_close (cs : List Char) : excess (cs ++ ['}']) = excess cs + 1 := by
  simp [excess]
  omega

theorem excess_concat_other {c : Char} (ho : c ≠ '{') (hc : c ≠ '}') (cs : List Char) :
    excess (cs ++ [c]) = excess cs := by
  simp [excess, ho, hc]

theorem peak_concat (cs : List Char) (c : Char) :
    peak (cs ++ [c]) = max (peak cs) (excess (cs ++ [c])) := by
  simp [peak, List.inits_append]

theorem excess_le_peak (cs : List Char) : excess cs ≤ peak cs := by
  induction cs using List.reverseRecOn with
  | nil => exact Int.le_refl 0
  | append_singleton cs c _ =>
    rw [peak_concat]
    exact Int.le_max_right _ _

theorem unmatchedClosings_concat (cs : List Char) (c : Char) :
    unmatchedClosings (cs ++ [c]) =
      unmatchedClosings cs ++ if c = '}' ∧ peak cs < excess (cs ++ [c]) then [cs] else [] := by
  unfold unmatchedClosings
  rw [List.length_append, List.length_singleton, List.range_succ, List.filterMap_append]
  congr 1
  · refine List.filterMap_congr fun i hi => ?_
    have hlt := List.mem_range.1 hi
    rw [List.getElem?_append_left hlt, List.take_append_of_le_length (Nat.le_of_lt hlt),
      List.take_append_of_le_length hlt]
  · have hall : (cs ++ [c]).take (cs.length + 1) = cs ++ [c] :=
      List.take_of_length_le (by rw [List.length_append, List.length_singleton])
    simp only [List.filterMap_cons, List.filterMap_nil, List.getElem?_concat_length, hall,
      List.take_left, Option.some.injEq]
    by_cases hbrace : c = '}' ∧ peak cs < excess (cs ++ [c])
    · rw [if_pos hbrace, if_pos hbrace]
    · rw [if_neg hbrace, if_neg hbrace]

theorem unmatchedClosings_close (cs : List Char) :
    unmatchedClosings (cs ++ ['}']) =
      unmatchedClosings cs ++ if peak cs ≤ excess cs then [cs] else [] := by
  simp only [unmatchedClosings_concat, excess_concat_close, true_and, Int.lt_add_one_iff]

theorem unmatchedClosings_other {c : Char} (hc : c ≠ '}') (cs : List Char) :
    unmatchedClosings (cs ++ [c]) = unmatchedClosings cs := by
  rw [unmatchedClosings_concat, if_neg fun h => hc h.1, List.append_nil]

theorem length_unmatchedClosings (cs : List Char) :
    ((unmatchedClosings cs).length : Int) = peak cs := by
  induction cs using List.reverseRecOn with
  | nil => rfl
  | append_singleton cs c ih =>
    have hle := excess_le_peak cs
    rw [peak_concat]
    by_cases ho : c = '{'
    · rw [ho, unmatchedClosings_other (by decide), excess_concat_open]
      omega
    · by_cases hc : c = '}'
      · rw [hc, unmatchedClosings_close, excess_concat_close, List.length_append]
        split
        · rw [List.length_singleton]
          omega
        · rw [List.length_nil]
          omega
      · rw [unmatchedClosings_other hc, excess_concat_other ho hc]
        omega

/-- What is known of the braces when some characters have been matched: as many are open
as the excess is below the highest so far, and what was found are the closing braces that
are left over. -/
structure BraceMatch.Counted (m : BraceMatch) (done : List Char) : Prop
    extends m.Reached done where
  depth : (m.depth : Int) = peak done - excess done
  found_eq : m.found = ((unmatchedClosings done).map closingDiagnostic).reverse

namespace BraceMatch

variable {m : BraceMatch} {done : List Char}

theorem counted_open (h : m.Counted done) : (m.step '{').Counted (done ++ ['{']) := by
  have hdepth := h.depth
  have hle := excess_le_peak done
  refine ⟨reached_step h.toReached '{', ?_, ?_⟩
  · show ((m.depth + 1 : Nat) : Int) = _
    rw [peak_concat, excess_concat_open]
    omega
  · show m.found = _
    rw [unmatchedClosings_other (by decide), h.found_eq]

/-- No brace is open exactly where the excess is as high as ever. -/
theorem counted_close (h : m.Counted done) : (m.step '}').Counted (done ++ ['}']) := by
  have hreached := reached_step h.toReached '}'
  have hle := excess_le_peak done
  obtain ⟨position, depth, found⟩ := m
  have hposition : position = .after done := h.position
  have hdepth : (depth : Int) = peak done - excess done := h.depth
  have hfound : found = ((unmatchedClosings done).map closingDiagnostic).reverse := h.found_eq
  cases depth with
  | zero =>
    have hclosing : closingDiagnostic done =
        ⟨position, position.advance '}', "unmatched closing brace"⟩ := by
      rw [closingDiagnostic, Position.after_append, hposition]
      rfl
    refine ⟨hreached, ?_, ?_⟩
    · show ((0 : Nat) : Int) = _
      rw [peak_concat, excess_concat_close]
      omega
    · rw [unmatchedClosings_close, if_pos (by omega), List.map_append, List.reverse_append,
        ← hfound, List.map_singleton, hclosing]
      rfl
  | succ depth =>
    refine ⟨hreached, ?_, ?_⟩
    · show (depth : Int) = _
      rw [peak_concat, excess_concat_close]
      omega
    · show found = _
      rw [unmatchedClosings_close, if_neg (by omega), List.append_nil, hfound]

theorem counted_other {c : Char} (ho : c ≠ '{') (hc : c ≠ '}') (h : m.Counted done) :
    (m.step c).Counted (done ++ [c]) := by
  have hreached := reached_step h.toReached c
  have hdepth := h.depth
  have hle := excess_le_peak done
  rw [step_other ho hc] at hreached ⊢
  refine ⟨hreached, ?_, ?_⟩
  · show (m.depth : Int) = _
    rw [peak_concat, excess_concat_other ho hc]
    omega
  · show m.found = _
    rw [unmatchedClosings_other hc, h.found_eq]

theorem counted_step (h : m.Counted done) (c : Char) : (m.step c).Counted (done ++ [c]) := by
  by_cases ho : c = '{'
  · subst ho
    exact counted_open h
  · by_cases hc : c = '}'
    · subst hc
      exact counted_close h
    · exact counted_other ho hc h

theorem counted_foldl (h : m.Counted done) (cs : List Char) :
    (cs.foldl step m).Counted (done ++ cs) := by
  induction cs generalizing m done with
  | nil => rwa [List.append_nil]
  | cons c cs ih =>
    have hrest := ih (counted_step h c)
    rwa [List.append_assoc] at hrest

theorem counted_text (cs : List Char) : (cs.foldl step {}).Counted cs := by
  have hstart : Counted {} [] := ⟨⟨rfl, fun _ hd => absurd hd List.not_mem_nil⟩, rfl, rfl⟩
  exact counted_foldl hstart cs

end BraceMatch

theorem prefix_of_mem_unmatchedClosings {before cs : List Char}
    (h : before ∈ unmatchedClosings cs) : before ++ ['}'] <+: cs := by
  obtain ⟨i, hi, hbefore⟩ := List.mem_filterMap.1 h
  split at hbefore
  · next hbrace =>
    cases hbefore
    obtain ⟨hlt, hget⟩ := List.getElem?_eq_some_iff.1 hbrace.1
    rw [← hget, List.take_concat_get']
    exact List.take_prefix _ _
  · cases hbefore

theorem closingDiagnostic_eq {src : String} {before : List Char}
    (h : before ++ ['}'] <+: src.toList) :
    closingDiagnostic before =
        .ofSpan src ⟨byteLength before, byteLength before + 1⟩ "unmatched closing brace" ∧
      (closingDiagnostic before).stop = ⟨(closingDiagnostic before).start.line,
        (closingDiagnostic before).start.character + 1⟩ := by
  obtain ⟨after, hsrc⟩ := h
  have hlength : byteLength before + 1 = byteLength (before ++ ['}']) := by
    rw [byteLength_append]
    rfl
  constructor
  · rw [Diagnostic.ofSpan, hlength, Position.ofOffset_byteLength hsrc.symm]
    rw [List.append_assoc] at hsrc
    rw [Position.ofOffset_byteLength hsrc.symm]
    rfl
  · show Position.after (before ++ ['}']) = _
    rw [Position.after_append]
    rfl

/-- The diagnostics of the braces of a text.  There is one for each closing brace with
which the excess is higher than ever before and higher than zero, in the order of the
text, and it is about that one character; there are as many of them as the peak says.
Then there is one about opening braces, if with the peak there are more of them than
closing ones.  So there is none exactly if the braces are balanced. -/
theorem braceDiagnostics_eq (src : String) :
    braceDiagnostics src =
      (unmatchedClosings src.toList).map (fun before =>
          .ofSpan src ⟨byteLength before, byteLength before + 1⟩ "unmatched closing brace") ++
        (if (src.toList.count '}' : Int) < src.toList.count '{' + peak src.toList then
          [openingDiagnostic src] else []) ∧
    (∀ before ∈ unmatchedClosings src.toList, before ++ ['}'] <+: src.toList ∧
      Position.ofOffset src (byteLength before + 1) =
        ⟨(Position.ofOffset src (byteLength before)).line,
          (Position.ofOffset src (byteLength before)).character + 1⟩) ∧
    ((unmatchedClosings src.toList).length : Int) = peak src.toList ∧
    (braceDiagnostics src = [] ↔ Balanced src.toList) := by
  have hcounted := BraceMatch.counted_text src.toList
  refine ⟨?_, fun before hbefore => ?_, length_unmatchedClosings src.toList,
    braceDiagnostics_eq_nil_iff src⟩
  · have hclosings : (unmatchedClosings src.toList).map closingDiagnostic =
        (unmatchedClosings src.toList).map fun before =>
          .ofSpan src ⟨byteLength before, byteLength before + 1⟩ "unmatched closing brace" :=
      List.map_congr_left fun before hbefore =>
        (closingDiagnostic_eq (prefix_of_mem_unmatchedClosings hbefore)).1
    have hdepth := hcounted.depth
    unfold excess at hdepth
    rw [braceDiagnostics, BraceMatch.diagnostics, hcounted.found_eq, List.reverse_reverse,
      hclosings, hcounted.position, Position.after_eq]
    congr 1
    by_cases hopen : (src.toList.count '}' : Int) < src.toList.count '{' + peak src.toList
    · rw [if_pos hopen, if_neg (by omega)]
      rfl
    · rw [if_neg hopen, if_pos (by omega)]
  · have hpre := prefix_of_mem_unmatchedClosings hbefore
    obtain ⟨hspan, hstop⟩ := closingDiagnostic_eq hpre
    rw [hspan] at hstop
    exact ⟨hpre, hstop⟩

/-- The second closing brace has its partner, the third one has none. -/
example : unmatchedClosings "\x7d\x7b\x7d\x7d".toList = [[], "\x7d\x7b\x7d".toList] := by
  decide +kernel

end TriadLang
