import TriadLang.Proofs.Compilation.Culprit
import TriadLang.Proofs.Source.Lines

namespace TriadLang

/-- What a report about a span marks: the part `cs` of the text, which `before` and
`after` are around.  It is what the span selects, or the last character if the span is
at the end. -/
structure Span.Marks (s : Span) (text before cs after : List Char) : Prop where
  text_eq : text = before ++ (cs ++ after)
  ne_nil : cs ≠ []
  inside : s.lo < byteLength text → s.lo = byteLength before ∧ s.hi = s.lo + byteLength cs
  at_end : byteLength text ≤ s.lo → cs.length = 1 ∧ after = []

namespace Span

variable {s : Span} {text before cs after : List Char}

theorem Selects.exists_marks (h : s.Selects text cs) (hne : cs ≠ []) :
    ∃ before after, s.Marks text before cs after := by
  obtain ⟨before, after, htext, hlo, hhi⟩ := h
  refine ⟨before, after, htext, hne, fun _ => ⟨hlo, hhi⟩, fun hend => ?_⟩
  have hpos := byteLength_pos hne
  rw [htext, byteLength_append, byteLength_append] at hend
  omega

theorem exists_marks_of_end (hne : text ≠ []) :
    ∃ before c, Marks ⟨byteLength text, byteLength text⟩ text before [c] [] := by
  obtain ⟨before, c, rfl⟩ := (List.eq_nil_or_concat text).resolve_left hne
  refine ⟨before, c, List.concat_eq_append, List.cons_ne_nil _ _, fun hlt => ?_,
    fun _ => ⟨rfl, rfl⟩⟩
  exact absurd hlt (Nat.lt_irrefl _)

theorem Marks.onText (h : s.Marks text before cs after) :
    s.onText text = ⟨byteLength before, byteLength before + byteLength cs⟩ := by
  by_cases hend : byteLength text ≤ s.lo
  · obtain ⟨hlength, rfl⟩ := h.at_end hend
    obtain ⟨c, rfl⟩ := List.length_eq_one_iff.1 hlength
    have htext := h.text_eq
    rw [List.append_nil] at htext
    subst htext
    exact Span.onText_concat hend
  · obtain ⟨hlo, hhi⟩ := h.inside (Nat.lt_of_not_le hend)
    rw [Span.onText, if_neg hend, ← hlo, ← hhi]

end Span

theorem Excerpt.splitOn_render {e : Excerpt} {message : String} (hm : '\n' ∉ message.toList)
    (hl : '\n' ∉ e.line) :
    (e.render message).toList.splitOn '\n' =
      [("error: " ++ message).toList,
        (" --> " ++ toString (e.position.line + 1) ++ ":" ++
          toString (e.position.character + 1)).toList,
        e.line, List.replicate e.indent ' ' ++ List.replicate e.width '^'] := by
  have hlines : (e.render message).toList = List.intercalate ['\n']
      [("error: " ++ message).toList,
        (" --> " ++ toString (e.position.line + 1) ++ ":" ++
          toString (e.position.character + 1)).toList,
        e.line, List.replicate e.indent ' ' ++ List.replicate e.width '^'] := by
    have hnewline : "\n".toList = ['\n'] := rfl
    have harrow : "\n --> ".toList = '\n' :: " --> ".toList := by decide +kernel
    show ("error: " ++ message ++ "\n --> " ++ toString (e.position.line + 1) ++ ":" ++
      toString (e.position.character + 1) ++ "\n" ++ String.ofList e.line ++ "\n" ++
      String.ofList (List.replicate e.indent ' ' ++ List.replicate e.width '^')).toList = _
    simp only [String.toList_append, String.toList_ofList, hnewline, harrow,
      List.intercalate_cons_cons, List.intercalate_singleton, List.append_assoc, List.cons_append,
      List.nil_append]
  rw [hlines, List.splitOn_intercalate]
  · intro line hline
    simp only [List.mem_cons, List.not_mem_nil, or_false] at hline
    rcases hline with rfl | rfl | rfl | rfl
    · exact not_mem_append (by decide) hm
    · exact not_mem_append (not_mem_append (not_mem_append (by decide) (not_mem_toString _))
        (by decide)) (not_mem_toString _)
    · exact hl
    · intro hmem
      rcases List.mem_append.1 hmem with hmem | hmem
      · exact absurd (List.eq_of_mem_replicate hmem) (by decide)
      · exact absurd (List.eq_of_mem_replicate hmem) (by decide)
  · exact List.cons_ne_nil _ _

theorem ne_nil_of_compile_eq_error {src : String} {fault : Fault}
    (h : (compile src).result = .error fault) : src.toList ≠ [] := by
  intro hnil
  have hsrc : src = "" := String.toList_eq_nil_iff.1 hnil
  have hempty : (compile "").result = .ok "" := ok_of_toOption (by decide +kernel)
  rw [hsrc, hempty] at h
  cases h

/-- What a fault points at can be marked, if there is any text. -/
theorem Fault.PointsInto.exists_marks {text : List Char} {fault : Fault} {span : Span}
    (h : fault.PointsInto text span) (hne : text ≠ []) :
    ∃ before cs after, span.Marks text before cs after := by
  rcases h.place with ⟨cs, hcs, hselects⟩ | rfl
  · obtain ⟨before, after, hmarks⟩ := hselects.exists_marks hcs
    exact ⟨before, cs, after, hmarks⟩
  · obtain ⟨before, c, hmarks⟩ := Span.exists_marks_of_end hne
    exact ⟨before, [c], [], hmarks⟩

theorem Fault.render_of_marks {src : String} {fault : Fault} {span : Span}
    {before cs after : List Char} (hspan : fault.span? = some span)
    (h : span.Marks src.toList before cs after) :
    fault.render src = some ((Excerpt.ofPart before cs after).render fault.message) := by
  have hne : src.toList ≠ [] := by
    rw [h.text_eq]
    exact List.append_ne_nil_of_right_ne_nil _ (List.append_ne_nil_of_left_ne_nil h.ne_nil _)
  have hempty : src.isEmpty = false := by simpa using hne
  rw [Fault.render, hspan]
  dsimp only
  rw [report, hempty, Excerpt.ofSpan?_eq h.text_eq h.onText]
  rfl

/-- The fault that ends a compilation is shown in four lines: the message; the line
and the column, from one on, of the first character that is marked; the line of the
text that this character is on; and as many carets under it as characters are marked
on that line, but one at least. -/
theorem render_of_compile_eq_error {src : String} {fault : Fault}
    (h : (compile src).result = .error fault) :
    ∃ span before cs after text, fault.span? = some span ∧
      span.Marks src.toList before cs after ∧ fault.render src = some text ∧
      (src.toList.splitOn '\n')[before.count '\n']? =
        some (lineHead before ++ lineTail (cs ++ after)) ∧
      text.toList.splitOn '\n' =
        [("error: " ++ fault.message).toList,
          (" --> " ++ toString (before.count '\n' + 1) ++ ":" ++
            toString ((lineHead before).length + 1)).toList,
          lineHead before ++ lineTail (cs ++ after),
          List.replicate (lineHead before).length ' ' ++
            List.replicate (max 1 (lineTail cs).length) '^'] ∧
      (lineHead before).length + max 1 (lineTail cs).length ≤
        (lineHead before ++ lineTail (cs ++ after)).length + 1 := by
  obtain ⟨span, hpoints⟩ := pointsInto_of_compile_eq_error h
  obtain ⟨before, cs, after, hmarks⟩ := hpoints.exists_marks (ne_nil_of_compile_eq_error h)
  have hline : '\n' ∉ (Excerpt.ofPart before cs after).line := by
    rw [Excerpt.ofPart, List.mem_append, not_or]
    exact ⟨not_mem_lineHead before, not_mem_lineTail _⟩
  have hshown := getElem?_splitOn before (cs ++ after)
  rw [← hmarks.text_eq] at hshown
  refine ⟨span, before, cs, after, _, hpoints.span?, hmarks,
    Fault.render_of_marks hpoints.span? hmarks, hshown,
    Excerpt.splitOn_render hpoints.message hline, ?_⟩
  rw [lineTail_append, List.length_append, List.length_append]
  omega

/-- A string that goes on over several lines is marked on its first one. -/
theorem render_of_compile_eq_error_open_string :
    ∃ fault, (compile " \"é\nx\"").result = .error fault ∧
      fault.render " \"é\nx\"" =
        some "error: expected declaration, found string\n --> 1:2\n \"é\n ^^" ∧
      ∃ before cs after, Span.Marks ⟨1, 7⟩ " \"é\nx\"".toList before cs after := by
  have h : (compile " \"é\nx\"").result =
      .error (.parse (.unexpected .declaration .text ⟨1, 7⟩)) :=
    error_of_match (by decide +kernel)
  obtain ⟨span, before, cs, after, text, hspan, hmarks, -⟩ := render_of_compile_eq_error h
  cases hspan
  exact ⟨_, h, by decide +kernel, before, cs, after, hmarks⟩

end TriadLang
