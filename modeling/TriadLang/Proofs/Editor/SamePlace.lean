import TriadLang.Editor.CompileDiagnostics
import TriadLang.Proofs.Compilation.Rendering
import TriadLang.Proofs.Source.Positions

namespace TriadLang

/-- The lines of a report: the message, a position, and under the line that it is on as
many carets as are said, from that position on. -/
def reportLines (message : String) (position : Position) (line : List Char) (width : Nat) :
    List (List Char) :=
  [("error: " ++ message).toList,
    (" --> " ++ toString (position.line + 1) ++ ":" ++ toString (position.character + 1)).toList,
    line, List.replicate position.character ' ' ++ List.replicate width '^']

section

variable {src : String} {before cs after : List Char}

theorem Excerpt.width_ofPart (hne : cs ≠ []) (hhead : cs.head? ≠ some '\n') :
    (ofPart before cs after).width = (lineTail cs).length := by
  cases cs with
  | nil => exact absurd rfl hne
  | cons c cs =>
    have hc : c ≠ '\n' := by simpa using hhead
    rw [ofPart, lineTail_cons, if_neg hc, List.length_cons]
    show max 1 _ = _
    omega

/-- The carets under a part, counted by the positions of its two ends. -/
theorem Excerpt.stop_ofPart (hne : cs ≠ []) (hhead : cs.head? ≠ some '\n') :
    if (Position.after (before ++ cs)).line = (Position.after before).line then
      (Position.after before).character + (ofPart before cs after).width =
        (Position.after (before ++ cs)).character
    else
      (Position.after before).character + (ofPart before cs after).width =
        (ofPart before cs after).line.length := by
  rw [Excerpt.width_ofPart hne hhead]
  by_cases hcs : '\n' ∈ cs
  · have hlt := Position.line_after_lt before hcs
    rw [if_neg (Nat.ne_of_gt hlt), Position.after_eq, ofPart]
    show (lineHead before).length + _ = (lineHead before ++ lineTail (cs ++ after)).length
    rw [List.length_append, lineTail_append, if_pos hcs, List.append_nil]
  · obtain ⟨hline, hcharacter⟩ := Position.after_append_of_not_mem before hcs
    rw [if_pos hline, hcharacter, lineTail_of_not_mem hcs]

end

theorem Fault.splitOn_render_of_marks {src : String} {fault : Fault} {span : Span}
    {before cs after : List Char} (hmessage : '\n' ∉ fault.message.toList)
    (hspan : fault.span? = some span) (h : span.Marks src.toList before cs after) :
    ∃ text line, fault.render src = some text ∧
      line = (Excerpt.ofPart before cs after).line ∧
      (src.toList.splitOn '\n')[(Position.after before).line]? = some line ∧
      text.toList.splitOn '\n' = reportLines fault.message (Position.after before) line
        (Excerpt.ofPart before cs after).width := by
  have hline : '\n' ∉ (Excerpt.ofPart before cs after).line := by
    rw [Excerpt.ofPart, List.mem_append, not_or]
    exact ⟨not_mem_lineHead before, not_mem_lineTail _⟩
  have hshown := getElem?_splitOn before (cs ++ after)
  rw [← h.text_eq] at hshown
  refine ⟨_, _, Fault.render_of_marks hspan h, rfl, ?_, ?_⟩
  · rw [Position.after_eq]
    exact hshown
  · rw [Excerpt.splitOn_render hmessage hline, Position.after_eq]
    rfl

/-- A text whose braces match, but which does not compile.  There is one diagnostic, with
the message of the fault.  If the fault is found before the end of the text, the report
shows the position at which the diagnostic begins, and its carets go from there to where
the diagnostic ends, or to the end of the line if that is on a later one.  If it is found
at the end, the diagnostic is empty and stands there, and the report has one caret under
the last character. -/
theorem compileDiagnostics_of_compile_eq_error {src : String} {fault : Fault}
    (hb : braceDiagnostics src = []) (h : (compile src).result = .error fault) :
    ∃ span d text, fault.span? = some span ∧ compileDiagnostics src = [d] ∧
      d.message = fault.message ∧ fault.render src = some text ∧
      (span.lo < byteLength src.toList → ∃ line width,
        (src.toList.splitOn '\n')[d.start.line]? = some line ∧
        text.toList.splitOn '\n' = reportLines fault.message d.start line width ∧
        if d.stop.line = d.start.line then d.start.character + width = d.stop.character
        else d.start.character + width = line.length) ∧
      (byteLength src.toList ≤ span.lo →
        span = ⟨byteLength src.toList, byteLength src.toList⟩ ∧
        d.start = .ofOffset src (byteLength src.toList) ∧ d.stop = d.start ∧
        ∃ before c line, src.toList = before ++ [c] ∧
          (src.toList.splitOn '\n')[(Position.after before).line]? = some line ∧
          text.toList.splitOn '\n' =
            reportLines fault.message (Position.after before) line 1) := by
  obtain ⟨span, hpoints⟩ := pointsInto_of_compile_eq_error h
  have hdiagnostics : compileDiagnostics src = [.ofSpan src span fault.message] := by
    simp only [compileDiagnostics, hb, h, Fault.diagnostic, hpoints.span?, Option.getD_some]
  rcases hpoints.place with ⟨cs, hne, before, after, htext, hlo, hhi⟩ | hend
  · have hselects : span.Selects src.toList cs := ⟨before, after, htext, hlo, hhi⟩
    have hhead := head?_ne_of_compile_eq_error h hpoints.span? hselects
    have hinside : span.lo < byteLength src.toList := by
      have hpos := byteLength_pos hne
      rw [htext, byteLength_append, byteLength_append]
      omega
    have hmarks : span.Marks src.toList before cs after :=
      ⟨htext, hne, fun _ => ⟨hlo, hhi⟩, fun hle => absurd hinside (Nat.not_lt.2 hle)⟩
    obtain ⟨text, line, hrender, rfl, hshown, hlines⟩ :=
      Fault.splitOn_render_of_marks hpoints.message hpoints.span? hmarks
    have hstart : (Diagnostic.ofSpan src span fault.message).start = Position.after before := by
      show Position.ofOffset src span.lo = _
      rw [hlo, Position.ofOffset_byteLength htext]
    have hstop : (Diagnostic.ofSpan src span fault.message).stop =
        Position.after (before ++ cs) := by
      show Position.ofOffset src span.hi = _
      rw [hhi, hlo, ← byteLength_append]
      exact Position.ofOffset_byteLength (by rw [htext, List.append_assoc])
    refine ⟨span, _, text, hpoints.span?, hdiagnostics, rfl, hrender, fun _ => ?_,
      fun hle => absurd hinside (Nat.not_lt.2 hle)⟩
    rw [hstart, hstop]
    exact ⟨_, _, hshown, hlines, Excerpt.stop_ofPart hne hhead⟩
  · subst hend
    obtain ⟨before, c, hmarks⟩ := Span.exists_marks_of_end (ne_nil_of_compile_eq_error h)
    obtain ⟨text, line, hrender, rfl, hshown, hlines⟩ :=
      Fault.splitOn_render_of_marks hpoints.message hpoints.span? hmarks
    have hwidth : (Excerpt.ofPart before [c] []).width = 1 := by
      show max 1 (lineTail [c]).length = 1
      rw [lineTail_cons]
      split <;> rfl
    rw [hwidth] at hlines
    refine ⟨_, _, text, hpoints.span?, hdiagnostics, rfl, hrender,
      fun hlt => absurd hlt (Nat.lt_irrefl _), fun _ => ⟨rfl, rfl, rfl, before, c, _, ?_, hshown,
        hlines⟩⟩
    exact hmarks.text_eq

/-- A string that is not closed on its line ends on the next one, and the carets stop
where the line does. -/
theorem compileDiagnostics_open_string :
    ∃ fault text, (compile "\n \"é\nx\"").result = .error fault ∧
      compileDiagnostics "\n \"é\nx\"" = [⟨⟨1, 1⟩, ⟨2, 2⟩, fault.message⟩] ∧
      fault.render "\n \"é\nx\"" = some text ∧
      text.toList.splitOn '\n' = reportLines fault.message ⟨1, 1⟩ " \"é".toList 2 := by
  have h : (compile "\n \"é\nx\"").result =
      .error (.parse (.unexpected .declaration .text ⟨2, 8⟩)) :=
    error_of_match (by decide +kernel)
  have hd : compileDiagnostics "\n \"é\nx\"" =
      [⟨⟨1, 1⟩, ⟨2, 2⟩, "expected declaration, found string"⟩] := by decide +kernel
  have hline : ("\n \"é\nx\"".toList.splitOn '\n')[1]? = some " \"é".toList := by decide +kernel
  obtain ⟨span, d, text, hspan, hdiagnostics, -, hrender, hinside, -⟩ :=
    compileDiagnostics_of_compile_eq_error (by decide +kernel) h
  cases hspan
  rw [hd] at hdiagnostics
  cases hdiagnostics
  obtain ⟨line, width, hshown, hlines, hwidth⟩ := hinside (by decide +kernel)
  rw [hline] at hshown
  cases hshown
  have hw : width = 2 := by
    have hlength : " \"é".toList.length = 3 := by decide +kernel
    rw [if_neg (by decide), hlength] at hwidth
    change 1 + width = 3 at hwidth
    omega
  rw [hw] at hlines
  exact ⟨_, text, h, hd, hrender, hlines⟩

end TriadLang
