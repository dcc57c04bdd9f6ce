import TriadLang.Editor.CompileDiagnostics
import TriadLang.Proofs.Compilation.Culprit
import TriadLang.Proofs.Source.Positions

namespace TriadLang

/-- A diagnostic about a part of a text. -/
structure Diagnostic.LiesIn (d : Diagnostic) (src : String) : Prop where
  start_le : d.start ≤ d.stop
  start_isIn : d.start.IsIn src
  stop_isIn : d.stop.IsIn src

/-- The diagnostic of a closing brace that follows some characters. -/
def closingDiagnostic (before : List Char) : Diagnostic :=
  ⟨.after before, .after (before ++ ['\x7d']), "unmatched closing brace"⟩

/-- The diagnostic of the opening braces of a text. -/
def openingDiagnostic (src : String) : Diagnostic :=
  ⟨⟨src.toList.count '\n', 0⟩, ⟨src.toList.count '\n', 1⟩, "unmatched opening brace"⟩

/-- What is known when some characters have been matched: the position is behind them,
and what was found are closing braces among them. -/
structure BraceMatch.Reached (m : BraceMatch) (done : List Char) : Prop where
  position : m.position = .after done
  found : ∀ d ∈ m.found, ∃ before, before ++ ['\x7d'] <+: done ∧ d = closingDiagnostic before

namespace BraceMatch

theorem reached_step {m : BraceMatch} {done : List Char} (h : m.Reached done) (c : Char) :
    (m.step c).Reached (done ++ [c]) := by
  have hposition : m.position.advance c = .after (done ++ [c]) := by
    rw [h.position, Position.after_append]
    rfl
  have hfound : ∀ d ∈ m.found, ∃ before, before ++ ['\x7d'] <+: done ++ [c] ∧
      d = closingDiagnostic before := by
    intro d hd
    obtain ⟨before, hbefore, rfl⟩ := h.found d hd
    exact ⟨before, hbefore.trans (List.prefix_append _ _), rfl⟩
  by_cases ho : c = '\x7b'
  · rw [step, if_pos ho]
    exact ⟨hposition, hfound⟩
  · by_cases hc : c = '\x7d'
    · subst hc
      obtain ⟨position, depth, found⟩ := m
      cases depth with
      | zero =>
        rw [step, if_neg ho, if_pos rfl]
        refine ⟨hposition, List.forall_mem_cons.2 ⟨⟨done, List.prefix_refl _, ?_⟩, hfound⟩⟩
        rw [closingDiagnostic, ← hposition, ← h.position]
      | succ depth =>
        rw [step, if_neg ho, if_pos rfl]
        exact ⟨hposition, hfound⟩
    · rw [step, if_neg ho, if_neg hc]
      exact ⟨hposition, hfound⟩

theorem reached_foldl {m : BraceMatch} {done : List Char} (h : m.Reached done)
    (cs : List Char) : (cs.foldl step m).Reached (done ++ cs) := by
  induction cs generalizing m done with
  | nil => rwa [List.append_nil]
  | cons c cs ih =>
    have hrest := ih (reached_step h c)
    rwa [List.append_assoc] at hrest

theorem reached_text (cs : List Char) : (cs.foldl step {}).Reached cs := by
  have hstart : Reached {} [] := ⟨rfl, fun _ hd => absurd hd List.not_mem_nil⟩
  exact reached_foldl hstart cs

end BraceMatch

theorem mem_braceDiagnostics {src : String} {d : Diagnostic} (h : d ∈ braceDiagnostics src) :
    (∃ before, before ++ ['\x7d'] <+: src.toList ∧ d = closingDiagnostic before) ∨
      d = openingDiagnostic src := by
  have hreached := BraceMatch.reached_text src.toList
  rw [braceDiagnostics, BraceMatch.diagnostics, List.mem_append, List.mem_reverse] at h
  rcases h with h | h
  · exact .inl (hreached.found d h)
  · split at h
    · cases h
    · rw [List.mem_singleton, hreached.position, Position.after_eq] at h
      exact .inr h

theorem closingDiagnostic_liesIn {src : String} {before : List Char}
    (h : before ++ ['\x7d'] <+: src.toList) : (closingDiagnostic before).LiesIn src where
  start_le := Position.after_le_after (List.prefix_append _ _)
  start_isIn := Position.isIn_iff.2 ⟨before, (List.prefix_append _ _).trans h, rfl⟩
  stop_isIn := Position.isIn_iff.2 ⟨_, h, rfl⟩

/-- The diagnostic of opening braces is about a part of the text exactly if there is a
character on the last line. -/
theorem openingDiagnostic_isIn (src : String) :
    (openingDiagnostic src).start.IsIn src ∧
      ((openingDiagnostic src).stop.IsIn src ↔ lineHead src.toList ≠ []) := by
  obtain ⟨before, hsrc, hafter⟩ := exists_lineHead src.toList
  refine ⟨Position.isIn_iff.2 ⟨before, ⟨_, hsrc.symm⟩, hafter.symm⟩, ?_, ?_⟩
  · intro h hnil
    obtain ⟨line, hline, hlength⟩ := h.fitsLine
    have hlast := getElem?_splitOn src.toList []
    rw [List.append_nil, hnil] at hlast
    rw [openingDiagnostic, hlast] at hline
    cases hline
    exact absurd (show 1 ≤ 0 from hlength) (by decide)
  · intro hne
    obtain ⟨c, rest, hhead⟩ := List.exists_cons_of_ne_nil hne
    have hc : c ≠ '\n' := by
      rintro rfl
      exact not_mem_lineHead src.toList (hhead ▸ List.mem_cons_self)
    refine Position.isIn_iff.2 ⟨before ++ [c], ⟨rest, ?_⟩, ?_⟩
    · rw [hsrc, hhead, List.append_assoc]
      rfl
    · rw [Position.after_append, hafter]
      exact (if_neg hc).symm

theorem Diagnostic.liesIn_ofSpan {span : Span} (h : span.lo ≤ span.hi) (src message : String) :
    (Diagnostic.ofSpan src span message).LiesIn src where
  start_le := Position.ofOffset_le_ofOffset h src
  start_isIn := Position.isIn_ofOffset src span.lo
  stop_isIn := Position.isIn_ofOffset src span.hi

theorem Fault.PointsInto.lo_le_hi {text : List Char} {fault : Fault} {span : Span}
    (h : fault.PointsInto text span) : span.lo ≤ span.hi := by
  rcases h.place with ⟨cs, -, before, after, -, -, hhi⟩ | rfl
  · rw [hhi]
    exact Nat.le_add_right _ _
  · exact Nat.le_refl _

theorem Fault.diagnostic_liesIn {src : String} {fault : Fault}
    (h : (compile src).result = .error fault) : (fault.diagnostic src).LiesIn src := by
  obtain ⟨span, hpoints⟩ := pointsInto_of_compile_eq_error h
  rw [Fault.diagnostic, hpoints.span?, Option.getD_some]
  exact Diagnostic.liesIn_ofSpan hpoints.lo_le_hi src _

theorem mem_compileDiagnostics {src : String} {d : Diagnostic} (h : d ∈ compileDiagnostics src) :
    d.LiesIn src ∨ d = openingDiagnostic src := by
  rw [compileDiagnostics] at h
  split at h
  · split at h
    · cases h
    · next fault hfault =>
      rw [List.mem_singleton.1 h]
      exact .inl (Fault.diagnostic_liesIn hfault)
  · rcases mem_braceDiagnostics h with ⟨before, hbefore, rfl⟩ | rfl
    · exact .inl (closingDiagnostic_liesIn hbefore)
    · exact .inr rfl

/-- The two ends of a diagnostic are in order, and the first one is a position of the
text, on a line of it and not behind the end of the line.  So is the second one, but for
the diagnostic of opening braces in a text whose last line is empty. -/
theorem compileDiagnostics_ranges {src : String} {d : Diagnostic} (h : d ∈ compileDiagnostics src) :
    d.start ≤ d.stop ∧ d.start.IsIn src ∧ d.start.FitsLine src ∧
      (d.stop.IsIn src ∧ d.stop.FitsLine src ↔
        ¬ (d = openingDiagnostic src ∧ lineHead src.toList = [])) := by
  rcases mem_compileDiagnostics h with hin | rfl
  · refine ⟨hin.start_le, hin.start_isIn, hin.start_isIn.fitsLine,
      iff_of_true ⟨hin.stop_isIn, hin.stop_isIn.fitsLine⟩ ?_⟩
    rintro ⟨rfl, hnil⟩
    exact (openingDiagnostic_isIn src).2.1 hin.stop_isIn hnil
  · obtain ⟨hstart, hstop⟩ := openingDiagnostic_isIn src
    refine ⟨.inr ⟨rfl, Nat.zero_le _⟩, hstart, hstart.fitsLine, ?_, fun hnot => ?_⟩
    · rintro ⟨hin, -⟩ ⟨-, hnil⟩
      exact hstop.1 hin hnil
    · have hin := hstop.2 fun hnil => hnot ⟨rfl, hnil⟩
      exact ⟨hin, hin.fitsLine⟩

/-- Characters are counted, not bytes, and a brace that is open on the last line is on a
line that has a character. -/
theorem compileDiagnostics_ranges_last_line :
    compileDiagnostics "é\x7d\n\x7b" =
        [⟨⟨0, 1⟩, ⟨0, 2⟩, "unmatched closing brace"⟩, ⟨⟨1, 0⟩, ⟨1, 1⟩, "unmatched opening brace"⟩] ∧
      Position.IsIn ⟨0, 2⟩ "é\x7d\n\x7b" ∧ Position.IsIn ⟨1, 1⟩ "é\x7d\n\x7b" := by
  have hd : compileDiagnostics "é\x7d\n\x7b" =
      [⟨⟨0, 1⟩, ⟨0, 2⟩, "unmatched closing brace"⟩,
        ⟨⟨1, 0⟩, ⟨1, 1⟩, "unmatched opening brace"⟩] := by decide +kernel
  have hhead : lineHead "é\x7d\n\x7b".toList ≠ [] := by decide +kernel
  have hstop : ∀ d ∈ compileDiagnostics "é\x7d\n\x7b", d.stop.IsIn "é\x7d\n\x7b" := by
    intro d hmem
    obtain ⟨-, -, -, hiff⟩ := compileDiagnostics_ranges hmem
    exact (hiff.2 fun hempty => hhead hempty.2).1
  rw [hd] at hstop
  exact ⟨hd, hstop _ List.mem_cons_self, hstop _ (List.mem_cons_of_mem _ List.mem_cons_self)⟩

/-- Behind a newline at the end of the text there is no character to show an open brace
at. -/
theorem compileDiagnostics_empty_last_line :
    ∃ d ∈ compileDiagnostics "\x7b\n", ¬ d.stop.IsIn "\x7b\n" := by
  have hd : openingDiagnostic "\x7b\n" ∈ compileDiagnostics "\x7b\n" := by decide +kernel
  exact ⟨_, hd, fun h => (openingDiagnostic_isIn "\x7b\n").2.1 h (by decide +kernel)⟩

end TriadLang
