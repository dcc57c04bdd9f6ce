import TriadLang.Proofs.Compilation.Course
import TriadLang.Proofs.Symbol.Places
import TriadLang.Proofs.Token.Partition
import TriadLang.Proofs.Tree.Agreement

namespace TriadLang

open NameEvent

/-- A fault points at a part of a text or at its end, with a message on one line. -/
structure Fault.PointsInto (text : List Char) (fault : Fault) (span : Span) : Prop where
  span? : fault.span? = some span
  place : (∃ cs, cs ≠ [] ∧ span.Selects text cs) ∨ span = ⟨byteLength text, byteLength text⟩
  message : '\n' ∉ fault.message.toList

theorem Kind.not_mem_describe (k : Kind) : '\n' ∉ k.describe.toList := by
  cases k <;> decide +kernel

theorem Expected.not_mem_describe (e : Expected) : '\n' ∉ e.describe.toList := by
  cases e with
  | token k => exact k.not_mem_describe
  | declaration => decide
  | expression => decide
  | functionWord => decide

theorem not_mem_append {s t : String} (hs : '\n' ∉ s.toList) (ht : '\n' ∉ t.toList) :
    '\n' ∉ (s ++ t).toList := by
  rw [String.toList_append, List.mem_append, not_or]
  exact ⟨hs, ht⟩

theorem LexFault.not_mem_message {c : Char} (hc : c ≠ '\n') (offset : Nat) :
    '\n' ∉ (LexFault.unexpectedChar c offset).message.toList := by
  refine not_mem_append (not_mem_append (by decide) ?_) (by decide)
  rw [Char.toString_eq_singleton, String.toList_singleton, List.mem_singleton]
  exact Ne.symm hc

theorem ParseFault.IsAt.not_mem_message {fault : ParseFault} {t : Token} (h : fault.IsAt t)
    (hf : t.kind.Fits t.lexeme) : '\n' ∉ fault.message.toList := by
  cases fault with
  | unexpected expected found span =>
    refine not_mem_append (not_mem_append (not_mem_append (by decide) ?_) (by decide)) ?_
    · exact expected.not_mem_describe
    · exact found.not_mem_describe
  | numberOutOfRange lexeme span =>
    obtain ⟨hk, rfl, -⟩ := h
    rw [hk] at hf
    refine not_mem_append (not_mem_append (by decide) ?_) (by decide)
    intro hmem
    exact absurd (hf.2 _ hmem) (by decide)
  | nestingTooDeep limit span =>
    obtain ⟨-, rfl, -⟩ := h
    show '\n' ∉ ("calls nested more than " ++ toString maxNesting ++ " deep").toList
    decide +kernel

theorem ResolveFault.not_mem_message {fault : ResolveFault} (h : IsName fault.ident.name) :
    '\n' ∉ fault.message.toList := by
  have hname := h.not_mem_newline
  cases fault <;> exact not_mem_append (not_mem_append (by decide) hname) (by decide)

section

variable {src : String} {ts : List Token}

theorem span_of_mem_tokens (h : tokenize src = .ok ts) {t : Token} (ht : t ∈ ts) :
    ((∃ cs, cs ≠ [] ∧ t.span.Selects src.toList cs) ∨
        t.span = ⟨byteLength src.toList, byteLength src.toList⟩) ∧ t.kind.Fits t.lexeme := by
  obtain ⟨us, hlex, rfl⟩ := tokenize_eq_ok_iff_lexes.1 h
  rcases List.mem_append.1 ht with ht | ht
  · have hstands := hlex.forall_standsIn t ht
    refine ⟨Or.inl ⟨t.lexeme.toList, ?_, hstands.selects⟩, hstands.fits⟩
    intro hnil
    obtain ⟨before, after, -, -, hhi⟩ := hstands.selects
    have hlt := hstands.lo_lt_hi
    rw [hnil, byteLength_nil] at hhi
    omega
  · rw [List.mem_singleton.1 ht]
    exact ⟨Or.inr rfl, rfl⟩

/-- A fault of the parser is at a token. -/
theorem exists_token_of_parse_eq_error (h : tokenize src = .ok ts) {fault : ParseFault}
    (hp : parse ts = .error fault) : ∃ t ∈ ts, fault.IsAt t := by
  obtain ⟨us, hlex, rfl⟩ := tokenize_eq_ok_iff_lexes.1 h
  -- the run is compared with itself, so that each token is related to itself only
  have hsame : ∀ t u, t = u ∧ t ∈ us ++ [Token.eof (byteLength src.toList)] →
      t.kind = u.kind ∧ t.lexeme = u.lexeme := by
    rintro t u ⟨rfl, -⟩
    exact ⟨rfl, rfl⟩
  have hself : List.Forall₂ (fun t u => t = u ∧ t ∈ us ++ [Token.eof (byteLength src.toList)])
      (us ++ [.eof (byteLength src.toList)]) (us ++ [.eof (byteLength src.toList)]) :=
    List.forall₂_same.2 fun t ht => ⟨rfl, ht⟩
  rcases parse_agree hsame hself ⟨rfl, by simp⟩ with ⟨p, q, hok, -⟩ | hfail
  · rw [hok] at hp
    cases hp
  · obtain ⟨e, e', he, -, -, t, u, ⟨-, ht⟩, hat, -⟩ := hfail
    rw [he] at hp
    cases hp
    exact ⟨t, ht, hat⟩

theorem exists_token_of_event (h : tokenize src = .ok ts) {p : Program} (hp : parse ts = .ok p)
    {e : NameEvent} (he : e ∈ p.events) : ∃ t ∈ ts, t.kind = .ident ∧ t.ident = e.ident := by
  obtain ⟨us, hlex, rfl⟩ := tokenize_eq_ok_iff_lexes.1 h
  have hspelled := (parse_append_eof hlex.forall_fits _).1 hp
  have hmem := (program_writesEvents hspelled).subset (List.mem_map_of_mem he)
  obtain ⟨t, ht, hk, hident⟩ := Token.mem_idents.1 hmem
  exact ⟨t, List.mem_append_left _ ht, hk, hident⟩

end

/-- What ended a compilation: a character that no rule takes, or a token. -/
inductive Fault.Culprit (src : String) (fault : Fault) : Prop where
  | char {before after : List Char} {c : Char} (htext : src.toList = before ++ c :: after)
      (hc : c ≠ '\n') (hfault : fault = .lex (.unexpectedChar c (byteLength before)))
  | token {ts : List Token} {t : Token} (hts : tokenize src = .ok ts) (ht : t ∈ ts)
      (hspan : fault.span? = some t.span) (hmessage : '\n' ∉ fault.message.toList)

theorem culprit_of_compile_eq_error {src : String} {fault : Fault}
    (h : (compile src).result = .error fault) : fault.Culprit src := by
  have hcourse := compile_course src
  rw [h] at hcourse
  generalize (compile src).journal.notices = notices at hcourse
  cases hcourse with
  | @lex fault ht =>
    obtain ⟨before, c, after, htext, rfl, hnone⟩ := exists_char_of_tokenize_eq_error ht
    refine .char htext ?_ rfl
    rintro rfl
    have hblanks := List.find?_eq_none.1 hnone Rule.blanks (by simp [Rule.table])
    exact absurd hblanks (by simp [Rule.blanks, Rule.isBlank])
  | @parse ts fault ht hp =>
    obtain ⟨t, hmem, hat⟩ := exists_token_of_parse_eq_error ht hp
    obtain ⟨-, hfits⟩ := span_of_mem_tokens ht hmem
    exact .token ht hmem (congrArg some hat.span_eq) (hat.not_mem_message hfits)
  | @resolve ts p before after e fault ht hp he hc hf =>
    have hmem : e ∈ p.events := by
      rw [he]
      simp
    obtain ⟨t, htmem, hk, hident⟩ := exists_token_of_event ht hp hmem
    obtain ⟨-, hfits⟩ := span_of_mem_tokens ht htmem
    have hfault : fault.ident = t.ident := (NameEvent.ident_of_fault? hf).trans hident.symm
    have hname : IsName fault.ident.name := by
      rw [hk] at hfits
      rw [hfault]
      exact hfits
    refine .token ht htmem ?_ (ResolveFault.not_mem_message hname)
    rw [Fault.span?, hfault]
    rfl

theorem pointsInto_of_compile_eq_error {src : String} {fault : Fault}
    (h : (compile src).result = .error fault) : ∃ span, fault.PointsInto src.toList span := by
  cases culprit_of_compile_eq_error h with
  | @char before after c htext hc hfault =>
    subst hfault
    refine ⟨_, rfl, Or.inl ⟨[c], List.cons_ne_nil _ _, before, after, htext, rfl, ?_⟩, ?_⟩
    · rfl
    · exact LexFault.not_mem_message hc (byteLength before)
  | token hts ht hspan hmessage =>
    exact ⟨_, hspan, (span_of_mem_tokens hts ht).1, hmessage⟩

theorem Kind.Fits.head?_ne {k : Kind} {lexeme : String} (h : k.Fits lexeme) :
    lexeme.toList.head? ≠ some '\n' := by
  intro hhead
  have hmem : '\n' ∈ lexeme.toList := List.mem_of_mem_head? hhead
  cases k with
  | ident => exact IsName.not_mem_newline h hmem
  | number => exact absurd (h.2 _ hmem) (by decide)
  | text =>
    obtain ⟨cs, hcs, -⟩ := h
    rw [hcs] at hhead
    exact absurd hhead (by simp)
  | _ =>
    rw [show lexeme = _ from h] at hmem
    revert hmem
    decide

/-- What a fault points at does not begin with a newline. -/
theorem head?_ne_of_compile_eq_error {src : String} {fault : Fault} {span : Span} {cs : List Char}
    (h : (compile src).result = .error fault) (hspan : fault.span? = some span)
    (hcs : span.Selects src.toList cs) : cs.head? ≠ some '\n' := by
  cases culprit_of_compile_eq_error h with
  | @char before after c htext hc hfault =>
    subst hfault
    cases hspan
    have hselects : Span.Selects ⟨byteLength before, byteLength before + c.utf8Size⟩ src.toList [c] :=
      ⟨before, after, htext, rfl, rfl⟩
    rw [hcs.unique hselects]
    simpa using hc
  | @token ts t hts ht hspan' hmessage =>
    rw [hspan] at hspan'
    cases hspan'
    obtain ⟨us, hlex, rfl⟩ := tokenize_eq_ok_iff_lexes.1 hts
    rcases List.mem_append.1 ht with ht | ht
    · have hstands := hlex.forall_standsIn t ht
      rw [hcs.unique hstands.selects]
      exact hstands.fits.head?_ne
    · rw [List.mem_singleton.1 ht] at hcs
      obtain ⟨before, after, htext, hlo, hhi⟩ := hcs
      have hnil : cs = [] := by
        by_contra hne
        have hpos := byteLength_pos hne
        change byteLength src.toList = byteLength src.toList + byteLength cs at hhi
        omega
      rw [hnil]
      simp

end TriadLang
