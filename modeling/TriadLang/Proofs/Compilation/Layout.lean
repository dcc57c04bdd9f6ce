import TriadLang.Proofs.Compilation.Course
import TriadLang.Proofs.Symbol.Clash
import TriadLang.Proofs.Symbol.Places
import TriadLang.Proofs.Token.Numbering
import TriadLang.Proofs.Token.Partition
import TriadLang.Proofs.Tree.Agreement

/-!
# Layout plays no role

What is compiled is the kinds and lexemes of the tokens.  Two texts with the same
ones compile to the same text, or the same fault is found at the tokens with the
same number; and the same notices are left.

Both compilations are compared with one third reading, that of the tokens with
their numbers as spans.
-/

namespace TriadLang

open NameEvent

/-- A fault whose span is changed.  One at a character says itself where it is. -/
def Fault.mapSpan (f : Span → Span) : Fault → Fault
  | .lex fault => .lex fault
  | .parse fault => .parse (fault.mapSpan f)
  | .resolve fault => .resolve (fault.mapSpan f)
  | .lower fault => .lower fault

theorem Lexes.inRow {text : List Char} {us : List Token} (h : Lexes 0 text us) :
    Span.InRow ((us ++ [Token.eof (byteLength text)]).map Token.span) (byteLength text) where
  chain := h.isChain_skips.tail.imp fun _ _ hst => hst.hi_le_lo
  bounds := by
    intro s hs
    obtain ⟨t, ht, rfl⟩ := List.mem_map.1 hs
    rcases List.mem_append.1 ht with ht | ht
    · have hstands := h.forall_standsIn t ht
      exact ⟨hstands.lo_lt_hi.le, hstands.selects.hi_le⟩
    · rw [List.mem_singleton.1 ht]
      exact ⟨Nat.le_refl _, Nat.le_refl _⟩

theorem Token.numbered_concat_eof (us : List Token) (n : Nat) :
    numbered (us ++ [.eof n]) = numbered us ++ [.eof us.length] := by
  rw [numbered, List.mapIdx_concat]
  rfl

theorem Token.forall_fits_numbered {us : List Token} (h : ∀ t ∈ us, t.kind ≠ .eof ∧ t.Fits) :
    ∀ t ∈ numbered us, t.kind ≠ .eof ∧ t.Fits := by
  intro t ht
  obtain ⟨i, hi⟩ := List.getElem?_of_mem ht
  rw [getElem?_numbered, Option.map_eq_some_iff] at hi
  obtain ⟨u, hu, rfl⟩ := hi
  exact h u (List.mem_of_getElem? hu)

/-- The second token is the first one with its number as its span. -/
def Token.IsNumbered (ts : List Token) (t v : Token) : Prop :=
  ∃ i, ts[i]? = some t ∧ v = { t with span := ⟨i, i⟩ }

theorem Token.forall₂_isNumbered (ts : List Token) :
    List.Forall₂ (IsNumbered ts) ts (numbered ts) := by
  rw [List.forall₂_iff_get]
  refine ⟨List.length_mapIdx.symm, fun i hi hi' => ⟨i, List.getElem?_eq_getElem hi, ?_⟩⟩
  exact List.getElem_mapIdx

theorem ParseFault.eq_mapSpan {e e' : ParseFault} {f : Span → Span}
    (h : e.mapSpan .erase = e'.mapSpan .erase) (hs : e.span = f e'.span) : e = e'.mapSpan f := by
  cases e <;> cases e' <;> cases h <;> cases hs <;> rfl

section

variable {src : String} {ts : List Token}

/-- Where the tokens with these numbers stand in the text. -/
def Token.places (src : String) (ts : List Token) : Span → Span :=
  Span.place (ts.map span) (byteLength src.toList)

theorem Token.places_of_getElem? {i : Nat} {t : Token} (h : ts[i]? = some t) :
    places src ts ⟨i, i⟩ = t.span := by
  have hspan : (ts.map span)[i]? = some t.span := by
    rw [List.getElem?_map, h]
    rfl
  rw [places, Span.place, hspan]
  rfl

theorem parse_numbered (h : tokenize src = .ok ts) :
    (∃ q, parse (Token.numbered ts) = .ok q ∧ parse ts = .ok (q.mapSpans (Token.places src ts))) ∨
      ∃ e i t, parse (Token.numbered ts) = .error e ∧ e.span = ⟨i, i⟩ ∧ ts[i]? = some t ∧
        parse ts = .error (e.mapSpan (Token.places src ts)) := by
  obtain ⟨us, hlex, rfl⟩ := tokenize_eq_ok_iff_lexes.1 h
  have hsame : ∀ t v, Token.IsNumbered (us ++ [.eof (byteLength src.toList)]) t v →
      t.kind = v.kind ∧ t.lexeme = v.lexeme := by
    rintro t v ⟨i, -, rfl⟩
    exact ⟨rfl, rfl⟩
  have hrelated := Token.forall₂_isNumbered (us ++ [.eof (byteLength src.toList)])
  rw [Token.numbered_concat_eof] at hrelated ⊢
  have hlast : Token.IsNumbered (us ++ [.eof (byteLength src.toList)])
      (.eof (byteLength src.toList)) (.eof us.length) :=
    ⟨us.length, List.getElem?_concat_length, rfl⟩
  rcases parse_agree hsame hrelated hlast with ⟨p, q, hp, hq⟩ | ⟨e, e', he, he', halike⟩
  · refine Or.inl ⟨q, hq, (parse_append_eof hlex.forall_fits _).2 ?_⟩
    have hspelled := (parse_append_eof (Token.forall_fits_numbered hlex.forall_fits) _).1 hq
    have hmoved := program_moves hlex.inRow.place_cover hspelled
    have hplaced := Token.map_place_numbered (us ++ [.eof (byteLength src.toList)])
      (byteLength src.toList)
    rw [Token.numbered_concat_eof, List.map_append] at hplaced
    rwa [List.append_inj_left' hplaced rfl] at hmoved
  · obtain ⟨herase, t, v, ⟨i, hi, rfl⟩, hat, hat'⟩ := halike
    refine Or.inr ⟨e', i, t, he', hat'.span_eq, hi, ?_⟩
    have hspan : e.span = Token.places src (us ++ [.eof (byteLength src.toList)]) e'.span := by
      rw [hat.span_eq, hat'.span_eq]
      exact (Token.places_of_getElem? hi).symm
    rw [he, ParseFault.eq_mapSpan herase hspan]

theorem parse_of_numbered (h : tokenize src = .ok ts) {q : Program}
    (hq : parse (Token.numbered ts) = .ok q) :
    parse ts = .ok (q.mapSpans (Token.places src ts)) := by
  rcases parse_numbered h with ⟨q', hq', hp⟩ | ⟨e, i, t, he, -⟩
  · rw [hq] at hq'
    cases hq'
    exact hp
  · rw [hq] at he
    cases he

theorem parse_of_numbered_error (h : tokenize src = .ok ts) {e : ParseFault}
    (he : parse (Token.numbered ts) = .error e) :
    parse ts = .error (e.mapSpan (Token.places src ts)) ∧
      ∃ i t, e.span = ⟨i, i⟩ ∧ ts[i]? = some t := by
  rcases parse_numbered h with ⟨q, hq, -⟩ | ⟨e', i, t, he', hspan, ht, hp⟩
  · rw [he] at hq
    cases hq
  · rw [he] at he'
    cases he'
    exact ⟨hp, i, t, hspan, ht⟩

theorem exists_number_of_event {q : Program} (h : tokenize src = .ok ts)
    (hq : parse (Token.numbered ts) = .ok q) {e : NameEvent} (he : e ∈ q.events) :
    ∃ i t, e.ident.span = ⟨i, i⟩ ∧ ts[i]? = some t := by
  obtain ⟨us, hlex, rfl⟩ := tokenize_eq_ok_iff_lexes.1 h
  rw [Token.numbered_concat_eof] at hq
  have hspelled := (parse_append_eof (Token.forall_fits_numbered hlex.forall_fits) _).1 hq
  have hmem := (program_writesEvents hspelled).subset (List.mem_map_of_mem he)
  obtain ⟨v, hv, -, hident⟩ := Token.mem_idents.1 hmem
  obtain ⟨i, hi⟩ := List.getElem?_of_mem hv
  rw [Token.getElem?_numbered, Option.map_eq_some_iff] at hi
  obtain ⟨t, ht, rfl⟩ := hi
  refine ⟨i, t, by rw [← hident]; rfl, ?_⟩
  rw [List.getElem?_append_left (List.getElem?_eq_some_iff.1 ht).1, ht]

end

theorem Fault.erase_mapSpan (f : Span → Span) (fault : Fault) :
    (fault.mapSpan f).mapSpan .erase = fault.mapSpan .erase := by
  cases fault with
  | lex _ => rfl
  | parse fault => cases fault <;> rfl
  | resolve fault => cases fault <;> rfl
  | lower _ => rfl

/-- Both compilations fail, with faults that differ only in their spans, and these
are those of two tokens with the same number. -/
def FailAlike (ts us : List Token) (r s : Except Fault String) : Prop :=
  ∃ (e f : Fault) (i : Nat) (t u : Token), r = .error e ∧ s = .error f ∧
    e.mapSpan .erase = f.mapSpan .erase ∧ ts[i]? = some t ∧ us[i]? = some u ∧
    e.span? = some t.span ∧ f.span? = some u.span

theorem failAlike_of_numbered {a b : String} {ts us : List Token} {r s : Except Fault String}
    (hnumbered : Token.numbered ts = Token.numbered us) {fault : Fault} {i : Nat} {t : Token}
    (ht : ts[i]? = some t)
    (hspan : ∀ f, (fault.mapSpan f).span? = some (f ⟨i, i⟩))
    (hr : r = .error (fault.mapSpan (Token.places a ts)))
    (hs : s = .error (fault.mapSpan (Token.places b us))) : FailAlike ts us r s := by
  obtain ⟨u, hu⟩ : ∃ u, us[i]? = some u := by
    have hi := congrArg (fun vs => vs[i]?) hnumbered
    simp only [Token.getElem?_numbered, ht, Option.map_some] at hi
    obtain ⟨u, hu, -⟩ := Option.map_eq_some_iff.1 hi.symm
    exact ⟨u, hu⟩
  refine ⟨_, _, i, t, u, hr, hs, ?_, ht, hu, ?_, ?_⟩
  · rw [Fault.erase_mapSpan, Fault.erase_mapSpan]
  · rw [hspan, Token.places_of_getElem? ht]
  · rw [hspan, Token.places_of_getElem? hu]

theorem NameEvent.notice?_mapSpans (f : Span → Span) (e : NameEvent) :
    (e.mapSpans f).notice? = e.notice? := by
  cases e with
  | define symbol => cases symbol <;> rfl
  | use ident => rfl

/-- A name at fault stays at fault where the program is moved to. -/
theorem compile_of_fault_moved {src : String} {q : Program} {f : Span → Span}
    {before after : List NameEvent} {e : NameEvent} {fault : ResolveFault}
    (hr : (read src).result = .ok (q.mapSpans f)) (hq : q.events = before ++ e :: after)
    (hc : Clear [] before) (hf : e.fault? (bound before) = some fault) :
    (compile src).result = .error (.resolve (fault.mapSpan f)) ∧
      (compile src).journal.notices = before.filterMap NameEvent.notice? := by
  have hevents : (q.mapSpans f).events = before.map (NameEvent.mapSpans f) ++
      e.mapSpans f :: after.map (NameEvent.mapSpans f) := by
    rw [Program.events_mapSpans, hq, List.map_append, List.map_cons]
  have hfault : (e.mapSpans f).fault? (bound (before.map (NameEvent.mapSpans f))) =
      some (fault.mapSpan f) := by
    rw [NameEvent.fault?_mapSpans, bound_mapSpans, hf]
    rfl
  obtain ⟨hresult, hnotices⟩ := compile_of_fault hr hevents (hc.mapSpans f) hfault
  refine ⟨hresult, ?_⟩
  rw [hnotices, List.filterMap_map]
  exact congrArg (List.filterMap · before) (funext (NameEvent.notice?_mapSpans f))

section

variable {a b : String} {ts us : List Token}

theorem failAlike_of_parse_error (ha : tokenize a = .ok ts) (hb : tokenize b = .ok us)
    (hnumbered : Token.numbered ts = Token.numbered us) {e : ParseFault}
    (hq : parse (Token.numbered ts) = .error e) :
    FailAlike ts us (compile a).result (compile b).result ∧
      (compile a).journal.notices = (compile b).journal.notices := by
  obtain ⟨hpa, i, t, hspan, ht⟩ := parse_of_numbered_error ha hq
  obtain ⟨hpb, -⟩ := parse_of_numbered_error hb (hnumbered ▸ hq)
  obtain ⟨hresulta, hnoticesa⟩ := compile_of_parseFault ha hpa
  obtain ⟨hresultb, hnoticesb⟩ := compile_of_parseFault hb hpb
  have hspans : ∀ f, ((Fault.parse e).mapSpan f).span? = some (f ⟨i, i⟩) := by
    intro f
    rw [← hspan]
    cases e <;> rfl
  refine ⟨failAlike_of_numbered hnumbered ht hspans hresulta hresultb, ?_⟩
  rw [hnoticesa, hnoticesb]

variable {q : Program}

/-- Where all names are resolved, both texts are lowered to what the program of the
numbered tokens is lowered to. -/
theorem compile_of_clear_numbered (ha : tokenize a = .ok ts) (hb : tokenize b = .ok us)
    (hnumbered : Token.numbered ts = Token.numbered us)
    (hq : parse (Token.numbered ts) = .ok q) (hc : Clear [] q.events) :
    (∃ text, (compile a).result = .ok text ∧ (compile b).result = .ok text) ∧
      (compile a).journal.notices = (compile b).journal.notices := by
  have hpa := parse_of_numbered ha hq
  have hpb := parse_of_numbered hb (hnumbered ▸ hq)
  have hclear : ∀ f, Clear [] (q.mapSpans f).events := by
    intro f
    rw [Program.events_mapSpans]
    exact hc.mapSpans f
  have hla := Program.lowers_of_wellFormed (words_of_parse ha hpa).1
  have hlb := (q.lowers_mapSpans (Token.places b us)).2 ((q.lowers_mapSpans _).1 hla)
  obtain ⟨hresulta, hnoticesa⟩ :=
    compile_of_lowers (read_eq_ok_iff.2 ⟨ts, ha, hpa⟩) (hclear _) hla
  obtain ⟨hresultb, hnoticesb⟩ :=
    compile_of_lowers (read_eq_ok_iff.2 ⟨us, hb, hpb⟩) (hclear _) hlb
  refine ⟨⟨_, hresulta, hresultb⟩, ?_⟩
  rw [hnoticesa, hnoticesb]
  simp only [Program.semanticNotices_mapSpans, Program.codegenNotices_mapSpans]

theorem failAlike_of_resolve_fault (ha : tokenize a = .ok ts) (hb : tokenize b = .ok us)
    (hnumbered : Token.numbered ts = Token.numbered us)
    (hq : parse (Token.numbered ts) = .ok q) {before after : List NameEvent} {e : NameEvent}
    {fault : ResolveFault} (he : q.events = before ++ e :: after) (hc : Clear [] before)
    (hf : e.fault? (bound before) = some fault) :
    FailAlike ts us (compile a).result (compile b).result ∧
      (compile a).journal.notices = (compile b).journal.notices := by
  have hra := read_eq_ok_iff.2 ⟨ts, ha, parse_of_numbered ha hq⟩
  have hrb := read_eq_ok_iff.2 ⟨us, hb, parse_of_numbered hb (hnumbered ▸ hq)⟩
  obtain ⟨hresulta, hnoticesa⟩ := compile_of_fault_moved hra he hc hf
  obtain ⟨hresultb, hnoticesb⟩ := compile_of_fault_moved hrb he hc hf
  have hmem : e ∈ q.events := by
    rw [he]
    simp
  obtain ⟨i, t, hspan, ht⟩ := exists_number_of_event ha hq hmem
  have hident := NameEvent.ident_of_fault? hf
  have hspans : ∀ f, ((Fault.resolve fault).mapSpan f).span? = some (f ⟨i, i⟩) := by
    intro f
    rw [← hspan, ← hident]
    cases fault <;> rfl
  refine ⟨failAlike_of_numbered hnumbered ht hspans hresulta hresultb, ?_⟩
  rw [hnoticesa, hnoticesb]

end

/-- Two texts whose tokens have the same kinds and the same lexemes compile to the
same text, or the compilations fail alike; and they leave the same notices. -/
theorem compile_of_same_words {a b : String} {ts us : List Token} (ha : tokenize a = .ok ts)
    (hb : tokenize b = .ok us)
    (hw : ts.map (fun t => (t.kind, t.lexeme)) = us.map (fun t => (t.kind, t.lexeme))) :
    ((∃ text, (compile a).result = .ok text ∧ (compile b).result = .ok text) ∨
        FailAlike ts us (compile a).result (compile b).result) ∧
      (compile a).journal.notices = (compile b).journal.notices := by
  have hnumbered : Token.numbered ts = Token.numbered us := Token.numbered_eq_of_words hw
  cases hq : parse (Token.numbered ts) with
  | error e => exact (failAlike_of_parse_error ha hb hnumbered hq).imp_left Or.inr
  | ok q =>
    rcases clear_or_exists_fault [] q.events with hc | ⟨before, e, after, fault, he, hc, hf⟩
    · exact (compile_of_clear_numbered ha hb hnumbered hq hc).imp_left Or.inl
    · exact (failAlike_of_resolve_fault ha hb hnumbered hq he hc hf).imp_left Or.inr

/-- The second of two triads of one name is at fault, also when it is written on
another line and after a comment. -/
theorem compile_of_same_words_clash : ∃ ts us,
    tokenize "triad A\x7b\x7dtriad A\x7b\x7d" = .ok ts ∧
      tokenize "triad A\x7b\x7d//triad\n triad A \x7b\x7d" = .ok us ∧
      FailAlike ts us (compile "triad A\x7b\x7dtriad A\x7b\x7d").result
        (compile "triad A\x7b\x7d//triad\n triad A \x7b\x7d").result ∧
      (compile "triad A\x7b\x7dtriad A\x7b\x7d").journal.notices =
        (compile "triad A\x7b\x7d//triad\n triad A \x7b\x7d").journal.notices := by
  have ha : tokenize "triad A\x7b\x7dtriad A\x7b\x7d" = .ok
      [⟨.triad, "triad", ⟨0, 5⟩⟩, ⟨.ident, "A", ⟨6, 7⟩⟩, ⟨.openBrace, "\x7b", ⟨7, 8⟩⟩,
        ⟨.closeBrace, "\x7d", ⟨8, 9⟩⟩, ⟨.triad, "triad", ⟨9, 14⟩⟩, ⟨.ident, "A", ⟨15, 16⟩⟩,
        ⟨.openBrace, "\x7b", ⟨16, 17⟩⟩, ⟨.closeBrace, "\x7d", ⟨17, 18⟩⟩, .eof 18] :=
    ok_of_toOption (by decide +kernel)
  have hb : tokenize "triad A\x7b\x7d//triad\n triad A \x7b\x7d" = .ok
      [⟨.triad, "triad", ⟨0, 5⟩⟩, ⟨.ident, "A", ⟨6, 7⟩⟩, ⟨.openBrace, "\x7b", ⟨7, 8⟩⟩,
        ⟨.closeBrace, "\x7d", ⟨8, 9⟩⟩, ⟨.triad, "triad", ⟨18, 23⟩⟩, ⟨.ident, "A", ⟨24, 25⟩⟩,
        ⟨.openBrace, "\x7b", ⟨26, 27⟩⟩, ⟨.closeBrace, "\x7d", ⟨27, 28⟩⟩, .eof 28] :=
    ok_of_toOption (by decide +kernel)
  obtain ⟨hresults, hnotices⟩ := compile_of_same_words ha hb rfl
  refine ⟨_, _, ha, hb, ?_, hnotices⟩
  have hfails : (compile "triad A\x7b\x7dtriad A\x7b\x7d").result.toOption = none := by
    decide +kernel
  rcases hresults with ⟨text, htext, -⟩ | hfail
  · rw [htext] at hfails
    cases hfails
  · exact hfail

end TriadLang
