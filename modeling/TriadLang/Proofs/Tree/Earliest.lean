import TriadLang.Proofs.Token.Partition
import TriadLang.Proofs.Tree.Prompt
import TriadLang.Proofs.Tree.RoundTrip

namespace TriadLang

/-- Some text that is read as a program begins with tokens of the same kinds and the same
lexemes. -/
def BeginsProgram (kept : List Token) : Prop :=
  ∃ src us rest p, tokenize src = .ok (us ++ rest) ∧ parse (us ++ rest) = .ok p ∧
    us.map (fun t => (t.kind, t.lexeme)) = kept.map (fun t => (t.kind, t.lexeme))

theorem Token.map_word_eq {ts us : List Token}
    (h : ts.map (fun t => (t.kind, t.lexeme)) = us.map (fun t => (t.kind, t.lexeme))) :
    ts.map word = us.map word := by
  have hword : ∀ vs : List Token, vs.map word = (vs.map fun t => (t.kind, t.lexeme)).map
      fun w => (w.1, if w.1 = .number then String.ofList (dropZeros w.2.toList) else w.2) := by
    intro vs
    rw [List.map_map]
    rfl
  rw [hword, hword, h]

theorem Program.Spelled.exists_lexes {p : Program} {ts : List Token} (h : p.Spelled ts)
    (hf : ∀ t ∈ ts, t.Fits) : ∃ (src : String) (us : List Token) (q : Program),
      Lexes 0 src.toList us ∧ q.Spelled us ∧
      us.map (fun t => (t.kind, t.lexeme)) = ts.map (fun t => (t.kind, t.lexeme)) := by
  have hfits : ∀ w ∈ ts.map (fun t => (t.kind, t.lexeme)), w.1 ≠ .eof ∧ w.1.Fits w.2 := by
    intro w hw
    obtain ⟨t, ht, rfl⟩ := List.mem_map.1 hw
    exact ⟨h.kind_ne_eof hf t ht, hf t ht⟩
  obtain ⟨us, hus, hw⟩ := exists_lexes_spaced hfits 0
  obtain ⟨hok, hwords⟩ := program_writes.sound h hf
  obtain ⟨q, -, hq⟩ := program_writes.complete hok ((Token.map_word_eq hw).trans hwords)
  exact ⟨_, us, q, hus, hq, hw⟩

theorem kind_ne_eof_of_extends {kept : List Token} (hf : ∀ t ∈ kept, t.Fits)
    (h : Spelling.Extends Program.Spelled kept) : ∀ t ∈ kept, t.kind ≠ .eof := by
  obtain ⟨p, more, hp, hmore⟩ := h
  have hall := hp.kind_ne_eof (List.forall_mem_append.2 ⟨hf, fun t ht => (hmore t ht).2⟩)
  exact fun t ht => hall t (List.mem_append_left _ ht)

theorem beginsProgram_of_extends {kept : List Token} (hf : ∀ t ∈ kept, t.Fits)
    (h : Spelling.Extends Program.Spelled kept) : BeginsProgram kept := by
  obtain ⟨p, more, hp, hmore⟩ := h
  have hall : ∀ t ∈ kept ++ more, t.Fits :=
    List.forall_mem_append.2 ⟨hf, fun t ht => (hmore t ht).2⟩
  obtain ⟨src, vs, q, hvs, hq, hw⟩ := hp.exists_lexes hall
  rw [List.map_append, List.map_eq_append_iff] at hw
  obtain ⟨us, rest, rfl, hus, -⟩ := hw
  refine ⟨src, us, rest ++ [.eof (byteLength src.toList)], q, ?_, ?_, hus⟩
  · exact tokenize_eq_ok_iff_lexes.2 ⟨us ++ rest, hvs, (List.append_assoc ..).symm⟩
  · rw [← List.append_assoc]
    exact (parse_append_eof hvs.forall_fits _).2 hq

theorem parse_of_error {ts : List Token} {e : ParseFault} {d : Cursor}
    (h : Reader.program (.ofTokens ts) = .error e d) : parse ts = .error e := by
  rw [parse, h]

theorem prefix_of_kind_ne_eof {us kept : List Token} {m n : Nat}
    (hne : ∀ t ∈ kept, t.kind ≠ .eof) (h : kept <+: us ++ [.eof m, .eof n]) : kept <+: us := by
  rcases List.prefix_or_prefix_of_prefix h (List.prefix_append us _) with hle | ⟨vs, rfl⟩
  · exact hle
  · rw [List.prefix_append_right_inj] at h
    cases vs with
    | nil => simp
    | cons v vs =>
      obtain ⟨rfl, -⟩ := List.cons_prefix_cons.1 h
      exact absurd rfl (hne (.eof m) (by simp))

/-- The parser stops at a token that cannot be there, behind tokens that can. -/
theorem exists_kept_of_parse_eq_error {us : List Token} {n : Nat} {e : ParseFault}
    (hus : ∀ t ∈ us, t.kind ≠ .eof ∧ t.Fits) (h : parse (us ++ [.eof n]) = .error e) :
    ∃ kept last, kept ++ [last] <+: us ++ [.eof n] ∧
      e.MetAt (Spelling.Deep Program.Spelled) kept last ∧ BeginsProgram kept ∧
      ∀ vs, kept ++ [last] <+: vs → parse vs = .error e := by
  cases Reader.program_steady.promptAt (.ofTokens (us ++ [.eof n])) with
  | ok hts hp hx =>
    rw [parse, hx _ _ hp rfl] at h
    cases h
  | @error e' kept last hmet hkept hview hx =>
    obtain ⟨d, hd⟩ := hx _ hview
    rw [parse_of_error hd] at h
    cases h
    have hends : (Cursor.ofTokens (us ++ [.eof n])).view =
        us ++ [.eof n, .eof (Cursor.ofTokens (us ++ [.eof n])).stop] := List.append_assoc ..
    have hbefore : kept <+: us ++ [.eof n, .eof (Cursor.ofTokens (us ++ [.eof n])).stop] :=
      hends ▸ (List.prefix_append kept [last]).trans hview
    have hf : ∀ t ∈ kept, t.Fits := by
      intro t ht
      rcases List.mem_append.1 (hbefore.subset ht) with hmem | hmem
      · exact (hus t hmem).2
      · simp only [List.mem_cons, List.not_mem_nil, or_false] at hmem
        rcases hmem with rfl | rfl <;> rfl
    have hne := kind_ne_eof_of_extends hf hkept
    have hlength := (prefix_of_kind_ne_eof hne hbefore).length_le
    refine ⟨kept, last, ?_, hmet, beginsProgram_of_extends hf hkept, fun vs hvs => ?_⟩
    · refine List.prefix_of_prefix_length_le hview (List.prefix_append _ _) ?_
      rw [List.length_append, List.length_append]
      exact Nat.add_le_add_right hlength 1
    · obtain ⟨d', hd'⟩ := hx (.ofTokens vs) (hvs.trans (List.prefix_append vs _))
      exact parse_of_error hd'

theorem take_of_front {kept ts : List Token} {last : Token} (h : kept ++ [last] <+: ts) :
    ts[kept.length]? = some last ∧ ts.take kept.length = kept ∧
      ts.take (kept.length + 1) = kept ++ [last] := by
  obtain ⟨rest, rfl⟩ := h
  exact ⟨by simp, by simp, List.take_left' List.length_append⟩

theorem front_of_take_eq {kept ts us : List Token} {last : Token} (h : kept ++ [last] <+: ts)
    (hus : us.take (kept.length + 1) = ts.take (kept.length + 1)) : kept ++ [last] <+: us := by
  rw [(take_of_front h).2.2] at hus
  exact hus ▸ List.take_prefix _ us

/-- A parse error is at the first token at which it shows that there is no program.  The
tokens before that one begin a program, and all tokens that agree with these up to that
one, whatever is behind it, fail with the same error.

A call that is too deep is an error at its name, and shows at its parenthesis: it is
inside of exactly `maxNesting` others, and the tokens up to its name begin a program. -/
theorem parse_eq_error_earliest {src : String} {ts : List Token} {e : ParseFault}
    (ht : tokenize src = .ok ts) (hp : parse ts = .error e) :
    ∃ i t, ts[i]? = some t ∧ e.IsAt t ∧
      (∀ j u, ts[j]? = some u → (u.span = e.span ↔ j = i)) ∧
      match e with
      | .nestingTooDeep .. =>
        (∃ opening, ts[i + 1]? = some opening ∧ opening.kind = .openParen) ∧
          Spelling.Deep Program.Spelled (ts.take i) ∧ BeginsProgram (ts.take (i + 1)) ∧
          ∀ us, us.take (i + 2) = ts.take (i + 2) → parse us = .error e
      | _ =>
        BeginsProgram (ts.take i) ∧
          ∀ us, us.take (i + 1) = ts.take (i + 1) → parse us = .error e := by
  obtain ⟨vs, hlex, rfl⟩ := tokenize_eq_ok_iff_lexes.1 ht
  obtain ⟨kept, last, hkept, hmet, hbegins, hall⟩ :=
    exists_kept_of_parse_eq_error hlex.forall_fits hp
  obtain ⟨hlast, htake, -⟩ := take_of_front hkept
  have hsame := fun us hus => hall us (front_of_take_eq hkept hus)
  have honly : ∀ {i : Nat} {t : Token}, (vs ++ [Token.eof (byteLength src.toList)])[i]? = some t →
      e.IsAt t → ∀ j u, (vs ++ [Token.eof (byteLength src.toList)])[j]? = some u →
        (u.span = e.span ↔ j = i) := by
    intro i t hi hat j u hj
    rw [hat.span_eq]
    refine ⟨index_eq_of_span_eq ht hj hi, ?_⟩
    rintro rfl
    rw [hi] at hj
    cases hj
    rfl
  cases e with
  | nestingTooDeep =>
    obtain ⟨before, t, rfl, hat, ho, hdeep⟩ := hmet
    obtain ⟨hi, hbefore, -⟩ := take_of_front ((List.prefix_append _ [last]).trans hkept)
    rw [List.length_append, List.length_singleton] at hlast htake hsame
    refine ⟨before.length, t, hi, hat, honly hi hat, ⟨last, hlast, ho⟩, ?_, ?_, hsame⟩
    · rwa [hbefore]
    · rwa [htake]
  | unexpected =>
    refine ⟨kept.length, last, hlast, hmet, honly hlast hmet, ?_, hsame⟩
    rwa [htake]
  | numberOutOfRange =>
    refine ⟨kept.length, last, hlast, hmet, honly hlast hmet, ?_, hsame⟩
    rwa [htake]

/-- Behind a comma there has to be another argument. -/
theorem parse_eq_error_earliest_comma : ∃ ts,
    tokenize "function f()\x7bg(1,)" = .ok ts ∧
      parse ts = .error (.unexpected .expression .closeParen ⟨17, 18⟩) ∧
      BeginsProgram (ts.take 9) ∧ ∀ us, us.take 10 = ts.take 10 →
        parse us = .error (.unexpected .expression .closeParen ⟨17, 18⟩) := by
  let ts : List Token :=
    [⟨.ident, "function", ⟨0, 8⟩⟩, ⟨.ident, "f", ⟨9, 10⟩⟩, ⟨.openParen, "(", ⟨10, 11⟩⟩,
      ⟨.closeParen, ")", ⟨11, 12⟩⟩, ⟨.openBrace, "\x7b", ⟨12, 13⟩⟩, ⟨.ident, "g", ⟨13, 14⟩⟩,
      ⟨.openParen, "(", ⟨14, 15⟩⟩, ⟨.number, "1", ⟨15, 16⟩⟩, ⟨.comma, ",", ⟨16, 17⟩⟩,
      ⟨.closeParen, ")", ⟨17, 18⟩⟩, .eof 18]
  have htok : tokenize "function f()\x7bg(1,)" = .ok ts :=
    ok_of_toOption (by decide +kernel +zetaReduce)
  have hparse : parse ts = .error (.unexpected .expression .closeParen ⟨17, 18⟩) :=
    error_of_match (by decide +kernel +zetaReduce)
  obtain ⟨i, t, -, -, honly, hbegins, hall⟩ := parse_eq_error_earliest htok hparse
  have hi : 9 = i := (honly 9 ⟨.closeParen, ")", ⟨17, 18⟩⟩ rfl).1 rfl
  subst hi
  exact ⟨ts, htok, hparse, hbegins, hall⟩

end TriadLang
