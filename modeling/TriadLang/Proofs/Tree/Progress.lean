import TriadLang.Proofs.Tree.Bracketed
import TriadLang.Proofs.Tree.Following
import TriadLang.Proofs.Tree.Prompt

namespace TriadLang

open Method

/-- Wherever a method is called inside of so many calls, with fewer tokens left than
there is fuel, it comes to an end and passes no end token, and if there is no fault it
passes some token. -/
def Method.Progresses {α : Type} (fuel depth : Nat) (x : Method α) : Prop :=
  ∀ p : Parser, p.depth = depth → p.tokens.length - p.pos < fuel →
    ∃ r q, x.runOn p = some (r, q) ∧ p.Onward q ∧ ∀ a, r = .ok a → p.pos < q.pos

section

variable {α : Type} {fuel d : Nat} {x : Method α} {y : Reader α}

theorem Follows.progresses (h : Follows fuel d x y) (hy : Advancing y) : x.Progresses fuel d := by
  intro p hp hfuel
  obtain ⟨r, q, hx, hon, heq⟩ := h p hp (by rwa [Parser.left_cursor])
  refine ⟨r, q, hx, hon, ?_⟩
  rintro a rfl
  have hlt : q.cursor.left < p.cursor.left := hy heq
  rw [Parser.left_cursor, Parser.left_cursor, hon.tokens] at hlt
  omega

end

theorem param_progresses (fuel d : Nat) : Method.param.Progresses fuel d :=
  follows_param.progresses (advancing_of_reads Reader.param_reads fun _ _ h => h.first)

theorem field_progresses (fuel d : Nat) : Method.field.Progresses fuel d :=
  follows_field.progresses field_advancing

theorem expr_progresses (fuel d : Nat) : (Method.expr fuel).Progresses fuel d :=
  (follows_expr fuel d).progresses
    (advancing_of_reads (Reader.expr_reads _) fun _ _ h => h.first)

theorem stmt_progresses (fuel : Nat) : (Method.stmt fuel).Progresses fuel 0 :=
  follows_stmt.progresses stmt_advancing

theorem decl_progresses (fuel : Nat) : (Method.decl fuel).Progresses fuel 0 :=
  follows_decl.progresses decl_advancing

theorem program_of_eof {c : Cursor} (h : c.peek.kind = .eof) : Reader.program c = .ok {} c := by
  have hdecls : Reader.repeatUntil (· == .eof) Reader.decl [] c = .ok [] c := by
    rw [Reader.repeatUntil, h]
    rfl
  exact bind_of_ok hdecls _

theorem Parser.cursor_eq_ofTokens {p : Parser} (h : p.pos < p.tokens.length) :
    p.cursor = .ofTokens (p.tokens.drop p.pos) := by
  refine Cursor.ext rfl ?_
  show (p.tokens.getLast?.map (·.span.hi)).getD 0 =
    ((p.tokens.drop p.pos).getLast?.map (·.span.hi)).getD 0
  rw [List.getLast?_drop, if_neg (Nat.not_le.2 h)]

/-- What a call of the parser answers is what the tokens that are left are read as,
however much fuel there is above what is needed. -/
theorem runOn_program (tokens : List Token) (pos : Nat) : ∃ q,
    (∀ fuel, tokens.length < fuel →
      (program fuel).runOn ⟨tokens, pos, 0⟩ = some (parse (tokens.drop pos), q)) ∧
    Parser.Onward ⟨tokens, pos, 0⟩ q ∧
    Reader.program (Parser.cursor ⟨tokens, pos, 0⟩) =
      answer (parse (tokens.drop pos)) q.cursor := by
  have hfollows : ∀ {fuel}, tokens.length < fuel →
      FollowsAt ⟨tokens, pos, 0⟩ (program fuel) Reader.program := fun hfuel =>
    follows_program _ rfl (Nat.lt_of_le_of_lt (List.drop_sublist ..).length_le hfuel)
  obtain ⟨r, q, -, hon, hy⟩ := hfollows (Nat.lt_succ_self _)
  have hr : r = parse (tokens.drop pos) := by
    rcases Nat.lt_or_ge pos tokens.length with hlt | hge
    · rw [Parser.cursor_eq_ofTokens hlt] at hy
      rw [parse, hy]
      cases r <;> rfl
    · have hnil : tokens.drop pos = [] := List.drop_eq_nil_of_le hge
      rw [program_of_eof (by rw [Parser.peek_cursor, Parser.peek_of_le hge])] at hy
      rw [hnil, parse, program_of_eof rfl]
      exact (answer_eq_ok.1 hy.symm).1
  subst hr
  refine ⟨q, fun fuel hfuel => ?_, hon, hy⟩
  obtain ⟨r', q', hx', hon', hy'⟩ := hfollows hfuel
  obtain ⟨hr, hc⟩ := answer_inj (hy'.symm.trans hy)
  rw [hx', hr, hon'.eq_of_cursor hon hc]

/-- The place of the first end token that is not before the position of a parser, or
of the end of its tokens. -/
def Parser.endPos (p : Parser) : Nat :=
  p.pos + ((p.tokens.drop p.pos).takeWhile fun t => t.kind != .eof).length

theorem takeWhile_ne_eof {ts us : List Token} (hts : ∀ t ∈ ts, t.kind ≠ .eof)
    (hus : ∀ t ∈ us.head?, t.kind = .eof) :
    (ts ++ us).takeWhile (fun t => t.kind != .eof) = ts := by
  rw [List.takeWhile_append_of_pos (fun t ht => bne_iff_ne.2 (hts t ht))]
  cases us with
  | nil => rw [List.takeWhile_nil, List.append_nil]
  | cons t us =>
    rw [List.takeWhile_cons_of_neg (by rw [hus t rfl]; decide), List.append_nil]

theorem parse_eq_of_front {front rest rest' : List Token} {e : Token}
    (hfront : ∀ t ∈ front, t.kind ≠ .eof) (he : e.kind = .eof) :
    parse (front ++ e :: rest') = parse (front ++ e :: rest) := by
  have hend : ∀ {us : List Token}, ∀ t ∈ (e :: us).head?, t.kind = .eof := by
    rintro us _ ⟨⟩
    exact he
  cases h : parse (front ++ e :: rest) with
  | ok p =>
    obtain ⟨us, vs, heq, hus, hvs⟩ := parse_eq_ok_iff.1 h
    have hsame : us = front := by
      rw [← takeWhile_ne_eof (program_bracketed hus).kind_ne_eof hvs, ← heq,
        takeWhile_ne_eof hfront hend]
    subst hsame
    exact parse_eq_ok_iff.2 ⟨us, e :: rest', rfl, hus, hend⟩
  | error fault =>
    cases Reader.program_steady.promptAt (.ofTokens (front ++ e :: rest)) with
    | ok hts hp hx =>
      rw [parse, hx _ _ hp rfl] at h
      cases h
    | @error fault' kept last _ hkept hview hx =>
      obtain ⟨d, hd⟩ := hx _ hview
      rw [parse, hd] at h
      cases h
      have hne : ∀ t ∈ kept, t.kind ≠ .eof := by
        obtain ⟨p, more, hp, -⟩ := hkept
        exact fun t ht => (program_bracketed hp).kind_ne_eof t (List.mem_append_left _ ht)
      have hends : ∀ rest, front ++ [e] <+: (Cursor.ofTokens (front ++ e :: rest)).view := by
        intro rest
        have hprefix : front ++ [e] <+: front ++ e :: rest :=
          ⟨rest, by rw [List.append_assoc, List.singleton_append]⟩
        exact hprefix.trans (List.prefix_append _ _)
      -- the token that the parser fails at is the end token at the latest
      have hlast : kept ++ [last] <+: front ++ [e] := by
        refine List.prefix_of_prefix_length_le hview (hends rest) ?_
        rw [List.length_append, List.length_append]
        refine Nat.add_le_add_right (Nat.le_of_not_lt fun hlt => ?_) 1
        have hin : front ++ [e] <+: kept := by
          refine List.prefix_of_prefix_length_le (hends rest)
            ((List.prefix_append kept [last]).trans hview) ?_
          rw [List.length_append]
          exact hlt
        exact hne e (hin.subset (by simp)) he
      obtain ⟨d', hd'⟩ := hx _ (hlast.trans (hends rest'))
      rw [parse, hd']

theorem parse_eq_of_take_eq {ts us : List Token}
    (h : us.take ((ts.takeWhile fun t => t.kind != .eof).length + 1) =
      ts.take ((ts.takeWhile fun t => t.kind != .eof).length + 1)) : parse us = parse ts := by
  have hfront : ∀ t ∈ ts.takeWhile fun t => t.kind != .eof, t.kind ≠ .eof :=
    fun t ht => bne_iff_ne.1 (List.all_eq_true.1 List.all_takeWhile t ht)
  have hsplit := List.takeWhile_append_dropWhile (p := fun t : Token => t.kind != .eof) (l := ts)
  generalize ts.takeWhile (fun t => t.kind != .eof) = front at h hfront hsplit
  cases hrest : ts.dropWhile fun t => t.kind != .eof with
  | nil =>
    rw [hrest, List.append_nil] at hsplit
    subst hsplit
    rw [List.take_of_length_le (Nat.le_succ _)] at h
    have hlength := congrArg List.length h
    rw [List.length_take] at hlength
    rw [← h, List.take_of_length_le (by omega)]
  | cons e rest =>
    have he : e.kind = .eof := by
      have hnot := List.head?_dropWhile_not (fun t : Token => t.kind != .eof) ts
      rw [hrest] at hnot
      simpa using hnot
    rw [hrest] at hsplit
    subst hsplit
    have htake : (front ++ e :: rest).take (front.length + 1) = front ++ [e] := by
      rw [List.take_length_add_append]
      rfl
    obtain ⟨rest', rfl⟩ : ∃ rest', us = front ++ e :: rest' := by
      have hus := List.take_append_drop (front.length + 1) us
      rw [h, htake, List.append_assoc] at hus
      exact ⟨_, hus.symm⟩
    exact parse_eq_of_front hfront he

theorem pos_eq_endPos {p q : Parser} (h : p.Onward q) (hq : q.peek.kind = .eof) :
    q.pos = p.endPos := by
  obtain ⟨ht, -, ts, hts, hpos, hne⟩ := h
  have hend : ∀ t ∈ (p.tokens.drop q.pos).head?, t.kind = .eof := by
    intro t hmem
    rw [List.head?_drop, ← ht] at hmem
    rwa [Parser.peek, hmem] at hq
  rw [Parser.endPos, hts, takeWhile_ne_eof hne hend, hpos]

/-- The parser comes to an end on all tokens.  Each round of its loops fails or passes a
token, and none passes an end token, nor does a whole call, which answers what the
reader answers and stops where it stops.  A program that is read ends at the first end
token, or with the tokens if there is none, and the answer depends on no token behind
that. -/
theorem parser_comes_to_an_end :
    (∀ fuel depth, (Method.expr fuel).Progresses fuel depth ∧
      Method.param.Progresses fuel depth ∧ Method.field.Progresses fuel depth) ∧
    (∀ fuel, (Method.stmt fuel).Progresses fuel 0 ∧ (Method.decl fuel).Progresses fuel 0) ∧
    ∀ (tokens : List Token) (pos : Nat), ∃ q,
      (∀ fuel, tokens.length < fuel →
        (program fuel).runOn ⟨tokens, pos, 0⟩ = some (parse (tokens.drop pos), q)) ∧
      Parser.Onward ⟨tokens, pos, 0⟩ q ∧
      Reader.program (Parser.cursor ⟨tokens, pos, 0⟩) =
        answer (parse (tokens.drop pos)) q.cursor ∧
      (∀ p, parse (tokens.drop pos) = .ok p → q.pos = Parser.endPos ⟨tokens, pos, 0⟩) ∧
      ∀ us : List Token, us.take (Parser.endPos ⟨tokens, pos, 0⟩ + 1) =
          tokens.take (Parser.endPos ⟨tokens, pos, 0⟩ + 1) →
        parse (us.drop pos) = parse (tokens.drop pos) := by
  refine ⟨fun fuel d => ⟨expr_progresses fuel d, param_progresses fuel d, field_progresses fuel d⟩,
    fun fuel => ⟨stmt_progresses fuel, decl_progresses fuel⟩, fun tokens pos => ?_⟩
  obtain ⟨q, hx, hon, hy⟩ := runOn_program tokens pos
  refine ⟨q, hx, hon, hy, fun p hp => ?_, fun us hus => ?_⟩
  · rw [hp] at hy
    obtain ⟨-, -, -, heof⟩ := Reader.program_eq_ok.1 hy
    exact pos_eq_endPos hon (by rwa [Parser.peek_cursor] at heof)
  · refine parse_eq_of_take_eq ?_
    rw [List.take_drop, List.take_drop, ← Nat.add_assoc]
    exact congrArg (List.drop pos) hus

end TriadLang
