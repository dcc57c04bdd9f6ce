import TriadLang.Proofs.Tree.Progress

namespace TriadLang

open Method

namespace Parser

variable {tokens : List Token} {p q : Parser}

/-- A call of the parser, with fuel for more rounds than it has tokens. -/
def call (p : Parser) : Option (Except ParseFault Program × Parser) :=
  (program (p.tokens.length + 1)).runOn p

/-- The parser after so many calls, unless one of them has no answer. -/
def after (tokens : List Token) : Nat → Option Parser
  | 0 => some { tokens }
  | n + 1 => (after tokens n).bind fun p => p.call.map Prod.snd

/-- The answer of the next call after so many. -/
def nextAnswer (tokens : List Token) (n : Nat) : Option (Except ParseFault Program) :=
  (after tokens n).bind fun p => p.call.map Prod.fst

/-- Between two calls a parser for some tokens is at depth zero, not behind their end. -/
structure Idle (tokens : List Token) (p : Parser) : Prop where
  tokens_eq : p.tokens = tokens
  depth_eq : p.depth = 0
  pos_le : p.pos ≤ tokens.length

theorem idle_new (tokens : List Token) : Idle tokens { tokens } := ⟨rfl, rfl, Nat.zero_le _⟩

/-- What one call does, from any place between two calls. -/
theorem Idle.exists_call (h : p.Idle tokens) :
    ∃ q, p.call = some (parse (tokens.drop p.pos), q) ∧ p.Onward q ∧ q.Idle tokens ∧
      Reader.program p.cursor = answer (parse (tokens.drop p.pos)) q.cursor := by
  obtain ⟨rfl, hd, hle⟩ := h
  obtain ⟨ts, pos, depth⟩ := p
  subst hd
  obtain ⟨q, hx, hon, hy⟩ := runOn_program ts pos
  exact ⟨q, hx _ (Nat.lt_succ_self _), hon, ⟨hon.tokens, hon.depth, hon.pos_le_length hle⟩, hy⟩

theorem Idle.eq_of_pos (h : p.Idle tokens) (h' : q.Idle tokens) (hpos : q.pos = p.pos) :
    q = p := by
  obtain ⟨ts, pos, depth⟩ := p
  obtain ⟨ts', pos', depth'⟩ := q
  rw [mk.injEq]
  exact ⟨h'.tokens_eq.trans h.tokens_eq.symm, hpos, h'.depth_eq.trans h.depth_eq.symm⟩

theorem Idle.call_of_eof (h : p.Idle tokens) (hp : p.peek.kind = .eof) :
    p.call = some (.ok {}, p) := by
  obtain ⟨q, hx, hon, -, hy⟩ := h.exists_call
  rw [program_of_eof (by rwa [peek_cursor])] at hy
  obtain ⟨hparse, hcursor⟩ := answer_eq_ok.1 hy.symm
  rw [hx, hparse, hon.eq_of_cursor (.refl p) hcursor]

theorem exists_after (tokens : List Token) (n : Nat) :
    ∃ p, after tokens n = some p ∧ p.Idle tokens := by
  induction n with
  | zero => exact ⟨_, rfl, idle_new tokens⟩
  | succ n ih =>
    obtain ⟨p, hp, hidle⟩ := ih
    obtain ⟨q, hx, -, hq, -⟩ := hidle.exists_call
    refine ⟨q, ?_, hq⟩
    rw [after, hp, Option.bind_some, hx]
    rfl

/-- A call that leaves the parser where it is gives the same answer ever after. -/
theorem nextAnswer_of_fixed {n : Nat} {r : Except ParseFault Program}
    (hp : after tokens n = some p) (h : p.call = some (r, p)) {m : Nat} (hm : n ≤ m) :
    nextAnswer tokens m = some r := by
  have hafter : after tokens m = some p := by
    induction hm with
    | refl => exact hp
    | step _ ih =>
      rw [after, ih, Option.bind_some, h]
      rfl
  rw [nextAnswer, hafter, Option.bind_some, h]
  rfl

end Parser

/-- However often a parser was called, it is at depth zero and not behind the end of its
tokens.  The next call goes on or stays, leaves the depth as it is, and answers what the
tokens that are left are read as, which is what a new parser answers for them, and what
the reader answers that goes on where the parser is.  Behind a call that succeeds all
read an empty program, and behind one that fails and took no token all fail alike. -/
theorem parser_recalled (tokens : List Token) (n : Nat) : ∃ p r q,
    Parser.after tokens n = some p ∧ p.depth = 0 ∧ p.pos ≤ tokens.length ∧
    p.call = some (r, q) ∧ Parser.after tokens (n + 1) = some q ∧
    q.depth = 0 ∧ p.pos ≤ q.pos ∧ q.pos ≤ tokens.length ∧
    r = parse (tokens.drop p.pos) ∧ Reader.program p.cursor = answer r q.cursor ∧
    (Parser.call { tokens := tokens.drop p.pos }).map Prod.fst = some r ∧
    (∀ a, r = .ok a → ∀ m, n < m → Parser.nextAnswer tokens m = some (.ok {})) ∧
    ∀ fault, r = .error fault → q.pos = p.pos →
      ∀ m, n < m → Parser.nextAnswer tokens m = some (.error fault) := by
  obtain ⟨p, hp, hidle⟩ := Parser.exists_after tokens n
  obtain ⟨q, hx, hon, hq, hy⟩ := hidle.exists_call
  have hnext : Parser.after tokens (n + 1) = some q := by
    rw [Parser.after, hp, Option.bind_some, hx]
    rfl
  obtain ⟨q', hnew, -⟩ := (Parser.idle_new (tokens.drop p.pos)).exists_call
  refine ⟨p, _, q, hp, hidle.depth_eq, hidle.pos_le, hx, hnext, hq.depth_eq, hon.pos_le,
    hq.pos_le, rfl, hy, by rw [hnew]; rfl, ?_, ?_⟩
  · intro a ha m hm
    rw [ha] at hy
    obtain ⟨-, -, -, heof⟩ := Reader.program_eq_ok.1 hy
    exact Parser.nextAnswer_of_fixed hnext
      (hq.call_of_eof (by rwa [Parser.peek_cursor] at heof)) hm
  · intro fault hfault hpos m hm
    have hsame := hidle.eq_of_pos hq hpos
    rw [hfault, hsame] at hx
    exact Parser.nextAnswer_of_fixed hp hx (Nat.le_of_lt hm)

end TriadLang
