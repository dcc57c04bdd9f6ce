import TriadLang.Proofs.Tree.Counted
import TriadLang.Proofs.Tree.Reading

/-!
# Counting and reading

The parser that counts does what the readers do.  Wherever it stands, each of its
methods comes to an end if there is more fuel than there are tokens left, with the
answer that the reader has at those tokens; the tokens in between are passed, none of
them an end token, and the depth is what it was before, whether there is a fault or
not.

Inside of `d` calls a method for expressions does what the reader does whose budget
is what `d` leaves of `maxNesting`.  The inductions are on the fuel: each round of a
loop and each call inside of another passes a token, so there is enough for the rest.
-/

namespace TriadLang

namespace Parser

/-- Where a parser stands, as the readers see it. -/
def cursor (p : Parser) : Cursor where
  rest := p.tokens.drop p.pos
  stop := (Cursor.ofTokens p.tokens).stop

variable {p q r : Parser}

theorem peek_cursor (p : Parser) : p.cursor.peek = p.peek := by
  rw [Cursor.peek, List.headD_eq_head?_getD]
  show (p.tokens.drop p.pos).head?.getD _ = _
  rw [List.head?_drop]
  rfl

theorem advance_cursor (p : Parser) : p.advance.cursor = p.cursor.advance := by
  rw [advance]
  split
  · exact Cursor.ext List.tail_drop.symm rfl
  · next h =>
    refine Cursor.ext ?_ rfl
    show p.tokens.drop p.pos = (p.tokens.drop p.pos).tail
    rw [List.drop_eq_nil_of_le (Nat.not_lt.1 h)]
    rfl

theorem left_cursor (p : Parser) : p.cursor.left = p.tokens.length - p.pos := List.length_drop

theorem left_advance_lt (h : p.peek.kind ≠ .eof) : p.advance.cursor.left < p.cursor.left := by
  rw [advance_cursor]
  exact (Cursor.passes_advance (by rwa [peek_cursor])).left_lt

theorem peek_of_le (h : p.tokens.length ≤ p.pos) : p.peek.kind = .eof := by
  rw [peek, List.getElem?_eq_none h]
  rfl

/-- What a method leaves behind: the tokens and the depth are as before, and tokens
were passed, none of which ends a text. -/
structure Onward (p q : Parser) : Prop where
  tokens : q.tokens = p.tokens
  depth : q.depth = p.depth
  passed : ∃ ts, p.tokens.drop p.pos = ts ++ p.tokens.drop q.pos ∧ q.pos = p.pos + ts.length ∧
    ∀ t ∈ ts, t.kind ≠ .eof

namespace Onward

theorem refl (p : Parser) : p.Onward p := ⟨rfl, rfl, [], rfl, rfl, by simp⟩

theorem trans (h : p.Onward q) (h' : q.Onward r) : p.Onward r := by
  obtain ⟨ht, hd, ts, hts, hpos, hne⟩ := h
  obtain ⟨ht', hd', us, hus, hpos', hne'⟩ := h'
  rw [ht] at hus
  refine ⟨ht'.trans ht, hd'.trans hd, ts ++ us, ?_, ?_, List.forall_mem_append.2 ⟨hne, hne'⟩⟩
  · rw [hts, hus, List.append_assoc]
  · rw [hpos', hpos, List.length_append, Nat.add_assoc]

theorem advance (h : p.peek.kind ≠ .eof) : p.Onward p.advance := by
  have hlt : p.pos < p.tokens.length := Nat.lt_of_not_le fun hle => h (peek_of_le hle)
  have hpeek : p.peek = p.tokens[p.pos] := by
    rw [peek, List.getElem?_eq_getElem hlt]
    rfl
  rw [Parser.advance, if_pos hlt]
  refine ⟨rfl, rfl, [p.peek], ?_, rfl, by simpa using h⟩
  rw [hpeek]
  exact List.drop_eq_getElem_cons hlt

theorem pos_le (h : p.Onward q) : p.pos ≤ q.pos := by
  obtain ⟨-, -, ts, -, hpos, -⟩ := h
  exact Nat.le.intro hpos.symm

theorem pos_le_length (h : p.Onward q) (hp : p.pos ≤ p.tokens.length) :
    q.pos ≤ p.tokens.length := by
  obtain ⟨-, -, ts, hts, hpos, -⟩ := h
  have hlength := congrArg List.length hts
  rw [List.length_append, List.length_drop, List.length_drop] at hlength
  omega

theorem left_le (h : p.Onward q) : q.cursor.left ≤ p.cursor.left := by
  obtain ⟨ht, -, ts, hts, -, -⟩ := h
  show (q.tokens.drop q.pos).length ≤ (p.tokens.drop p.pos).length
  rw [hts, ht, List.length_append]
  exact Nat.le_add_left ..

theorem eq_of_cursor (h : p.Onward q) (h' : p.Onward r) (hc : q.cursor = r.cursor) : q = r := by
  obtain ⟨tokens, pos, depth⟩ := q
  obtain ⟨tokens', pos', depth'⟩ := r
  obtain ⟨rfl, rfl, ts, hts, hpos, -⟩ := h
  obtain ⟨rfl, rfl, us, hus, hpos', -⟩ := h'
  have hrest : p.tokens.drop pos = p.tokens.drop pos' := congrArg Cursor.rest hc
  dsimp only at hts hus hpos hpos'
  have hlength := congrArg List.length (hts.symm.trans hus)
  rw [hrest, List.length_append, List.length_append] at hlength
  rw [mk.injEq]
  exact ⟨rfl, by omega, rfl⟩

end Onward

end Parser

/-! ## Methods and readers -/

/-- What a reader answers when it stops at a cursor. -/
def answer {α : Type} : Except ParseFault α → Cursor → EStateM.Result ParseFault Cursor α
  | .ok a, c => .ok a c
  | .error fault, c => .error fault c

theorem answer_inj {α : Type} {r r' : Except ParseFault α} {c c' : Cursor}
    (h : answer r c = answer r' c') : r = r' ∧ c = c' := by
  cases r <;> cases r' <;> cases h <;> exact ⟨rfl, rfl⟩

theorem answer_eq_ok {α : Type} {r : Except ParseFault α} {a : α} {c c' : Cursor} :
    answer r c = .ok a c' ↔ r = .ok a ∧ c = c' := by
  cases r with
  | ok b => rw [answer, EStateM.Result.ok.injEq, Except.ok.injEq]
  | error fault => simp [answer]

/-- On one parser a method comes to an end and does what a reader does there. -/
def FollowsAt {α : Type} (p : Parser) (x : Method α) (y : Reader α) : Prop :=
  ∃ r q, x.runOn p = some (r, q) ∧ p.Onward q ∧ y p.cursor = answer r q.cursor

/-- Inside of so many calls a method does what a reader does, wherever there are fewer
tokens left than there is fuel. -/
def Follows {α : Type} (fuel depth : Nat) (x : Method α) (y : Reader α) : Prop :=
  ∀ p : Parser, p.depth = depth → p.cursor.left < fuel → FollowsAt p x y

open TriadLang.Parser Method

section

variable {α β : Type} {fuel d : Nat} {p : Parser} {x : Method α} {y : Reader α} {f : α → Method β}
  {g : α → Reader β}

theorem followsAt_pure (p : Parser) (a : α) : FollowsAt p (pure a) (pure a) :=
  ⟨.ok a, p, rfl, .refl p, rfl⟩

theorem followsAt_throw (p : Parser) (fault : ParseFault) :
    FollowsAt p (throw fault : Method α) (throw fault) := ⟨.error fault, p, rfl, .refl p, rfl⟩

theorem follows_pure (a : α) : Follows fuel d (pure a) (pure a) :=
  fun p _ _ => followsAt_pure p a

theorem FollowsAt.bind (h : FollowsAt p x y) (hf : ∀ a q, p.Onward q → FollowsAt q (f a) (g a)) :
    FollowsAt p (x >>= f) (y >>= g) := by
  obtain ⟨r, q, hx, hon, hy⟩ := h
  cases r with
  | error fault =>
    exact ⟨.error fault, q, runOn_bind_of_error hx f, hon, bind_of_error hy g⟩
  | ok a =>
    obtain ⟨r', q', hx', hon', hy'⟩ := hf a q hon
    exact ⟨r', q', (runOn_bind_of_ok hx f).trans hx', hon.trans hon', (bind_of_ok hy g).trans hy'⟩

theorem Follows.bind (h : Follows fuel d x y) (hf : ∀ a, Follows fuel d (f a) (g a)) :
    Follows fuel d (x >>= f) (y >>= g) :=
  fun p hp hfuel => (h p hp hfuel).bind fun a q hon =>
    hf a q (hon.depth.trans hp) (Nat.lt_of_le_of_lt hon.left_le hfuel)

theorem Follows.map (h : Follows fuel d x y) (f : α → β) :
    Follows fuel d (x >>= fun a => pure (f a)) (y >>= fun a => pure (f a)) :=
  h.bind fun a => follows_pure (f a)

theorem followsAt_look {f : Token → Method α} {g : Token → Reader α}
    (h : FollowsAt p (f p.peek) (g p.peek)) : FollowsAt p (look >>= f) (Reader.peek >>= g) := by
  obtain ⟨r, q, hf, hon, hg⟩ := h
  refine ⟨r, q, hf, hon, ?_⟩
  rw [bind_of_ok (show Reader.peek p.cursor = .ok p.cursor.peek p.cursor from rfl), peek_cursor, hg]

theorem followsAt_skip {f : Unit → Method α} {g : Unit → Reader α} (hk : p.peek.kind ≠ .eof)
    (h : FollowsAt p.advance (f ()) (g ())) : FollowsAt p (skip >>= f) (Reader.skip >>= g) := by
  obtain ⟨r, q, hf, hon, hg⟩ := h
  refine ⟨r, q, hf, (Onward.advance hk).trans hon, ?_⟩
  rw [bind_of_ok (show Reader.skip p.cursor = .ok () p.cursor.advance from rfl),
    ← advance_cursor, hg]

theorem follows_consume {k : Kind} (hk : k ≠ .eof) :
    Follows fuel d (consume k) (Reader.expect k) := by
  refine fun p _ _ => followsAt_look ?_
  split
  · next hp => exact followsAt_skip (by rwa [hp]) (followsAt_pure _ _)
  · exact followsAt_throw _ _

theorem follows_eat {k : Kind} (hk : k ≠ .eof) : Follows fuel d (eat k) (Reader.accept k) := by
  refine fun p _ _ => followsAt_look ?_
  split
  · next hp => exact followsAt_skip (by rwa [hp]) (followsAt_pure _ _)
  · exact followsAt_pure _ _

theorem follows_ident : Follows fuel d Method.ident Reader.ident :=
  (follows_consume (by decide)).map _

theorem follows_optional {k : Kind} (hk : k ≠ .eof) (h : Follows fuel d x y) :
    Follows fuel d (optional k x) (Reader.after? k y) := by
  refine (follows_eat hk).bind fun taken => ?_
  cases taken with
  | true => exact h.map _
  | false => exact follows_pure _

/-- Each time a reader answers with a value it has taken a token. -/
def Advancing (y : Reader α) : Prop := ∀ {c c' : Cursor} {a : α}, y c = .ok a c' → c'.left < c.left

theorem advancing_of_reads {L : Spelling α} {next : Kind → Prop} (h : Reader.Reads y L next)
    {first : Token → Prop} (hfirst : ∀ a ts, L a ts → ∃ t us, ts = t :: us ∧ first t) :
    Advancing y := by
  intro c c' a hy
  obtain ⟨ts, hts, hp⟩ := h.sound hy
  obtain ⟨t, us, rfl, -⟩ := hfirst a ts hts
  exact hp.left_lt

/-- Each round of a loop over items that take tokens leaves fewer tokens, so the reader
that stops as soon as a round takes none does not stop earlier. -/
theorem follows_collect {stop : Kind → Bool} (h : Follows fuel d x y) (hy : Advancing y)
    {rounds : Nat} (hrounds : rounds ≤ fuel) (read : List α) :
    Follows rounds d (collect stop x rounds read) (Reader.repeatUntil stop y read) := by
  intro p hp hleft
  induction rounds generalizing p read with
  | zero => exact absurd hleft (Nat.not_lt_zero _)
  | succ rounds ih =>
    rw [collect, FollowsAt, Reader.repeatUntil, peek_cursor]
    split
    · next hs =>
      refine ⟨.ok read.reverse, p, ?_, .refl p, rfl⟩
      rw [runOn_bind_of_ok (runOn_look p), if_pos hs]
      rfl
    · next hs =>
      rw [runOn_bind_of_ok (runOn_look p), if_neg hs]
      obtain ⟨r, q, hx, hon, hy'⟩ := h p hp (by omega)
      rw [hy']
      cases r with
      | error fault => exact ⟨.error fault, q, runOn_bind_of_error hx _, hon, rfl⟩
      | ok a =>
        have hlt : q.cursor.left < p.cursor.left := hy hy'
        obtain ⟨r', q', hx', hon', hy''⟩ :=
          ih (by omega) (a :: read) q (hon.depth.trans hp) (by omega)
        refine ⟨r', q', (runOn_bind_of_ok hx _).trans hx', hon.trans hon', ?_⟩
        rw [← hy'']
        exact if_pos hlt

/-- Each round of a loop over items with commas between them takes a comma, so it
comes to an end whatever the items take. -/
theorem follows_commas (h : Follows fuel d x y) {rounds : Nat} (hrounds : rounds ≤ fuel)
    (read : List α) : Follows rounds d (commas x rounds read) (Reader.separated y read) := by
  intro p hp hleft
  induction rounds generalizing p read with
  | zero => exact absurd hleft (Nat.not_lt_zero _)
  | succ rounds ih =>
    rw [commas, FollowsAt, Reader.separated]
    obtain ⟨r, q, hx, hon, hy⟩ := h p hp (by omega)
    rw [hy]
    cases r with
    | error fault => exact ⟨.error fault, q, runOn_bind_of_error hx _, hon, rfl⟩
    | ok a =>
      rw [runOn_bind_of_ok hx, answer]
      dsimp only
      by_cases hk : q.peek.kind = .comma
      · have hne : q.peek.kind ≠ .eof := by
          rw [hk]
          decide
        have hstep := Onward.advance hne
        have hlt : q.advance.cursor.left < p.cursor.left :=
          Nat.lt_of_lt_of_le (left_advance_lt hne) hon.left_le
        obtain ⟨r', q', hx', hon', hy'⟩ := ih (by omega) (a :: read) q.advance
          (hstep.depth.trans (hon.depth.trans hp)) (by omega)
        rw [advance_cursor] at hlt hy'
        rw [runOn_bind_of_ok (runOn_eat_of_eq hk), if_pos rfl, peek_cursor, if_pos ⟨hk, hlt⟩]
        exact ⟨r', q', hx', hon.trans (hstep.trans hon'), hy'⟩
      · rw [runOn_bind_of_ok (runOn_eat_of_ne hk), if_neg Bool.false_ne_true, peek_cursor,
          if_neg fun hc => hk hc.1]
        exact ⟨.ok (a :: read).reverse, q, rfl, hon, rfl⟩

theorem follows_commaList (h : Follows fuel d x y) :
    Follows fuel d (Method.commaList x fuel) (Reader.commaList y) := by
  refine fun p hp hfuel => followsAt_look ?_
  split
  · exact followsAt_pure _ _
  · exact follows_commas h (Nat.le_refl fuel) [] p hp hfuel

theorem follows_integer (t : Token) : Follows fuel d (Method.integer t) (Reader.integer t) := by
  intro p _ _
  rw [Method.integer, Reader.integer]
  cases readInteger? t.lexeme with
  | some n => exact followsAt_pure _ _
  | none => exact followsAt_throw _ _

theorem followsAt_literal {t : Token} {value : Method Literal} {value' : Reader Literal}
    {r : Except ParseFault Literal} (hk : p.peek.kind ≠ .eof)
    (hx : value.runOn p = some (r, p)) (hy : value' p.cursor = answer r p.cursor) :
    FollowsAt p (Method.literal t value) (Reader.literal t value') := by
  cases r with
  | error fault => exact ⟨.error fault, p, runOn_bind_of_error hx _, .refl p, bind_of_error hy _⟩
  | ok l =>
    obtain ⟨r, q, hx', hon, hy'⟩ := followsAt_skip (f := fun _ => pure (Expr.literal l t.span))
      (g := fun _ => pure (.literal l t.span)) hk (followsAt_pure _ _)
    exact ⟨r, q, (runOn_bind_of_ok hx _).trans hx', hon, (bind_of_ok hy _).trans hy'⟩

theorem exists_runOn_number (p : Parser) (t : Token) : ∃ r,
    (Literal.int <$> Method.integer t).runOn p = some (r, p) ∧
      (Literal.int <$> Reader.integer t) p.cursor = answer r p.cursor := by
  rw [Method.integer, Reader.integer]
  cases readInteger? t.lexeme with
  | some n => exact ⟨.ok (.int n), rfl, rfl⟩
  | none => exact ⟨.error (.numberOutOfRange t.lexeme t.span), rfl, rfl⟩

/-- What is inside of a call is one deeper; behind it the depth is as it was. -/
theorem follows_nested (h : Follows fuel (d + 1) x y) : Follows fuel d (nested x) y := by
  intro p hp hfuel
  obtain ⟨r, q, hx, ⟨ht, hd, hpassed⟩, hy⟩ := h p.deeper (congrArg (· + 1) hp) hfuel
  refine ⟨r, q.shallower, runOn_nested hx, ⟨ht, ?_, hpassed⟩, hy⟩
  rw [shallower, hd]
  rfl

theorem follows_exprWith {arguments : Span → Reader (List Expr)}
    (h : ∀ s (f : List Expr → Method Expr) (g : List Expr → Reader Expr),
      (∀ as, Follows fuel d (f as) (g as)) →
      Follows fuel d (do
        if maxNesting ≤ (← get).depth then throw (.nestingTooDeep maxNesting s)
        else nested (Method.commaList (Method.expr fuel) fuel) >>= f) (arguments s >>= g)) :
    Follows (fuel + 1) d (Method.expr (fuel + 1)) (Reader.exprWith arguments) := by
  rw [Method.expr]
  refine fun p hp hfuel => followsAt_look ?_
  generalize ht : p.peek = t
  obtain ⟨k, lexeme, span⟩ := t
  have hk : p.peek.kind = k := by rw [ht]
  cases k
  case ident =>
    have hne : p.peek.kind ≠ .eof := by
      rw [hk]
      decide
    refine followsAt_skip hne ?_
    refine (follows_eat (by decide)).bind (fun opened => ?_) p.advance
      ((Onward.advance hne).depth.trans hp)
      (Nat.lt_of_lt_of_le (left_advance_lt hne) (Nat.le_of_lt_succ hfuel))
    cases opened with
    | true => exact h _ _ _ fun as => (follows_consume (by decide)).map _
    | false => exact follows_pure _
  case number =>
    obtain ⟨r, hx, hy⟩ := exists_runOn_number p ⟨.number, lexeme, span⟩
    exact followsAt_literal (by rw [hk]; decide) hx hy
  case litTrue => exact followsAt_literal (r := .ok (.bool true)) (by rw [hk]; decide) rfl rfl
  case litFalse => exact followsAt_literal (r := .ok (.bool false)) (by rw [hk]; decide) rfl rfl
  case uncertain => exact followsAt_literal (r := .ok (.text lexeme)) (by rw [hk]; decide) rfl rfl
  all_goals exact followsAt_throw _ _

theorem follows_expr (fuel d : Nat) :
    Follows fuel d (Method.expr fuel) (Reader.expr (maxNesting - d)) := by
  induction fuel generalizing d with
  | zero => exact fun p _ hfuel => absurd hfuel (Nat.not_lt_zero _)
  | succ fuel ih =>
    have hinner := ih (d + 1)
    cases hbudget : maxNesting - d with
    | zero =>
      refine follows_exprWith fun s f g _ p hp _ => ?_
      have hdeep : maxNesting ≤ p.depth := by omega
      refine ⟨.error (.nestingTooDeep maxNesting s), p, ?_, .refl p, rfl⟩
      rw [runOn_bind_of_ok (runOn_get p), if_pos hdeep]
      rfl
    | succ budget =>
      rw [show maxNesting - (d + 1) = budget by omega] at hinner
      refine follows_exprWith fun s f g hfg p hp hfuel => ?_
      have hshallow : ¬ maxNesting ≤ p.depth := by omega
      obtain ⟨r, q, hx, hon, hy⟩ :=
        ((follows_nested (follows_commaList hinner)).bind hfg) p hp hfuel
      refine ⟨r, q, ?_, hon, hy⟩
      rw [runOn_bind_of_ok (runOn_get p), if_neg hshallow, hx]

theorem follows_expr_zero : Follows fuel 0 (Method.expr fuel) (Reader.expr maxNesting) :=
  follows_expr fuel 0

theorem followsAt_varDecl (hp : p.depth = 0) (hfuel : p.cursor.left < fuel)
    (hk : p.peek.kind ≠ .eof) : FollowsAt p (Method.varDecl fuel) Reader.varDecl := by
  refine followsAt_look (followsAt_skip hk ?_)
  have hon := Onward.advance hk
  refine (follows_ident.bind fun ident => ?_) p.advance (hon.depth.trans hp)
    (Nat.lt_of_le_of_lt hon.left_le hfuel)
  refine (follows_optional (by decide) follows_ident).bind fun type? => ?_
  refine (follows_optional (by decide) follows_expr_zero).bind fun initial? => ?_
  exact (follows_consume (by decide)).map _

theorem follows_stmt : Follows fuel 0 (Method.stmt fuel) Reader.stmt := by
  refine fun p hp hfuel => followsAt_look ?_
  have hexpr := (follows_expr_zero.bind fun value =>
    (follows_consume (k := .semicolon) (by decide)).map fun _ => Stmt.expr value) p hp hfuel
  cases hk : p.peek.kind
  case immutable | mutable =>
    exact (followsAt_varDecl hp hfuel (by rw [hk]; decide)).bind fun v q _ => followsAt_pure q _
  all_goals exact hexpr

theorem stmt_advancing : Advancing Reader.stmt :=
  advancing_of_reads Reader.stmt_reads fun _ _ h => h.first

theorem follows_block : Follows fuel 0 (Method.block fuel) Reader.block := by
  refine (follows_consume (by decide)).bind fun opening => ?_
  refine (follows_collect follows_stmt stmt_advancing (Nat.le_refl fuel) []).bind fun stmts => ?_
  exact (follows_consume (by decide)).map _

theorem follows_param : Follows fuel d Method.param Reader.param := by
  refine follows_ident.bind fun ident => ?_
  refine (follows_consume (by decide)).bind fun _ => ?_
  exact follows_ident.map _

theorem follows_function (isFractal : Bool) :
    Follows fuel 0 (Method.function fuel isFractal) (Reader.function isFractal) := by
  refine fun p hp hfuel => followsAt_look ?_
  split
  · next hw =>
    have hk : p.peek.kind ≠ .eof := by
      rw [Token.kind_of_isFunctionWord hw]
      decide
    have hon := Onward.advance hk
    refine followsAt_skip hk ((follows_ident.bind fun ident => ?_) p.advance
      (hon.depth.trans hp) (Nat.lt_of_le_of_lt hon.left_le hfuel))
    refine (follows_consume (by decide)).bind fun _ => ?_
    refine (follows_commaList follows_param).bind fun params => ?_
    refine (follows_consume (by decide)).bind fun _ => ?_
    refine (follows_optional (by decide) follows_ident).bind fun result? => ?_
    exact follows_block.map _
  · exact followsAt_throw _ _

theorem follows_arraySize : Follows fuel d Method.arraySize Reader.arraySize := by
  refine (follows_consume (by decide)).bind fun t => ?_
  refine (follows_integer t).bind fun size => ?_
  exact (follows_consume (by decide)).map _

theorem follows_field : Follows fuel d Method.field Reader.field := by
  refine follows_ident.bind fun ident => ?_
  refine (follows_consume (by decide)).bind fun _ => ?_
  refine follows_ident.bind fun type => ?_
  refine (follows_optional (by decide) follows_arraySize).bind fun arraySize? => ?_
  exact (follows_consume (by decide)).map _

theorem field_advancing : Advancing Reader.field :=
  advancing_of_reads Reader.field_reads fun _ _ h => h.first

theorem follows_triad : Follows fuel d (Method.triad fuel) Reader.triad := by
  refine (follows_consume (by decide)).bind fun _ => ?_
  refine follows_ident.bind fun ident => ?_
  refine (follows_consume (by decide)).bind fun _ => ?_
  refine (follows_collect follows_field field_advancing (Nat.le_refl fuel) []).bind
    fun fields => ?_
  exact (follows_consume (by decide)).map _

theorem follows_decl : Follows fuel 0 (Method.decl fuel) Reader.decl := by
  refine fun p hp hfuel => followsAt_look ?_
  split
  · exact (follows_triad.map _) p hp hfuel
  split
  · next hk =>
    have hne : p.peek.kind ≠ .eof := by
      rw [hk]
      decide
    have hon := Onward.advance hne
    exact followsAt_skip hne (((follows_function true).map _) p.advance
      (hon.depth.trans hp) (Nat.lt_of_le_of_lt hon.left_le hfuel))
  split
  · exact ((follows_function false).map _) p hp hfuel
  · exact followsAt_throw _ _

theorem decl_advancing : Advancing Reader.decl :=
  advancing_of_reads Reader.decl_reads fun _ _ h => h.first

theorem follows_program : Follows fuel 0 (Method.program fuel) Reader.program :=
  (follows_collect follows_decl decl_advancing (Nat.le_refl fuel) []).map _

end

end TriadLang
