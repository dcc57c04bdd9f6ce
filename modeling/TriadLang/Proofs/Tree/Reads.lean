import TriadLang.Proofs.Stateful
import TriadLang.Proofs.Tree.Grammar

/-!
# Readers and spellings

A reader reads a spelling if it answers with a value exactly where the tokens at
the cursor spell it, up to the token after them: a name that is followed by an
opening parenthesis is not read as a name.  Readers that are put together from
other ones read the spelling that is put together in the same way.
-/

namespace TriadLang

namespace Cursor

/-- The cursor `d` stands behind the tokens `ts`, at the front of which `c`
stands. -/
def Passes (c : Cursor) (ts : List Token) (d : Cursor) : Prop :=
  c.rest = ts ++ d.rest ∧ c.stop = d.stop

variable {c d e : Cursor} {t : Token} {ts us : List Token}

theorem passes_nil : c.Passes [] d ↔ c = d := by
  constructor
  · rintro ⟨hr, hs⟩
    exact Cursor.ext hr hs
  · rintro rfl
    exact ⟨rfl, rfl⟩

theorem passes_append : c.Passes (ts ++ us) e ↔ ∃ d, c.Passes ts d ∧ d.Passes us e := by
  constructor
  · rintro ⟨hr, hs⟩
    refine ⟨⟨us ++ e.rest, e.stop, _, rfl⟩, ⟨?_, hs⟩, rfl, rfl⟩
    rw [hr, List.append_assoc]
  · rintro ⟨d, ⟨hr, hs⟩, hr', hs'⟩
    refine ⟨?_, hs.trans hs'⟩
    rw [hr, hr', List.append_assoc]

theorem passes_cons : c.Passes (t :: ts) e ↔ c.Passes [t] c.advance ∧ c.advance.Passes ts e := by
  constructor
  · rintro ⟨hr, hs⟩
    rw [List.cons_append] at hr
    refine ⟨⟨?_, rfl⟩, ?_, hs⟩
    · show c.rest = t :: c.rest.tail
      rw [hr]
      rfl
    · show c.rest.tail = _
      rw [hr]
      rfl
  · rintro ⟨⟨hr, -⟩, hr', hs'⟩
    refine ⟨?_, hs'⟩
    rw [hr, hr']
    rfl

theorem Passes.peek (h : c.Passes (t :: ts) d) : c.peek = t := by
  rw [Cursor.peek, h.1]
  rfl

theorem Passes.advance (h : c.Passes [t] d) : c.advance = d :=
  passes_nil.1 (passes_cons.1 h).2

theorem passes_advance (h : c.peek.kind ≠ .eof) : c.Passes [c.peek] c.advance := by
  refine ⟨?_, rfl⟩
  show c.rest = c.rest.headD (.eof c.stop) :: c.rest.tail
  cases hr : c.rest with
  | nil =>
    rw [Cursor.peek, hr] at h
    exact absurd rfl h
  | cons t ts => rfl

theorem Passes.left_lt (h : c.Passes (t :: ts) d) : d.left < c.left := by
  rw [c.left_eq, d.left_eq, h.1, List.length_append, List.length_cons]
  omega

theorem Passes.left_le (h : c.Passes ts d) : d.left ≤ c.left := by
  rw [c.left_eq, d.left_eq, h.1, List.length_append]
  omega

end Cursor

namespace Reader

variable {α β : Type} {c d : Cursor}

/-- A reader that reads the spelling `L`, as long as the token after it has a kind
that satisfies `next`. -/
structure Reads (x : Reader α) (L : Spelling α) (next : Kind → Prop) : Prop where
  sound : ∀ {c a d}, x c = .ok a d → ∃ ts, L a ts ∧ c.Passes ts d
  complete : ∀ {c a ts d}, L a ts → c.Passes ts d → next d.peek.kind → x c = .ok a d

/-- The token after a part may be any. -/
def Any (_ : Kind) : Prop := True

theorem expect_eq (k : Kind) (c : Cursor) :
    expect k c = if c.peek.kind = k then .ok c.peek c.advance
      else .error (.unexpected (.token k) c.peek.kind c.peek.span) c := by
  rw [expect, bind_of_ok (show peek c = .ok c.peek c from rfl)]
  split <;> rfl

theorem expect_eq_ok {k : Kind} (hk : k ≠ .eof) {t : Token} :
    expect k c = .ok t d ↔ t.kind = k ∧ c.Passes [t] d := by
  rw [expect_eq]
  constructor
  · intro h
    split at h
    · next hp =>
      cases h
      exact ⟨hp, Cursor.passes_advance (by rw [hp]; exact hk)⟩
    · cases h
  · rintro ⟨ht, hp⟩
    rw [hp.peek, hp.advance, if_pos ht]

theorem ident_reads : Reads ident Ident.Spelled Any where
  sound h := by
    obtain ⟨t, c', ht, h⟩ := bind_eq_ok.1 h
    obtain ⟨rfl, rfl⟩ := pure_eq_ok.1 h
    obtain ⟨hk, hp⟩ := (expect_eq_ok (by decide)).1 ht
    exact ⟨[t], .mk hk, hp⟩
  complete h hp _ := by
    cases h with
    | mk hk => exact bind_of_ok ((expect_eq_ok (by decide)).2 ⟨hk, hp⟩) _

theorem accept_eq (k : Kind) (c : Cursor) :
    accept k c = if c.peek.kind = k then .ok true c.advance else .ok false c := by
  rw [accept, bind_of_ok (show peek c = .ok c.peek c from rfl)]
  split <;> rfl

theorem accept_of_passes {k : Kind} {t : Token} {ts : List Token} (hk : t.kind = k)
    (hp : c.Passes (t :: ts) d) : accept k c = .ok true c.advance := by
  rw [accept_eq, hp.peek, if_pos hk]

theorem accept_of_ne {k : Kind} (hk : c.peek.kind ≠ k) : accept k c = .ok false c := by
  rw [accept_eq, if_neg hk]

theorem peek_of_after {k : Kind} {L : Spelling α} {a : Option α} {ts : List Token}
    (h : Spelling.After k L a ts) (hp : c.Passes ts d) :
    c.peek.kind = k ∨ c.peek.kind = d.peek.kind := by
  cases h with
  | none => exact Or.inr (by rw [Cursor.passes_nil.1 hp])
  | some hk _ => exact Or.inl (by rw [hp.peek, hk])

theorem after?_reads {k : Kind} {item : Reader α} {L : Spelling α} {next : Kind → Prop}
    (hk : k ≠ .eof) (hi : Reads item L next) :
    Reads (after? k item) (Spelling.After k L) fun n => next n ∧ n ≠ k where
  sound {c a d} h := by
    rw [after?] at h
    by_cases hp : c.peek.kind = k
    · rw [bind_of_ok ((accept_eq k c).trans (if_pos hp))] at h
      obtain ⟨a, c', ha, h⟩ := bind_eq_ok.1 h
      obtain ⟨rfl, rfl⟩ := pure_eq_ok.1 h
      obtain ⟨ts, hts, hpass⟩ := hi.sound ha
      refine ⟨c.peek :: ts, .some hp hts, Cursor.passes_cons.2 ⟨?_, hpass⟩⟩
      exact Cursor.passes_advance (by rw [hp]; exact hk)
    · rw [bind_of_ok (accept_of_ne hp)] at h
      obtain ⟨rfl, rfl⟩ := pure_eq_ok.1 h
      exact ⟨[], .none, Cursor.passes_nil.2 rfl⟩
  complete {c a ts d} h hp hn := by
    rw [after?]
    cases h with
    | none =>
      cases Cursor.passes_nil.1 hp
      exact bind_of_ok (accept_of_ne hn.2) _
    | some ht ha =>
      rw [bind_of_ok (accept_of_passes ht hp)]
      exact bind_of_ok (hi.complete ha (Cursor.passes_cons.1 hp).2 hn.1) _

theorem repeatUntil_sound {stop : Kind → Bool} {item : Reader α} {L : Spelling α}
    {next : Kind → Prop} (hi : Reads item L next)
    (hfirst : ∀ a ts, L a ts → ∃ t us, ts = t :: us ∧ stop t.kind = false) (read as : List α)
    (h : repeatUntil stop item read c = .ok as d) :
    ∃ bs ts, as = read.reverse ++ bs ∧ Spelling.Many L bs ts ∧ c.Passes ts d ∧
      stop d.peek.kind = true := by
  induction hn : c.left using Nat.strongRecOn generalizing c read with
  | ind n ih =>
    rw [repeatUntil] at h
    split at h
    · next hs =>
      cases h
      exact ⟨[], [], (List.append_nil _).symm, .nil, Cursor.passes_nil.2 rfl, hs⟩
    · split at h
      · cases h
      · next a c' ha =>
        obtain ⟨ts, hts, hp⟩ := hi.sound ha
        obtain ⟨t, us, rfl, -⟩ := hfirst a ts hts
        rw [if_pos hp.left_lt] at h
        obtain ⟨bs, vs, rfl, hvs, hp', hs⟩ := ih c'.left (hn ▸ hp.left_lt) (a :: read) h rfl
        refine ⟨a :: bs, _, ?_, .cons hts hvs, Cursor.passes_append.2 ⟨c', hp, hp'⟩, hs⟩
        rw [List.reverse_cons, List.append_assoc]
        rfl

theorem repeatUntil_complete {stop : Kind → Bool} {item : Reader α} {L : Spelling α}
    (hi : Reads item L Any)
    (hfirst : ∀ a ts, L a ts → ∃ t us, ts = t :: us ∧ stop t.kind = false) {as : List α}
    {ts : List Token} (has : Spelling.Many L as ts) (read : List α) (hp : c.Passes ts d)
    (hs : stop d.peek.kind) : repeatUntil stop item read c = .ok (read.reverse ++ as) d := by
  induction has generalizing c read with
  | nil =>
    cases Cursor.passes_nil.1 hp
    rw [repeatUntil, if_pos hs, List.append_nil]
  | @cons a as ts us ha has ih =>
    obtain ⟨c', hp, hp'⟩ := Cursor.passes_append.1 hp
    have hok := hi.complete ha hp True.intro
    obtain ⟨t, vs, rfl, ht⟩ := hfirst a ts ha
    rw [repeatUntil, hp.peek, if_neg (by rw [ht]; decide), hok]
    dsimp only
    rw [if_pos hp.left_lt, ih (a :: read) hp', List.reverse_cons, List.append_assoc]
    rfl

theorem repeatUntil_reads {stop : Kind → Bool} {item : Reader α} {L : Spelling α}
    (hi : Reads item L Any)
    (hfirst : ∀ a ts, L a ts → ∃ t us, ts = t :: us ∧ stop t.kind = false) :
    Reads (repeatUntil stop item) (Spelling.Many L) fun n => stop n where
  sound h := by
    obtain ⟨bs, ts, rfl, hts, hp, -⟩ := repeatUntil_sound hi hfirst [] _ h
    exact ⟨ts, hts, hp⟩
  complete h hp hs := repeatUntil_complete hi hfirst h [] hp hs

theorem separated_sound {item : Reader α} {L : Spelling α} {next : Kind → Prop}
    (hi : Reads item L next) (read as : List α) (h : separated item read c = .ok as d) :
    ∃ bs ts, as = read.reverse ++ bs ∧ Spelling.Separated L bs ts ∧ c.Passes ts d := by
  induction hn : c.left using Nat.strongRecOn generalizing c read with
  | ind n ih =>
    rw [separated] at h
    split at h
    · cases h
    · next a c' ha =>
      obtain ⟨ts, hts, hp⟩ := hi.sound ha
      split at h
      · next hc =>
        obtain ⟨bs, us, rfl, hus, hp'⟩ := ih _ (hn ▸ hc.2) (a :: read) h rfl
        have hcomma := Cursor.passes_advance (c := c') (by rw [hc.1]; decide)
        refine ⟨a :: bs, _, ?_, .cons hts hc.1 hus,
          Cursor.passes_append.2 ⟨c', hp, Cursor.passes_cons.2 ⟨hcomma, hp'⟩⟩⟩
        rw [List.reverse_cons, List.append_assoc]
        rfl
      · cases h
        exact ⟨[a], ts, List.reverse_cons, .single hts, hp⟩

theorem separated_complete {item : Reader α} {L : Spelling α} {next : Kind → Prop}
    (hi : Reads item L next) (hcomma : next .comma) {as : List α} {ts : List Token}
    (has : Spelling.Separated L as ts) (read : List α) (hp : c.Passes ts d)
    (hn : next d.peek.kind) (hd : d.peek.kind ≠ .comma) :
    separated item read c = .ok (read.reverse ++ as) d := by
  induction has generalizing c read with
  | single ha =>
    rw [separated, hi.complete ha hp hn]
    dsimp only
    rw [if_neg fun h => hd h.1, List.reverse_cons]
  | @cons a as ts us comma ha hc _ ih =>
    obtain ⟨c', hp, hp'⟩ := Cursor.passes_append.1 hp
    obtain ⟨hone, hrest⟩ := Cursor.passes_cons.1 hp'
    have hk : c'.peek.kind = .comma := by rw [hp'.peek, hc]
    have hlt : c'.advance.left < c.left := Nat.lt_of_lt_of_le hone.left_lt hp.left_le
    rw [separated, hi.complete ha hp (by rw [hk]; exact hcomma)]
    dsimp only
    rw [if_pos ⟨hk, hlt⟩, ih (a :: read) hrest, List.reverse_cons, List.append_assoc]
    rfl

theorem separated_first {L : Spelling α} {p : Kind → Prop}
    (hfirst : ∀ a ts, L a ts → ∃ t us, ts = t :: us ∧ p t.kind) {as : List α} {ts : List Token}
    (h : Spelling.Separated L as ts) : ∃ t us, ts = t :: us ∧ p t.kind := by
  cases h with
  | single ha => exact hfirst _ _ ha
  | cons ha _ _ =>
    obtain ⟨t, us, rfl, ht⟩ := hfirst _ _ ha
    exact ⟨t, _, rfl, ht⟩

/-- Between parentheses the closing one decides whether anything is read. -/
theorem commaList_reads {item : Reader α} {L : Spelling α} {next : Kind → Prop}
    (hi : Reads item L next) (hcomma : next .comma) (hclose : next .closeParen)
    (hfirst : ∀ a ts, L a ts → ∃ t us, ts = t :: us ∧ t.kind ≠ .closeParen) :
    Reads (commaList item) (Spelling.CommaList L) fun n => n = .closeParen where
  sound {c as d} h := by
    rw [commaList, bind_of_ok (show peek c = .ok c.peek c from rfl)] at h
    split at h
    · obtain ⟨rfl, rfl⟩ := pure_eq_ok.1 h
      exact ⟨[], .nil, Cursor.passes_nil.2 rfl⟩
    · obtain ⟨bs, ts, rfl, hts, hp⟩ := separated_sound hi [] _ h
      exact ⟨ts, .some hts, hp⟩
  complete {c as ts d} h hp hn := by
    rw [commaList, bind_of_ok (show peek c = .ok c.peek c from rfl)]
    cases h with
    | nil =>
      cases Cursor.passes_nil.1 hp
      rw [if_pos hn]
      rfl
    | some h =>
      obtain ⟨t, us, rfl, ht⟩ := separated_first (p := (· ≠ .closeParen)) hfirst h
      rw [hp.peek, if_neg ht]
      exact separated_complete hi hcomma h [] hp (hn ▸ hclose) (by rw [hn]; decide)

end Reader

end TriadLang
