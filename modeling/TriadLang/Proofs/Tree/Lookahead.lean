import TriadLang.Proofs.Tree.Agreement
import TriadLang.Proofs.Tree.Reading
import TriadLang.Proofs.Tree.Writing

/-!
# Reading without delay

A reader looks at the tokens that it passes and at one more.  It is prompt if it fails
as soon as it has to: what it has passed by then could still be completed, and no other
tokens behind the one that it fails at would make it go on.

Readers that are put together from prompt ones are prompt.  Where one part is at fault,
the parts before it are complete and those behind it can be completed from nothing.
-/

namespace TriadLang

variable {α β : Type}

def Token.sample (k : Kind) : Token where
  kind := k
  lexeme := match k with
    | .ident => "x"
    | .number => "0"
    | .text => "\"\""
    | .eof => ""
    | k => k.spelling
  span := .zero

theorem Token.fits_sample (k : Kind) : (Token.sample k).Fits := by
  cases k
  case ident => exact (by decide : IsName "x")
  case number =>
    exact ⟨List.cons_ne_nil '0' [], List.forall_mem_singleton.2 (rfl : '0'.isDigit = true)⟩
  case text => exact ⟨['"'], rfl, rfl⟩
  all_goals rfl

namespace Spelling

/-- The tokens can be completed, so that they spell a value. -/
def Extends (L : Spelling α) (kept : List Token) : Prop :=
  ∃ a more, L a (kept ++ more) ∧ ∀ t ∈ more, t.kind ≠ .eof ∧ t.Fits

/-- How a value is spelled on, behind some tokens of it. -/
def behind (L : Spelling α) (ts : List Token) : Spelling α := fun a us => L a (ts ++ us)

def WithComma (L : Spelling α) : Spelling α := fun a us =>
  ∃ ts comma, us = ts ++ [comma] ∧ L a ts ∧ comma.kind = .comma

variable {L : Spelling α} {M : Spelling β} {kept ts us : List Token}

theorem many_singleton {a : α} (h : L a ts) : Many L [a] ts := by
  have hone := Many.cons h .nil
  rwa [List.append_nil] at hone

theorem separated_append {as : List α} {a : α} (has : Many (WithComma L) as ts) (ha : L a us) :
    Separated L (as ++ [a]) (ts ++ us) := by
  induction has with
  | nil => exact .single ha
  | cons hone _ ih =>
    obtain ⟨vs, comma, rfl, hvs, hcomma⟩ := hone
    rw [List.append_assoc, List.append_assoc]
    exact .cons hvs hcomma ih

theorem extends_of_spelled {a : α} (h : L a ts) : L.Extends ts :=
  ⟨a, [], by rwa [List.append_nil], by simp⟩

/-- What completes a part is followed by what completes the rest. -/
theorem Extends.trans {p : List Token} (h : L.Extends kept)
    (hM : ∀ a ts, L a ts → M.Extends (p ++ ts)) : M.Extends (p ++ kept) := by
  obtain ⟨a, more, ha, hmore⟩ := h
  obtain ⟨b, more', hb, hmore'⟩ := hM a _ ha
  refine ⟨b, more ++ more', ?_, List.forall_mem_append.2 ⟨hmore, hmore'⟩⟩
  simpa only [List.append_assoc] using hb

theorem Extends.mono (h : L.Extends kept) (hM : ∀ a ts, L a ts → ∃ b, M b ts) :
    M.Extends kept := by
  obtain ⟨a, more, ha, hmore⟩ := h
  obtain ⟨b, hb⟩ := hM a _ ha
  exact ⟨b, more, hb, hmore⟩

theorem extends_of_sample {a : α} {k : Kind} (hk : k ≠ .eof)
    (h : L a (kept ++ [Token.sample k])) : L.Extends kept :=
  ⟨a, [Token.sample k], h, List.forall_mem_singleton.2 ⟨hk, Token.fits_sample k⟩⟩

theorem extends_of_behind (h : (L.behind ts).Extends []) : L.Extends ts := by
  obtain ⟨a, more, ha, hmore⟩ := h
  exact ⟨a, more, ha, hmore⟩

theorem extends_of_behind_singleton {t : Token} (hk : t.kind ≠ .eof) (hf : t.Fits)
    (h : (L.behind [t]).Extends []) : L.Extends [] := by
  obtain ⟨a, more, ha, hmore⟩ := h
  exact ⟨a, t :: more, ha, List.forall_mem_cons.2 ⟨⟨hk, hf⟩, hmore⟩⟩

end Spelling

open Spelling

def Token.Spelled (k : Kind) : Spelling Token := fun t ts => t.kind = k ∧ ts = [t]

def SpelledNumber : Spelling Nat := fun n ts =>
  ∃ t : Token, ts = [t] ∧ t.kind = .number ∧ readInteger? t.lexeme = some n

/-! ## Calls inside one another -/

/-- The tokens open so many calls, each in the arguments of the one before, and close
none of them. -/
inductive InCalls : Nat → List Token → Prop where
  | outside : InCalls 0 []
  | inside {n : Nat} {t opening : Token} {args : List Expr} {ts us : List Token}
      (hk : t.kind = .ident) (ho : opening.kind = .openParen)
      (ha : Many (WithComma (Expr.Spelled n)) args ts) (h : InCalls n us) :
      InCalls (n + 1) (t :: opening :: (ts ++ us))

/-- The tokens end in the arguments of exactly `maxNesting` calls.  The last of them open
that many; and what is before these is in no call, since an expression with calls nested
as deep as they may be can go on from there. -/
def Spelling.Deep (L : Spelling α) (before : List Token) : Prop :=
  ∃ outer inner, before = outer ++ inner ∧ InCalls maxNesting inner ∧
    ∀ e es, Expr.Spelled maxNesting e es → L.Extends (outer ++ es)

theorem Spelling.Deep.within {L : Spelling α} {M : Spelling β} {p us : List Token}
    (h : L.Deep us) (hM : ∀ a ts, L a ts → M.Extends (p ++ ts)) : M.Deep (p ++ us) := by
  obtain ⟨outer, inner, rfl, hinner, hplace⟩ := h
  refine ⟨p ++ outer, inner, (List.append_assoc ..).symm, hinner, fun e es he => ?_⟩
  rw [List.append_assoc]
  exact (hplace e es he).trans hM

theorem Spelling.Deep.mono {L : Spelling α} {M : Spelling β} {us : List Token} (h : L.Deep us)
    (hM : ∀ a ts, L a ts → ∃ b, M b ts) : M.Deep us :=
  h.within (p := []) fun _ _ ha => (extends_of_spelled ha).mono hM

theorem Spelling.Deep.of_behind {L : Spelling α} {pre us : List Token}
    (h : (L.behind pre).Deep us) : L.Deep (pre ++ us) :=
  h.within fun _ _ ha => extends_of_spelled ha

/-- The fault is met at the token `last`, behind the tokens `kept`.  A call is too deep as
soon as its parenthesis opens, and the fault is about the name in front of that; `Deep`
tells what is before the name. -/
def ParseFault.MetAt (Deep : List Token → Prop) (kept : List Token) (last : Token)
    (e : ParseFault) : Prop :=
  match e with
  | .nestingTooDeep .. =>
    ∃ before t, kept = before ++ [t] ∧ e.IsAt t ∧ last.kind = .openParen ∧ Deep before
  | _ => e.IsAt last

theorem ParseFault.metAt_unexpected {D : List Token → Prop} {kept : List Token}
    (expected : Expected) (t : Token) :
    MetAt D kept t (.unexpected expected t.kind t.span) := ⟨rfl, rfl⟩

namespace ParseFault.MetAt

variable {D D' : List Token → Prop} {pre kept : List Token} {last : Token} {e : ParseFault}

theorem mono (h : e.MetAt D kept last) (hD : ∀ us, D us → D' us) : e.MetAt D' kept last := by
  cases e with
  | nestingTooDeep =>
    obtain ⟨before, t, hkept, hat, hlast, hbefore⟩ := h
    exact ⟨before, t, hkept, hat, hlast, hD _ hbefore⟩
  | unexpected => exact h
  | numberOutOfRange => exact h

theorem of_behind (h : e.MetAt (fun us => D (pre ++ us)) kept last) :
    e.MetAt D (pre ++ kept) last := by
  cases e with
  | nestingTooDeep =>
    obtain ⟨before, t, rfl, hat, hlast, hbefore⟩ := h
    exact ⟨pre ++ before, t, (List.append_assoc ..).symm, hat, hlast, hbefore⟩
  | unexpected => exact h
  | numberOutOfRange => exact h

end ParseFault.MetAt

namespace Cursor

variable {c d c' d' : Cursor} {t : Token} {ts us : List Token}

/-- The tokens from a cursor on, with the end token that is seen past the last one. -/
def view (c : Cursor) : List Token := c.rest ++ [.eof c.stop]

theorem view_eq_cons (c : Cursor) : ∃ us, c.view = c.peek :: us := by
  rw [view, peek]
  cases c.rest with
  | nil => exact ⟨[], rfl⟩
  | cons t ts => exact ⟨ts ++ [.eof c.stop], rfl⟩

theorem singleton_prefix_view (c : Cursor) : [c.peek] <+: c.view := by
  obtain ⟨us, hview⟩ := c.view_eq_cons
  exact ⟨us, hview.symm⟩

theorem peek_of_front (h : t :: ts <+: c.view) : c.peek = t := by
  obtain ⟨us, hview⟩ := c.view_eq_cons
  rw [hview, List.cons_prefix_cons] at h
  exact h.1.symm

theorem peek_eq_of_front (h : ts ++ [t] <+: c.view) (h' : ts ++ [t] <+: d.view) :
    c.peek = d.peek := by
  cases ts with
  | nil => rw [peek_of_front h, peek_of_front h']
  | cons u ts => rw [peek_of_front h, peek_of_front h']

theorem Passes.view_eq (h : c.Passes ts d) : c.view = ts ++ d.view := by
  rw [view, h.1, h.2, List.append_assoc]
  rfl

theorem Passes.prefix_iff (h : c.Passes ts d) : ts ++ us <+: c.view ↔ us <+: d.view := by
  rw [h.view_eq, List.prefix_append_right_inj]

theorem Passes.peek_eq (h : c.Passes ts d) (h' : c'.Passes ts d') (hd : d.peek = d'.peek) :
    c.peek = c'.peek := by
  cases ts with
  | nil => rwa [passes_nil.1 h, passes_nil.1 h']
  | cons t ts => rw [h.peek, h'.peek]

theorem exists_passes_of_front (h : ts ++ (us ++ [t]) <+: c.view) :
    ∃ d, c.Passes ts d ∧ us ++ [t] <+: d.view := by
  have hlength := h.length_le
  rw [view, List.length_append, List.length_append, List.length_append] at hlength
  have hts : ts <+: c.rest := by
    refine List.prefix_of_prefix_length_le ((List.prefix_append _ _).trans h)
      (List.prefix_append _ _) ?_
    simp only [List.length_singleton] at hlength
    omega
  obtain ⟨rest, hrest⟩ := hts
  have hp : c.Passes ts ⟨rest, c.stop, _, rfl⟩ := ⟨hrest.symm, rfl⟩
  exact ⟨_, hp, hp.prefix_iff.1 h⟩

theorem exists_passes_of_singleton (h : ts ++ [t] <+: c.view) (ht : t.kind ≠ .eof) :
    ∃ d, c.Passes (ts ++ [t]) d := by
  obtain ⟨d, hp, hd⟩ := exists_passes_of_front (show ts ++ ([] ++ [t]) <+: c.view from h)
  have hpeek := peek_of_front hd
  subst hpeek
  exact ⟨d.advance, passes_append.2 ⟨d, hp, passes_advance ht⟩⟩

end Cursor

/-! ## Prompt readers -/

namespace Reader

variable {x : Reader α} {y : Reader β} {L L' : Spelling α} {M : Spelling β}
  {D D' : List Token → Prop} {c d : Cursor}

/-- What a reader does at one cursor.  It answers from the tokens that it passes and from
the one behind them, and they spell the answer.  Or it fails from some tokens, of which
all but the last can be completed. -/
inductive PromptAt (x : Reader α) (L : Spelling α) (Deep : List Token → Prop) (c : Cursor) : Prop where
  | ok {a : α} {ts : List Token} {d : Cursor} (hts : L a ts) (hp : c.Passes ts d)
      (hx : ∀ c' d', c'.Passes ts d' → d'.peek = d.peek → x c' = .ok a d')
  | error {e : ParseFault} {kept : List Token} {last : Token} (hmet : e.MetAt Deep kept last)
      (hkept : L.Extends kept) (hview : kept ++ [last] <+: c.view)
      (hx : ∀ c', kept ++ [last] <+: c'.view → ∃ d', x c' = .error e d')

/-- A reader that is prompt at every cursor, of what can be spelled at all. -/
structure Prompt (x : Reader α) (L : Spelling α) (Deep : List Token → Prop) : Prop where
  start : L.Extends []
  promptAt : ∀ c, x.PromptAt L Deep c

theorem PromptAt.mono (h : x.PromptAt L D c) (hL : ∀ a ts, L a ts → L' a ts)
    (hD : ∀ us, D us → D' us) : x.PromptAt L' D' c := by
  cases h with
  | ok hts hp hx => exact .ok (hL _ _ hts) hp hx
  | error hmet hkept hview hx =>
    exact .error (hmet.mono hD) (hkept.mono fun a ts h => ⟨a, hL a ts h⟩) hview hx

theorem PromptAt.step {z : Reader α} {pre : List Token} (hp : c.Passes pre d)
    (heq : ∀ c' d', c'.Passes pre d' → d'.peek = d.peek → x c' = z d')
    (hz : z.PromptAt (L.behind pre) (fun us => D (pre ++ us)) d) : x.PromptAt L D c := by
  cases hz with
  | @ok a ts d₁ hts hp₁ hz =>
    refine .ok hts (Cursor.passes_append.2 ⟨d, hp, hp₁⟩) fun c' d' hp' hd => ?_
    obtain ⟨d₂, hp₂, hp₂'⟩ := Cursor.passes_append.1 hp'
    rw [heq c' d₂ hp₂ (hp₂'.peek_eq hp₁ hd), hz d₂ d' hp₂' hd]
  | @error e kept last hmet hkept hview hz =>
    refine .error hmet.of_behind ?_ ?_ fun c' hview' => ?_
    · obtain ⟨a, more, ha, hmore⟩ := hkept
      exact ⟨a, more, by rwa [List.append_assoc], hmore⟩
    · rwa [List.append_assoc, hp.prefix_iff]
    · rw [List.append_assoc] at hview'
      obtain ⟨d', hp', hd'⟩ := Cursor.exists_passes_of_front hview'
      rw [heq c' d' hp' (Cursor.peek_eq_of_front hd' hview)]
      exact hz d' hd'

theorem PromptAt.bind {f : α → Reader β} {D₁ : List Token → Prop} (h : x.PromptAt L D₁ c)
    (hf : ∀ a ts, L a ts → (f a).Prompt (M.behind ts) fun us => D (ts ++ us))
    (hD : ∀ us, D₁ us → D us) : (x >>= f).PromptAt M D c := by
  cases h with
  | @ok a ts d hts hp hx =>
    exact .step hp (fun c' d' hp' hd => bind_of_ok (hx c' d' hp' hd) f) ((hf a ts hts).promptAt d)
  | @error e kept last hmet hkept hview hx =>
    refine .error (hmet.mono hD) ?_ hview fun c' hview' => ?_
    · exact hkept.trans (p := []) fun a ts hts => extends_of_behind (hf a ts hts).start
    · obtain ⟨d', hd'⟩ := hx c' hview'
      exact ⟨d', bind_of_error hd' f⟩

theorem Prompt.mono (h : x.Prompt L D) (hL : ∀ a ts, L a ts → L' a ts)
    (hD : ∀ us, D us → D' us) : x.Prompt L' D' where
  start := h.start.mono fun a ts h => ⟨a, hL a ts h⟩
  promptAt c := (h.promptAt c).mono hL hD

theorem Prompt.bind {f : α → Reader β} {D₁ : List Token → Prop} (h : x.Prompt L D₁)
    (hf : ∀ a ts, L a ts → (f a).Prompt (M.behind ts) fun us => D (ts ++ us))
    (hD : ∀ us, D₁ us → D us) : (x >>= f).Prompt M D where
  start := h.start.trans (p := []) fun a ts hts => extends_of_behind (hf a ts hts).start
  promptAt c := (h.promptAt c).bind hf hD

theorem pure_prompt {a : α} (h : L a []) : (pure a : Reader α).Prompt L D where
  start := extends_of_spelled h
  promptAt c := by
    refine .ok h (Cursor.passes_nil.2 rfl) fun c' d' hp _ => ?_
    rw [Cursor.passes_nil.1 hp]
    rfl

theorem pure_prompt_behind {b : β} {ts : List Token} (h : M b ts) :
    (pure b : Reader β).Prompt (M.behind ts) D :=
  pure_prompt (show M b (ts ++ []) by rwa [List.append_nil])

theorem PromptAt.map {g : α → β} {D₁ : List Token → Prop} (h : x.PromptAt L D₁ c)
    (hg : ∀ a ts, L a ts → M (g a) ts) (hD : ∀ us, D₁ us → D us) :
    (x >>= fun a => pure (g a)).PromptAt M D c :=
  h.bind (fun a ts hts => pure_prompt_behind (hg a ts hts)) hD

theorem Prompt.map {g : α → β} {D₁ : List Token → Prop} (h : x.Prompt L D₁)
    (hg : ∀ a ts, L a ts → M (g a) ts) (hD : ∀ us, D₁ us → D us) :
    (x >>= fun a => pure (g a)).Prompt M D :=
  h.bind (fun a ts hts => pure_prompt_behind (hg a ts hts)) hD

theorem promptAt_of_peek {e : ParseFault} (hmet : e.MetAt D [] c.peek) (hL : L.Extends [])
    (hx : ∀ c', c'.peek = c.peek → ∃ d', x c' = .error e d') : x.PromptAt L D c :=
  .error hmet hL c.singleton_prefix_view fun c' hview => hx c' (Cursor.peek_of_front hview)

theorem expect_of_ne {k : Kind} (hk : c.peek.kind ≠ k) :
    expect k c = .error (.unexpected (.token k) c.peek.kind c.peek.span) c := by
  rw [expect_eq, if_neg hk]

theorem expect_prompt {k : Kind} (hk : k ≠ .eof) : (expect k).Prompt (Token.Spelled k) D := by
  have hstart : (Token.Spelled k).Extends [] :=
    extends_of_sample (a := Token.sample k) hk ⟨rfl, rfl⟩
  refine ⟨hstart, fun c => ?_⟩
  by_cases hp : c.peek.kind = k
  · refine .ok ⟨hp, rfl⟩ (Cursor.passes_advance (by rwa [hp])) fun c' d' hp' _ => ?_
    exact (expect_eq_ok hk).2 ⟨hp, hp'⟩
  · refine promptAt_of_peek (ParseFault.metAt_unexpected (.token k) c.peek) hstart
      fun c' hc => ⟨c', ?_⟩
    rw [expect_of_ne (by rwa [hc]), hc]

theorem ident_prompt : ident.Prompt Ident.Spelled D := by
  refine (expect_prompt (by decide)).map ?_ fun us h => h
  rintro t ts ⟨hk, rfl⟩
  exact .mk hk

theorem number_prompt : (expect .number >>= integer).Prompt SpelledNumber D := by
  have hstart : SpelledNumber.Extends [] :=
    extends_of_sample (a := 0) (k := .number) (by decide) ⟨_, rfl, rfl, by decide⟩
  refine ⟨hstart, fun c => ?_⟩
  by_cases hk : c.peek.kind = .number
  · have hexpect : ∀ c' : Cursor, c'.peek = c.peek →
        (expect .number >>= integer) c' = integer c.peek c'.advance := by
      intro c' hc
      refine bind_of_ok ?_ _
      rw [expect_eq, hc, if_pos hk]
    cases hn : readInteger? c.peek.lexeme with
    | some n =>
      refine .ok ⟨c.peek, rfl, hk, hn⟩ (Cursor.passes_advance (by rw [hk]; decide))
        fun c' d' hp _ => ?_
      rw [hexpect c' hp.peek, integer_eq_ok]
      exact ⟨hn, hp.advance⟩
    | none =>
      refine promptAt_of_peek (show ParseFault.MetAt D [] c.peek
        (.numberOutOfRange c.peek.lexeme c.peek.span) from ⟨hk, rfl, rfl⟩) hstart
        fun c' hc => ⟨c'.advance, ?_⟩
      rw [hexpect c' hc, integer, hn]
      rfl
  · refine promptAt_of_peek (ParseFault.metAt_unexpected (.token .number) c.peek) hstart
      fun c' hc => ⟨c', ?_⟩
    rw [bind_of_error (expect_of_ne (by rwa [hc])), hc]

variable {D₁ : List Token → Prop}

/-- The values that were read before are kept beside those that are read. -/
def Onto (read : List α) (L : Spelling (List α)) : Spelling (List α) := fun as ts =>
  ∃ bs, as = read.reverse ++ bs ∧ L bs ts

theorem Onto.behind {M : Spelling (List α)} {N : Spelling (List α)} {read : List α} {a : α}
    {ts : List Token} (hN : ∀ bs us, M bs us → N (a :: bs) (ts ++ us)) :
    ∀ as us, Onto (a :: read) M as us → (Onto read N).behind ts as us := by
  rintro _ us ⟨bs, rfl, hbs⟩
  refine ⟨a :: bs, ?_, hN bs us hbs⟩
  rw [List.reverse_cons, List.append_assoc]
  rfl

theorem separated_promptAt (hx : x.Prompt L D₁) (read : List α)
    (hD : ∀ as ts us, Many (WithComma L) as ts → D₁ us → D (ts ++ us)) (c : Cursor) :
    (separated x read).PromptAt (Onto read (Separated L)) D c := by
  induction hn : c.left using Nat.strongRecOn generalizing c read D with
  | ind n ih =>
    cases hx.promptAt c with
    | @ok a ts d hts hp hxc =>
      by_cases hcomma : d.peek.kind = .comma
      · have hp₁ := Cursor.passes_advance (c := d) (by rw [hcomma]; decide)
        have hp₂ := Cursor.passes_append.2 ⟨d, hp, hp₁⟩
        have hlt := Nat.lt_of_lt_of_le hp₁.left_lt hp.left_le
        have hone : WithComma L a (ts ++ [d.peek]) := ⟨ts, d.peek, rfl, hts, hcomma⟩
        have hrest := ih d.advance.left (hn ▸ hlt) (a :: read)
          (D := fun vs => D ((ts ++ [d.peek]) ++ vs)) ?_ d.advance rfl
        · refine .step hp₂ (fun c' d' hp' _ => ?_) (hrest.mono (Onto.behind fun bs vs hbs => ?_)
            fun us h => h)
          · obtain ⟨d₁, hp₁', hp₂'⟩ := Cursor.passes_append.1 hp'
            have hlt' := Nat.lt_of_lt_of_le hp₂'.left_lt hp₁'.left_le
            rw [separated, hxc c' d₁ hp₁' hp₂'.peek]
            dsimp only
            rw [if_pos ⟨by rw [hp₂'.peek, hcomma], by rwa [hp₂'.advance]⟩, hp₂'.advance]
          · rw [List.append_assoc]
            exact .cons hts hcomma hbs
        · intro as vs ws has hws
          rw [← List.append_assoc]
          exact hD (a :: as) _ ws (.cons hone has) hws
      · refine .ok ⟨[a], List.reverse_cons, .single hts⟩ hp fun c' d' hp' hd => ?_
        rw [separated, hxc c' d' hp' hd]
        dsimp only
        rw [if_neg fun h => hcomma (hd ▸ h.1)]
    | @error e kept last hmet hkept hview hxc =>
      refine .error (hmet.mono fun us => hD [] [] us .nil) (hkept.mono ?_) hview
        fun c' hview' => ?_
      · exact fun a ts ha => ⟨_, [a], rfl, .single ha⟩
      · obtain ⟨d', hd'⟩ := hxc c' hview'
        rw [separated, hd']
        exact ⟨d', rfl⟩

theorem commaList_prompt (hx : x.Prompt L D₁)
    (hD : ∀ as ts us, Many (WithComma L) as ts → D₁ us → D (ts ++ us)) :
    (commaList x).Prompt (CommaList L) D where
  start := extends_of_spelled .nil
  promptAt c := by
    have heq : ∀ c' : Cursor, commaList x c' =
        if c'.peek.kind = .closeParen then .ok [] c' else separated x [] c' := by
      intro c'
      rw [commaList, bind_of_ok (show peek c' = .ok c'.peek c' from rfl)]
      split <;> rfl
    by_cases hk : c.peek.kind = .closeParen
    · refine .ok .nil (Cursor.passes_nil.2 rfl) fun c' d' hp hd => ?_
      cases Cursor.passes_nil.1 hp
      rw [heq, if_pos (by rwa [hd])]
    · refine .step (Cursor.passes_nil.2 rfl) (fun c' d' hp hd => ?_)
        ((separated_promptAt hx [] hD c).mono ?_ fun us h => h)
      · cases Cursor.passes_nil.1 hp
        rw [heq, if_neg (by rwa [hd])]
      · rintro _ ts ⟨bs, rfl, hbs⟩
        exact .some hbs

/-- A prompt reader that says of a call that is too deep all that there is to say. -/
def Steady (x : Reader α) (L : Spelling α) : Prop := x.Prompt L (Deep L)

theorem PromptAt.mono_deep (h : x.PromptAt L (Deep L) c) (hL : ∀ a ts, L a ts → L' a ts) :
    x.PromptAt L' (Deep L') c :=
  h.mono hL fun _ hus => hus.mono fun a ts ha => ⟨a, hL a ts ha⟩

theorem PromptAt.step_deep {z : Reader α} {pre : List Token} (hp : c.Passes pre d)
    (heq : ∀ c' d', c'.Passes pre d' → d'.peek = d.peek → x c' = z d')
    (hz : z.PromptAt (L.behind pre) (Deep (L.behind pre)) d) : x.PromptAt L (Deep L) c :=
  .step hp heq (hz.mono (fun _ _ h => h) fun _ h => h.of_behind)

theorem Steady.bind {f : α → Reader β} (h : x.Steady L)
    (hf : ∀ a ts, L a ts → (f a).Steady (M.behind ts)) : (x >>= f).Steady M :=
  Prompt.bind h (fun a ts ha => (hf a ts ha).mono (fun _ _ h => h) fun _ h => h.of_behind)
    fun _ hus => hus.within (p := []) fun a ts ha => extends_of_behind (hf a ts ha).start

theorem Steady.map {g : α → β} (h : x.Steady L) (hg : ∀ a ts, L a ts → M (g a) ts) :
    (x >>= fun a => pure (g a)).Steady M :=
  h.bind fun a ts ha => pure_prompt_behind (hg a ts ha)

theorem after?_steady {k : Kind} (hk : k ≠ .eof) (hx : x.Steady L) :
    (after? k x).Steady (After k L) where
  start := extends_of_spelled .none
  promptAt c := by
    by_cases hp : c.peek.kind = k
    · have hmap : (x >>= fun a => pure (some a)).Steady ((After k L).behind [c.peek]) :=
        hx.map fun a ts ha => .some hp ha
      refine .step_deep (Cursor.passes_advance (by rwa [hp])) (fun c' d' hp' _ => ?_)
        (hmap.promptAt c.advance)
      rw [after?, bind_of_ok (accept_of_passes hp hp'), hp'.advance]
      rfl
    · refine .ok .none (Cursor.passes_nil.2 rfl) fun c' d' hp' hd => ?_
      cases Cursor.passes_nil.1 hp'
      exact bind_of_ok (accept_of_ne (by rwa [hd])) _

theorem repeatUntil_promptAt {stop : Kind → Bool} (hx : x.Steady L)
    (hfirst : ∀ a ts, L a ts → ∃ t us, ts = t :: us) (read : List α) (c : Cursor) :
    (repeatUntil stop x read).PromptAt (Onto read (Many L)) (Deep (Onto read (Many L))) c := by
  induction hn : c.left using Nat.strongRecOn generalizing c read with
  | ind n ih =>
    by_cases hstop : stop c.peek.kind
    · refine .ok ⟨[], (List.append_nil _).symm, .nil⟩ (Cursor.passes_nil.2 rfl)
        fun c' d' hp hd => ?_
      cases Cursor.passes_nil.1 hp
      rw [repeatUntil, if_pos (by rwa [hd])]
    · cases hx.promptAt c with
      | @ok a ts d hts hp hxc =>
        obtain ⟨t, us, rfl⟩ := hfirst a ts hts
        refine .step_deep hp (fun c' d' hp' hd => ?_)
          ((ih d.left (hn ▸ hp.left_lt) (a :: read) d rfl).mono_deep
            (Onto.behind fun bs vs hbs => .cons hts hbs))
        rw [repeatUntil, hp'.peek, ← hp.peek, if_neg hstop, hxc c' d' hp' hd]
        dsimp only
        rw [if_pos hp'.left_lt]
      | @error e kept last hmet hkept hview hxc =>
        have hone : ∀ a ts, L a ts → ∃ as, Onto read (Many L) as ts :=
          fun a ts ha => ⟨_, [a], rfl, many_singleton ha⟩
        refine .error (hmet.mono fun us h => h.mono hone) (hkept.mono hone) hview
          fun c' hview' => ?_
        obtain ⟨d', hd'⟩ := hxc c' hview'
        rw [repeatUntil, Cursor.peek_eq_of_front hview' hview, if_neg hstop, hd']
        exact ⟨d', rfl⟩

theorem repeatUntil_steady {stop : Kind → Bool} (hx : x.Steady L)
    (hfirst : ∀ a ts, L a ts → ∃ t us, ts = t :: us) :
    (repeatUntil stop x).Steady (Many L) where
  start := extends_of_spelled .nil
  promptAt c := by
    refine (repeatUntil_promptAt hx hfirst [] c).mono_deep ?_
    rintro _ ts ⟨bs, rfl, hbs⟩
    exact hbs

theorem commaList_steady (hx : x.Steady L) : (commaList x).Steady (CommaList L) :=
  commaList_prompt hx fun _ ts _ has hus => hus.within (p := ts) fun _ _ ha =>
    extends_of_spelled (.some (separated_append has ha))

end Reader

end TriadLang
