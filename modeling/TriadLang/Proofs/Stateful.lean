namespace TriadLang

variable {ε σ α β : Type} {s s' : σ}

theorem bind_of_ok {x : EStateM ε σ α} {a : α} (h : x s = .ok a s') (f : α → EStateM ε σ β) :
    (x >>= f) s = f a s' := by
  show EStateM.bind x f s = _
  rw [EStateM.bind, h]

theorem bind_of_error {x : EStateM ε σ α} {e : ε} (h : x s = .error e s')
    (f : α → EStateM ε σ β) : (x >>= f) s = .error e s' := by
  show EStateM.bind x f s = _
  rw [EStateM.bind, h]

theorem bind_eq_ok {x : EStateM ε σ α} {f : α → EStateM ε σ β} {b : β} :
    (x >>= f) s = .ok b s' ↔ ∃ a s₁, x s = .ok a s₁ ∧ f a s₁ = .ok b s' := by
  show EStateM.bind x f s = _ ↔ _
  rw [EStateM.bind]
  cases x s with
  | ok a s₁ =>
    constructor
    · exact fun h => ⟨a, s₁, rfl, h⟩
    · rintro ⟨_, _, h, hf⟩
      cases h
      exact hf
  | error e s₁ => simp

theorem pure_eq_ok {a b : α} : (pure a : EStateM ε σ α) s = .ok b s' ↔ a = b ∧ s = s' := by
  show EStateM.Result.ok a s = .ok b s' ↔ _
  rw [EStateM.Result.ok.injEq]

section

variable {f : α → EStateM ε σ Unit} {a : α} {as : List α} {e : ε}

theorem forM_cons_of_ok (h : f a s = .ok () s') : (a :: as).forM f s = as.forM f s' :=
  bind_of_ok h _

theorem forM_cons_of_error (h : f a s = .error e s') : (a :: as).forM f s = .error e s' :=
  bind_of_error h _

theorem forM_append_of_ok (h : as.forM f s = .ok () s') (bs : List α) :
    (as ++ bs).forM f s = bs.forM f s' := by
  induction as generalizing s with
  | nil =>
    cases h
    rfl
  | cons a as ih =>
    obtain ⟨⟨⟩, s₁, ha, has⟩ := bind_eq_ok.1 h
    rw [List.cons_append, forM_cons_of_ok ha]
    exact ih has

end

/-- One after another gives all results, or stops at the first fault. -/
theorem mapM_eq_ok_or_error (f : α → Except ε β) (as : List α) :
    (∃ bs : List β, as.map f = bs.map .ok ∧ as.mapM f = .ok bs) ∨
      ∃ before a after, ∃ bs : List β, ∃ e, as = before ++ a :: after ∧ before.map f = bs.map .ok ∧
        f a = .error e ∧ as.mapM f = .error e := by
  induction as with
  | nil => exact .inl ⟨[], rfl, rfl⟩
  | cons a as ih =>
    rw [List.mapM_cons]
    cases ha : f a with
    | error e => exact .inr ⟨[], a, as, [], e, rfl, rfl, ha, rfl⟩
    | ok b =>
      rcases ih with ⟨bs, hbs, hm⟩ | ⟨before, a', after, bs, e, rfl, hbs, he, hm⟩
      · refine .inl ⟨b :: bs, ?_, ?_⟩
        · rw [List.map_cons, ha, hbs]
          rfl
        · rw [hm]
          rfl
      · refine .inr ⟨a :: before, a', after, b :: bs, e, rfl, ?_, he, ?_⟩
        · rw [List.map_cons, ha, hbs]
          rfl
        · rw [hm]
          rfl

/-- A result that is compared with a value; faults need not be compared. -/
theorem ok_of_toOption {r : Except ε α} {a : α} (h : r.toOption = some a) :
    r = .ok a := by
  cases r with
  | ok b =>
    cases h
    rfl
  | error e => cases h

theorem exists_of_any_toOption {r : Except ε α} {q : α → Bool} (h : r.toOption.any q) :
    ∃ a, r = .ok a ∧ q a := by
  cases r with
  | ok a => exact ⟨a, rfl, h⟩
  | error e => cases h

theorem error_of_match {r : Except ε α} {e : ε}
    (h : (match r with | .ok _ => none | .error e => some e) = some e) : r = .error e := by
  cases r with
  | ok a => cases h
  | error e' =>
    cases h
    rfl

end TriadLang
