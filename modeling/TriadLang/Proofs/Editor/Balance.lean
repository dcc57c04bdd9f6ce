import TriadLang.Editor.Braces

namespace TriadLang

/-- Equally many braces of both sorts, and none is closed before it is opened. -/
def Balanced (cs : List Char) : Prop :=
  cs.count '{' = cs.count '}' ∧ ∀ before, before <+: cs → before.count '}' ≤ before.count '{'

/-- The number of braces that are open after some characters, if `n` are open
before them and no brace is closed that is not open. -/
def openAfter? (n : Nat) : List Char → Option Nat
  | [] => some n
  | c :: cs =>
    if c = '{' then
      openAfter? (n + 1) cs
    else if c = '}' then
      match n with
      | 0 => none
      | n + 1 => openAfter? n cs
    else
      openAfter? n cs

theorem openAfter?_open (n : Nat) (cs : List Char) :
    openAfter? n ('{' :: cs) = openAfter? (n + 1) cs := by
  rw [openAfter?.eq_def]
  exact if_pos rfl

theorem openAfter?_close (n : Nat) (cs : List Char) :
    openAfter? (n + 1) ('}' :: cs) = openAfter? n cs := by
  rw [openAfter?, if_neg (by decide), if_pos rfl]

theorem openAfter?_close_zero (cs : List Char) : openAfter? 0 ('}' :: cs) = none := by
  rw [openAfter?, if_neg (by decide), if_pos rfl]

theorem openAfter?_other {c : Char} (ho : c ≠ '{') (hc : c ≠ '}') (n : Nat) (cs : List Char) :
    openAfter? n (c :: cs) = openAfter? n cs := by
  rw [openAfter?.eq_def]
  exact (if_neg ho).trans (if_neg hc)

theorem openAfter?_append (n : Nat) (xs ys : List Char) :
    openAfter? n (xs ++ ys) = (openAfter? n xs).bind fun m => openAfter? m ys := by
  induction xs generalizing n with
  | nil => rfl
  | cons c xs ih =>
    rw [List.cons_append]
    by_cases ho : c = '{'
    · subst ho
      rw [openAfter?_open, openAfter?_open, ih]
    · by_cases hc : c = '}'
      · subst hc
        cases n with
        | zero => rw [openAfter?_close_zero, openAfter?_close_zero]; rfl
        | succ n => rw [openAfter?_close, openAfter?_close, ih]
      · rw [openAfter?_other ho hc, openAfter?_other ho hc, ih]

theorem openAfter?_of_no_braces {cs : List Char} (h : ∀ c ∈ cs, c ≠ '{' ∧ c ≠ '}') (n : Nat) :
    openAfter? n cs = some n := by
  induction cs with
  | nil => rfl
  | cons c cs ih =>
    obtain ⟨ho, hc⟩ := h c List.mem_cons_self
    rw [openAfter?_other ho hc, ih fun d hd => h d (List.mem_cons_of_mem _ hd)]

theorem forall_prefix_cons {P : List Char → Prop} {c : Char} {cs : List Char} :
    (∀ before, before <+: c :: cs → P before) ↔
      P [] ∧ ∀ before, before <+: cs → P (c :: before) := by
  constructor
  · intro h
    exact ⟨h [] List.nil_prefix, fun before hb => h _ ((List.prefix_cons_inj c).2 hb)⟩
  · rintro ⟨hnil, hcons⟩ before hb
    rcases List.prefix_cons_iff.1 hb with rfl | ⟨t, rfl, ht⟩
    · exact hnil
    · exact hcons t ht

theorem openAfter?_eq_some_iff {n m : Nat} {cs : List Char} :
    openAfter? n cs = some m ↔
      n + cs.count '{' = m + cs.count '}' ∧
        ∀ before, before <+: cs → before.count '}' ≤ n + before.count '{' := by
  induction cs generalizing n with
  | nil =>
    rw [openAfter?, Option.some.injEq]
    simp
  | cons c cs ih =>
    rw [forall_prefix_cons]
    by_cases ho : c = '{'
    · subst ho
      rw [openAfter?_open, ih]
      have hb : ∀ b : List Char, b.count '}' ≤ n + 1 + b.count '{' ↔
          ('{' :: b).count '}' ≤ n + ('{' :: b).count '{' := by
        intro b
        simp only [List.count_cons_self, List.count_cons_of_ne (by decide : '{' ≠ '}')]
        omega
      simp only [hb]
      simp only [List.count_cons_self, List.count_cons_of_ne (by decide : '{' ≠ '}')]
      constructor
      · rintro ⟨heq, hall⟩
        exact ⟨by omega, by simp, hall⟩
      · rintro ⟨heq, -, hall⟩
        exact ⟨by omega, hall⟩
    · by_cases hc : c = '}'
      · subst hc
        simp only [List.count_cons_self, List.count_cons_of_ne (by decide : '}' ≠ '{')]
        cases n with
        | zero =>
          rw [openAfter?_close_zero]
          constructor
          · intro h
            cases h
          · rintro ⟨-, -, hall⟩
            have h := hall [] List.nil_prefix
            simp at h
        | succ n =>
          rw [openAfter?_close, ih]
          constructor
          · rintro ⟨heq, hall⟩
            refine ⟨by omega, by simp, fun b hb => ?_⟩
            have h := hall b hb
            omega
          · rintro ⟨heq, -, hall⟩
            refine ⟨by omega, fun b hb => ?_⟩
            have h := hall b hb
            omega
      · rw [openAfter?_other ho hc, ih]
        simp only [List.count_cons_of_ne ho, List.count_cons_of_ne hc]
        simp

theorem balanced_iff {cs : List Char} : Balanced cs ↔ openAfter? 0 cs = some 0 := by
  rw [openAfter?_eq_some_iff, Balanced]
  simp

/-- Balanced braces have no influence on what stands around them. -/
theorem Balanced.openAfter? {cs : List Char} (h : Balanced cs) (n : Nat) :
    openAfter? n cs = some n := by
  refine openAfter?_eq_some_iff.2 ⟨by rw [h.1], fun before hb => ?_⟩
  have hle := h.2 before hb
  omega

namespace BraceMatch

theorem found_foldl_ne_nil {m : BraceMatch} (h : m.found ≠ []) (cs : List Char) :
    (cs.foldl step m).found ≠ [] := by
  induction cs generalizing m with
  | nil => exact h
  | cons c cs ih =>
    refine ih ?_
    unfold step
    split
    · exact h
    · split
      · split
        · exact List.cons_ne_nil _ _
        · exact h
      · exact h

theorem step_other {c : Char} (ho : c ≠ '{') (hc : c ≠ '}') (m : BraceMatch) :
    m.step c = { m with position := m.position.advance c } := by
  rw [step, if_neg ho, if_neg hc]

theorem foldl_step_of_some {m : BraceMatch} {cs : List Char} {n : Nat}
    (h : openAfter? m.depth cs = some n) :
    (cs.foldl step m).depth = n ∧ (cs.foldl step m).found = m.found := by
  induction cs generalizing m with
  | nil =>
    rw [openAfter?, Option.some.injEq] at h
    exact ⟨h, rfl⟩
  | cons c cs ih =>
    rw [List.foldl_cons]
    by_cases ho : c = '{'
    · subst ho
      rw [openAfter?_open] at h
      exact ih (m := m.step '{') h
    · by_cases hc : c = '}'
      · subst hc
        obtain ⟨position, depth, found⟩ := m
        cases depth with
        | zero =>
          rw [openAfter?_close_zero] at h
          cases h
        | succ d =>
          rw [openAfter?_close] at h
          exact ih (m := step ⟨position, d + 1, found⟩ '}') h
      · rw [openAfter?_other ho hc] at h
        rw [step_other ho hc]
        exact ih (m := { m with position := m.position.advance c }) h

theorem found_ne_nil_of_none {m : BraceMatch} {cs : List Char}
    (h : openAfter? m.depth cs = none) : (cs.foldl step m).found ≠ [] := by
  induction cs generalizing m with
  | nil => cases h
  | cons c cs ih =>
    rw [List.foldl_cons]
    by_cases ho : c = '{'
    · subst ho
      rw [openAfter?_open] at h
      exact ih (m := m.step '{') h
    · by_cases hc : c = '}'
      · subst hc
        obtain ⟨position, depth, found⟩ := m
        cases depth with
        | zero => exact found_foldl_ne_nil (List.cons_ne_nil _ _) cs
        | succ d =>
          rw [openAfter?_close] at h
          exact ih (m := step ⟨position, d + 1, found⟩ '}') h
      · rw [openAfter?_other ho hc] at h
        rw [step_other ho hc]
        exact ih (m := { m with position := m.position.advance c }) h

end BraceMatch

theorem braceDiagnostics_eq_nil_iff (src : String) :
    braceDiagnostics src = [] ↔ Balanced src.toList := by
  rw [braceDiagnostics, BraceMatch.diagnostics, List.append_eq_nil_iff, List.reverse_eq_nil_iff,
    balanced_iff]
  cases h : openAfter? 0 src.toList with
  | none =>
    have hne := BraceMatch.found_ne_nil_of_none (m := {}) h
    simp [hne]
  | some n =>
    obtain ⟨hd, hf⟩ := BraceMatch.foldl_step_of_some (m := {}) h
    rw [hd, hf]
    simp

end TriadLang
