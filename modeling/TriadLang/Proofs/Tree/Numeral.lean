import TriadLang.Proofs.Token.Cut
import TriadLang.Tree.Parser

namespace TriadLang

/-- Digits without the zeros in front of them.  The last digit stays. -/
def dropZeros : List Char → List Char
  | '0' :: c :: cs => dropZeros (c :: cs)
  | cs => cs

theorem toDigits_ofDigitChars_of_pos {cs : List Char} (hd : ∀ c ∈ cs, c.isDigit) {m : Nat}
    (hm : 0 < m) : Nat.toDigits 10 (Nat.ofDigitChars 10 cs m) = Nat.toDigits 10 m ++ cs := by
  induction cs generalizing m with
  | nil => rw [Nat.ofDigitChars_nil, List.append_nil]
  | cons c cs ih =>
    obtain ⟨n, hn, rfl⟩ := Rule.exists_digitChar (hd c List.mem_cons_self)
    have hrest := ih (fun c hc => hd c (List.mem_cons_of_mem _ hc)) (m := 10 * m + n) (by omega)
    rw [Nat.ofDigitChars_cons_digitChar_of_lt_ten hn, hrest,
      ← Nat.toDigits_append_toDigits (by decide) hm hn, Nat.toDigits_of_lt_base hn,
      List.append_assoc]
    rfl

theorem toDigits_ofDigitChars {cs : List Char} (hn : cs ≠ []) (hd : ∀ c ∈ cs, c.isDigit) :
    Nat.toDigits 10 (Nat.ofDigitChars 10 cs 0) = dropZeros cs := by
  induction cs with
  | nil => exact absurd rfl hn
  | cons c cs ih =>
    obtain ⟨n, hlt, rfl⟩ := Rule.exists_digitChar (hd c List.mem_cons_self)
    have hrest : ∀ c ∈ cs, c.isDigit := fun c hc => hd c (List.mem_cons_of_mem _ hc)
    rw [Nat.ofDigitChars_cons_digitChar_of_lt_ten hlt, Nat.mul_zero, Nat.zero_add]
    rcases Nat.eq_zero_or_pos n with rfl | hpos
    · cases cs with
      | nil => rfl
      | cons c cs => exact ih (List.cons_ne_nil _ _) hrest
    · have hdrop : dropZeros (n.digitChar :: cs) = n.digitChar :: cs := by
        rw [dropZeros]
        intro c' cs' h
        simp only [List.cons.injEq, Nat.digitChar_eq_zero] at h
        omega
      rw [toDigits_ofDigitChars_of_pos hrest hpos, Nat.toDigits_of_lt_base hlt, hdrop]
      rfl

/-- Digits are read as the number they stand for, if no number on the way is too
large; and those on the way are not larger. -/
theorem foldlM_appendDigit {cs : List Char} {m n : Nat} (hm : m < UInt64.size) :
    cs.foldlM appendDigit? m = some n ↔ Nat.ofDigitChars 10 cs m = n ∧ n < UInt64.size := by
  induction cs generalizing m with
  | nil =>
    rw [Nat.ofDigitChars_nil, List.foldlM_nil]
    constructor
    · rintro ⟨⟩
      exact ⟨rfl, hm⟩
    · rintro ⟨rfl, -⟩
      rfl
  | cons c cs ih =>
    rw [Nat.ofDigitChars_cons, List.foldlM_cons, appendDigit?]
    by_cases hlt : 10 * m + (c.toNat - '0'.toNat) < UInt64.size
    · simp only [if_pos hlt]
      exact ih hlt
    · simp only [if_neg hlt]
      constructor
      · intro h
        cases h
      · rintro ⟨rfl, hn⟩
        rw [Nat.ofDigitChars_eq_ofDigitChars_zero] at hn
        have hle := Nat.le_mul_of_pos_left (10 * m + (c.toNat - '0'.toNat))
          (Nat.pow_pos (n := cs.length) (show 0 < 10 by decide))
        omega

theorem readInteger?_eq_some {lexeme : String} {n : Nat} (hn : lexeme.toList ≠ [])
    (hd : ∀ c ∈ lexeme.toList, c.isDigit) :
    readInteger? lexeme = some n ↔
      Nat.ofDigitChars 10 lexeme.toList 0 = n ∧ n < UInt64.size := by
  rw [readInteger?]
  cases hs : lexeme.toList with
  | nil => exact absurd hs hn
  | cons c cs =>
    rw [hs] at hd
    have hc : c ≠ '+' := by
      rintro rfl
      exact absurd (hd '+' List.mem_cons_self) (by decide)
    have hall : (c :: cs).all Char.isDigit = true := List.all_eq_true.2 hd
    split
    · next heq => exact absurd (List.cons.inj heq).1 hc
    · rw [List.isEmpty_cons, hall]
      exact foldlM_appendDigit (by decide)

theorem exists_zeros (cs : List Char) :
    ∃ zeros, cs = zeros ++ dropZeros cs ∧ ∀ c ∈ zeros, c = '0' := by
  fun_induction dropZeros cs with
  | case1 c cs ih =>
    obtain ⟨zeros, h, hz⟩ := ih
    refine ⟨'0' :: zeros, congrArg (List.cons '0') h, ?_⟩
    simpa using hz
  | case2 cs => exact ⟨[], rfl, by simp⟩

theorem readInteger?_of_dropZeros {lexeme : String} {n : Nat} (hn : n < UInt64.size)
    (h : dropZeros lexeme.toList = Nat.toDigits 10 n) : readInteger? lexeme = some n := by
  obtain ⟨zeros, hs, hz⟩ := exists_zeros lexeme.toList
  have hne : lexeme.toList ≠ [] := by
    rw [hs, h]
    simp [Nat.toDigits_ne_nil]
  have hd : ∀ c ∈ lexeme.toList, c.isDigit := by
    intro c hc
    rw [hs, h, List.mem_append] at hc
    rcases hc with hc | hc
    · rw [hz c hc]
      rfl
    · exact Nat.isDigit_of_mem_toDigits (by decide) (by decide) hc
  refine (readInteger?_eq_some hne hd).2 ⟨?_, hn⟩
  rw [← Nat.ofDigitChars_ten_toDigits (n := n), ← h, ← toDigits_ofDigitChars hne hd,
    Nat.ofDigitChars_ten_toDigits]

theorem dropZeros_of_readInteger? {lexeme : String} {n : Nat} (hn : lexeme.toList ≠ [])
    (hd : ∀ c ∈ lexeme.toList, c.isDigit) (h : readInteger? lexeme = some n) :
    dropZeros lexeme.toList = Nat.toDigits 10 n ∧ n < UInt64.size := by
  obtain ⟨rfl, hlt⟩ := (readInteger?_eq_some hn hd).1 h
  exact ⟨(toDigits_ofDigitChars hn hd).symm, hlt⟩

theorem dropZeros_toDigits (n : Nat) : dropZeros (Nat.toDigits 10 n) = Nat.toDigits 10 n := by
  rw [← toDigits_ofDigitChars Nat.toDigits_ne_nil, Nat.ofDigitChars_ten_toDigits]
  exact fun c hc => Nat.isDigit_of_mem_toDigits (by decide) (by decide) hc

theorem toString_inj {m n : Nat} (h : toString m = toString n) : m = n := by
  rw [Nat.toString_eq_ofList_toDigits, Nat.toString_eq_ofList_toDigits] at h
  have hdigits : Nat.toDigits 10 m = Nat.toDigits 10 n := by
    rw [← String.toList_ofList (l := Nat.toDigits 10 m), h, String.toList_ofList]
  rw [← Nat.ofDigitChars_ten_toDigits (n := m), hdigits, Nat.ofDigitChars_ten_toDigits]

end TriadLang
