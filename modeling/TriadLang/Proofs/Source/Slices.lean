import TriadLang.Source.Bytes
import TriadLang.Source.Span

namespace TriadLang

theorem length_le_byteLength (cs : List Char) : cs.length ≤ byteLength cs := by
  induction cs with
  | nil => exact Nat.le_refl 0
  | cons c cs ih =>
    have hc := c.utf8Size_pos
    rw [List.length_cons, byteLength_cons]
    omega

theorem byteLength_pos {cs : List Char} (h : cs ≠ []) : 0 < byteLength cs :=
  Nat.lt_of_lt_of_le (List.length_pos_iff.2 h) (length_le_byteLength cs)

theorem splitAtByte?_append (before after : List Char) :
    splitAtByte? (byteLength before) (before ++ after) = some (before, after) := by
  induction before with
  | nil =>
    rw [byteLength_nil, List.nil_append]
    cases after <;> rfl
  | cons c before ih =>
    have hc := c.utf8Size_pos
    obtain ⟨n, hn⟩ : ∃ n, byteLength (c :: before) = n + 1 :=
      Nat.exists_eq_succ_of_ne_zero (by rw [byteLength_cons]; omega)
    have hrest : n + 1 - c.utf8Size = byteLength before := by
      rw [← hn, byteLength_cons]
      omega
    have hle : c.utf8Size ≤ n + 1 := by
      rw [← hn, byteLength_cons]
      omega
    rw [hn, List.cons_append, splitAtByte?, if_pos hle, hrest, ih]
    rfl

theorem eq_of_byteLength_eq {before before' after after' : List Char}
    (h : before ++ after = before' ++ after') (hlen : byteLength before = byteLength before') :
    before = before' := by
  have hsplit := splitAtByte?_append before after
  rw [h, hlen, splitAtByte?_append, Option.some.injEq, Prod.mk.injEq] at hsplit
  exact hsplit.1.symm

/-- Of two beginnings of a text the one with fewer bytes begins the other one. -/
theorem prefix_of_byteLength_le {text cs ds : List Char} (hc : cs <+: text) (hd : ds <+: text)
    (hle : byteLength cs ≤ byteLength ds) : cs <+: ds := by
  rcases List.prefix_or_prefix_of_prefix hc hd with h | ⟨xs, rfl⟩
  · exact h
  · rw [byteLength_append] at hle
    have hlength := length_le_byteLength xs
    have hxs : xs = [] := List.length_eq_zero_iff.1 (by omega)
    exact ⟨[], by rw [hxs, List.append_nil, List.append_nil]⟩

namespace Span

/-- The characters `cs` are the part of the text between the two ends of the
span. -/
def Selects (s : Span) (text cs : List Char) : Prop :=
  ∃ before after, text = before ++ (cs ++ after) ∧ s.lo = byteLength before ∧
    s.hi = s.lo + byteLength cs

variable {s : Span} {text cs ds : List Char}

theorem Selects.exists_split (h : s.Selects text cs) : ∃ before after,
    splitAtByte? s.lo text = some (before, cs ++ after) ∧
      splitAtByte? (s.hi - s.lo) (cs ++ after) = some (cs, after) := by
  obtain ⟨before, after, rfl, hlo, hhi⟩ := h
  have hlen : s.hi - s.lo = byteLength cs := by omega
  exact ⟨before, after, by rw [hlo, splitAtByte?_append], by rw [hlen, splitAtByte?_append]⟩

theorem Selects.unique (h : s.Selects text cs) (h' : s.Selects text ds) : cs = ds := by
  obtain ⟨before, after, hsplit, hpart⟩ := h.exists_split
  obtain ⟨before', after', hsplit', hpart'⟩ := h'.exists_split
  rw [hsplit, Option.some.injEq, Prod.mk.injEq] at hsplit'
  rw [hsplit'.2, hpart', Option.some.injEq, Prod.mk.injEq] at hpart
  exact hpart.1.symm

theorem Selects.hi_le (h : s.Selects text cs) : s.hi ≤ byteLength text := by
  obtain ⟨before, after, rfl, hlo, hhi⟩ := h
  rw [byteLength_append, byteLength_append]
  omega

end Span

end TriadLang
