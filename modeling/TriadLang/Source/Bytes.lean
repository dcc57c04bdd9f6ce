/-!
# Byte offsets

Offsets count the bytes of the UTF-8 form of a text, while everything that is
done to a text walks its characters.  This module joins the two views of a list
of characters: its length in bytes, the split at a byte offset that falls
between two characters, and the longest beginning that fits in a number of
bytes.
-/

namespace TriadLang

def byteLength : List Char → Nat
  | [] => 0
  | c :: cs => c.utf8Size + byteLength cs

theorem byteLength_nil : byteLength [] = 0 := rfl

theorem byteLength_cons (c : Char) (cs : List Char) :
    byteLength (c :: cs) = c.utf8Size + byteLength cs := rfl

theorem byteLength_append (cs ds : List Char) :
    byteLength (cs ++ ds) = byteLength cs + byteLength ds := by
  induction cs with
  | nil => simp [byteLength]
  | cons c cs ih => simp only [List.cons_append, byteLength, ih]; omega

/-- The text before and the text from a byte offset on, or `none` when the
offset falls inside a character or past the end. -/
def splitAtByte? : Nat → List Char → Option (List Char × List Char)
  | 0, cs => some ([], cs)
  | _ + 1, [] => none
  | n + 1, c :: cs =>
    if c.utf8Size ≤ n + 1 then
      (splitAtByte? (n + 1 - c.utf8Size) cs).map fun (before, after) => (c :: before, after)
    else
      none

/-- The longest beginning of a text that takes at most `n` bytes.  An offset past
the end gives the whole text, an offset inside a character the text before that
character. -/
def takeBytes : Nat → List Char → List Char
  | _, [] => []
  | n, c :: cs => if c.utf8Size ≤ n then c :: takeBytes (n - c.utf8Size) cs else []

theorem splitAtByte?_eq_some {n : Nat} {cs before after : List Char}
    (h : splitAtByte? n cs = some (before, after)) :
    cs = before ++ after ∧ byteLength before = n := by
  fun_induction splitAtByte? n cs generalizing before after with
  | case1 =>
    simp only [Option.some.injEq, Prod.mk.injEq] at h
    obtain ⟨rfl, rfl⟩ := h
    exact ⟨rfl, rfl⟩
  | case2 => simp at h
  | case3 n c cs hc ih =>
    obtain ⟨⟨b, a⟩, hs, hp⟩ := Option.map_eq_some_iff.1 h
    obtain ⟨rfl, rfl⟩ := Prod.mk.inj hp
    obtain ⟨rfl, hl⟩ := ih hs
    exact ⟨rfl, by rw [byteLength, hl]; omega⟩
  | case4 => simp at h

theorem takeBytes_prefix (n : Nat) (cs : List Char) : takeBytes n cs <+: cs := by
  fun_induction takeBytes n cs with
  | case1 => exact List.prefix_refl _
  | case2 _ c cs _ ih => exact (List.prefix_cons_inj c).2 ih
  | case3 => exact List.nil_prefix

end TriadLang
