import TriadLang.Proofs.Tree.Legible
import TriadLang.Proofs.Tree.Numeral

namespace TriadLang

theorem Literal.tokenize_lower (l : Literal) :
    tokenize l.lower = .ok [⟨l.kind, l.lower, ⟨0, byteLength l.lower.toList⟩⟩,
      .eof (byteLength l.lower.toList)] :=
  tokenize_of_fits l.fits_lower l.kind_ne_eof

theorem readInteger?_lower {n : Nat} (hn : n < UInt64.size) :
    readInteger? (Literal.int n).lower = some n := by
  apply readInteger?_of_dropZeros hn
  show dropZeros (toString n).toList = _
  rw [Nat.toString_eq_ofList_toDigits, String.toList_ofList, dropZeros_toDigits]

/-- The text that a literal is lowered to is one token of the kind of the literal, and
the end token behind it; two literals are lowered to the same text only if they are the
same.  That of a string is on one line and stands between two quotes, and the string
comes back if the escapes between them are undone.  That of a number of 64 bits is read
as this number. -/
theorem literals_read_back :
    (∀ l : Literal, tokenize l.lower = .ok [⟨l.kind, l.lower, ⟨0, byteLength l.lower.toList⟩⟩,
      .eof (byteLength l.lower.toList)]) ∧
    (∀ l m : Literal, l.lower = m.lower ↔ l = m) ∧
    (∀ s : String, ∃ body, (Literal.text s).lower.toList = '"' :: (body ++ ['"']) ∧
      '\n' ∉ (Literal.text s).lower.toList ∧ unescaped body = s.toList) ∧
    ∀ n : UInt64, readInteger? (Literal.int n.toNat).lower = some n.toNat := by
  refine ⟨Literal.tokenize_lower, fun l m => Literal.lower_inj, fun s => ?_, fun n => ?_⟩
  · exact ⟨s.toList.flatMap literalChar, toList_literalQuote s,
      (Literal.text s).not_mem_lower, unescaped_flatMap s.toList⟩
  · exact readInteger?_lower n.toNat_lt_size

/-- A backslash at the end of a string does not hide the quote that closes it. -/
example : (Literal.text "a\"\n\\").lower = "\"a\\\"\\n\\\\\"" := by decide +kernel

end TriadLang
