import TriadLang.Proofs.Token.Regex
import TriadLang.Text.Quoted

namespace TriadLang

/-- The text of a literal without its three escapes. -/
def unescaped : List Char → List Char
  | '\\' :: '"' :: cs => '"' :: unescaped cs
  | '\\' :: '\\' :: cs => '\\' :: unescaped cs
  | '\\' :: 'n' :: cs => '\n' :: unescaped cs
  | c :: cs => c :: unescaped cs
  | [] => []

theorem unescaped_plain {c : Char} (hc : c ≠ '\\') (cs : List Char) :
    unescaped (c :: cs) = c :: unescaped cs := by
  rw [unescaped]
  all_goals
    intro _ h
    exact absurd h hc

theorem literalChar_cases (c : Char) :
    (∃ d, literalChar c = ['\\', d] ∧ d ≠ '\n' ∧
        ∀ cs, unescaped ('\\' :: d :: cs) = c :: unescaped cs) ∨
      (literalChar c = [c] ∧ c ≠ '"' ∧ c ≠ '\\' ∧ c ≠ '\n') := by
  unfold literalChar
  split
  · exact .inl ⟨'"', rfl, by decide, fun _ => rfl⟩
  · exact .inl ⟨'\\', rfl, by decide, fun _ => rfl⟩
  · exact .inl ⟨'n', rfl, by decide, fun _ => rfl⟩
  · next hquote hbackslash hnewline => exact .inr ⟨rfl, hquote, hbackslash, hnewline⟩

theorem not_mem_literalChar (c : Char) : '\n' ∉ literalChar c := by
  rcases literalChar_cases c with ⟨d, h, hd, -⟩ | ⟨h, -, -, hc⟩
  · rw [h, List.mem_cons, List.mem_singleton, not_or]
    exact ⟨by decide, hd.symm⟩
  · rw [h, List.mem_singleton]
    exact hc.symm

theorem unescaped_literalChar (c : Char) (cs : List Char) :
    unescaped (literalChar c ++ cs) = c :: unescaped cs := by
  rcases literalChar_cases c with ⟨d, h, -, hd⟩ | ⟨h, -, hc, -⟩
  · rw [h]
    exact hd cs
  · rw [h]
    exact unescaped_plain hc cs

theorem unescaped_flatMap (cs : List Char) : unescaped (cs.flatMap literalChar) = cs := by
  induction cs with
  | nil => rfl
  | cons c cs ih => rw [List.flatMap_cons, unescaped_literalChar, ih]

theorem toClosingQuote?_literalChar (c : Char) (text : List Char) :
    Rule.toClosingQuote? false (literalChar c ++ text) =
      (Rule.toClosingQuote? false text).map (· + (literalChar c).length) := by
  rcases literalChar_cases c with ⟨d, h, hd, -⟩ | ⟨h, hquote, hbackslash, -⟩
  · rw [h]
    exact Rule.toClosingQuote?_escape hd text
  · rw [h]
    exact Rule.toClosingQuote?_plain hquote hbackslash text

/-- The lexer finds the end of a literal at its last quote and not before. -/
theorem toClosingQuote?_flatMap (cs rest : List Char) :
    Rule.toClosingQuote? false (cs.flatMap literalChar ++ '"' :: rest) =
      some ((cs.flatMap literalChar).length + 1) := by
  induction cs with
  | nil => rfl
  | cons c cs ih =>
    rw [List.flatMap_cons, List.append_assoc, toClosingQuote?_literalChar, ih, Option.map_some,
      List.length_append]
    congr 1
    omega

theorem toList_literalQuote (s : String) :
    (literalQuote s).toList = '"' :: (s.toList.flatMap literalChar ++ ['"']) := by
  rw [literalQuote, String.toList_ofList]
  rfl

theorem literalQuote_inj {s t : String} (h : literalQuote s = literalQuote t) : s = t := by
  have hlist := congrArg String.toList h
  rw [toList_literalQuote, toList_literalQuote] at hlist
  have hbody := List.append_cancel_right (List.cons.inj hlist).2
  rw [← String.toList_inj, ← unescaped_flatMap s.toList, hbody, unescaped_flatMap]

end TriadLang
