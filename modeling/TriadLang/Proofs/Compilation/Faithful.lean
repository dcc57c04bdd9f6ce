import TriadLang.Proofs.Compilation.Course
import TriadLang.Proofs.Tree.Kept

namespace TriadLang

theorem exists_lines_of_compile_eq_ok {src text : String} (h : (compile src).result = .ok text) :
    ∃ p : Program, (read src).result = .ok p ∧ p.WellFormed ∧
      text = joinLines (p.lines.map String.ofList) := by
  have hcourse := compile_course src
  rw [h] at hcourse
  generalize (compile src).journal.notices = notices at hcourse
  cases hcourse with
  | @done ts p ht hp _ => exact ⟨p, read_eq_ok_iff.2 ⟨ts, ht, hp⟩, (words_of_parse ht hp).1, rfl⟩

/-- What two texts compile to is the same exactly if their programs are the same up to
spans and marks, where a result that is left out counts as `void` and the type of a
variable that is left out as `auto`. -/
theorem compile_eq_iff_kept_eq {a b s t : String} (ha : (compile a).result = .ok s)
    (hb : (compile b).result = .ok t) :
    ∃ p q : Program, (read a).result = .ok p ∧ (read b).result = .ok q ∧
      (s = t ↔ p.kept = q.kept) := by
  obtain ⟨p, hp, hpw, rfl⟩ := exists_lines_of_compile_eq_ok ha
  obtain ⟨q, hq, hqw, rfl⟩ := exists_lines_of_compile_eq_ok hb
  refine ⟨p, q, hp, hq, ?_⟩
  rw [← Program.lines_eq_iff hpw hqw]
  constructor
  · exact joinLines_inj hpw.not_mem_lines hqw.not_mem_lines p.lines_ne_singleton_nil
      q.lines_ne_singleton_nil
  · intro h
    rw [h]

/-- A mark, and types that are written or not, make no difference, but whether a
variable is mutable does. -/
theorem compile_eq_iff_kept_eq_types : ∃ p q r : Program,
    (read "fractal function f()\x7bmutable x=f(1,uncertain);\x7d").result = .ok p ∧
      (read "function f()->void\x7bmutable x:auto=f(1,uncertain);\x7d").result = .ok q ∧
      (read "function f()\x7bimmutable x=f(1,uncertain);\x7d").result = .ok r ∧
      p.kept = q.kept ∧ p.kept ≠ r.kept := by
  have ha : (compile "fractal function f()\x7bmutable x=f(1,uncertain);\x7d").result =
      .ok "void f() \x7b\n  mutable auto x = f(1, \"uncertain\");\n\x7d" :=
    ok_of_toOption (by decide +kernel)
  have hb : (compile "function f()->void\x7bmutable x:auto=f(1,uncertain);\x7d").result =
      .ok "void f() \x7b\n  mutable auto x = f(1, \"uncertain\");\n\x7d" :=
    ok_of_toOption (by decide +kernel)
  have hc : (compile "function f()\x7bimmutable x=f(1,uncertain);\x7d").result =
      .ok "void f() \x7b\n  auto x = f(1, \"uncertain\");\n\x7d" :=
    ok_of_toOption (by decide +kernel)
  obtain ⟨p, q, hp, hq, hsame⟩ := compile_eq_iff_kept_eq ha hb
  obtain ⟨p', r, hp', hr, hdiffer⟩ := compile_eq_iff_kept_eq ha hc
  rw [hp] at hp'
  cases hp'
  refine ⟨p, q, r, hp, hq, hr, hsame.1 rfl, fun h => ?_⟩
  exact absurd (hdiffer.2 h) (by decide +kernel)

end TriadLang
