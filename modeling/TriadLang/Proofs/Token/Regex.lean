import Mathlib.Data.List.Forall2
import TriadLang.Proofs.Token.Cut

/-!
# Rules as regular expressions

Each lexical rule is the match of a regular expression at the front of a text.
An expression can match in several ways, and the ways have an order: the first
side of an alternative comes before the second one, an eager repetition prefers
to go on, and a lazy one prefers to stop.  The match is the first way that leads
through the whole expression.

The rules never go back and try another way, since their characters tell what to
do.  `Rule.forall₂_finds` says that they find the same matches nevertheless.
-/

namespace TriadLang

namespace Rule

theorem toCommentEnd?_cons (c : Char) (text : List Char) :
    toCommentEnd? false (c :: text) =
      if ['*', '/'] <+: c :: text then some 2 else (toCommentEnd? false text).map (· + 1) := by
  by_cases hc : c = '*'
  · subst hc
    cases text with
    | nil => rfl
    | cons d text =>
      by_cases hd : d = '/'
      · subst hd
        exact (if_pos (List.prefix_append ['*', '/'] text)).symm
      · have hp : ¬ ['*', '/'] <+: '*' :: d :: text := by
          rw [List.cons_prefix_cons, List.cons_prefix_cons]
          exact fun h => hd h.2.1.symm
        rw [if_neg hp, toCommentEnd?, toCommentEnd?, toCommentEnd?]
        simp [hd]
  · have hp : ¬ ['*', '/'] <+: c :: text := by
      rw [List.cons_prefix_cons]
      exact fun h => hc h.1.symm
    rw [if_neg hp, toCommentEnd?, beq_false_of_ne hc]
    rfl

theorem toCommentEnd?_eq_none_iff {text : List Char} :
    toCommentEnd? false text = none ↔ ¬ ['*', '/'] <:+: text := by
  induction text with
  | nil => simp [toCommentEnd?]
  | cons c text ih =>
    rw [toCommentEnd?_cons, List.infix_cons_iff]
    by_cases hp : ['*', '/'] <+: c :: text
    · simp [hp]
    · rw [if_neg hp, Option.map_eq_none_iff, ih]
      simp [hp]

/-- A comment is closed by the first closing. -/
theorem toCommentEnd?_body {body : List Char} (hb : ¬ ['*', '/'] <:+: body) (rest : List Char) :
    toCommentEnd? false (body ++ '*' :: '/' :: rest) = some (body.length + 2) := by
  induction body with
  | nil => rfl
  | cons c body ih =>
    rw [List.infix_cons_iff, not_or] at hb
    have hp : ¬ ['*', '/'] <+: c :: (body ++ '*' :: '/' :: rest) := by
      cases body with
      | nil =>
        rw [List.nil_append, List.cons_prefix_cons, List.cons_prefix_cons]
        rintro ⟨-, h, -⟩
        cases h
      | cons d body =>
        have hcd := hb.1
        rw [List.cons_prefix_cons, List.cons_prefix_cons] at hcd
        rw [List.cons_append, List.cons_prefix_cons, List.cons_prefix_cons]
        rintro ⟨hc, hd, -⟩
        exact hcd ⟨hc, hd, List.nil_prefix⟩
    rw [List.cons_append, toCommentEnd?_cons, if_neg hp, ih hb.2]
    rfl

theorem toClosingQuote?_escape {c : Char} (hc : c ≠ '\n') (text : List Char) :
    toClosingQuote? false ('\\' :: c :: text) = (toClosingQuote? false text).map (· + 2) := by
  show ((if c == '\n' then none else (toClosingQuote? false text).map (· + 1)).map (· + 1)) = _
  rw [if_neg (by simpa using hc), Option.map_map]
  rfl

theorem toClosingQuote?_plain {c : Char} (hq : c ≠ '"') (hs : c ≠ '\\') (text : List Char) :
    toClosingQuote? false (c :: text) = (toClosingQuote? false text).map (· + 1) := by
  rw [toClosingQuote?, if_neg (by simpa using hq), beq_false_of_ne hs]

theorem string_induction {motive : List Char → Prop} (nil : motive [])
    (quote : ∀ text, motive ('"' :: text)) (lone : motive ['\\'])
    (newline : ∀ text, motive ('\\' :: '\n' :: text))
    (escape : ∀ c text, c ≠ '\n' → motive text → motive ('\\' :: c :: text))
    (plain : ∀ c text, c ≠ '"' → c ≠ '\\' → motive text → motive (c :: text)) :
    ∀ text, motive text
  | [] => nil
  | c :: text => by
    by_cases hq : c = '"'
    · subst hq
      exact quote text
    · by_cases hs : c = '\\'
      · subst hs
        cases text with
        | nil => exact lone
        | cons d text =>
          by_cases hd : d = '\n'
          · subst hd
            exact newline text
          · exact escape d text hd (string_induction nil quote lone newline escape plain text)
      · exact plain c text hq hs (string_induction nil quote lone newline escape plain text)

end Rule

/-- A class of characters: those in some ranges, or all others. -/
structure CharClass where
  ranges : List (Char × Char)
  negated : Bool
deriving DecidableEq, Repr

def CharClass.holds (k : CharClass) (c : Char) : Bool :=
  (k.ranges.any fun r => r.1 ≤ c && c ≤ r.2) != k.negated

inductive Regex where
  | chars (cs : List Char)
  | one (k : CharClass)
  | seq (a b : Regex)
  | or (a b : Regex)
  /-- Any number of times, as often as possible. -/
  | many (a : Regex)
  /-- Any number of times, as seldom as possible. -/
  | few (a : Regex)
deriving DecidableEq, Repr

namespace Regex

/-- All ways to repeat a step, each as the text that it leaves.  A round that takes
nothing is not made. -/
def repeats (step : List Char → List (List Char)) (eager : Bool) (text : List Char) :
    List (List Char) :=
  let more := ((step text).filter (·.length < text.length)).attach.flatMap fun rest =>
    repeats step eager rest.1
  if eager then more ++ [text] else text :: more
termination_by text.length
decreasing_by exact of_decide_eq_true (List.mem_filter.1 rest.2).2

/-- All ways to match the front of a text, the preferred one first, each as the
text that it leaves. -/
def rests : Regex → List Char → List (List Char)
  | chars cs, text => if cs.isPrefixOf text then [text.drop cs.length] else []
  | one _, [] => []
  | one k, c :: text => if k.holds c then [text] else []
  | seq a b, text => (a.rests text).flatMap b.rests
  | or a b, text => a.rests text ++ b.rests text
  | many a, text => repeats a.rests true text
  | few a, text => repeats a.rests false text

/-- The number of characters that the match at the front of a text takes. -/
def taken? (e : Regex) (text : List Char) : Option Nat :=
  (e.rests text).head?.map fun rest => text.length - rest.length

/-! ## The table -/

def anyOf (cs : List Char) : Regex := one ⟨cs.map fun c => (c, c), false⟩

def noneOf (cs : List Char) : Regex := one ⟨cs.map fun c => (c, c), true⟩

def atLeastOnce (a : Regex) : Regex := seq a (many a)

def blanks : Regex := atLeastOnce (anyOf [' ', '\t', '\r', '\n'])

def lineComment : Regex := seq (chars ['/', '/']) (many (noneOf ['\n']))

def commentRest : Regex := seq (few (noneOf [])) (chars ['*', '/'])

def blockComment : Regex := seq (chars ['/', '*']) commentRest

def digits : Regex := atLeastOnce (one ⟨[('0', '9')], false⟩)

def stringPart : Regex := or (noneOf ['"', '\\']) (seq (chars ['\\']) (noneOf ['\n']))

def stringRest : Regex := seq (many stringPart) (chars ['"'])

def string : Regex := seq (chars ['"']) stringRest

def word : Regex :=
  seq (one ⟨[('A', 'Z'), ('a', 'z'), ('_', '_')], false⟩)
    (many (one ⟨[('A', 'Z'), ('a', 'z'), ('0', '9'), ('_', '_')], false⟩))

/-- The expressions in the order of the rules, with the kinds of their tokens. -/
def table : List (Option Kind × Regex) :=
  [(none, blanks), (none, lineComment), (none, blockComment)] ++
  Rule.signOrder.map (fun k => (some k, chars k.spelling.toList)) ++
  [(some .number, digits), (some .text, string), (some .ident, word)]

/-! ## Ways to match -/

section

variable {a b e e' : Regex} {k : CharClass} {text rest cs : List Char}

theorem repeats_eq (step : List Char → List (List Char)) (eager : Bool) (text : List Char) :
    repeats step eager text =
      let more := ((step text).filter (·.length < text.length)).flatMap (repeats step eager)
      if eager then more ++ [text] else text :: more := by
  rw [repeats]
  simp only [List.flatMap_subtype, List.unattach_attach]

theorem repeats_of_nil {step : List Char → List (List Char)} (h : step text = [])
    (eager : Bool) : repeats step eager text = [text] := by
  rw [repeats_eq, h]
  cases eager <;> rfl

theorem repeats_of_singleton {step : List Char → List (List Char)} (h : step text = [rest])
    (hlt : rest.length < text.length) (eager : Bool) :
    repeats step eager text =
      if eager then repeats step eager rest ++ [text] else text :: repeats step eager rest := by
  have hmore : ((step text).filter (·.length < text.length)).flatMap (repeats step eager) =
      repeats step eager rest := by
    rw [h, List.filter_cons_of_pos (by simpa using hlt), List.filter_nil, List.flatMap_singleton]
  rw [repeats_eq, hmore]

theorem length_le_of_mem_repeats {step : List Char → List (List Char)} {eager : Bool}
    (h : rest ∈ repeats step eager text) : rest.length ≤ text.length := by
  fun_induction repeats step eager text with
  | case1 text more heager ih | case2 text more heager ih =>
    have hmore : rest ∈ more → rest.length ≤ text.length := by
      intro hm
      obtain ⟨⟨mid, hmid⟩, -, hr⟩ := List.mem_flatMap.1 hm
      have hlt : mid.length < text.length := of_decide_eq_true (List.mem_filter.1 hmid).2
      exact Nat.le_trans (ih ⟨mid, hmid⟩ hr) (Nat.le_of_lt hlt)
    simp only [List.mem_append, List.mem_cons, List.not_mem_nil, or_false] at h
    first
    | rcases h with h | rfl
      · exact hmore h
      · exact Nat.le_refl _
    | rcases h with rfl | h
      · exact Nat.le_refl _
      · exact hmore h

theorem length_le_of_mem_rests (h : rest ∈ e.rests text) : rest.length ≤ text.length := by
  induction e generalizing text rest with
  | chars cs =>
    rw [rests] at h
    split at h
    · rw [List.mem_singleton.1 h, List.length_drop]
      exact Nat.sub_le ..
    · cases h
  | one k =>
    cases text with
    | nil => cases h
    | cons c text =>
      rw [rests] at h
      split at h
      · rw [List.mem_singleton.1 h, List.length_cons]
        exact Nat.le_succ _
      · cases h
  | seq a b iha ihb =>
    obtain ⟨mid, hmid, hr⟩ := List.mem_flatMap.1 h
    exact Nat.le_trans (ihb hr) (iha hmid)
  | or a b iha ihb =>
    rcases List.mem_append.1 h with h | h
    · exact iha h
    · exact ihb h
  | many a _ => exact length_le_of_mem_repeats h
  | few a _ => exact length_le_of_mem_repeats h

theorem taken?_of_rests_nil (h : e.rests text = []) : e.taken? text = none := by
  rw [taken?, h]
  rfl

/-- If the ways to go on are those of another expression further on, then what is in
between is taken, and then the match of the other expression. -/
theorem taken?_append_of_rests (h : e.rests (cs ++ text) = e'.rests text) :
    e.taken? (cs ++ text) = (e'.taken? text).map (· + cs.length) := by
  rw [taken?, taken?, h]
  cases hr : e'.rests text with
  | nil => rfl
  | cons rest more =>
    have hle : rest.length ≤ text.length :=
      length_le_of_mem_rests (e := e') (by rw [hr]; exact List.mem_cons_self)
    simp only [List.head?_cons, Option.map_some, Option.some.injEq, List.length_append]
    omega

theorem taken?_append_of_singleton (h : e.rests (cs ++ text) = [text]) :
    e.taken? (cs ++ text) = some cs.length := by
  rw [taken?, h, List.head?_cons, Option.map_some, List.length_append, Nat.add_sub_cancel]

theorem rests_chars_append (cs text : List Char) : (chars cs).rests (cs ++ text) = [text] := by
  rw [rests, if_pos (by simp), List.drop_left]

theorem rests_chars_of_not_prefix (h : ¬ cs <+: text) : (chars cs).rests text = [] := by
  rw [rests, if_neg (by simpa using h)]

theorem taken?_chars_seq_append (cs : List Char) (b : Regex) (text : List Char) :
    (seq (chars cs) b).taken? (cs ++ text) = (b.taken? text).map (· + cs.length) := by
  apply taken?_append_of_rests
  rw [rests, rests_chars_append, List.flatMap_singleton]

theorem taken?_chars_seq_of_not_prefix (h : ¬ cs <+: text) (b : Regex) :
    (seq (chars cs) b).taken? text = none := by
  apply taken?_of_rests_nil
  rw [rests, rests_chars_of_not_prefix h]
  rfl

theorem rests_many_seq_of_nil (h : a.rests text = []) :
    (seq (many a) b).rests text = b.rests text := by
  rw [rests, rests, repeats_of_nil h, List.flatMap_singleton]

theorem rests_many_seq_of_singleton (h : a.rests text = [rest])
    (hlt : rest.length < text.length) :
    (seq (many a) b).rests text = (seq (many a) b).rests rest ++ b.rests text := by
  show (repeats a.rests true text).flatMap b.rests = (repeats a.rests true rest).flatMap b.rests ++ _
  rw [repeats_of_singleton h hlt, if_pos rfl, List.flatMap_append, List.flatMap_singleton]

theorem rests_few_seq_of_nil (h : a.rests text = []) :
    (seq (few a) b).rests text = b.rests text := by
  rw [rests, rests, repeats_of_nil h, List.flatMap_singleton]

theorem rests_few_seq_of_singleton (h : a.rests text = [rest])
    (hlt : rest.length < text.length) :
    (seq (few a) b).rests text = b.rests text ++ (seq (few a) b).rests rest := by
  show (repeats a.rests false text).flatMap b.rests =
    _ ++ (repeats a.rests false rest).flatMap b.rests
  rw [repeats_of_singleton h hlt, if_neg Bool.false_ne_true, List.flatMap_cons]

theorem rests_one_of_holds {c : Char} (h : k.holds c) (text : List Char) :
    (one k).rests (c :: text) = [text] := if_pos h

theorem rests_one_of_not_holds {c : Char} (h : ¬ k.holds c) (text : List Char) :
    (one k).rests (c :: text) = [] := if_neg h

theorem taken?_many_one (k : CharClass) (text : List Char) :
    (many (one k)).taken? text = some (text.takeWhile k.holds).length := by
  induction text with
  | nil =>
    have h : (many (one k)).rests ([] ++ []) = [[]] := repeats_of_nil rfl true
    exact taken?_append_of_singleton h
  | cons c text ih =>
    by_cases hc : k.holds c
    · have h : (many (one k)).rests (c :: text) = (many (one k)).rests text ++ [c :: text] :=
        repeats_of_singleton (rests_one_of_holds hc text) (Nat.lt_succ_self _) true
      rw [taken?] at ih
      obtain ⟨rest, hrest, hlen⟩ := Option.map_eq_some_iff.1 ih
      have hle : rest.length ≤ text.length :=
        length_le_of_mem_rests (List.mem_of_mem_head? hrest)
      rw [taken?, h, List.head?_append, hrest, Option.some_or, Option.map_some,
        List.takeWhile_cons_of_pos hc, List.length_cons, List.length_cons, ← hlen,
        Nat.succ_sub hle]
    · have h : (many (one k)).rests ([] ++ c :: text) = [c :: text] :=
        repeats_of_nil (rests_one_of_not_holds hc text) true
      rw [List.takeWhile_cons_of_neg hc]
      exact taken?_append_of_singleton h

theorem taken?_one_seq_many_one (k k' : CharClass) (c : Char) (text : List Char) :
    (seq (one k) (many (one k'))).taken? (c :: text) =
      if k.holds c then some (1 + (text.takeWhile k'.holds).length) else none := by
  by_cases hc : k.holds c
  · have h : (seq (one k) (many (one k'))).rests ([c] ++ text) = (many (one k')).rests text := by
      rw [rests, List.singleton_append, rests_one_of_holds hc, List.flatMap_singleton]
    rw [if_pos hc, ← List.singleton_append, taken?_append_of_rests h, taken?_many_one,
      Option.map_some, List.length_singleton, Nat.add_comm]
  · rw [if_neg hc]
    apply taken?_of_rests_nil
    rw [rests, rests_one_of_not_holds hc]
    rfl

theorem taken?_atLeastOnce_one (k : CharClass) (text : List Char) :
    (atLeastOnce (one k)).taken? text =
      if (text.takeWhile k.holds).length = 0 then none
      else some (text.takeWhile k.holds).length := by
  cases text with
  | nil => rfl
  | cons c text =>
    rw [atLeastOnce, taken?_one_seq_many_one]
    by_cases hc : k.holds c
    · rw [if_pos hc, List.takeWhile_cons_of_pos hc, List.length_cons, if_neg (Nat.succ_ne_zero _),
        Nat.add_comm]
    · rw [if_neg hc, List.takeWhile_cons_of_neg hc]
      rfl

end

theorem le_and_le_eq_beq (c d : Char) : (d ≤ c && c ≤ d) = (c == d) := by
  rw [Bool.eq_iff_iff, Bool.and_eq_true, decide_eq_true_eq, decide_eq_true_eq, beq_iff_eq]
  exact ⟨fun h => Char.le_antisymm h.2 h.1, fun h => h ▸ ⟨Char.le_refl c, Char.le_refl c⟩⟩

theorem holds_singles (cs : List Char) (negated : Bool) (c : Char) :
    CharClass.holds ⟨cs.map fun d => (d, d), negated⟩ c = (cs.contains c != negated) := by
  rw [CharClass.holds, List.any_map, List.contains_eq_any_beq]
  congr 2
  funext d
  exact le_and_le_eq_beq c d

theorem rests_noneOf_of_not_mem {cs : List Char} {c : Char} (h : c ∉ cs) (text : List Char) :
    (noneOf cs).rests (c :: text) = [text] := by
  apply rests_one_of_holds
  rw [holds_singles]
  simpa using h

theorem rests_noneOf_of_mem {cs : List Char} {c : Char} (h : c ∈ cs) (text : List Char) :
    (noneOf cs).rests (c :: text) = [] := by
  apply rests_one_of_not_holds
  rw [holds_singles]
  simpa using h

theorem rests_commentRest_cons (c : Char) (text : List Char) :
    commentRest.rests (c :: text) =
      (chars ['*', '/']).rests (c :: text) ++ commentRest.rests text :=
  rests_few_seq_of_singleton (rests_noneOf_of_not_mem List.not_mem_nil text) (Nat.lt_succ_self _)

theorem taken?_commentRest (text : List Char) :
    commentRest.taken? text = Rule.toCommentEnd? false text := by
  induction text with
  | nil => exact taken?_of_rests_nil (rests_few_seq_of_nil rfl)
  | cons c text ih =>
    rw [Rule.toCommentEnd?_cons]
    by_cases hp : ['*', '/'] <+: c :: text
    · rw [if_pos hp, taken?, rests_commentRest_cons, List.head?_append]
      obtain ⟨rest, hrest⟩ := hp
      rw [← hrest, rests_chars_append, List.head?_cons, Option.some_or, Option.map_some,
        List.length_append, Nat.add_sub_cancel]
      rfl
    · have h : commentRest.rests ([c] ++ text) = commentRest.rests text := by
        rw [List.singleton_append, rests_commentRest_cons, rests_chars_of_not_prefix hp,
          List.nil_append]
      rw [if_neg hp, ← ih]
      exact taken?_append_of_rests h

theorem rests_stringPart_escape (text : List Char) :
    stringPart.rests ('\\' :: text) = (noneOf ['\n']).rests text := by
  rw [stringPart, rests, rests_noneOf_of_mem (by decide), List.nil_append, rests]
  exact (congrArg _ (rests_chars_append ['\\'] text)).trans (List.flatMap_singleton ..)

theorem rests_stringRest_quote (text : List Char) :
    stringRest.rests ('"' :: text) = [text] := by
  have hpart : stringPart.rests ('"' :: text) = [] := by
    rw [stringPart, rests, rests_noneOf_of_mem (by decide), List.nil_append, rests,
      rests_chars_of_not_prefix (by simp)]
    rfl
  rw [stringRest, rests_many_seq_of_nil hpart]
  exact rests_chars_append ['"'] text

theorem rests_stringRest_of_stuck {text : List Char} (hq : ¬ ['"'] <+: text)
    (h : stringPart.rests text = []) : stringRest.rests text = [] := by
  rw [stringRest, rests_many_seq_of_nil h, rests_chars_of_not_prefix hq]

theorem rests_stringRest_of_part {text rest : List Char} (hq : ¬ ['"'] <+: text)
    (h : stringPart.rests text = [rest]) (hlt : rest.length < text.length) :
    stringRest.rests text = stringRest.rests rest := by
  rw [stringRest, rests_many_seq_of_singleton h hlt, rests_chars_of_not_prefix hq, List.append_nil]

theorem taken?_stringRest (text : List Char) :
    stringRest.taken? text = Rule.toClosingQuote? false text := by
  induction text using Rule.string_induction with
  | nil => exact taken?_of_rests_nil (rests_stringRest_of_stuck (by simp) rfl)
  | quote text =>
    have h : stringRest.rests (['"'] ++ text) = [text] := rests_stringRest_quote text
    exact taken?_append_of_singleton h
  | lone =>
    have hpart : stringPart.rests ['\\'] = [] := rests_stringPart_escape []
    exact taken?_of_rests_nil (rests_stringRest_of_stuck (by simp) hpart)
  | newline text =>
    have hpart : stringPart.rests ('\\' :: '\n' :: text) = [] :=
      (rests_stringPart_escape _).trans (rests_noneOf_of_mem (by decide) text)
    exact taken?_of_rests_nil (rests_stringRest_of_stuck (by simp) hpart)
  | escape c text hc ih =>
    have hpart : stringPart.rests ('\\' :: c :: text) = [text] :=
      (rests_stringPart_escape _).trans (rests_noneOf_of_not_mem (by simpa using hc) text)
    have h : stringRest.rests (['\\', c] ++ text) = stringRest.rests text :=
      rests_stringRest_of_part (by simp) hpart (Nat.lt_succ_of_lt (Nat.lt_succ_self _))
    rw [Rule.toClosingQuote?_escape hc, ← ih]
    exact taken?_append_of_rests h
  | plain c text hq hs ih =>
    have hquote : ¬ ['"'] <+: c :: text := by
      rw [List.cons_prefix_cons]
      exact fun h => hq h.1.symm
    have hslash : ¬ ['\\'] <+: c :: text := by
      rw [List.cons_prefix_cons]
      exact fun h => hs h.1.symm
    have hpart : stringPart.rests (c :: text) = [text] := by
      rw [stringPart, rests, rests_noneOf_of_not_mem (by simp [hq, hs]), rests,
        rests_chars_of_not_prefix hslash]
      rfl
    have h : stringRest.rests ([c] ++ text) = stringRest.rests text :=
      rests_stringRest_of_part hquote hpart (Nat.lt_succ_self _)
    rw [Rule.toClosingQuote?_plain hq hs, ← ih]
    exact taken?_append_of_rests h

end Regex

/-! ## The table of rules -/

/-- A rule takes what an expression matches, and an expression does not match an
empty text. -/
def Rule.Finds (r : Rule) (e : Regex) : Prop :=
  ∀ text, e.taken? text = if r.length text = 0 then none else some (r.length text)

namespace Rule

theorem finds_blanks : blanks.Finds Regex.blanks := by
  have hclass : CharClass.holds ⟨[' ', '\t', '\r', '\n'].map fun c => (c, c), false⟩ = isBlank := by
    funext c
    rw [Regex.holds_singles, Bool.bne_false]
    simp only [List.contains_cons, List.contains_nil, Bool.or_false, isBlank, Bool.or_assoc]
  intro text
  rw [Regex.blanks, Regex.anyOf, Regex.taken?_atLeastOnce_one, hclass]
  rfl

theorem finds_digits : digits.Finds Regex.digits := by
  have hclass : CharClass.holds ⟨[('0', '9')], false⟩ = Char.isDigit := by
    funext c
    rw [CharClass.holds, Bool.bne_false, List.any_cons, List.any_nil, Bool.or_false]
    rfl
  intro text
  rw [Regex.digits, Regex.taken?_atLeastOnce_one, hclass]
  rfl

theorem finds_word : word.Finds Regex.word := by
  have hupper : ∀ c : Char, ('A' ≤ c && c ≤ 'Z') = c.isUpper := fun _ => (Bool.decide_and _ _).symm
  have halpha : ∀ c : Char, c.isAlpha = (c.isUpper || c.isLower) := fun _ => rfl
  have hstart : CharClass.holds ⟨[('A', 'Z'), ('a', 'z'), ('_', '_')], false⟩ = isWordStart := by
    funext c
    simp only [CharClass.holds, Bool.bne_false, List.any_cons, List.any_nil, Bool.or_false,
      Regex.le_and_le_eq_beq, hupper, isWordStart, halpha, Bool.or_assoc]
    rfl
  have hpart : CharClass.holds ⟨[('A', 'Z'), ('a', 'z'), ('0', '9'), ('_', '_')], false⟩ =
      isWordPart := by
    funext c
    simp only [CharClass.holds, Bool.bne_false, List.any_cons, List.any_nil, Bool.or_false,
      Regex.le_and_le_eq_beq, hupper, isWordPart, Char.isAlphanum, halpha, Bool.or_assoc]
    rfl
  intro text
  cases text with
  | nil => rfl
  | cons c text =>
    rw [Regex.word, Regex.taken?_one_seq_many_one, hstart, hpart, word]
    by_cases hc : isWordStart c
    · simp [hc]
    · simp [hc]

theorem finds_sign (k : Kind) (hk : k ∈ Kind.signs) :
    (sign k).Finds (.chars k.spelling.toList) := by
  intro text
  rw [length_sign]
  by_cases hp : k.spelling.toList <+: text
  · obtain ⟨d, ds, hs, -⟩ := exists_head_sign hk
    obtain ⟨rest, rfl⟩ := hp
    rw [if_pos (List.prefix_append _ _), if_neg (by rw [hs]; exact Nat.succ_ne_zero _)]
    exact Regex.taken?_append_of_singleton (Regex.rests_chars_append _ rest)
  · rw [if_neg hp, if_pos rfl]
    exact Regex.taken?_of_rests_nil (Regex.rests_chars_of_not_prefix hp)

theorem finds_of_opening {r : Rule} {cs : List Char} (hcs : cs ≠ []) {e : Regex}
    (hopen : ∀ text, r.length text ≠ 0 → cs <+: text)
    (hrest : ∀ text, r.length (cs ++ text) = ((e.taken? text).map (· + cs.length)).getD 0) :
    r.Finds (.seq (.chars cs) e) := by
  intro text
  by_cases hp : cs <+: text
  · obtain ⟨text, rfl⟩ := hp
    rw [Regex.taken?_chars_seq_append, hrest]
    cases e.taken? text with
    | none => rfl
    | some n =>
      have hpos := List.length_pos_iff.2 hcs
      rw [Option.map_some, Option.getD_some, if_neg (by omega)]
  · have hzero : r.length text = 0 := by
      by_contra h
      exact hp (hopen text h)
    rw [Regex.taken?_chars_seq_of_not_prefix hp, hzero, if_pos rfl]

theorem finds_lineComment : lineComment.Finds Regex.lineComment := by
  have hclass : CharClass.holds ⟨['\n'].map fun c => (c, c), true⟩ = (· != '\n') := by
    funext c
    rw [Regex.holds_singles, List.contains_cons, List.contains_nil, Bool.or_false, Bool.bne_true]
    rfl
  refine finds_of_opening (List.cons_ne_nil _ _) (fun text h => ?_) (fun text => ?_)
  · obtain ⟨cs, rfl⟩ := exists_of_lineComment h
    exact List.prefix_append ['/', '/'] cs
  · rw [Regex.noneOf, Regex.taken?_many_one, hclass]
    exact Nat.add_comm ..

theorem finds_blockComment : blockComment.Finds Regex.blockComment := by
  refine finds_of_opening (List.cons_ne_nil _ _) (fun text h => ?_) (fun text => ?_)
  · obtain ⟨cs, rest, rfl, -⟩ := exists_of_blockComment h
    exact List.prefix_append ['/', '*'] (cs ++ rest)
  · rw [Regex.taken?_commentRest]
    rfl

theorem finds_string : string.Finds Regex.string := by
  refine finds_of_opening (List.cons_ne_nil _ _) (fun text h => ?_) (fun text => ?_)
  · obtain ⟨cs, rest, rfl, -⟩ := exists_of_string h
    exact List.prefix_append ['"'] (cs ++ rest)
  · rw [Regex.taken?_stringRest]
    rfl

/-- The rules find the matches of the expressions, one by one. -/
theorem forall₂_finds : List.Forall₂ (fun r e => r.kind? = e.1 ∧ r.Finds e.2) table Regex.table := by
  have hsigns : ∀ ks : List Kind, (∀ k ∈ ks, k ∈ Kind.signs) →
      List.Forall₂ (fun r e => r.kind? = e.1 ∧ r.Finds e.2) (ks.map sign)
        (ks.map fun k => (some k, Regex.chars k.spelling.toList)) := by
    intro ks hks
    rw [List.forall₂_map_left_iff, List.forall₂_map_right_iff, List.forall₂_same]
    exact fun k hk => ⟨rfl, finds_sign k (hks k hk)⟩
  rw [table_eq]
  refine .cons ⟨rfl, finds_blanks⟩ (.cons ⟨rfl, finds_lineComment⟩
    (.cons ⟨rfl, finds_blockComment⟩ ?_))
  refine List.rel_append (hsigns signOrder fun k hk => mem_signOrder.1 hk) ?_
  exact .cons ⟨rfl, finds_digits⟩ (.cons ⟨rfl, finds_string⟩ (.cons ⟨rfl, finds_word⟩ .nil))

end Rule

end TriadLang
