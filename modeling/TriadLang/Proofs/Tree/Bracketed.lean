import Mathlib.Data.List.Nodup
import TriadLang.Proofs.Tree.Grammar

namespace TriadLang

open Spelling

namespace Kind

/-- The kind of the bracket that closes what a bracket of this kind opens. -/
def closer? : Kind → Option Kind
  | .openParen => some .closeParen
  | .openBrace => some .closeBrace
  | .openSquare => some .closeSquare
  | _ => none

/-- The kinds that are neither brackets nor the end of a text. -/
def isPlain (k : Kind) : Bool :=
  k ∉ [.openParen, .closeParen, .openBrace, .closeBrace, .openSquare, .closeSquare, .eof]

theorem closer?_of_isPlain {k : Kind} (h : k.isPlain) : k.closer? = none := by
  cases k <;> first | rfl | exact absurd h (by decide)

theorem isPlain_of_closer? {k closer : Kind} (h : k.closer? = some closer) :
    k.isPlain = false ∧ closer.isPlain = false ∧ k ≠ .eof ∧ closer ≠ .eof ∧
      closer.closer? = none := by
  cases k <;> cases h <;> decide

end Kind

/-- Tokens in which every bracket has its partner.  None of them is an end token. -/
inductive Bracketed : List Token → Prop where
  | nil : Bracketed []
  | plain {t : Token} {ts : List Token} (hk : t.kind.isPlain) (h : Bracketed ts) :
      Bracketed (t :: ts)
  | pair {opening closing : Token} {inner ts : List Token}
      (hk : opening.kind.closer? = some closing.kind) (hi : Bracketed inner) (h : Bracketed ts) :
      Bracketed (opening :: (inner ++ closing :: ts))

namespace Bracketed

variable {ts us : List Token} {t opening closing : Token}

theorem append (h : Bracketed ts) (hu : Bracketed us) : Bracketed (ts ++ us) := by
  induction h with
  | nil => exact hu
  | plain hk _ ih => exact .plain hk ih
  | pair hk hi _ _ ih =>
    rw [List.cons_append, List.append_assoc, List.cons_append]
    exact .pair hk hi ih

theorem singleton (hk : t.kind.isPlain) : Bracketed [t] := .plain hk .nil

theorem enclosed (hk : opening.kind.closer? = some closing.kind) (h : Bracketed ts) :
    Bracketed (opening :: (ts ++ [closing])) := .pair hk h .nil

theorem kind_ne_eof (h : Bracketed ts) : ∀ t ∈ ts, t.kind ≠ .eof := by
  induction h with
  | nil => simp
  | plain hk _ ih =>
    refine List.forall_mem_cons.2 ⟨?_, ih⟩
    intro heof
    rw [heof] at hk
    exact absurd hk (by decide)
  | pair hk _ _ ihi ih =>
    obtain ⟨-, -, ho, hc, -⟩ := Kind.isPlain_of_closer? hk
    refine List.forall_mem_cons.2 ⟨ho, List.forall_mem_append.2 ⟨ihi, ?_⟩⟩
    exact List.forall_mem_cons.2 ⟨hc, ih⟩

/-- A bracket has one partner: what is between the two cannot be longer or shorter. -/
theorem unique (h : Bracketed ts) (hu : Bracketed us) {closing' : Token} {rest rest' : List Token}
    (hc : closing.kind.isPlain = false ∧ closing.kind.closer? = none)
    (hc' : closing'.kind.isPlain = false ∧ closing'.kind.closer? = none)
    (heq : ts ++ closing :: rest = us ++ closing' :: rest') : ts = us := by
  induction h generalizing us rest rest' closing closing' with
  | nil =>
    cases hu with
    | nil => rfl
    | plain hk _ =>
      obtain ⟨rfl, -⟩ := List.cons.inj heq
      rw [hc.1] at hk
      cases hk
    | pair hk _ _ =>
      obtain ⟨rfl, -⟩ := List.cons.inj heq
      rw [hc.2] at hk
      cases hk
  | plain hk _ ih =>
    cases hu with
    | nil =>
      obtain ⟨rfl, -⟩ := List.cons.inj heq
      rw [hc'.1] at hk
      cases hk
    | plain hk' hu =>
      rw [List.cons_append, List.cons_append] at heq
      obtain ⟨rfl, htail⟩ := List.cons.inj heq
      rw [ih hu hc hc' htail]
    | pair hk' _ _ =>
      obtain ⟨rfl, -⟩ := List.cons.inj heq
      rw [Kind.closer?_of_isPlain hk] at hk'
      cases hk'
  | @pair opening₁ closing₁ inner₁ ts₁ hk hi _ ihi ih =>
    cases hu with
    | nil =>
      obtain ⟨rfl, -⟩ := List.cons.inj heq
      rw [hc'.2] at hk
      cases hk
    | plain hk' _ =>
      obtain ⟨rfl, -⟩ := List.cons.inj heq
      rw [Kind.closer?_of_isPlain hk'] at hk
      cases hk
    | @pair opening₂ closing₂ inner₂ ts₂ hk' hi' hu =>
      rw [List.cons_append, List.cons_append, List.append_assoc, List.append_assoc] at heq
      obtain ⟨rfl, htail⟩ := List.cons.inj heq
      obtain ⟨-, hplain, -, -, hnone⟩ := Kind.isPlain_of_closer? hk
      obtain ⟨-, hplain', -, -, hnone'⟩ := Kind.isPlain_of_closer? hk'
      have hinner : inner₁ = inner₂ := ihi hi' ⟨hplain, hnone⟩ ⟨hplain', hnone'⟩ htail
      subst hinner
      obtain ⟨rfl, hrest⟩ := List.cons.inj (List.append_cancel_left htail)
      rw [ih hu hc hc' hrest]

end Bracketed

/-- Among some tokens, `closing` is the partner of the bracket `opening`. -/
def Partners (ts : List Token) (opening closing : Token) : Prop :=
  ∃ before inner after, ts = before ++ opening :: (inner ++ closing :: after) ∧
    Bracketed inner ∧ opening.kind.closer? = some closing.kind

theorem Partners.unique {ts : List Token} (hts : ts.Nodup) {opening closing closing' : Token}
    (h : Partners ts opening closing) (h' : Partners ts opening closing') :
    closing = closing' := by
  obtain ⟨before, inner, after, rfl, hi, hk⟩ := h
  obtain ⟨before', inner', after', heq, hi', hk'⟩ := h'
  obtain ⟨-, hplain, -, -, hnone⟩ := Kind.isPlain_of_closer? hk
  obtain ⟨-, hplain', -, -, hnone'⟩ := Kind.isPlain_of_closer? hk'
  have hnot := List.nodup_middle.1 hts
  rw [List.nodup_cons, List.mem_append, not_or] at hnot
  obtain ⟨-, -, htail⟩ := (List.append_cons_inj_of_notMem hnot.1.1 hnot.1.2).1 heq
  have hinner := hi.unique hi' ⟨hplain, hnone⟩ ⟨hplain', hnone'⟩ htail
  subst hinner
  exact (List.cons.inj (List.append_cancel_left htail)).1

theorem partners_iff {ts inner : List Token} (hts : ts.Nodup) {opening closing : Token}
    (hk : opening.kind.closer? = some closing.kind) (hi : Bracketed inner)
    (hin : opening :: (inner ++ [closing]) <:+: ts) {t : Token} :
    Partners ts opening t ↔ t = closing := by
  have hp : Partners ts opening closing := by
    obtain ⟨before, after, rfl⟩ := hin
    refine ⟨before, inner, after, ?_, hi, hk⟩
    simp only [List.append_assoc, List.cons_append, List.nil_append]
  constructor
  · exact fun ht => ht.unique hts hp
  · rintro rfl
    exact hp

/-- What spells a value has all partners of its brackets. -/
def AllBracketed {α : Type} (L : Spelling α) : Prop := ∀ ⦃a ts⦄, L a ts → Bracketed ts

section

variable {α : Type} {L : Spelling α}

theorem many_bracketed (h : AllBracketed L) : AllBracketed (Many L) := by
  intro as ts has
  induction has with
  | nil => exact .nil
  | cons ha _ ih => exact (h ha).append ih

theorem separated_bracketed (h : AllBracketed L) : AllBracketed (Separated L) := by
  intro as ts has
  induction has with
  | single ha => exact h ha
  | cons ha hc _ ih => exact (h ha).append (.plain (by rw [hc]; rfl) ih)

theorem commaList_bracketed (h : AllBracketed L) : AllBracketed (CommaList L) := by
  intro as ts has
  cases has with
  | nil => exact .nil
  | some hs => exact separated_bracketed h hs

theorem after_bracketed {k : Kind} (hk : k.isPlain) (h : AllBracketed L) :
    AllBracketed (After k L) := by
  intro a? ts ha
  cases ha with
  | none => exact .nil
  | some ht ha => exact .plain (by rw [ht]; exact hk) (h ha)

end

theorem ident_bracketed : AllBracketed Ident.Spelled := by
  rintro i ts ⟨hk⟩
  exact .singleton (by rw [hk]; rfl)

theorem Literal.Spelled.isPlain {l : Literal} {t : Token} (h : l.Spelled t) : t.kind.isPlain := by
  cases h <;> simp_all [Kind.isPlain]

theorem exprWith_bracketed {Args : Spelling (List Expr)} (ha : AllBracketed Args) :
    AllBracketed (Expr.SpelledWith Args) := by
  intro e ts h
  cases h with
  | literal hl => exact .singleton hl.isPlain
  | name hk => exact .singleton (by rw [hk]; rfl)
  | call hk ho hargs hc =>
    exact .plain (by rw [hk]; rfl) (.enclosed (by rw [ho, hc]; rfl) (ha hargs))

theorem expr_bracketed (budget : Nat) : AllBracketed (Expr.Spelled budget) := by
  induction budget with
  | zero => exact exprWith_bracketed fun _ _ h => h.elim
  | succ budget ih => exact exprWith_bracketed (commaList_bracketed ih)

theorem stmt_bracketed : AllBracketed Stmt.Spelled := by
  intro s ts h
  cases h with
  | var hv =>
    cases hv with
    | mk hw hi ht he hs =>
      refine .plain (by rcases hw with hw | hw <;> rw [hw] <;> rfl) ((ident_bracketed hi).append ?_)
      refine (after_bracketed rfl ident_bracketed ht).append ?_
      exact (after_bracketed rfl (expr_bracketed _) he).append (.singleton (by rw [hs]; rfl))
  | expr he hs => exact (expr_bracketed _ he).append (.singleton (by rw [hs]; rfl))

theorem block_bracketed : AllBracketed Block.Spelled := by
  rintro b ts ⟨ho, hs, hc⟩
  exact .enclosed (by rw [ho, hc]; rfl) (many_bracketed stmt_bracketed hs)

theorem param_bracketed : AllBracketed Param.Spelled := by
  rintro p ts ⟨hi, hc, ht⟩
  exact (ident_bracketed hi).append (.plain (by rw [hc]; rfl) (ident_bracketed ht))

theorem function_bracketed (isFractal : Bool) : AllBracketed (Function.Spelled isFractal) := by
  rintro f ts ⟨hw, hi, ho, hp, hc, hr, hb⟩
  refine .plain (by rw [Token.kind_of_isFunctionWord hw]; rfl) ((ident_bracketed hi).append ?_)
  refine .pair (by rw [ho, hc]; rfl) (commaList_bracketed param_bracketed hp) ?_
  exact (after_bracketed rfl ident_bracketed hr).append (block_bracketed hb)

theorem size_bracketed : AllBracketed (After .openSquare SpelledSize) := by
  intro size? ts h
  cases h with
  | none => exact .nil
  | some ho hsize =>
    obtain ⟨hs, -, hc⟩ := hsize
    exact .enclosed (by rw [ho, hc]; rfl) (.singleton (by rw [hs]; rfl))

theorem field_bracketed : AllBracketed Field.Spelled := by
  rintro f ts ⟨hi, hc, ht, ha, hs⟩
  refine (ident_bracketed hi).append (.plain (by rw [hc]; rfl) ((ident_bracketed ht).append ?_))
  exact (size_bracketed ha).append (.singleton (by rw [hs]; rfl))

theorem triad_bracketed : AllBracketed Triad.Spelled := by
  rintro d ts ⟨hw, hi, ho, hf, hc⟩
  refine .plain (by rw [hw]; rfl) ((ident_bracketed hi).append ?_)
  exact .enclosed (by rw [ho, hc]; rfl) (many_bracketed field_bracketed hf)

theorem decl_bracketed : AllBracketed Decl.Spelled := by
  intro d ts h
  cases h with
  | triad hd => exact triad_bracketed hd
  | fractal hw hf => exact .plain (by rw [hw]; rfl) (function_bracketed true hf)
  | function hf => exact function_bracketed false hf

theorem program_bracketed : AllBracketed Program.Spelled := fun _ _ h =>
  many_bracketed decl_bracketed h

end TriadLang
