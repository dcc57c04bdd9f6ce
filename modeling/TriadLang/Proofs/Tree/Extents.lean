import TriadLang.Proofs.Token.Partition
import TriadLang.Proofs.Tree.Grammar

/-!
# From the first token to the last

The span of a part of a program reaches from where its first token begins to where
its last one ends.  Parts that are spelled one after another have spans one after
another: `Laid` says so of any number of parts with other tokens between them, and
has one rule for each combinator of the grammar.

Nothing is said about a text until the end, where tokens are taken to stand in one,
each behind the one before.
-/

namespace TriadLang

open Spelling

/-- The first span ends before the second one begins, or where it begins. -/
def Span.Precedes (s t : Span) : Prop := s.hi ≤ t.lo

/-- From the start of the first of some tokens to the end of the last one. -/
def Span.Reaches (s : Span) (ts : List Token) : Prop :=
  ∃ t u, ts.head? = some t ∧ ts.getLast? = some u ∧ s = t.span.cover u.span

theorem Token.reaches (t : Token) : t.span.Reaches [t] :=
  ⟨t, t, rfl, rfl, by rw [Span.cover, Nat.min_self, Nat.max_self]⟩

/-- Spans that reach over parts of some tokens, one part after another. -/
inductive Laid : List Span → List Token → Prop where
  | nil : Laid [] []
  | skip {t : Token} {ss : List Span} {ts : List Token} (h : Laid ss ts) : Laid ss (t :: ts)
  | part {s : Span} {us : List Token} {ss : List Span} {ts : List Token} (hs : s.Reaches us)
      (h : Laid ss ts) : Laid (s :: ss) (us ++ ts)

namespace Laid

variable {s : Span} {ss rs : List Span} {t : Token} {ts us : List Token}

theorem append (h : Laid ss ts) (hr : Laid rs us) : Laid (ss ++ rs) (ts ++ us) := by
  induction h with
  | nil => exact hr
  | skip _ ih => exact .skip ih
  | part hs _ ih =>
    rw [List.cons_append, List.append_assoc]
    exact .part hs ih

theorem single (h : s.Reaches ts) : Laid [s] ts := by
  rw [← List.append_nil ts]
  exact .part h .nil

theorem cons (t : Token) (h : Laid ss ts) : Laid (t.span :: ss) (t :: ts) := .part t.reaches h

theorem after (ts : List Token) : Laid [] ts := by
  induction ts with
  | nil => exact .nil
  | cons t ts ih => exact .skip ih

theorem concat (h : Laid ss ts) (us : List Token) : Laid ss (ts ++ us) := by
  rw [← List.append_nil ss]
  exact h.append (after us)

theorem exists_part (h : Laid ss ts) (hs : s ∈ ss) : ∃ us, us.Sublist ts ∧ s.Reaches us := by
  induction h with
  | nil => cases hs
  | skip _ ih =>
    obtain ⟨us, hus, hr⟩ := ih hs
    exact ⟨us, hus.trans (List.sublist_cons_self ..), hr⟩
  | @part r us _ _ hr _ ih =>
    rcases List.mem_cons.1 hs with rfl | hs
    · exact ⟨us, List.sublist_append_left .., hr⟩
    · obtain ⟨vs, hvs, hr⟩ := ih hs
      exact ⟨vs, hvs.trans (List.sublist_append_right ..), hr⟩

end Laid

/-- The tokens that spell a value lay out these spans of it. -/
def LaysOut {α : Type} (L : Spelling α) (spans : α → List Span) : Prop :=
  ∀ ⦃a ts⦄, L a ts → Laid (spans a) ts

section

variable {α : Type} {L : Spelling α} {spans : α → List Span} (h : LaysOut L spans)
include h

theorem many_laysOut : LaysOut (Many L) (List.flatMap spans) := by
  intro as ts has
  induction has with
  | nil => exact .nil
  | cons ha _ ih => exact (h ha).append ih

theorem separated_laysOut : LaysOut (Separated L) (List.flatMap spans) := by
  intro as ts has
  induction has with
  | single ha =>
    rw [List.flatMap_singleton]
    exact h ha
  | cons ha _ _ ih => exact (h ha).append (.skip ih)

theorem commaList_laysOut : LaysOut (CommaList L) (List.flatMap spans) := by
  intro as ts has
  cases has with
  | nil => exact .nil
  | some hs => exact separated_laysOut h hs

theorem after_laysOut {k : Kind} : LaysOut (After k L) (fun a? => a?.elim [] spans) := by
  intro a? ts ha
  cases ha with
  | none => exact .nil
  | some _ ha => exact .skip (h ha)

end

def VarDecl.places (v : VarDecl) : List Span :=
  v.ident.span :: (v.type?.elim [] (fun i => [i.span]) ++ v.initial?.elim [] (fun e => [e.span]))

/-- The places in a statement: the name of a variable, its type and its initial
value, or the expression. -/
def Stmt.places : Stmt → List Span
  | .var decl => decl.places
  | .expr value => [value.span]

def Block.places (b : Block) : List Span := b.stmts.flatMap Stmt.places

def Param.places (p : Param) : List Span := [p.ident.span, p.type.span]

def Field.places (f : Field) : List Span := [f.ident.span, f.type.span]

/-- The places in a declaration: its name, the names and types in it, and the body
of a function as a whole. -/
def Decl.places : Decl → List Span
  | .triad d => d.ident.span :: d.fields.flatMap Field.places
  | .function f => f.ident.span :: (f.params.flatMap Param.places ++
      (f.result?.elim [] (fun i => [i.span]) ++ [f.body.span]))

def Program.places (p : Program) : List Span := p.decls.flatMap Decl.places

theorem Ident.Spelled.reaches {i : Ident} {ts : List Token} (h : i.Spelled ts) :
    i.span.Reaches ts := by
  cases h with
  | mk _ => exact Token.reaches _

theorem Expr.SpelledWith.reaches {Args : Spelling (List Expr)} {e : Expr} {ts : List Token}
    (h : e.SpelledWith Args ts) : e.span.Reaches ts := by
  cases h with
  | literal _ => exact Token.reaches _
  | name _ => exact Token.reaches _
  | @call t opening closing _ ts _ _ _ _ =>
    exact ⟨t, closing, rfl, List.getLast?_eq_some_iff.2 ⟨t :: opening :: ts, rfl⟩, rfl⟩

theorem Expr.Spelled.reaches {budget : Nat} {e : Expr} {ts : List Token}
    (h : e.Spelled budget ts) : e.span.Reaches ts := by
  cases budget <;> exact SpelledWith.reaches h

theorem Block.Spelled.reaches {b : Block} {ts : List Token} (h : b.Spelled ts) :
    b.span.Reaches ts := by
  cases h with
  | @mk opening closing _ ts _ _ _ =>
    exact ⟨opening, closing, rfl, List.getLast?_eq_some_iff.2 ⟨opening :: ts, rfl⟩, rfl⟩

theorem ident_laysOut : LaysOut Ident.Spelled (fun i => [i.span]) := fun _ _ h => .single h.reaches

theorem expr_laysOut (budget : Nat) : LaysOut (Expr.Spelled budget) (fun e => [e.span]) :=
  fun _ _ h => .single h.reaches

theorem stmt_laysOut : LaysOut Stmt.Spelled Stmt.places := by
  intro s ts h
  cases h with
  | var hv =>
    cases hv with
    | mk _ hi ht he _ =>
      refine .skip (.part hi.reaches ((after_laysOut ident_laysOut ht).append ?_))
      exact (after_laysOut (expr_laysOut _) he).concat _
  | expr he _ => exact (expr_laysOut _ he).concat _

theorem param_laysOut : LaysOut Param.Spelled Param.places := by
  rintro p ts ⟨hi, -, ht⟩
  exact .part hi.reaches (.skip (.single ht.reaches))

theorem field_laysOut : LaysOut Field.Spelled Field.places := by
  rintro f ts ⟨hi, -, ht, -, -⟩
  exact .part hi.reaches (.skip (.part ht.reaches (.after _)))

theorem function_laysOut (isFractal : Bool) :
    LaysOut (Function.Spelled isFractal) (fun f => Decl.places (.function f)) := by
  rintro f ts ⟨-, hi, -, hp, -, hr, hb⟩
  have htail := (after_laysOut ident_laysOut hr).append (.single hb.reaches)
  exact .skip (.part hi.reaches (.skip ((commaList_laysOut param_laysOut hp).append (.skip htail))))

theorem decl_laysOut : LaysOut Decl.Spelled Decl.places := by
  intro d ts h
  cases h with
  | triad hd =>
    cases hd with
    | mk _ hi _ hf _ =>
      exact .skip (.part hi.reaches (.skip ((many_laysOut field_laysOut hf).concat _)))
  | fractal _ hf => exact .skip (function_laysOut true hf)
  | function hf => exact function_laysOut false hf

theorem program_laysOut : LaysOut Program.Spelled Program.places :=
  fun _ _ h => many_laysOut decl_laysOut h

/-- Tokens that stand in a text, each behind the one before. -/
structure InOrder (text : List Char) (ts : List Token) : Prop where
  stands : ∀ t ∈ ts, t.StandsIn text
  pairwise : ts.Pairwise fun t u => t.span.Precedes u.span

theorem Lexes.pairwise_precedes {offset : Nat} {rest : List Char} {ts : List Token}
    (h : Lexes offset rest ts) : ts.Pairwise fun t u => t.span.Precedes u.span := by
  induction h with
  | nil => exact .nil
  | skip _ _ ih => exact ih
  | token _ hrest ih =>
    exact List.pairwise_cons.2 ⟨fun u hu => hrest.le_lo u (List.mem_append_left _ hu), ih⟩

theorem Lexes.inOrder {text : List Char} {ts : List Token} (h : Lexes 0 text ts) :
    InOrder text ts := ⟨h.forall_standsIn, h.pairwise_precedes⟩

/-- A part of a text, with both ends between two characters. -/
structure Span.PartOf (s : Span) (text : List Char) : Prop where
  lo_lt_hi : s.lo < s.hi
  hi_le : s.hi ≤ byteLength text
  selects : ∃ cs, s.Selects text cs

theorem Span.Selects.cover {s t : Span} {text cs ds : List Char} (hs : s.Selects text cs)
    (ht : t.Selects text ds) (hle : s.lo ≤ t.hi) : ∃ es, Span.Selects ⟨s.lo, t.hi⟩ text es := by
  obtain ⟨before, after, htext, hlo, -⟩ := hs
  obtain ⟨before', after', htext', hlo', hhi'⟩ := ht
  have hend : t.hi = byteLength (before' ++ ds) := by
    rw [byteLength_append]
    omega
  have hpre : before' ++ ds <+: text := ⟨after', by rw [htext', List.append_assoc]⟩
  obtain ⟨es, hes⟩ := prefix_of_byteLength_le ⟨cs ++ after, htext.symm⟩ hpre (by omega)
  refine ⟨es, before, after', ?_, hlo, ?_⟩
  · rw [htext', ← List.append_assoc, ← hes, List.append_assoc]
  · rw [hend, ← hes, byteLength_append, hlo]

namespace InOrder

variable {text : List Char} {s : Span} {ss : List Span} {ts us : List Token}

theorem sublist (h : InOrder text ts) (hu : us.Sublist ts) : InOrder text us where
  stands t ht := h.stands t (hu.subset ht)
  pairwise := h.pairwise.sublist hu

theorem lo_le (h : InOrder text ts) {t v : Token} (ht : ts.head? = some t) (hv : v ∈ ts) :
    t.span.lo ≤ v.span.lo := by
  obtain ⟨rest, rfl⟩ := List.head?_eq_some_iff.1 ht
  have hlt := (h.stands t List.mem_cons_self).lo_lt_hi
  rcases List.mem_cons.1 hv with rfl | hv
  · exact Nat.le_refl _
  · exact Nat.le_trans (Nat.le_of_lt hlt) ((List.pairwise_cons.1 h.pairwise).1 v hv)

theorem hi_le (h : InOrder text ts) {u v : Token} (hu : ts.getLast? = some u) (hv : v ∈ ts) :
    v.span.hi ≤ u.span.hi := by
  have hlt := (h.stands u (List.mem_of_getLast? hu)).lo_lt_hi
  obtain ⟨init, rfl⟩ := List.getLast?_eq_some_iff.1 hu
  rcases List.mem_append.1 hv with hv | hv
  · have hle := (List.pairwise_append.1 h.pairwise).2.2 v hv u List.mem_cons_self
    exact Nat.le_trans hle (Nat.le_of_lt hlt)
  · rw [List.mem_singleton.1 hv]

theorem cover_eq (h : InOrder text ts) {t u : Token} (ht : ts.head? = some t)
    (hu : ts.getLast? = some u) : t.span.cover u.span = ⟨t.span.lo, u.span.hi⟩ := by
  rw [Span.cover, Nat.min_eq_left (h.lo_le ht (List.mem_of_getLast? hu)),
    Nat.max_eq_right (h.hi_le hu (List.mem_of_head? ht))]

theorem partOf (h : InOrder text ts) (hs : s.Reaches ts) : s.PartOf text := by
  obtain ⟨t, u, ht, hu, rfl⟩ := hs
  have htm := h.stands t (List.mem_of_head? ht)
  have hum := h.stands u (List.mem_of_getLast? hu)
  have hlt : t.span.lo < u.span.hi :=
    Nat.lt_of_lt_of_le htm.lo_lt_hi (h.hi_le hu (List.mem_of_head? ht))
  rw [h.cover_eq ht hu]
  exact ⟨hlt, hum.selects.hi_le, htm.selects.cover hum.selects (Nat.le_of_lt hlt)⟩

/-- Spans that are laid out over tokens in order follow one another. -/
theorem pairwise_of_laid (h : InOrder text ts) (hl : Laid ss ts) : ss.Pairwise Span.Precedes := by
  induction hl with
  | nil => exact .nil
  | skip _ ih => exact ih (h.sublist (List.sublist_cons_self ..))
  | @part s us ss ts hs hl ih =>
    refine List.pairwise_cons.2 ⟨?_, ih (h.sublist (List.sublist_append_right ..))⟩
    intro r hr
    obtain ⟨vs, hvs, hr⟩ := hl.exists_part hr
    obtain ⟨t, u, ht, hu, rfl⟩ := hs
    obtain ⟨v, w, hv, hw, rfl⟩ := hr
    rw [(h.sublist (List.sublist_append_left ..)).cover_eq ht hu,
      (h.sublist (hvs.trans (List.sublist_append_right ..))).cover_eq hv hw]
    exact (List.pairwise_append.1 h.pairwise).2.2 u (List.mem_of_getLast? hu) v
      (hvs.subset (List.mem_of_head? hv))

end InOrder

end TriadLang
