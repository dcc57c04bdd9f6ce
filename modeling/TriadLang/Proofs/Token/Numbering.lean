import Mathlib.Data.List.Chain
import Mathlib.Order.MinMax
import Mathlib.Order.Monotone.Basic
import TriadLang.Proofs.Tree.Spans

namespace TriadLang

/-- Tokens with their numbers, from zero on, as their spans. -/
def Token.numbered (ts : List Token) : List Token :=
  ts.mapIdx fun i t => { t with span := ⟨i, i⟩ }

theorem Token.getElem?_numbered (ts : List Token) (i : Nat) :
    (numbered ts)[i]? = ts[i]?.map fun t => { t with span := ⟨i, i⟩ } :=
  List.getElem?_mapIdx

theorem Token.numbered_eq_of_words {ts us : List Token}
    (h : ts.map (fun t => (t.kind, t.lexeme)) = us.map (fun t => (t.kind, t.lexeme))) :
    numbered ts = numbered us := by
  apply List.ext_getElem?
  intro i
  have hi := congrArg (fun ws => ws[i]?) h
  simp only [List.getElem?_map] at hi
  rw [getElem?_numbered, getElem?_numbered]
  cases ht : ts[i]? with
  | none =>
    rw [ht, Option.map_none, eq_comm, Option.map_eq_none_iff] at hi
    rw [hi]
  | some t =>
    rw [ht, Option.map_some, eq_comm, Option.map_eq_some_iff] at hi
    obtain ⟨u, hu, hw⟩ := hi
    rw [hu, Option.map_some, Option.map_some, (Prod.mk.inj hw).1, (Prod.mk.inj hw).2]

namespace Span

/-- The span that reaches from the one that the lower number stands for to the one
that the higher number stands for.  Numbers that stand for none are the end of the
text. -/
def place (spans : List Span) (stop : Nat) (s : Span) : Span :=
  ⟨spans[s.lo]?.elim stop lo, spans[s.hi]?.elim stop hi⟩

/-- Spans one after another, up to the end of a text. -/
structure InRow (spans : List Span) (stop : Nat) : Prop where
  chain : spans.IsChain (fun s t => s.hi ≤ t.lo)
  bounds : ∀ s ∈ spans, s.lo ≤ s.hi ∧ s.hi ≤ stop

variable {spans : List Span} {stop : Nat}

/-- Whatever end is taken of each span, it does not go down from one to the next. -/
theorem InRow.monotone (h : InRow spans stop) {g : Span → Nat}
    (hg : ∀ s ∈ spans, s.lo ≤ g s ∧ g s ≤ s.hi) :
    Monotone fun i : Nat => spans[i]?.elim stop g := by
  refine monotone_nat_of_le_succ fun i => ?_
  cases ht : spans[i + 1]? with
  | none =>
    cases hs : spans[i]? with
    | none => exact Nat.le_refl _
    | some s =>
      have hmem := List.mem_of_getElem? hs
      exact Nat.le_trans (hg s hmem).2 (h.bounds s hmem).2
  | some t =>
    obtain ⟨hlt, htget⟩ := List.getElem?_eq_some_iff.1 ht
    have hstep := List.isChain_iff_getElem.1 h.chain i hlt
    have hs : spans[i]? = some spans[i] := List.getElem?_eq_getElem (Nat.lt_of_succ_lt hlt)
    rw [htget] at hstep
    rw [hs, Option.elim_some, Option.elim_some]
    calc g spans[i] ≤ spans[i].hi := (hg _ (List.getElem_mem _)).2
      _ ≤ t.lo := hstep
      _ ≤ g t := (hg t (List.mem_of_getElem? ht)).1

theorem InRow.place_cover (h : InRow spans stop) (s t : Span) :
    place spans stop (s.cover t) = (place spans stop s).cover (place spans stop t) := by
  have hlo := h.monotone (g := lo) fun s hs => ⟨Nat.le_refl _, (h.bounds s hs).1⟩
  have hhi := h.monotone (g := hi) fun s hs => ⟨(h.bounds s hs).1, Nat.le_refl _⟩
  have hmin := hlo.map_min (a := s.lo) (b := t.lo)
  have hmax := hhi.map_max (a := s.hi) (b := t.hi)
  exact congrArg₂ Span.mk hmin hmax

end Span

theorem Token.map_place_numbered (ts : List Token) (stop : Nat) :
    (numbered ts).map (mapSpan (Span.place (ts.map span) stop)) = ts := by
  apply List.ext_getElem?
  intro i
  rw [List.getElem?_map, getElem?_numbered]
  cases ht : ts[i]? with
  | none => rfl
  | some t =>
    have hspan : (ts.map span)[i]? = some t.span := by
      rw [List.getElem?_map, ht]
      rfl
    rw [Option.map_some, Option.map_some, mapSpan, Span.place, hspan]
    rfl

end TriadLang
