import TriadLang.Proofs.Compilation.Notices
import TriadLang.Proofs.Symbol.Places
import TriadLang.Proofs.Token.Partition

namespace TriadLang

open NameEvent

def NameEvent.offset (e : NameEvent) : Nat := e.ident.span.lo

/-- A definition of a name that stands before an offset. -/
structure Program.DefinesBefore (p : Program) (name : String) (offset : Nat) (s : Symbol) :
    Prop where
  mem : s ∈ p.symbols
  name_eq : s.name = name
  lo_lt : s.ident.span.lo < offset

/-- Up to an offset every name is defined once, and defined before it is used. -/
structure Program.SoundBefore (p : Program) (offset : Nat) : Prop where
  fresh : ∀ s ∈ p.symbols, s.ident.span.lo < offset →
    ¬ ∃ d, p.DefinesBefore s.name s.ident.span.lo d
  defined : ∀ i, .use i ∈ p.events → i.span.lo < offset →
    ∃ d, p.DefinesBefore i.name i.span.lo d

theorem Program.mem_symbols {p : Program} {s : Symbol} :
    s ∈ p.symbols ↔ .define s ∈ p.events := by
  rw [← filterMap_symbol?_events, List.mem_filterMap]
  constructor
  · rintro ⟨e, he, hs⟩
    cases e with
    | define _ =>
      cases hs
      exact he
    | use _ => cases hs
  · exact fun h => ⟨_, h, rfl⟩

theorem pairwise_lo_idents {ts : List Token}
    (h : ts.Pairwise fun t u => t.span.lo < u.span.lo) :
    (Token.idents ts).Pairwise fun i j => i.span.lo < j.span.lo :=
  List.pairwise_map.2 (h.sublist List.filter_sublist)

section

variable {p : Program} {before after : List NameEvent} {e : NameEvent}
  (hlt : p.events.Pairwise fun d e => d.offset < e.offset) (hp : p.events = before ++ e :: after)
include hlt hp

/-- What is met before an event is what stands to the left of it. -/
theorem mem_before_iff {d : NameEvent} :
    d ∈ before ↔ d ∈ p.events ∧ d.offset < e.offset := by
  rw [hp] at hlt ⊢
  obtain ⟨-, hrest, hcross⟩ := List.pairwise_append.1 hlt
  constructor
  · exact fun hd => ⟨List.mem_append_left _ hd, hcross d hd e List.mem_cons_self⟩
  · rintro ⟨hd, hlo⟩
    rcases List.mem_append.1 hd with hd | hd
    · exact hd
    rcases List.mem_cons.1 hd with rfl | hd
    · exact absurd hlo (Nat.lt_irrefl _)
    · exact absurd ((List.pairwise_cons.1 hrest).1 d hd) (Nat.lt_asymm hlo)

theorem definesBefore_iff {name : String} {s : Symbol} :
    p.DefinesBefore name e.offset s ↔ .define s ∈ before ∧ s.name = name := by
  rw [mem_before_iff hlt hp, ← Program.mem_symbols]
  constructor
  · rintro ⟨hmem, hname, hlo⟩
    exact ⟨⟨hmem, hlo⟩, hname⟩
  · rintro ⟨⟨hmem, hlo⟩, hname⟩
    exact ⟨hmem, hname, hlo⟩

theorem mem_bound_iff {name : String} :
    name ∈ bound before ↔ ∃ s, p.DefinesBefore name e.offset s := by
  rw [bound, List.mem_map]
  constructor
  · rintro ⟨s, hs, hname⟩
    obtain ⟨d, hd, hsymbol⟩ := List.mem_filterMap.1 hs
    cases d with
    | define _ =>
      cases hsymbol
      exact ⟨_, (definesBefore_iff hlt hp).2 ⟨hd, hname⟩⟩
    | use _ => cases hsymbol
  · rintro ⟨s, hs⟩
    obtain ⟨hmem, hname⟩ := (definesBefore_iff hlt hp).1 hs
    exact ⟨s, List.mem_filterMap.2 ⟨_, hmem, rfl⟩, hname⟩

theorem soundBefore_of_clear (hc : Clear [] before) : p.SoundBefore e.offset := by
  have hfine : ∀ d, d ∈ p.events → d.offset < e.offset → ∃ front back,
      p.events = front ++ d :: back ∧ d.fault? (bound front) = none := by
    intro d hd hlo
    obtain ⟨front, back, hfront⟩ :=
      List.append_of_mem ((mem_before_iff hlt hp).2 ⟨hd, hlo⟩)
    refine ⟨front, back ++ e :: after, ?_, hc front d back hfront⟩
    rw [hp, hfront, List.append_assoc, List.cons_append]
  constructor
  · intro s hs hlo
    obtain ⟨front, back, hfront, hnone⟩ := hfine _ (Program.mem_symbols.1 hs) hlo
    rw [← show (NameEvent.define s).offset = s.ident.span.lo from rfl, ← mem_bound_iff hlt hfront]
    intro hmem
    rw [fault?, if_pos hmem] at hnone
    cases hnone
  · intro i hi hlo
    obtain ⟨front, back, hfront, hnone⟩ := hfine _ hi hlo
    rw [← show (NameEvent.use i).offset = i.span.lo from rfl, ← mem_bound_iff hlt hfront]
    by_contra hmem
    rw [fault?, if_neg hmem] at hnone
    cases hnone

theorem existsUnique_definesBefore (hc : Clear [] before) {name : String}
    (h : name ∈ bound before) : ∃! s, p.DefinesBefore name e.offset s := by
  obtain ⟨s, hs⟩ := (mem_bound_iff hlt hp).1 h
  refine ⟨s, hs, fun s' hs' => ?_⟩
  obtain ⟨hmem, hname⟩ := (definesBefore_iff hlt hp).1 hs
  obtain ⟨hmem', hname'⟩ := (definesBefore_iff hlt hp).1 hs'
  exact List.inj_on_of_nodup_map hc.nodup_bound (List.mem_filterMap.2 ⟨_, hmem', rfl⟩)
    (List.mem_filterMap.2 ⟨_, hmem, rfl⟩) (hname'.trans hname.symm)

end

theorem exists_first_fault_of_check {src : String} {p : Program}
    (hr : (read src).result = .ok p) {fault : ResolveFault}
    (h : (check src).result = .error (.resolve fault)) :
    ∃ before e after, p.events = before ++ e :: after ∧ Clear [] before ∧
      e.fault? (bound before) = some fault := by
  obtain ⟨ts, ht, hp⟩ := read_eq_ok_iff.1 hr
  obtain ⟨j, hreading, -⟩ := Compilation.reading_of_ok ht hp #[]
  rw [check, Compilation.outcome, Compilation.checking, bind_of_ok hreading] at h
  rcases clear_or_exists_fault [] p.events with hc | ⟨before, e, after, fault', hp, hc, hf⟩
  · obtain ⟨j', hresolve, -⟩ := Compilation.resolve_of_clear hc j
    rw [bind_of_ok hresolve] at h
    cases h
  · obtain ⟨j', hresolve, -⟩ := Compilation.resolve_of_fault hp hc hf j
    rw [bind_of_error hresolve] at h
    cases h
    exact ⟨before, e, after, hp, hc, hf⟩

/-- Resolution meets the names of a program that was read from left to right, so the
fault that it reports is the leftmost one: everything to the left of it is sound, a
name that is defined twice has one definition further left, and one that is unknown
has none. -/
theorem leftmost_of_check {src : String} {p : Program} (hr : (read src).result = .ok p) :
    (Resolver.program p = do
      Resolver.walk p.events
      Resolver.say (.resolved (← get).symbols.size)) ∧
    p.events.Pairwise (fun d e => d.ident.span.lo < e.ident.span.lo) ∧
    ∀ fault, (check src).result = .error (.resolve fault) →
      fault.ident.span.Selects src.toList fault.ident.name.toList ∧
      p.SoundBefore fault.ident.span.lo ∧
      match fault with
      | .duplicate i => (∃ s ∈ p.symbols, s.ident = i) ∧
          ∃! d, p.DefinesBefore i.name i.span.lo d
      | .unknown i => .use i ∈ p.events ∧ ¬ ∃ d, p.DefinesBefore i.name i.span.lo d := by
  obtain ⟨ts, ht, hp⟩ := read_eq_ok_iff.1 hr
  obtain ⟨us, hlex, rfl⟩ := tokenize_eq_ok_iff_lexes.1 ht
  have hspelled := (parse_append_eof hlex.forall_fits _).1 hp
  have hnames := program_writesEvents hspelled
  have hlt : p.events.Pairwise fun d e => d.offset < e.offset := by
    have hidents := pairwise_lo_idents (List.pairwise_append.1 hlex.pairwise_lo).1
    have hmet : (p.events.map NameEvent.ident).Pairwise fun i j => i.span.lo < j.span.lo :=
      hidents.sublist hnames
    exact (List.pairwise_map (f := NameEvent.ident)).1 hmet
  refine ⟨Resolver.program_eq_walk p, hlt, fun fault hcheck => ?_⟩
  obtain ⟨before, e, after, hevents, hc, hf⟩ := exists_first_fault_of_check hr hcheck
  have he : e ∈ p.events := by
    rw [hevents]
    exact List.mem_append_right _ List.mem_cons_self
  have hident := e.ident_of_fault? hf
  have hoffset : e.offset = fault.ident.span.lo := by rw [NameEvent.offset, hident]
  have hselects : fault.ident.span.Selects src.toList fault.ident.name.toList := by
    rw [hident]
    obtain ⟨t, ht, -, hi⟩ := Token.mem_idents.1 (hnames.subset (List.mem_map_of_mem he))
    rw [← hi]
    exact (hlex.forall_standsIn t ht).selects
  have hsound := soundBefore_of_clear hlt hevents hc
  rw [hoffset] at hsound
  refine ⟨hselects, hsound, ?_⟩
  cases e with
  | define s =>
    rw [fault?] at hf
    split at hf
    · next hmem =>
      cases hf
      exact ⟨⟨s, Program.mem_symbols.2 he, rfl⟩, existsUnique_definesBefore hlt hevents hc hmem⟩
    · cases hf
  | use i =>
    rw [fault?] at hf
    split at hf
    · cases hf
    · next hmem =>
      cases hf
      exact ⟨he, fun hd => hmem ((mem_bound_iff hlt hevents).2 hd)⟩

/-- A function that is used before it is defined is unknown, and what is unknown
further right is not reported. -/
theorem leftmost_of_check_defined_later : ∃ p,
    (read "function f()\x7bg(h);\x7dfunction g()\x7b\x7d").result = .ok p ∧
      (check "function f()\x7bg(h);\x7dfunction g()\x7b\x7d").result =
        .error (.resolve (.unknown ⟨"g", ⟨13, 14⟩⟩)) ∧
      p.SoundBefore 13 ∧ ¬ ∃ d, p.DefinesBefore "g" 13 d := by
  obtain ⟨p, hr, -⟩ : ∃ p,
      (read "function f()\x7bg(h);\x7dfunction g()\x7b\x7d").result = .ok p ∧
        p.symbols.any (·.name = "g") :=
    exists_of_any_toOption (by decide +kernel)
  have hcheck : (check "function f()\x7bg(h);\x7dfunction g()\x7b\x7d").result =
      .error (.resolve (.unknown ⟨"g", ⟨13, 14⟩⟩)) := error_of_match (by decide +kernel)
  obtain ⟨-, -, hall⟩ := leftmost_of_check hr
  obtain ⟨-, hsound, -, hnone⟩ := hall _ hcheck
  exact ⟨p, hr, hcheck, hsound, hnone⟩

end TriadLang
