import TriadLang.Proofs.Compilation.Stages
import TriadLang.Proofs.Symbol.Clash

namespace TriadLang

open NameEvent

theorem utf8ByteSize_ofList (cs : List Char) : (String.ofList cs).utf8ByteSize = byteLength cs := by
  induction cs with
  | nil => rfl
  | cons c cs ih =>
    have h : String.ofList (c :: cs) = String.singleton c ++ String.ofList cs := by
      rw [← String.toList_inj]
      simp
    rw [h, String.utf8ByteSize_append, String.utf8ByteSize_singleton, ih, byteLength_cons]

theorem byteLength_toList (s : String) : byteLength s.toList = s.utf8ByteSize := by
  rw [← utf8ByteSize_ofList, String.ofList_toList]

/-- Two programs one after the other, the second one moved by `n` bytes. -/
def Program.append (p q : Program) (n : Nat) : Program :=
  ⟨p.decls ++ (q.mapSpans (Span.shift n)).decls⟩

theorem read_append {a b : String} {p q : Program} (ha : (read a).result = .ok p)
    (hb : (read b).result = .ok q) :
    (read (a ++ "\n" ++ b)).result = .ok (p.append q (a.utf8ByteSize + 1)) := by
  obtain ⟨ts, hta, hpa⟩ := read_eq_ok_iff.1 ha
  obtain ⟨us, htb, hpb⟩ := read_eq_ok_iff.1 hb
  obtain ⟨ts, hlexa, rfl⟩ := tokenize_eq_ok_iff_lexes.1 hta
  obtain ⟨us, hlexb, rfl⟩ := tokenize_eq_ok_iff_lexes.1 htb
  have hp : p.Spelled ts := (parse_append_eof hlexa.forall_fits _).1 hpa
  have hq : q.Spelled us := (parse_append_eof hlexb.forall_fits _).1 hpb
  have hslash : ∀ t ∈ ts, t.kind ≠ .slash := by
    intro t ht hk
    have hmem := hp.kind_mem (fun t ht => (hlexa.forall_fits t ht).2) t ht
    rw [hk] at hmem
    exact absurd hmem (by decide)
  have hmoved := hlexb.shift (a.utf8ByteSize + 1)
  have hlex : Lexes 0 (a ++ "\n" ++ b).toList
      (ts ++ us.map (Token.mapSpan (Span.shift (a.utf8ByteSize + 1)))) := by
    have htext : (a ++ "\n" ++ b).toList = a.toList ++ '\n' :: b.toList := by simp
    rw [htext]
    refine hlexa.append_newline hslash ?_
    rw [byteLength_toList, Nat.add_assoc]
    exact hmoved
  refine read_eq_ok_iff.2 ⟨_, tokenize_eq_ok_iff_lexes.2 ⟨_, hlex, rfl⟩, ?_⟩
  refine (parse_append_eof hlex.forall_fits _).2 ?_
  exact many_append hp (program_moves (Span.shift_cover _) hq)

theorem Program.events_append (p q : Program) (n : Nat) :
    (p.append q n).events = p.events ++ q.events.map (NameEvent.mapSpans (Span.shift n)) := by
  rw [← Program.events_mapSpans, Program.events, Program.append, List.flatMap_append]
  rfl

theorem Program.lowers_append {p q : Program} {ls ks : List (List String)} (hp : p.Lowers ls)
    (hq : q.Lowers ks) (n : Nat) : (p.append q n).Lowers (ls ++ ks) := by
  have hmoved : (q.mapSpans (Span.shift n)).Lowers ks := (q.lowers_mapSpans _).2 hq
  rw [Program.Lowers] at hmoved
  rw [Program.Lowers, Program.append, List.map_append, List.map_append, hp, hmoved]

theorem Program.semanticNotices_append (p q : Program) (n : Nat) :
    (p.append q n).semanticNotices = p.semanticNotices ++ q.semanticNotices := by
  rw [← q.semanticNotices_mapSpans (Span.shift n), Program.semanticNotices, Program.append,
    List.filterMap_append]
  rfl

theorem Program.codegenNotices_append (p q : Program) (n : Nat) :
    (p.append q n).codegenNotices = p.codegenNotices ++ q.codegenNotices := by
  rw [← q.codegenNotices_mapSpans (Span.shift n), Program.codegenNotices, Program.append,
    List.filterMap_append]
  rfl

/-- The texts of two programs as one text: a newline stands between them if
neither is empty. -/
def joinTexts (p q : Program) (s t : String) : String :=
  if p.decls = [] then t else if q.decls = [] then s else s ++ "\n" ++ t

theorem joinLines_append {p q : Program} {ls ks : List (List String)} (hp : p.Lowers ls)
    (hq : q.Lowers ks) :
    joinLines (ls ++ ks).flatten =
      joinTexts p q (joinLines ls.flatten) (joinLines ks.flatten) := by
  rw [List.flatten_append, joinTexts]
  by_cases hpe : p.decls = []
  · rw [if_pos hpe, hp.flatten_eq_nil.2 hpe, List.nil_append]
  · rw [if_neg hpe]
    by_cases hqe : q.decls = []
    · rw [if_pos hqe, hq.flatten_eq_nil.2 hqe, List.append_nil]
    · rw [if_neg hqe]
      have hls : ls.flatten ≠ [] := fun h => hpe (hp.flatten_eq_nil.1 h)
      have hks : ks.flatten ≠ [] := fun h => hqe (hq.flatten_eq_nil.1 h)
      exact String.intercalate_append_of_ne_nil hls hks

theorem clear_moved {done es : List NameEvent} (h : Clear [] es)
    (hd : ∀ name ∈ bound es, name ∉ bound done) (n : Nat) :
    Clear done (es.map (NameEvent.mapSpans (Span.shift n))) := by
  have hm : Clear [] (es.map (NameEvent.mapSpans (Span.shift n))) := h.mapSpans _
  refine hm.after ?_
  rwa [bound_mapSpans]

theorem Program.clear_events_append {p q : Program} (hp : Clear [] p.events) (hq : Clear [] q.events)
    (hdisjoint : ∀ name ∈ p.names, name ∉ q.names) (n : Nat) :
    Clear [] (p.append q n).events := by
  rw [Program.events_append]
  refine clear_append.2 ⟨hp, clear_moved hq ?_ n⟩
  rw [List.nil_append, bound_events, bound_events]
  exact fun name hmem hname => hdisjoint name hname hmem

/-- Up to the clash the second program defines no name of the first one. -/
theorem Program.exists_clash {p q : Program} (hp : Clear [] p.events) (hq : Clear [] q.events)
    (hclash : ¬ ∀ name ∈ p.names, name ∉ q.names) (n : Nat) :
    ∃ before symbol after, q.symbols = before ++ symbol :: after ∧
      (∀ other ∈ before, other.name ∉ p.names) ∧ symbol.name ∈ p.names ∧
      ∃ xs e ys, (p.append q n).events = xs ++ e :: ys ∧ Clear [] xs ∧
        e.fault? (bound xs) = some (.duplicate (symbol.ident.mapSpan (Span.shift n))) := by
  obtain ⟨before, symbol, after, hsymbols, hbefore, hmem⟩ := exists_first_symbol hclash
  obtain ⟨xs, ys, hxs, hbound⟩ := exists_event_of_symbol hsymbols
  refine ⟨before, symbol, after, hsymbols, hbefore, hmem,
    p.events ++ xs.map (NameEvent.mapSpans (Span.shift n)),
    .define (symbol.mapSpans (Span.shift n)), ys.map (NameEvent.mapSpans (Span.shift n)), ?_, ?_, ?_⟩
  · rw [Program.events_append, hxs, List.map_append, List.map_cons, List.append_assoc]
    rfl
  · have hxs' : Clear [] xs := by
      rw [hxs] at hq
      exact (clear_append.1 hq).1
    refine clear_append.2 ⟨hp, clear_moved hxs' ?_ n⟩
    rw [hbound, List.nil_append, bound_events]
    intro name hname
    obtain ⟨other, hother, rfl⟩ := List.mem_map.1 hname
    exact hbefore other hother
  · rw [fault?, Symbol.name_mapSpans, Symbol.ident_mapSpans, bound_append, bound_events, if_pos]
    exact List.mem_append_left _ hmem

/-- Two texts that compile, on different lines of one text. -/
theorem compile_append {a b s t : String} (ha : (compile a).result = .ok s)
    (hb : (compile b).result = .ok t) :
    ∃ p q : Program, (read a).result = .ok p ∧ (read b).result = .ok q ∧
      (compile a).journal.notices = p.semanticNotices ++ p.codegenNotices ∧
      (compile b).journal.notices = q.semanticNotices ++ q.codegenNotices ∧
      ((∀ name ∈ p.names, name ∉ q.names) →
        (compile (a ++ "\n" ++ b)).result = .ok (joinTexts p q s t) ∧
        (compile (a ++ "\n" ++ b)).journal.notices =
          p.semanticNotices ++ q.semanticNotices ++ (p.codegenNotices ++ q.codegenNotices)) ∧
      (¬ (∀ name ∈ p.names, name ∉ q.names) →
        ∃ before symbol after, q.symbols = before ++ symbol :: after ∧
          (∀ other ∈ before, other.name ∉ p.names) ∧ symbol.name ∈ p.names ∧
          (compile (a ++ "\n" ++ b)).result = .error (.resolve (.duplicate
            (symbol.ident.mapSpan (Span.shift (a.utf8ByteSize + 1)))))) := by
  obtain ⟨p, ls, hra, hca, hla, rfl⟩ := exists_of_compile_eq_ok ha
  obtain ⟨q, ks, hrb, hcb, hlb, rfl⟩ := exists_of_compile_eq_ok hb
  have hread := read_append hra hrb
  refine ⟨p, q, hra, hrb, (compile_of_lowers hra hca hla).2, (compile_of_lowers hrb hcb hlb).2,
    ?_, ?_⟩
  · intro hdisjoint
    have hclear := Program.clear_events_append hca hcb hdisjoint (a.utf8ByteSize + 1)
    have hlower := Program.lowers_append hla hlb (a.utf8ByteSize + 1)
    obtain ⟨hresult, hnotices⟩ := compile_of_lowers hread hclear hlower
    rw [hresult, hnotices, joinLines_append hla hlb, Program.semanticNotices_append,
      Program.codegenNotices_append]
    exact ⟨rfl, rfl⟩
  · intro hclash
    obtain ⟨before, symbol, after, hsymbols, hbefore, hmem, xs, e, ys, hevents, hclear, hfault⟩ :=
      Program.exists_clash hca hcb hclash (a.utf8ByteSize + 1)
    exact ⟨before, symbol, after, hsymbols, hbefore, hmem,
      (compile_of_fault hread hevents hclear hfault).1⟩

/-- A comment that ends a text does not reach into the next one, and a variable
there clashes with a triad. -/
theorem compile_append_comment_clash :
    (compile "triad A\x7b\x7d//").result = .ok "struct A \x7b\n\x7d;" ∧
      (compile "function f()\x7bmutable A;\x7d").result =
        .ok "void f() \x7b\n  mutable auto A;\n\x7d" ∧
      (compile ("triad A\x7b\x7d//" ++ "\n" ++ "function f()\x7bmutable A;\x7d")).result =
        .error (.resolve (.duplicate ⟨"A", ⟨33, 34⟩⟩)) := by
  have ha : (compile "triad A\x7b\x7d//").result = .ok "struct A \x7b\n\x7d;" :=
    ok_of_toOption (by decide +kernel)
  have hb : (compile "function f()\x7bmutable A;\x7d").result =
      .ok "void f() \x7b\n  mutable auto A;\n\x7d" :=
    ok_of_toOption (by decide +kernel)
  obtain ⟨p, q, hp, hq, -, -, -, hclash⟩ := compile_append ha hb
  have hnames : (read "triad A\x7b\x7d//").result.toOption.map Program.names = some ["A"] := by
    decide +kernel
  have hidents : (read "function f()\x7bmutable A;\x7d").result.toOption.map
      (fun q => q.symbols.map Symbol.ident) = some [⟨"f", ⟨9, 10⟩⟩, ⟨"A", ⟨21, 22⟩⟩] := by
    decide +kernel
  rw [hp, Except.toOption, Option.map_some, Option.some.injEq] at hnames
  rw [hq, Except.toOption, Option.map_some, Option.some.injEq] at hidents
  have hqnames : q.names = ["f", "A"] := by
    have h := congrArg (List.map Ident.name) hidents
    rwa [List.map_map] at h
  obtain ⟨before, symbol, after, hsymbols, hbefore, hmem, hresult⟩ :=
    hclash (by rw [hnames, hqnames]; decide)
  have hident : symbol.ident = ⟨"A", ⟨21, 22⟩⟩ := by
    have hname : symbol.ident.name = "A" := by
      rw [hnames] at hmem
      exact List.mem_singleton.1 hmem
    have hin : symbol.ident ∈ q.symbols.map Symbol.ident := by
      rw [hsymbols]
      exact List.mem_map_of_mem (by simp)
    rw [hidents] at hin
    simp only [List.mem_cons, List.not_mem_nil, or_false] at hin
    rcases hin with hin | hin
    · rw [hin] at hname
      exact absurd hname (by decide)
    · exact hin
  rw [hident] at hresult
  exact ⟨ha, hb, hresult⟩

end TriadLang
