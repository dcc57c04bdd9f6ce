import TriadLang.Proofs.Tree.Lowered
import TriadLang.Proofs.Tree.Spans

namespace TriadLang

theorem Ident.mapSpan_erase {i j : Ident} (h : i.name = j.name) :
    i.mapSpan .erase = j.mapSpan .erase := by
  rw [Ident.mapSpan, Ident.mapSpan, h]
  rfl

theorem append_unique {p : Char → Bool} {cs ds rest rest' : List Char} (hcs : ∀ c ∈ cs, p c)
    (hds : ∀ c ∈ ds, p c) (hr : Halts p rest) (hr' : Halts p rest')
    (h : cs ++ rest = ds ++ rest') : cs = ds ∧ rest = rest' := by
  have htake := congrArg (List.takeWhile p) h
  rw [takeWhile_append_of_halts hcs hr, takeWhile_append_of_halts hds hr'] at htake
  subst htake
  exact ⟨rfl, List.append_cancel_left h⟩

def Consists (p : Char → Bool) (s : String) : Prop := ∀ c ∈ s.toList, p c

instance (p : Char → Bool) (s : String) : Decidable (Consists p s) :=
  decidable_of_iff (s.toList.all p = true) List.all_eq_true

theorem Consists.unique {p : Char → Bool} {s t : String} {rest rest' : List Char}
    (hs : Consists p s) (ht : Consists p t) (hr : Halts p rest) (hr' : Halts p rest')
    (h : s.toList ++ rest = t.toList ++ rest') : s = t ∧ rest = rest' := by
  obtain ⟨htext, hrest⟩ := append_unique hs ht hr hr' h
  exact ⟨String.toList_inj.1 htext, hrest⟩

theorem IsName.consists {s : String} (h : IsName s) : Consists Rule.isWordPart s :=
  h.forall_isWordPart

theorem consists_toString (n : Nat) : Consists Char.isDigit (toString n) := by
  intro c hc
  rw [Nat.toString_eq_ofList_toDigits, String.toList_ofList] at hc
  exact Nat.isDigit_of_mem_toDigits (by decide) (by decide) hc

section

variable {α β : Type} {ok : α → Prop} {chars : α → List Char} {bare : α → β} {p : Char → Bool}

/-- What can be read off from the characters of `a`, whatever follows that does not
begin with a character of sort `p`. -/
def Legible (ok : α → Prop) (chars : α → List Char) (bare : α → β) (p : Char → Bool) (a : α) :
    Prop :=
  ∀ ⦃b rest rest'⦄, ok b → Halts p rest → Halts p rest' → chars a ++ rest = chars b ++ rest' →
    bare a = bare b ∧ rest = rest'

theorem commaChars_cons (item : List Char) (items : List (List Char)) :
    commaChars (item :: items) = item ++ items.flatMap (fun i => ',' :: ' ' :: i) := by
  induction items generalizing item with
  | nil => simp [commaChars]
  | cons next items ih =>
    rw [commaChars, List.intercalate_cons_cons, List.flatMap_cons, List.append_assoc]
    show item ++ ([',', ' '] ++ commaChars (next :: items)) = _
    rw [ih]
    rfl

theorem halts_more (hcomma : p ',' = false) (hclose : p ')' = false) (as : List α)
    (rest : List Char) :
    Halts p (as.flatMap (fun a => ',' :: ' ' :: chars a) ++ ')' :: rest) := by
  cases as with
  | nil => exact halts_cons.2 hclose
  | cons a as => exact halts_cons.2 hcomma

theorem more_unique (hcomma : p ',' = false) (hclose : p ')' = false) {as bs : List α}
    {rest rest' : List Char} (ha : ∀ a ∈ as, Legible ok chars bare p a) (hb : ∀ b ∈ bs, ok b)
    (h : as.flatMap (fun a => ',' :: ' ' :: chars a) ++ ')' :: rest =
      bs.flatMap (fun b => ',' :: ' ' :: chars b) ++ ')' :: rest') :
    as.map bare = bs.map bare ∧ rest = rest' := by
  induction as generalizing bs with
  | nil =>
    cases bs with
    | nil => exact ⟨rfl, (List.cons.inj h).2⟩
    | cons b bs => exact absurd (List.cons.inj h).1 (by decide)
  | cons a as ih =>
    cases bs with
    | nil => exact absurd (List.cons.inj h).1 (by decide)
    | cons b bs =>
      rw [List.flatMap_cons, List.flatMap_cons, List.append_assoc, List.append_assoc] at h
      have hitems := (List.cons.inj (List.cons.inj h).2).2
      obtain ⟨hbare, hmore⟩ := ha a List.mem_cons_self (hb b List.mem_cons_self)
        (halts_more hcomma hclose as rest) (halts_more hcomma hclose bs rest') hitems
      obtain ⟨hbares, hrest⟩ := ih (fun a ha' => ha a (List.mem_cons_of_mem _ ha'))
        (fun b hb' => hb b (List.mem_cons_of_mem _ hb')) hmore
      exact ⟨by rw [List.map_cons, List.map_cons, hbare, hbares], hrest⟩

theorem commaChars_unique (hcomma : p ',' = false) (hclose : p ')' = false)
    (hfirst : ∀ a, ok a → ∃ c cs, chars a = c :: cs ∧ c ≠ ')') {as bs : List α}
    {rest rest' : List Char} (ha : ∀ a ∈ as, ok a ∧ Legible ok chars bare p a)
    (hb : ∀ b ∈ bs, ok b)
    (h : commaChars (as.map chars) ++ ')' :: rest = commaChars (bs.map chars) ++ ')' :: rest') :
    as.map bare = bs.map bare ∧ rest = rest' := by
  cases as with
  | nil =>
    cases bs with
    | nil => exact ⟨rfl, (List.cons.inj h).2⟩
    | cons b bs =>
      obtain ⟨c, cs, hc, hne⟩ := hfirst b (hb b List.mem_cons_self)
      rw [List.map_cons, commaChars_cons, hc] at h
      exact absurd (List.cons.inj h).1.symm hne
  | cons a as =>
    cases bs with
    | nil =>
      obtain ⟨c, cs, hc, hne⟩ := hfirst a (ha a List.mem_cons_self).1
      rw [List.map_cons, commaChars_cons, hc] at h
      exact absurd (List.cons.inj h).1 hne
    | cons b bs =>
      rw [List.map_cons, List.map_cons, commaChars_cons, commaChars_cons, List.flatMap_map,
        List.flatMap_map, List.append_assoc, List.append_assoc] at h
      obtain ⟨hbare, hmore⟩ := (ha a List.mem_cons_self).2 (hb b List.mem_cons_self)
        (halts_more hcomma hclose as rest) (halts_more hcomma hclose bs rest') h
      obtain ⟨hbares, hrest⟩ := more_unique hcomma hclose
        (fun a ha' => (ha a (List.mem_cons_of_mem _ ha')).2)
        (fun b hb' => hb b (List.mem_cons_of_mem _ hb')) hmore
      exact ⟨by rw [List.map_cons, List.map_cons, hbare, hbares], hrest⟩

end

/-- The characters of names, numerals and strings. -/
def isAtomPart (c : Char) : Bool := Rule.isWordPart c || c == '"'

/-- A name or a literal, as a program is lowered to. -/
structure IsAtom (k : Kind) (s : String) : Prop where
  kind : k ∈ [Kind.ident, .number, .text, .litTrue, .litFalse]
  fits : k.Fits s
  consists : Consists isAtomPart s

theorem IsAtom.kind_ne {k : Kind} {s : String} (h : IsAtom k s) : k ≠ .eof := by
  rintro rfl
  exact absurd h.kind (by decide)

/-- An atom tells where it ends and what it is. -/
theorem IsAtom.unique {k k' : Kind} {s t : String} {rest rest' : List Char} (hs : IsAtom k s)
    (ht : IsAtom k' t) (hr : Halts isAtomPart rest) (hr' : Halts isAtomPart rest')
    (h : s.toList ++ rest = t.toList ++ rest') : k = k' ∧ s = t ∧ rest = rest' := by
  obtain ⟨rfl, hrest⟩ := hs.consists.unique ht.consists hr hr' h
  exact ⟨Kind.eq_of_fits hs.fits ht.fits hs.kind_ne ht.kind_ne, rfl, hrest⟩

theorem IsAtom.exists_first {k : Kind} {s : String} (h : IsAtom k s) :
    ∃ c cs, s.toList = c :: cs ∧ isAtomPart c := by
  cases hs : s.toList with
  | nil =>
    have hempty : s = "" := String.toList_eq_nil_iff.1 hs
    have hfits := h.fits
    have hkind := h.kind
    rw [hempty] at hfits
    simp only [List.mem_cons, List.not_mem_nil, or_false] at hkind
    rcases hkind with rfl | rfl | rfl | rfl | rfl
    · exact absurd hfits.1 (by decide)
    · exact absurd rfl hfits.1
    · obtain ⟨cs, hcs, -⟩ := hfits
      cases hcs
    · exact absurd (show "" = "true" from hfits) (by decide)
    · exact absurd (show "" = "false" from hfits) (by decide)
  | cons c cs =>
    exact ⟨c, cs, rfl, h.consists c (by rw [hs]; exact List.mem_cons_self)⟩

theorem isAtom_of_isName {s : String} (h : IsName s) : IsAtom .ident s where
  kind := by decide
  fits := h
  consists c hc := by
    rw [isAtomPart, h.forall_isWordPart c hc]
    rfl

/-- The kind of token that a literal is lowered to. -/
def Literal.kind : Literal → Kind
  | .text _ => .text
  | .int _ => .number
  | .bool value => if value then .litTrue else .litFalse
  | .absent => .ident

theorem Literal.kind_ne_eof (l : Literal) : l.kind ≠ .eof := by
  intro hk
  cases l with
  | text _ => cases hk
  | int _ => cases hk
  | bool value => cases value <;> cases hk
  | absent => cases hk

theorem Literal.fits_lower (l : Literal) : l.kind.Fits l.lower := by
  cases l with
  | text value =>
    refine ⟨_, toList_literalQuote value, ?_⟩
    rw [toClosingQuote?_flatMap, List.length_append]
    rfl
  | int n =>
    refine ⟨?_, consists_toString n⟩
    show (toString n).toList ≠ []
    rw [Nat.toString_eq_ofList_toDigits, String.toList_ofList]
    exact Nat.toDigits_ne_nil
  | bool value => cases value <;> rfl
  | absent =>
    show IsName "null"
    decide

theorem isAtomPart_of_isDigit {c : Char} (h : c.isDigit) : isAtomPart c := by
  rw [isAtomPart, Rule.isWordPart, Char.isAlphanum, h, Bool.or_true]
  rfl

theorem Literal.WellFormed.isAtom {l : Literal} (h : l.WellFormed) : IsAtom l.kind l.lower := by
  refine ⟨?_, l.fits_lower, ?_⟩
  · cases l with
    | text value => simp [Literal.kind]
    | int n => simp [Literal.kind]
    | bool value => cases value <;> decide
    | absent => exact h.elim
  · cases l with
    | text value =>
      obtain rfl : value = "uncertain" := h
      decide +kernel
    | int n => exact fun c hc => isAtomPart_of_isDigit (consists_toString n c hc)
    | bool value => cases value <;> decide +kernel
    | absent => exact h.elim

theorem Literal.kind_ne_ident {l : Literal} (h : l.WellFormed) : l.kind ≠ .ident := by
  intro hk
  cases l with
  | text _ => cases hk
  | int _ => cases hk
  | bool value => cases value <;> cases hk
  | absent => exact h.elim

theorem Literal.lower_inj {l m : Literal} : l.lower = m.lower ↔ l = m := by
  refine ⟨fun h => ?_, fun h => h ▸ rfl⟩
  have hk : l.kind = m.kind :=
    Kind.eq_of_fits l.fits_lower (h ▸ m.fits_lower) l.kind_ne_eof m.kind_ne_eof
  cases l with
  | text value =>
    cases m with
    | text value' => exact congrArg Literal.text (literalQuote_inj h)
    | int n => cases hk
    | bool b => cases b <;> cases hk
    | absent => cases hk
  | int n =>
    cases m with
    | text value => cases hk
    | int n' => exact congrArg Literal.int (toString_inj h)
    | bool b => cases b <;> cases hk
    | absent => cases hk
  | bool b =>
    cases m with
    | text value => cases b <;> cases hk
    | int n => cases b <;> cases hk
    | bool b' => cases b <;> cases b' <;> first | rfl | cases hk
    | absent => cases b <;> cases hk
  | absent =>
    cases m with
    | text value => cases hk
    | int n => cases hk
    | bool b => cases b <;> cases hk
    | absent => rfl

/-- The characters that an expression can go on with: more of an atom, or the
arguments of a call. -/
def isExprPart (c : Char) : Bool := isAtomPart c || c == '('

theorem halts_isAtomPart {rest : List Char} (h : Halts isExprPart rest) :
    Halts isAtomPart rest := by
  intro c hc
  have hc' := h c hc
  rw [isExprPart, Bool.or_eq_false_iff] at hc'
  exact hc'.1

theorem not_halts_open {cs rest : List Char} (h : Halts isExprPart rest) : '(' :: cs ≠ rest := by
  rintro rfl
  exact absurd (halts_cons.1 h) (by decide)

theorem Expr.Plain.exists_first {e : Expr} (h : e.Plain) : ∃ c cs, e.chars = c :: cs ∧ c ≠ ')' := by
  have hatom : ∀ {k : Kind} {s : String} (rest : List Char), IsAtom k s →
      ∃ c cs, s.toList ++ rest = c :: cs ∧ c ≠ ')' := by
    intro k s rest hs
    obtain ⟨c, cs, hcs, hc⟩ := hs.exists_first
    refine ⟨c, cs ++ rest, by rw [hcs]; rfl, ?_⟩
    rintro rfl
    exact absurd hc (by decide)
  cases h with
  | literal hl =>
    obtain ⟨c, cs, hcs, hc⟩ := hatom [] hl.isAtom
    exact ⟨c, cs, by rw [Expr.chars, ← hcs, List.append_nil], hc⟩
  | name hi =>
    obtain ⟨c, cs, hcs, hc⟩ := hatom [] (isAtom_of_isName hi)
    exact ⟨c, cs, by rw [Expr.chars, ← hcs, List.append_nil], hc⟩
  | call hi _ => exact hatom _ (isAtom_of_isName hi)

theorem Expr.chars_call_append (i : Ident) (at' span : Span) (args : List Expr)
    (rest : List Char) : (Expr.call (.name i at') args span).chars ++ rest =
      i.name.toList ++ '(' :: (commaChars (args.map Expr.chars) ++ ')' :: rest) := by
  rw [Expr.chars, Expr.chars, Expr.charsOfArgs_eq_map, List.append_assoc, List.cons_append,
    List.append_assoc, List.singleton_append]

theorem Expr.Plain.legible {e : Expr} (h : e.Plain) :
    Legible Expr.Plain Expr.chars (Expr.mapSpans .erase) isExprPart e := by
  induction h with
  | @literal l span hl =>
    intro b rest rest' hb hr hr' heq
    cases hb with
    | @literal m span' hm =>
      obtain ⟨-, hlower, hrest⟩ := hl.isAtom.unique hm.isAtom (halts_isAtomPart hr)
        (halts_isAtomPart hr') heq
      exact ⟨by rw [Literal.lower_inj.1 hlower]; rfl, hrest⟩
    | name hi =>
      obtain ⟨hk, -, -⟩ := hl.isAtom.unique (isAtom_of_isName hi) (halts_isAtomPart hr)
        (halts_isAtomPart hr') heq
      exact absurd hk (Literal.kind_ne_ident hl)
    | call hi _ =>
      rw [Expr.chars_call_append] at heq
      obtain ⟨hk, -, -⟩ := hl.isAtom.unique (isAtom_of_isName hi) (halts_isAtomPart hr)
        (halts_cons.2 rfl) heq
      exact absurd hk (Literal.kind_ne_ident hl)
  | @name i span hi =>
    intro b rest rest' hb hr hr' heq
    cases hb with
    | literal hm =>
      obtain ⟨hk, -, -⟩ := (isAtom_of_isName hi).unique hm.isAtom (halts_isAtomPart hr)
        (halts_isAtomPart hr') heq
      exact absurd hk.symm (Literal.kind_ne_ident hm)
    | @name j span' hj =>
      obtain ⟨-, hname, hrest⟩ := (isAtom_of_isName hi).unique (isAtom_of_isName hj)
        (halts_isAtomPart hr) (halts_isAtomPart hr') heq
      exact ⟨by rw [Expr.mapSpans, Expr.mapSpans, Ident.mapSpan_erase hname]; rfl, hrest⟩
    | call hj _ =>
      rw [Expr.chars_call_append] at heq
      obtain ⟨-, -, hrest⟩ := (isAtom_of_isName hi).unique (isAtom_of_isName hj)
        (halts_isAtomPart hr) (halts_cons.2 rfl) heq
      exact absurd hrest.symm (not_halts_open hr)
  | @call i args at' span hi hargs ih =>
    intro b rest rest' hb hr hr' heq
    rw [Expr.chars_call_append] at heq
    cases hb with
    | literal hm =>
      obtain ⟨hk, -, -⟩ := (isAtom_of_isName hi).unique hm.isAtom (halts_cons.2 rfl)
        (halts_isAtomPart hr') heq
      exact absurd hk.symm (Literal.kind_ne_ident hm)
    | name hj =>
      obtain ⟨-, -, hrest⟩ := (isAtom_of_isName hi).unique (isAtom_of_isName hj)
        (halts_cons.2 rfl) (halts_isAtomPart hr') heq
      exact absurd hrest (not_halts_open hr')
    | @call j args' at'' span' hj hargs' =>
      rw [Expr.chars_call_append] at heq
      obtain ⟨-, hname, htail⟩ := (isAtom_of_isName hi).unique (isAtom_of_isName hj)
        (halts_cons.2 rfl) (halts_cons.2 rfl) heq
      obtain ⟨hbares, hrest⟩ := commaChars_unique rfl rfl (fun _ => Expr.Plain.exists_first)
        (fun a ha => ⟨hargs a ha, ih a ha⟩) hargs' (List.cons.inj htail).2
      refine ⟨?_, hrest⟩
      simp only [Expr.mapSpans, Expr.mapSpansOfArgs_eq_map, hbares, Ident.mapSpan_erase hname]
      rfl

theorem names_unique {s t s' t' : String} {rest rest' : List Char} (hs : IsName s)
    (hs' : IsName s') (ht : IsName t) (ht' : IsName t') (hr : Halts Rule.isWordPart rest)
    (hr' : Halts Rule.isWordPart rest')
    (h : s.toList ++ ' ' :: (t.toList ++ rest) = s'.toList ++ ' ' :: (t'.toList ++ rest')) :
    s = s' ∧ t = t' ∧ rest = rest' := by
  obtain ⟨htype, hmore⟩ := hs.consists.unique hs'.consists (halts_cons.2 rfl) (halts_cons.2 rfl) h
  obtain ⟨hname, hrest⟩ := ht.consists.unique ht'.consists hr hr' (List.cons.inj hmore).2
  exact ⟨htype, hname, hrest⟩

theorem Param.WellFormed.legible {p : Param} (h : p.WellFormed) :
    Legible Param.WellFormed Param.chars (Param.mapSpans .erase) Rule.isWordPart p := by
  intro q rest rest' hq hr hr' heq
  rw [Param.chars, Param.chars, List.append_assoc, List.append_assoc, List.cons_append,
    List.cons_append] at heq
  obtain ⟨htype, hname, hrest⟩ := names_unique h.type hq.type h.ident hq.ident hr hr' heq
  refine ⟨?_, hrest⟩
  rw [Param.mapSpans, Param.mapSpans, Ident.mapSpan_erase htype, Ident.mapSpan_erase hname]

end TriadLang
