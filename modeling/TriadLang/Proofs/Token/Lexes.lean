import TriadLang.Proofs.Token.Pieces
import TriadLang.Proofs.Tree.Spans

namespace TriadLang

/-- `Lexes offset text ts`: a text that begins at a byte offset is read to its end
as the tokens `ts`. -/
inductive Lexes : Nat → List Char → List Token → Prop where
  | nil (offset : Nat) : Lexes offset [] []
  | skip {offset : Nat} {cs rest : List Char} {ts : List Token} (hc : Cut none cs rest)
      (hr : Lexes (offset + byteLength cs) rest ts) : Lexes offset (cs ++ rest) ts
  | token {offset : Nat} {k : Kind} {cs rest : List Char} {ts : List Token}
      (hc : Cut (some k) cs rest) (hr : Lexes (offset + byteLength cs) rest ts) :
      Lexes offset (cs ++ rest) (Token.ofChars k cs offset :: ts)

theorem lexes_of_cuts {ps : List Piece} (h : Cuts [] ps) (offset : Nat) :
    Lexes offset (Piece.text ps) (Piece.tokens offset ps) := by
  induction ps generalizing offset with
  | nil => exact .nil offset
  | cons p ps ih =>
    obtain ⟨kind?, cs⟩ := p
    obtain ⟨hc, hps⟩ := h
    rw [List.append_nil] at hc
    cases kind? with
    | none => exact .skip hc (ih hps _)
    | some k => exact .token hc (ih hps _)

theorem Lexes.exists_cuts {offset : Nat} {text : List Char} {ts : List Token}
    (h : Lexes offset text ts) :
    ∃ ps, Cuts [] ps ∧ Piece.text ps = text ∧ Piece.tokens offset ps = ts := by
  induction h with
  | nil => exact ⟨[], True.intro, rfl, rfl⟩
  | @skip _ cs _ _ hc _ ih =>
    obtain ⟨ps, hps, rfl, rfl⟩ := ih
    exact ⟨⟨none, cs⟩ :: ps, ⟨by rwa [List.append_nil], hps⟩, rfl, rfl⟩
  | @token _ k cs _ _ hc _ ih =>
    obtain ⟨ps, hps, rfl, rfl⟩ := ih
    exact ⟨⟨some k, cs⟩ :: ps, ⟨by rwa [List.append_nil], hps⟩, rfl, rfl⟩

/-- The lexer computes the relation, and adds an end token. -/
theorem tokenize_eq_ok_iff_lexes {src : String} {ts : List Token} :
    tokenize src = .ok ts ↔
      ∃ us, Lexes 0 src.toList us ∧ ts = us ++ [.eof (byteLength src.toList)] := by
  rw [tokenize_eq_ok_iff]
  constructor
  · rintro ⟨ps, hps, htext, rfl⟩
    exact ⟨_, htext ▸ lexes_of_cuts hps 0, rfl⟩
  · rintro ⟨us, h, rfl⟩
    obtain ⟨ps, hps, htext, rfl⟩ := h.exists_cuts
    exact ⟨ps, hps, htext, rfl⟩

theorem Cut.blanks_or_halts {kind? : Option Kind} {cs rest : List Char} (h : Cut kind? cs rest) :
    (kind? = none ∧ (∀ c ∈ cs, Rule.isBlank c) ∧ Halts Rule.isBlank rest) ∨
      Halts Rule.isBlank (cs ++ rest) := by
  cases h with
  | blanks hn hcs hr => exact Or.inl ⟨rfl, hcs, hr⟩
  | lineComment hcs hr => exact Or.inr (halts_cons.2 rfl)
  | blockComment hcs => exact Or.inr (halts_cons.2 rfl)
  | sign hk hr =>
    obtain ⟨d, ds, hs, hd, -⟩ := Rule.exists_head_sign hk
    rw [hs]
    exact Or.inr (halts_cons.2 hd)
  | digits hn hcs hr =>
    cases cs with
    | nil => exact absurd rfl hn
    | cons c cs => exact Or.inr (halts_cons.2 (Rule.isBlank_of_wordPart (Or.inl (hcs c (by simp)))))
  | string hcs => exact Or.inr (halts_cons.2 rfl)
  | word hc hcs hr => exact Or.inr (halts_cons.2 (Rule.isBlank_of_wordPart (Or.inr hc)))

/-- A blank in front of a text changes no token.  Blanks that follow it become
part of one piece with it. -/
theorem Lexes.blank {offset : Nat} {c : Char} {cs : List Char} {ts : List Token}
    (hc : Rule.isBlank c) (h : Lexes (offset + c.utf8Size) cs ts) : Lexes offset (c :: cs) ts := by
  have hb : offset + byteLength [c] = offset + c.utf8Size := by rw [byteLength, byteLength_nil, Nat.add_zero]
  have hone : Halts Rule.isBlank cs → Lexes offset ([c] ++ cs) ts := by
    intro hr
    refine .skip (.blanks (List.cons_ne_nil _ _) (by simpa using hc) hr) ?_
    rwa [hb]
  cases h with
  | nil => exact hone (halts_nil _)
  | @skip _ cs rest _ hcut hrest =>
    rcases hcut.blanks_or_halts with ⟨-, hcs, hr⟩ | hr
    · rw [← List.cons_append]
      refine .skip (.blanks (List.cons_ne_nil _ _) ?_ hr) ?_
      · intro d hd
        rcases List.mem_cons.1 hd with rfl | hd
        · exact hc
        · exact hcs d hd
      · rwa [byteLength_cons, ← Nat.add_assoc]
    · exact hone hr
  | token hcut hrest =>
    rcases hcut.blanks_or_halts with ⟨hk, -⟩ | hr
    · cases hk
    · exact hone hr

theorem Lexes.blanks {offset : Nat} {cs rest : List Char} {ts : List Token}
    (hcs : ∀ c ∈ cs, Rule.isBlank c) (h : Lexes (offset + byteLength cs) rest ts) :
    Lexes offset (cs ++ rest) ts := by
  induction cs generalizing offset with
  | nil => exact h
  | cons c cs ih =>
    refine .blank (hcs c (by simp)) (ih (fun d hd => hcs d (by simp [hd])) ?_)
    rwa [byteLength_cons, ← Nat.add_assoc] at h

/-- A newline ends every chunk but a run of blanks.  A slash is left out, since it
could begin a comment that is closed further on. -/
theorem Cut.append_newline {kind? : Option Kind} {cs rest : List Char} (h : Cut kind? cs rest)
    (hk : kind? ≠ some .slash) (more : List Char) :
    Cut kind? cs (rest ++ '\n' :: more) ∨ (kind? = none ∧ ∀ c ∈ cs, Rule.isBlank c) := by
  have halts : ∀ {p : Char → Bool}, p '\n' = false → Halts p rest →
      Halts p (rest ++ '\n' :: more) := by
    intro p hp hr
    cases rest with
    | nil => exact halts_cons.2 hp
    | cons c rest => exact halts_cons.2 (halts_cons.1 hr)
  cases h with
  | blanks hn hcs hr => exact Or.inr ⟨rfl, hcs⟩
  | lineComment hcs hr => exact Or.inl (.lineComment hcs (halts rfl hr))
  | blockComment hcs => exact Or.inl (.blockComment hcs)
  | @sign k _ hm hr =>
    refine Or.inl (.sign hm ?_)
    cases rest with
    | nil => cases k <;> first | exact absurd rfl hk | exact True.intro | (show some '\n' ≠ _; decide)
    | cons c rest => cases k <;> first | exact absurd rfl hk | exact hr
  | digits hn hcs hr => exact Or.inl (.digits hn hcs (halts rfl hr))
  | string hcs => exact Or.inl (.string hcs)
  | word hc hcs hr => exact Or.inl (.word hc hcs (halts rfl hr))

/-- Texts on different lines are read apart, unless a slash in the first one could
open a comment. -/
theorem Lexes.append_newline {offset : Nat} {text more : List Char} {ts us : List Token}
    (h : Lexes offset text ts) (hs : ∀ t ∈ ts, t.kind ≠ .slash)
    (hm : Lexes (offset + byteLength text + 1) more us) :
    Lexes offset (text ++ '\n' :: more) (ts ++ us) := by
  induction h with
  | nil offset => exact .blank rfl hm
  | @skip offset cs rest ts hc _ ih =>
    rw [byteLength_append, ← Nat.add_assoc] at hm
    have hrest := ih hs hm
    rw [List.append_assoc]
    rcases hc.append_newline (by simp) more with hc' | ⟨-, hcs⟩
    · exact .skip hc' hrest
    · exact .blanks hcs hrest
  | @token offset k cs rest ts hc _ ih =>
    rw [byteLength_append, ← Nat.add_assoc] at hm
    have hrest := ih (fun t ht => hs t (by simp [ht])) hm
    have hk : some k ≠ some .slash := by
      intro hk
      cases hk
      exact hs _ List.mem_cons_self rfl
    rw [List.append_assoc]
    rcases hc.append_newline hk more with hc' | ⟨hn, -⟩
    · exact .token hc' hrest
    · cases hn

theorem Token.ofChars_mapSpan (k : Kind) (cs : List Char) (offset n : Nat) :
    (Token.ofChars k cs offset).mapSpan (Span.shift n) = Token.ofChars k cs (offset + n) := by
  have h : offset + byteLength cs + n = offset + n + byteLength cs := Nat.add_right_comm _ _ _
  rw [Token.ofChars, Token.mapSpan, Span.shift, h]
  rfl

theorem Lexes.shift {offset : Nat} {text : List Char} {ts : List Token}
    (h : Lexes offset text ts) (n : Nat) :
    Lexes (offset + n) text (ts.map (Token.mapSpan (Span.shift n))) := by
  induction h with
  | nil offset => exact .nil _
  | skip hc _ ih =>
    rw [Nat.add_right_comm] at ih
    exact .skip hc ih
  | token hc _ ih =>
    rw [Nat.add_right_comm] at ih
    rw [List.map_cons, Token.ofChars_mapSpan]
    exact .token hc ih

end TriadLang
