import TriadLang.Proofs.Token.Cut
import TriadLang.Token.Lexer

/-!
# Texts in pieces

The lexer cuts a text into pieces, each a chunk in the sense of `Cut`, and a
token is a piece with a place.  Pieces hold all characters of the text: what the
lexer passes over is a piece as well, of no kind.

`tokenize_eq_ok_iff` reads the lexer off the pieces, and `exists_cuts` says that
every text falls into pieces up to a place where no rule applies.
-/

namespace TriadLang

/-- The kind that a lexeme takes when its rule answers with `k`: among the words,
the reserved ones have kinds of their own. -/
def Kind.classify (k : Kind) (lexeme : String) : Kind :=
  if k = .ident then (Kind.ofReserved? lexeme).getD .ident else k

/-- The token that some characters make at a byte offset. -/
def Token.ofChars (k : Kind) (cs : List Char) (offset : Nat) : Token :=
  ⟨k.classify (String.ofList cs), String.ofList cs, ⟨offset, offset + byteLength cs⟩⟩

/-- A piece of a text: some characters and the kind of token that they make, if
they make one. -/
structure Piece where
  kind? : Option Kind
  chars : List Char
deriving DecidableEq, Repr, Inhabited

namespace Piece

def text (ps : List Piece) : List Char := ps.flatMap chars

theorem text_cons (p : Piece) (ps : List Piece) : text (p :: ps) = p.chars ++ text ps := rfl

theorem add_byteLength_text_cons (offset : Nat) (p : Piece) (ps : List Piece) :
    offset + byteLength (text (p :: ps)) = offset + byteLength p.chars + byteLength (text ps) := by
  rw [text_cons, byteLength_append, Nat.add_assoc]

/-- The tokens among some pieces, the first of which stands at a byte offset. -/
def tokens : Nat → List Piece → List Token
  | _, [] => []
  | offset, p :: ps =>
    (p.kind?.map fun k => Token.ofChars k p.chars offset).toList ++
      tokens (offset + byteLength p.chars) ps

end Piece

/-- The pieces follow one another, and then `tail` follows, as the lexer cuts
them. -/
def Cuts (tail : List Char) : List Piece → Prop
  | [] => True
  | p :: ps => Cut p.kind? p.chars (Piece.text ps ++ tail) ∧ Cuts tail ps

/-- Every text falls into pieces, up to its end or to a place where no rule
applies. -/
theorem exists_cuts (text : List Char) :
    ∃ ps tail, text = Piece.text ps ++ tail ∧ Cuts tail ps ∧ Rule.first? tail = none := by
  induction hn : text.length using Nat.strongRecOn generalizing text with
  | ind n ih =>
    cases hf : Rule.first? text with
    | none => exact ⟨[], text, rfl, True.intro, hf⟩
    | some r =>
      obtain ⟨cs, rest, rfl, hc⟩ := Rule.cut_of_first? hf
      have hpos := List.length_pos_iff.2 hc.ne_nil
      rw [List.length_append] at hn
      obtain ⟨ps, tail, rfl, hps, ht⟩ := ih rest.length (by omega) rest rfl
      refine ⟨⟨r.kind?, cs⟩ :: ps, tail, ?_, ⟨hc, hps⟩, ht⟩
      rw [Piece.text_cons, List.append_assoc]

namespace Lexer

theorem next_nil (offset : Nat) : (⟨[], offset⟩ : Lexer).next = (.ok (.eof offset), ⟨[], offset⟩) := by
  rw [next]

theorem next_of_first?_eq_none {c : Char} {cs : List Char} (h : Rule.first? (c :: cs) = none)
    (offset : Nat) :
    (⟨c :: cs, offset⟩ : Lexer).next = (.error (.unexpectedChar c offset), ⟨c :: cs, offset⟩) := by
  rw [next]
  dsimp only
  split
  · rfl
  · next hs =>
    rw [h] at hs
    cases hs

theorem advance_append (cs rest : List Char) (offset : Nat) :
    (⟨cs ++ rest, offset⟩ : Lexer).advance cs.length = ⟨rest, offset + byteLength cs⟩ := by
  rw [advance, List.drop_left, List.take_left]

theorem token_append (k : Kind) (cs rest : List Char) (offset : Nat) :
    (⟨cs ++ rest, offset⟩ : Lexer).token k cs.length = Token.ofChars k cs offset := by
  rw [token, advance_append, List.take_left]
  rfl

theorem next_of_first? {l : Lexer} {r : Rule} (h : Rule.first? l.rest = some r) :
    l.next =
      match r.kind? with
      | none => (l.advance (r.length l.rest)).next
      | some k => (.ok (l.token k (r.length l.rest)), l.advance (r.length l.rest)) := by
  rw [next]
  split
  · next hn =>
    rw [hn, Rule.first?_nil] at h
    cases h
  · split
    · next hs =>
      rw [h] at hs
      cases hs
    · next r' hs =>
      rw [h] at hs
      cases hs
      split <;> simp_all only

theorem next_of_cut_none {cs rest : List Char} (h : Cut none cs rest) (offset : Nat) :
    (⟨cs ++ rest, offset⟩ : Lexer).next = (⟨rest, offset + byteLength cs⟩ : Lexer).next := by
  obtain ⟨r, hf, hk, hl⟩ := Rule.exists_first?_of_cut h
  rw [next_of_first? (l := ⟨cs ++ rest, offset⟩) hf, hk, hl, advance_append]

theorem next_of_cut_some {k : Kind} {cs rest : List Char} (h : Cut (some k) cs rest)
    (offset : Nat) :
    (⟨cs ++ rest, offset⟩ : Lexer).next =
      (.ok (Token.ofChars k cs offset), ⟨rest, offset + byteLength cs⟩) := by
  obtain ⟨r, hf, hk, hl⟩ := Rule.exists_first?_of_cut h
  rw [next_of_first? (l := ⟨cs ++ rest, offset⟩) hf, hk, hl, advance_append]
  dsimp only
  rw [token_append]

theorem kind_ofChars_ne_eof {k : Kind} {cs rest : List Char} (h : Cut (some k) cs rest)
    (offset : Nat) : (Token.ofChars k cs offset).kind ≠ .eof := by
  show k.classify _ ≠ _
  rw [Kind.classify]
  split
  · cases hr : Kind.ofReserved? (String.ofList cs) with
    | none => simp
    | some k' =>
      have hm : k' ∈ Kind.reserved := List.mem_of_find?_eq_some hr
      rintro rfl
      exact absurd hm (by decide)
  · cases h with
    | sign hk _ =>
      rintro rfl
      exact absurd hk (by decide)
    | _ => simp

theorem drain_of_next_error {l l' : Lexer} {fault : LexFault} (h : l.next = (.error fault, l'))
    (read : List Token) : l.drain read = .error fault := by
  rw [drain]
  split
  · next hs =>
    rw [h] at hs
    cases hs
    rfl
  · next hs =>
    rw [h] at hs
    cases hs

theorem drain_of_next_ok {l l' : Lexer} {t : Token} (h : l.next = (.ok t, l'))
    (read : List Token) :
    l.drain read =
      if t.kind = .eof then .ok (t :: read).reverse else l'.drain (t :: read) := by
  rw [drain]
  split
  · next hs =>
    rw [h] at hs
    cases hs
  · next hs =>
    rw [h] at hs
    cases hs
    by_cases ht : t.kind = .eof
    · rw [dif_pos ht, if_pos ht]
    · rw [dif_neg ht, if_neg ht]

theorem drain_congr {l m : Lexer} (h : l.next = m.next) (read : List Token) :
    l.drain read = m.drain read := by
  cases hm : m.next with
  | mk res l' =>
    cases res with
    | error fault => rw [drain_of_next_error (h.trans hm), drain_of_next_error hm]
    | ok t => rw [drain_of_next_ok (h.trans hm), drain_of_next_ok hm]

theorem drain_nil (offset : Nat) (read : List Token) :
    (⟨[], offset⟩ : Lexer).drain read = .ok (read.reverse ++ [.eof offset]) := by
  rw [drain_of_next_ok (next_nil offset), ← List.reverse_cons]
  exact if_pos rfl

theorem drain_of_cuts {tail : List Char} {ps : List Piece} (h : Cuts tail ps) (offset : Nat)
    (read : List Token) :
    (⟨Piece.text ps ++ tail, offset⟩ : Lexer).drain read =
      (⟨tail, offset + byteLength (Piece.text ps)⟩ : Lexer).drain
        ((Piece.tokens offset ps).reverse ++ read) := by
  induction ps generalizing offset read with
  | nil => rfl
  | cons p ps ih =>
    obtain ⟨kind?, cs⟩ := p
    obtain ⟨hc, hps⟩ := h
    rw [Piece.add_byteLength_text_cons, Piece.text_cons, List.append_assoc]
    cases kind? with
    | none => exact (drain_congr (next_of_cut_none hc offset) read).trans (ih hps _ read)
    | some k =>
      rw [drain_of_next_ok (next_of_cut_some hc offset), if_neg (kind_ofChars_ne_eof hc offset),
        ih hps]
      simp [Piece.tokens]

end Lexer

/-- The tokens of a text are the tokens among its pieces, and then the end. -/
theorem tokenize_eq_ok_iff {src : String} {ts : List Token} :
    tokenize src = .ok ts ↔ ∃ ps, Cuts [] ps ∧ Piece.text ps = src.toList ∧
      ts = Piece.tokens 0 ps ++ [.eof (byteLength src.toList)] := by
  have hok : ∀ ps, Cuts [] ps → Piece.text ps = src.toList →
      tokenize src = .ok (Piece.tokens 0 ps ++ [.eof (byteLength src.toList)]) := by
    intro ps hps htext
    have h := Lexer.drain_of_cuts hps 0 []
    rw [List.append_nil, htext, Nat.zero_add, List.append_nil] at h
    rw [tokenize, Lexer.ofSource, h, Lexer.drain_nil, List.reverse_reverse]
  constructor
  · intro h
    obtain ⟨ps, tail, htext, hps, ht⟩ := exists_cuts src.toList
    cases tail with
    | nil =>
      rw [List.append_nil] at htext
      refine ⟨ps, hps, htext.symm, ?_⟩
      have := hok ps hps htext.symm
      rw [h] at this
      exact Except.ok.inj this
    | cons c cs =>
      rw [tokenize, Lexer.ofSource, htext, Lexer.drain_of_cuts hps,
        Lexer.drain_of_next_error (Lexer.next_of_first?_eq_none ht _)] at h
      cases h
  · rintro ⟨ps, hps, htext, rfl⟩
    exact hok ps hps htext

end TriadLang
