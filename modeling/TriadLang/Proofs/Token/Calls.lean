import TriadLang.Proofs.Source.Slices
import TriadLang.Proofs.Stateful
import TriadLang.Proofs.Token.Pieces

/-!
# Calls of one lexer

A lexer that is called again and again gives the tokens of its text one by one, and
then the same answer forever: the end, or the fault.  The tokens in front of a fault
are those of the text that ends there.  So they do not depend on what comes after.

The reason is that a chunk stays a chunk when the text behind it is cut off
(`Cut.of_append`).  Runs, signs, comments and strings that end before the cut end at
the same place, and a comment that was not closed is not closed by cutting.
-/

namespace TriadLang

theorem Halts.of_append {p : Char → Bool} {rest tail : List Char} (h : Halts p (rest ++ tail)) :
    Halts p rest := by
  cases rest with
  | nil => exact halts_nil p
  | cons c rest => exact halts_cons.2 (halts_cons.1 h)

theorem Kind.Ends.of_append {k : Kind} {rest tail : List Char} (h : k.Ends (rest ++ tail)) :
    k.Ends rest := by
  have hhead : ∀ {c : Char}, (rest ++ tail).head? ≠ some c → rest.head? ≠ some c := by
    intro c hne
    cases rest with
    | nil => simp
    | cons d rest => exact hne
  cases k
  case minus | assign | bang | less | greater => exact hhead h
  case slash =>
    refine ⟨hhead h.1, ?_⟩
    rintro cs rfl
    cases hc : Rule.toCommentEnd? false cs with
    | none => rfl
    | some n =>
      have hopen := h.2 (cs ++ tail) rfl
      rw [Rule.toCommentEnd?_append hc tail] at hopen
      cases hopen
  all_goals exact True.intro

/-- A chunk stays a chunk when the end of the text is cut off. -/
theorem Cut.of_append {kind? : Option Kind} {cs rest tail : List Char}
    (h : Cut kind? cs (rest ++ tail)) : Cut kind? cs rest := by
  cases h with
  | blanks hn hcs hr => exact .blanks hn hcs hr.of_append
  | lineComment hcs hr => exact .lineComment hcs hr.of_append
  | blockComment hcs => exact .blockComment hcs
  | sign hk hr => exact .sign hk hr.of_append
  | digits hn hcs hr => exact .digits hn hcs hr.of_append
  | string hcs => exact .string hcs
  | word hc hcs hr => exact .word hc hcs hr.of_append

theorem Cuts.of_tail {tail : List Char} {ps : List Piece} (h : Cuts tail ps) : Cuts [] ps := by
  induction ps with
  | nil => exact True.intro
  | cons p ps ih =>
    obtain ⟨hc, hps⟩ := h
    refine ⟨?_, ih hps⟩
    rw [List.append_nil]
    exact hc.of_append

namespace Lexer

/-- What the lexer answers when it is called for the `n`-th time, counted from
zero. -/
def answer (l : Lexer) : Nat → Except LexFault Token
  | 0 => l.next.1
  | n + 1 => l.next.2.answer n

theorem answer_congr {l m : Lexer} (h : l.next = m.next) (n : Nat) : l.answer n = m.answer n := by
  cases n with
  | zero => rw [answer, answer, h]
  | succ n => rw [answer, answer, h]

theorem answer_of_stays {l : Lexer} {res : Except LexFault Token} (h : l.next = (res, l))
    (n : Nat) : l.answer n = res := by
  induction n with
  | zero => rw [answer, h]
  | succ n ih => rw [answer, h, ih]

theorem answer_of_cuts {tail : List Char} {ps : List Piece} (h : Cuts tail ps)
    {res : Except LexFault Token} {offset : Nat}
    (hstay : (⟨tail, offset + byteLength (Piece.text ps)⟩ : Lexer).next =
      (res, ⟨tail, offset + byteLength (Piece.text ps)⟩)) (n : Nat) :
    (⟨Piece.text ps ++ tail, offset⟩ : Lexer).answer n =
      (Piece.tokens offset ps)[n]?.elim res .ok := by
  induction ps generalizing offset n with
  | nil => exact answer_of_stays hstay n
  | cons p ps ih =>
    obtain ⟨kind?, cs⟩ := p
    obtain ⟨hc, hps⟩ := h
    rw [Piece.add_byteLength_text_cons] at hstay
    have hrest := ih hps hstay
    rw [Piece.text_cons, List.append_assoc]
    cases kind? with
    | none => exact (answer_congr (next_of_cut_none hc offset) n).trans (hrest n)
    | some k =>
      cases n with
      | zero =>
        rw [answer, next_of_cut_some hc]
        rfl
      | succ n =>
        rw [answer, next_of_cut_some hc]
        exact hrest n

end Lexer

theorem answer_of_tokenize_eq_ok {src : String} {ts : List Token} (h : tokenize src = .ok ts) :
    ∃ us, ts = us ++ [.eof (byteLength src.toList)] ∧
      ∀ n, (Lexer.ofSource src).answer n =
        .ok (us[n]?.getD (.eof (byteLength src.toList))) := by
  obtain ⟨ps, hps, htext, rfl⟩ := tokenize_eq_ok_iff.1 h
  refine ⟨_, rfl, fun n => ?_⟩
  have hstay := Lexer.next_nil (0 + byteLength (Piece.text ps))
  have hans := Lexer.answer_of_cuts hps hstay n
  rw [List.append_nil, htext, Nat.zero_add] at hans
  rw [Lexer.ofSource, hans]
  cases (Piece.tokens 0 ps)[n]? <;> rfl

theorem answer_of_tokenize_eq_error {src : String} {c : Char} {offset : Nat}
    (h : tokenize src = .error (.unexpectedChar c offset)) :
    ∃ before after us, src.toList = before ++ c :: after ∧ offset = byteLength before ∧
      (∀ n, (Lexer.ofSource src).answer n =
        us[n]?.elim (.error (.unexpectedChar c offset)) .ok) ∧
      tokenize (String.ofList before) = .ok (us ++ [.eof offset]) := by
  obtain ⟨ps, tail, htext, hps, ht⟩ := exists_cuts src.toList
  cases tail with
  | nil =>
    rw [List.append_nil] at htext
    rw [tokenize_eq_ok_iff.2 ⟨ps, hps, htext.symm, rfl⟩] at h
    cases h
  | cons d after =>
    have hstay := Lexer.next_of_first?_eq_none ht (0 + byteLength (Piece.text ps))
    have hfault := Lexer.drain_of_cuts hps 0 []
    rw [Lexer.drain_of_next_error hstay, ← htext] at hfault
    rw [tokenize, Lexer.ofSource, hfault] at h
    cases h
    refine ⟨Piece.text ps, after, Piece.tokens 0 ps, htext, Nat.zero_add _, fun n => ?_, ?_⟩
    · rw [Lexer.ofSource, htext]
      exact Lexer.answer_of_cuts hps hstay n
    · refine tokenize_eq_ok_iff.2 ⟨ps, hps.of_tail, String.toList_ofList.symm, ?_⟩
      rw [String.toList_ofList, Nat.zero_add]

/-- The calls of a lexer give the tokens of the text in order, and then its end
forever.  If the text has no tokens, they give the tokens of the text in front of the
fault, and then the fault forever, and so do those of every other text that goes on
with another fault from there. -/
theorem answer_eq_tokenize (src : String) :
    (∀ ts, tokenize src = .ok ts → ∃ us, ts = us ++ [.eof (byteLength src.toList)] ∧
      ∀ n, (Lexer.ofSource src).answer n =
        .ok (us[n]?.getD (.eof (byteLength src.toList)))) ∧
    ∀ c offset, tokenize src = .error (.unexpectedChar c offset) →
      ∃ before after us, src.toList = before ++ c :: after ∧ offset = byteLength before ∧
        (∀ n, (Lexer.ofSource src).answer n =
          us[n]?.elim (.error (.unexpectedChar c offset)) .ok) ∧
        tokenize (String.ofList before) = .ok (us ++ [.eof offset]) ∧
        ∀ src' c', before <+: src'.toList → tokenize src' = .error (.unexpectedChar c' offset) →
          ∀ n, (Lexer.ofSource src').answer n =
            us[n]?.elim (.error (.unexpectedChar c' offset)) .ok := by
  refine ⟨fun ts h => answer_of_tokenize_eq_ok h, ?_⟩
  intro c offset h
  obtain ⟨before, after, us, htext, ho, hans, htok⟩ := answer_of_tokenize_eq_error h
  refine ⟨before, after, us, htext, ho, hans, htok, ?_⟩
  rintro src' c' ⟨rest, hrest⟩ h'
  obtain ⟨before', after', us', htext', ho', hans', htok'⟩ := answer_of_tokenize_eq_error h'
  rw [← hrest] at htext'
  have hbefore := eq_of_byteLength_eq htext' (ho.symm.trans ho')
  subst hbefore
  rw [htok, Except.ok.injEq, List.append_cancel_right_eq] at htok'
  rw [htok']
  exact hans'

/-- The fault comes behind a comment that is passed over, and each further call repeats
it. -/
theorem answer_behind_comment :
    (∀ n, (Lexer.ofSource "a //x\n&b").answer n =
      [⟨.ident, "a", ⟨0, 1⟩⟩][n]?.elim (.error (.unexpectedChar '&' 6)) .ok) ∧
    ∀ n, (Lexer.ofSource "a //x\n").answer n = .ok ([⟨.ident, "a", ⟨0, 1⟩⟩][n]?.getD (.eof 6)) := by
  have hfault : tokenize "a //x\n&b" = .error (.unexpectedChar '&' 6) :=
    error_of_match (by decide +kernel)
  have hcut : tokenize "a //x\n" = .ok [⟨.ident, "a", ⟨0, 1⟩⟩, .eof 6] :=
    ok_of_toOption (by decide +kernel)
  constructor
  · obtain ⟨before, after, us, htext, ho, hans, htok, -⟩ :=
      (answer_eq_tokenize "a //x\n&b").2 _ _ hfault
    have hsplit : "a //x\n&b".toList = "a //x\n".toList ++ ['&', 'b'] := by decide +kernel
    have hlen : byteLength "a //x\n".toList = 6 := by decide +kernel
    have hbefore := eq_of_byteLength_eq (htext.symm.trans hsplit) (ho.symm.trans hlen.symm)
    rw [hbefore, String.ofList_toList, hcut, Except.ok.injEq] at htok
    have hus : [⟨.ident, "a", ⟨0, 1⟩⟩] ++ [Token.eof 6] = us ++ [Token.eof 6] := htok
    rwa [← List.append_cancel_right hus] at hans
  · obtain ⟨us, hus, hans⟩ := (answer_eq_tokenize "a //x\n").1 _ hcut
    have hlen : byteLength "a //x\n".toList = 6 := by decide +kernel
    rw [hlen] at hus hans
    have hus : [⟨.ident, "a", ⟨0, 1⟩⟩] ++ [Token.eof 6] = us ++ [Token.eof 6] := hus
    rwa [← List.append_cancel_right hus] at hans

end TriadLang
