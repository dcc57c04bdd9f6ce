import TriadLang.Editor.Diagnostic

/-!
# Matching braces

The braces of a text, matched without regard for what the text says: braces in
comments and in strings count like all others.  A closing brace that finds no
opening brace is reported where it stands and then forgotten; opening braces that
are never closed are reported once, at the start of the last line.
-/

namespace TriadLang

/-- How far a text has been matched: the position reached, the number of braces
that are open there, and the diagnostics so far, the last one first. -/
structure BraceMatch where
  position : Position := .start
  depth : Nat := 0
  found : List Diagnostic := []
deriving DecidableEq, Repr, Inhabited

namespace BraceMatch

def step (m : BraceMatch) (c : Char) : BraceMatch :=
  let next := m.position.advance c
  if c = '{' then
    { m with position := next, depth := m.depth + 1 }
  else if c = '}' then
    match m.depth with
    | 0 => { m with
        position := next
        found := ⟨m.position, next, "unmatched closing brace"⟩ :: m.found }
    | depth + 1 => { m with position := next, depth }
  else
    { m with position := next }

def diagnostics (m : BraceMatch) : List Diagnostic :=
  m.found.reverse ++
    if m.depth = 0 then []
    else [⟨⟨m.position.line, 0⟩, ⟨m.position.line, 1⟩, "unmatched opening brace"⟩]

end BraceMatch

def braceDiagnostics (src : String) : List Diagnostic :=
  (src.toList.foldl BraceMatch.step {}).diagnostics

end TriadLang
