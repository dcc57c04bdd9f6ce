import TriadLang.Fault
import TriadLang.Source.Position

namespace TriadLang

def lineHead (cs : List Char) : List Char := (cs.reverse.takeWhile (· != '\n')).reverse

def lineTail (cs : List Char) : List Char := cs.takeWhile (· != '\n')

/-- The span itself, unless it starts at or past the end of the text: then the
span of the last character. -/
def Span.onText (s : Span) (src : List Char) : Span :=
  if byteLength src ≤ s.lo then
    ⟨byteLength src - (src.getLast?.elim 0 Char.utf8Size), byteLength src⟩
  else
    s

structure Excerpt where
  position : Position
  line : List Char
  indent : Nat
  width : Nat
deriving DecidableEq, Repr, Inhabited

namespace Excerpt

/-- The line on which a span starts, marked from the start of the span to its end
or to the end of the line, whichever comes first, with one caret at least.  There
is none if the start is not between two characters of the text, or the end of the
marked part is not, or comes before the start. -/
def ofSpan? (src : String) (span : Span) : Option Excerpt := do
  let span := span.onText src.toList
  let (before, after) ← splitAtByte? span.lo src.toList
  let tail := lineTail after
  guard (span.lo ≤ span.hi)
  let (marked, _) ← splitAtByte? (min (span.hi - span.lo) (byteLength tail)) tail
  return {
    position := .ofOffset src span.lo
    line := lineHead before ++ tail
    indent := (lineHead before).length
    width := max 1 marked.length }

def render (e : Excerpt) (message : String) : String :=
  "error: " ++ message ++
  "\n --> " ++ toString (e.position.line + 1) ++ ":" ++ toString (e.position.character + 1) ++
  "\n" ++ String.ofList e.line ++
  "\n" ++ String.ofList (List.replicate e.indent ' ' ++ List.replicate e.width '^')

end Excerpt

/-- A message about a span of a source text, or `none` if the span cannot be
shown.  An empty text has nothing to show, and the message stands alone. -/
def report (src : String) (span : Span) (message : String) : Option String :=
  if src.isEmpty then
    some ("error: " ++ message)
  else
    (Excerpt.ofSpan? src span).map (·.render message)

def Fault.render (src : String) (fault : Fault) : Option String :=
  match fault.span? with
  | some span => report src span fault.message
  | none => some ("error: " ++ fault.message)

end TriadLang
