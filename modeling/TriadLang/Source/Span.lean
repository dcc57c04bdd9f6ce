/-!
# Spans

A span is a half-open range of byte offsets into the source text.  Nothing is
required of its two ends: a span handed in from outside may be reversed or lie
past the end of the text, and the functions that slice a text by a span say for
themselves which spans they accept.
-/

namespace TriadLang

structure Span where
  lo : Nat
  hi : Nat
deriving DecidableEq, Repr, Inhabited

namespace Span

/-- The empty span at the start of the text, for nodes that were never written. -/
def zero : Span := ⟨0, 0⟩

def cover (s t : Span) : Span := ⟨min s.lo t.lo, max s.hi t.hi⟩

end Span

end TriadLang
