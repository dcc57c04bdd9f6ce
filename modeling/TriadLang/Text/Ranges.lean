namespace TriadLang

/-- Whether a number lies in one of the ranges, both ends included.  The ranges
ascend, so the search ends at the first one that starts past the number. -/
def inRanges : List (Nat × Nat) → Nat → Bool
  | [], _ => false
  | (lo, hi) :: ranges, n =>
    if n < lo then false else if n ≤ hi then true else inRanges ranges n

end TriadLang
