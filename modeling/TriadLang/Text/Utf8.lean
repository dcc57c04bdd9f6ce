/-!
# Decoding UTF-8

Bytes that are meant to be UTF-8 and may not be.  The bytes are read from the
left: a well-formed sequence gives its character, and where there is none, the
longest beginning of a well-formed sequence, or else a single byte, is one
ill-formed stretch.
-/

namespace TriadLang.Utf8

def between (lo hi b : UInt8) : Bool := lo ≤ b && b ≤ hi

def isTail (b : UInt8) : Bool := between 0x80 0xBF b

/-- What a first byte of two or more announces: the bounds of the byte that has
to follow, which keep out forms that are too long, surrogates, and numbers past
the last code point; how many tail bytes come after that; and its share of the
code point. -/
def announced? (b : UInt8) : Option (UInt8 × UInt8 × Nat × Nat) :=
  if between 0xC2 0xDF b then some (0x80, 0xBF, 0, b.toNat - 0xC0)
  else if b == 0xE0 then some (0xA0, 0xBF, 1, 0x0)
  else if b == 0xED then some (0x80, 0x9F, 1, 0xD)
  else if between 0xE1 0xEF b then some (0x80, 0xBF, 1, b.toNat - 0xE0)
  else if b == 0xF0 then some (0x90, 0xBF, 2, 0x0)
  else if between 0xF1 0xF3 b then some (0x80, 0xBF, 2, b.toNat - 0xF0)
  else if b == 0xF4 then some (0x80, 0x8F, 2, 0x4)
  else none

def extend (code : Nat) (b : UInt8) : Nat := code * 64 + (b.toNat - 0x80)

/-- Reads `n` tail bytes.  Answers with the character, or with none if they are
not all there, and with the number of bytes read. -/
def tails (n code : Nat) (bytes : List UInt8) : Option Char × Nat :=
  match n, bytes with
  | 0, _ => (some (Char.ofNat code), 0)
  | _ + 1, [] => (none, 0)
  | n + 1, b :: bytes =>
    if isTail b then
      let (c?, used) := tails n (extend code b) bytes
      (c?, used + 1)
    else
      (none, 0)

/-- Reads the character that starts with the byte `b`.  Answers with it, or with
none for an ill-formed stretch, and with the number of bytes read after `b`. -/
def lead (b : UInt8) (bytes : List UInt8) : Option Char × Nat :=
  if b < 0x80 then
    (some (Char.ofNat b.toNat), 0)
  else
    match announced? b, bytes with
    | some (lo, hi, n, code), b' :: bytes =>
      if between lo hi b' then
        let (c?, used) := tails n (extend code b') bytes
        (c?, used + 1)
      else
        (none, 0)
    | _, _ => (none, 0)

def decode (bytes : List UInt8) : List (Option Char) :=
  match bytes with
  | [] => []
  | b :: bytes => (lead b bytes).1 :: decode (bytes.drop (lead b bytes).2)
termination_by bytes.length
decreasing_by
  simp only [List.length_drop, List.length_cons]
  omega

def replacement : Char := '\uFFFD'

def decodeLossy (bytes : List UInt8) : String :=
  String.ofList ((decode bytes).map (·.getD replacement))

def decode? (bytes : List UInt8) : Option String :=
  ((decode bytes).mapM id).map String.ofList

end TriadLang.Utf8
