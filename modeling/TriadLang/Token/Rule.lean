import TriadLang.Token.Kind

/-!
# Lexical rules

A lexical rule says how many characters at the front of a text it takes, and
which kind of token they make; a rule without a kind takes text that is passed
over.  The rules are data: one table, in which the first rule that takes
anything wins.  The signs of two characters stand before the signs they begin
with, and blanks and comments before everything else, so that the first rule is
also the one that takes most.

No rule takes an empty text: a length of zero means that the rule does not apply.
-/

namespace TriadLang

/-- A lexical rule.  `length` is the number of characters the rule takes from the
front of a text, zero where it does not apply; `kind?` is the kind of the token
they make, absent for text that makes none. -/
structure Rule where
  kind? : Option Kind
  length : List Char → Nat

namespace Rule

def isBlank (c : Char) : Bool := c == ' ' || c == '\t' || c == '\r' || c == '\n'

def blanks : Rule := ⟨none, fun cs => (cs.takeWhile isBlank).length⟩

def lineComment : Rule where
  kind? := none
  length
    | '/' :: '/' :: cs => 2 + (cs.takeWhile (· != '\n')).length
    | _ => 0

/-- How many characters there are up to and including the first `*/`.  `star`
says whether the character before was a star. -/
def toCommentEnd? (star : Bool) : List Char → Option Nat
  | [] => none
  | c :: cs =>
    if star && c == '/' then some 1 else (toCommentEnd? (c == '*') cs).map (· + 1)

/-- A comment between `/*` and the first `*/` after it.  One that is never closed
is no comment, and its first two characters are signs. -/
def blockComment : Rule where
  kind? := none
  length
    | '/' :: '*' :: cs => ((toCommentEnd? false cs).map (· + 2)).getD 0
    | _ => 0

def sign (k : Kind) : Rule :=
  let spelling := k.spelling.toList
  ⟨some k, fun cs => if spelling.isPrefixOf cs then spelling.length else 0⟩

def digits : Rule := ⟨some .number, fun cs => (cs.takeWhile Char.isDigit).length⟩

/-- How many characters there are up to and including the quote that closes a
string.  `escaped` says whether the character before was a backslash that is not
itself escaped.  An escape may hide any character but a newline; a newline that
is not escaped belongs to the string. -/
def toClosingQuote? : Bool → List Char → Option Nat
  | _, [] => none
  | true, c :: cs => if c == '\n' then none else (toClosingQuote? false cs).map (· + 1)
  | false, c :: cs =>
    if c == '"' then some 1 else (toClosingQuote? (c == '\\') cs).map (· + 1)

def string : Rule where
  kind? := some .text
  length
    | '"' :: cs => ((toClosingQuote? false cs).map (· + 1)).getD 0
    | _ => 0

def isWordStart (c : Char) : Bool := c.isAlpha || c == '_'

def isWordPart (c : Char) : Bool := c.isAlphanum || c == '_'

def word : Rule where
  kind? := some .ident
  length
    | c :: cs => if isWordStart c then 1 + (cs.takeWhile isWordPart).length else 0
    | [] => 0

def table : List Rule :=
  [blanks, lineComment, blockComment] ++
  [Kind.arrow, .colon, .semicolon, .comma, .dot, .openParen, .closeParen, .openBrace,
    .closeBrace, .openSquare, .closeSquare, .equal, .notEqual, .lessEqual, .greaterEqual, .less,
    .greater, .assign, .plus, .minus, .star, .slash, .percent, .andAnd, .orOr, .bang].map sign ++
  [digits, string, word]

def first? (cs : List Char) : Option Rule := table.find? fun r => r.length cs != 0

theorem length_ne_zero_of_first? {cs : List Char} {r : Rule} (h : first? cs = some r) :
    r.length cs ≠ 0 := by
  simpa using List.find?_some h

theorem first?_nil : first? [] = none := by
  rfl

end Rule

end TriadLang
