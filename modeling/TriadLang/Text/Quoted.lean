import TriadLang.Text.Printable

namespace TriadLang

def hexDigits (n : Nat) : String := String.ofList (Nat.toDigits 16 n)

def listingChar (c : Char) : String :=
  match c with
  | '\x00' => "\\0"
  | '\t' => "\\t"
  | '\n' => "\\n"
  | '\r' => "\\r"
  | '"' => "\\\""
  | '\\' => "\\\\"
  | c =>
    if isPrintable c && !isJoiningMark c then c.toString
    else "\\u\x7b" ++ hexDigits c.toNat ++ "\x7d"

def listingQuote (s : String) : String :=
  "\"" ++ String.join (s.toList.map listingChar) ++ "\""

/-- A character inside a literal: the quote, the backslash and the newline are
escaped, and all others stand for themselves. -/
def literalChar (c : Char) : List Char :=
  match c with
  | '"' => ['\\', '"']
  | '\\' => ['\\', '\\']
  | '\n' => ['\\', 'n']
  | c => [c]

def literalQuote (s : String) : String :=
  String.ofList ('"' :: s.toList.flatMap literalChar ++ ['"'])

end TriadLang
