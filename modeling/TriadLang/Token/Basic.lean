import TriadLang.Source.Span
import TriadLang.Token.Kind

namespace TriadLang

/-- A token.  The lexeme of the end of the text is empty. -/
structure Token where
  kind : Kind
  lexeme : String
  span : Span
deriving DecidableEq, Repr, Inhabited

namespace Token

def eof (offset : Nat) : Token := ⟨.eof, "", ⟨offset, offset⟩⟩

/-- Whether the token is the word `function`.  The word is not reserved: a
declaration knows it by its spelling, and everywhere else it is a name. -/
def isFunctionWord (t : Token) : Bool := t.kind == .ident && t.lexeme == "function"

end Token

end TriadLang
