import TriadLang.Token.Kind
import TriadLang.Tree.Basic

namespace TriadLang

inductive LexFault where
  /-- No lexical rule takes anything at this offset. -/
  | unexpectedChar (ch : Char) (offset : Nat)
deriving DecidableEq, Repr, Inhabited

inductive Expected where
  | token (kind : Kind)
  | declaration
  | expression
  | functionWord
deriving DecidableEq, Repr, Inhabited

inductive ParseFault where
  | unexpected (expected : Expected) (found : Kind) (span : Span)
  | numberOutOfRange (lexeme : String) (span : Span)
  /-- A call inside the arguments of `limit` others. -/
  | nestingTooDeep (limit : Nat) (span : Span)
deriving DecidableEq, Repr, Inhabited

inductive ResolveFault where
  | duplicate (ident : Ident)
  | unknown (ident : Ident)
deriving DecidableEq, Repr, Inhabited

inductive LowerFault where
  | unsupported (form : Expr.Form)
deriving DecidableEq, Repr, Inhabited

inductive Fault where
  | lex (fault : LexFault)
  | parse (fault : ParseFault)
  | resolve (fault : ResolveFault)
  | lower (fault : LowerFault)
deriving DecidableEq, Repr, Inhabited

def LexFault.message : LexFault → String
  | .unexpectedChar ch _ => "unexpected character `" ++ ch.toString ++ "`"

def Expected.describe : Expected → String
  | .token kind => kind.describe
  | .declaration => "declaration"
  | .expression => "expression"
  | .functionWord => "`function`"

def ParseFault.message : ParseFault → String
  | .unexpected expected found _ => "expected " ++ expected.describe ++ ", found " ++ found.describe
  | .numberOutOfRange lexeme _ => "integer literal `" ++ lexeme ++ "` is out of range"
  | .nestingTooDeep limit _ => "calls nested more than " ++ toString limit ++ " deep"

def ResolveFault.message : ResolveFault → String
  | .duplicate ident => "symbol `" ++ ident.name ++ "` is already defined"
  | .unknown ident => "symbol `" ++ ident.name ++ "` is not defined"

def LowerFault.message : LowerFault → String
  | .unsupported form => "no code generation rule for `" ++ form.describe ++ "`"

def Fault.message : Fault → String
  | .lex fault => fault.message
  | .parse fault => fault.message
  | .resolve fault => fault.message
  | .lower fault => fault.message

def LexFault.span : LexFault → Span
  | .unexpectedChar ch offset => ⟨offset, offset + ch.utf8Size⟩

def ParseFault.span : ParseFault → Span
  | .unexpected _ _ span => span
  | .numberOutOfRange _ span => span
  | .nestingTooDeep _ span => span

def ResolveFault.ident : ResolveFault → Ident
  | .duplicate ident => ident
  | .unknown ident => ident

/-- Where a fault points in the source text, if it points anywhere. -/
def Fault.span? : Fault → Option Span
  | .lex fault => some fault.span
  | .parse fault => some fault.span
  | .resolve fault => some fault.ident.span
  | .lower _ => none

end TriadLang
