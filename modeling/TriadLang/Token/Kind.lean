namespace TriadLang

inductive Kind where
  /- keywords -/
  | triad
  | fractal
  | parallel
  | consensus
  | immutable
  | mutable
  | route
  | anchor
  | litTrue
  | litFalse
  | uncertain
  /- built-in types -/
  | triadHash
  | fractalCoord
  | consensusProof
  | wac
  | networkPath
  /- names and literals -/
  | ident
  | number
  | text
  /- punctuation -/
  | colon
  | semicolon
  | comma
  | dot
  | openParen
  | closeParen
  | openBrace
  | closeBrace
  | openSquare
  | closeSquare
  | arrow
  | assign
  /- operators -/
  | plus
  | minus
  | star
  | slash
  | percent
  | andAnd
  | orOr
  | bang
  | equal
  | notEqual
  | less
  | lessEqual
  | greaterEqual
  | greater
  /- the end of the text -/
  | eof
deriving DecidableEq, Repr, Inhabited

namespace Kind

/-- The keywords, in the order in which an editor offers them. -/
def keywords : List Kind :=
  [triad, fractal, parallel, consensus, immutable, mutable, route, anchor, litTrue, litFalse,
    uncertain]

def builtinTypes : List Kind :=
  [triadHash, fractalCoord, consensusProof, wac, networkPath]

def reserved : List Kind := keywords ++ builtinTypes

def signs : List Kind :=
  [colon, semicolon, comma, dot, openParen, closeParen, openBrace, closeBrace, openSquare,
    closeSquare, arrow, assign, plus, minus, star, slash, percent, andAnd, orOr, bang, equal,
    notEqual, less, lessEqual, greater, greaterEqual]

def all : List Kind := reserved ++ [ident, number, text] ++ signs ++ [eof]

theorem mem_all (k : Kind) : k ∈ all := by cases k <;> decide

def isKeyword (k : Kind) : Bool := keywords.contains k

def isBuiltinType (k : Kind) : Bool := builtinTypes.contains k

/-- How a kind is written.  Names, literals and the end of the text have no
spelling of their own and answer with a description. -/
def spelling : Kind → String
  | triad => "triad"
  | fractal => "fractal"
  | parallel => "parallel"
  | consensus => "consensus"
  | immutable => "immutable"
  | mutable => "mutable"
  | route => "route"
  | anchor => "anchor"
  | litTrue => "true"
  | litFalse => "false"
  | uncertain => "uncertain"
  | triadHash => "TriadHash"
  | fractalCoord => "FractalCoord"
  | consensusProof => "ConsensusProof"
  | wac => "WAC"
  | networkPath => "NetworkPath"
  | ident => "identifier"
  | number => "number"
  | text => "string"
  | colon => ":"
  | semicolon => ";"
  | comma => ","
  | dot => "."
  | openParen => "("
  | closeParen => ")"
  | openBrace => "\x7b"
  | closeBrace => "\x7d"
  | openSquare => "["
  | closeSquare => "]"
  | arrow => "->"
  | assign => "="
  | plus => "+"
  | minus => "-"
  | star => "*"
  | slash => "/"
  | percent => "%"
  | andAnd => "&&"
  | orOr => "||"
  | bang => "!"
  | equal => "=="
  | notEqual => "!="
  | less => "<"
  | lessEqual => "<="
  | greater => ">"
  | greaterEqual => ">="
  | eof => "end of input"

def describe (k : Kind) : String :=
  match k with
  | ident | number | text | eof => k.spelling
  | _ => "`" ++ k.spelling ++ "`"

def name : Kind → String
  | triad => "Triad"
  | fractal => "Fractal"
  | parallel => "Parallel"
  | consensus => "Consensus"
  | immutable => "Immutable"
  | mutable => "Mutable"
  | route => "Route"
  | anchor => "Anchor"
  | litTrue => "True"
  | litFalse => "False"
  | uncertain => "Uncertain"
  | triadHash => "TriadHash"
  | fractalCoord => "FractalCoord"
  | consensusProof => "ConsensusProof"
  | wac => "Wac"
  | networkPath => "NetworkPath"
  | ident => "Ident"
  | number => "Number"
  | text => "Str"
  | colon => "Colon"
  | semicolon => "SemiColon"
  | comma => "Comma"
  | dot => "Dot"
  | openParen => "OpenParen"
  | closeParen => "CloseParen"
  | openBrace => "OpenBrace"
  | closeBrace => "CloseBrace"
  | openSquare => "OpenSquare"
  | closeSquare => "CloseSquare"
  | arrow => "Arrow"
  | assign => "Eq"
  | plus => "Plus"
  | minus => "Minus"
  | star => "Star"
  | slash => "Slash"
  | percent => "Percent"
  | andAnd => "AndAnd"
  | orOr => "OrOr"
  | bang => "Not"
  | equal => "EqEq"
  | notEqual => "Ne"
  | less => "Lt"
  | lessEqual => "Le"
  | greater => "Gt"
  | greaterEqual => "Ge"
  | eof => "Eof"

def ofReserved? (word : String) : Option Kind := reserved.find? fun k => k.spelling == word

end Kind

end TriadLang
