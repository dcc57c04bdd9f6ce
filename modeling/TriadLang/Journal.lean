import TriadLang.Store.Notice
import TriadLang.Symbol.Basic

/-!
# The journal of a compilation

Everything that a compilation says besides its result, in the order in which it
says it: how far each stage came, which symbols were defined, and the notices to
the record store.  The journal is kept also when the compilation fails.

What becomes of the notices is not decided while compiling: a `Delivery` reads a
journal, and either drops them, keeps them, or writes them to the log.
-/

namespace TriadLang

inductive Event where
  | lexed (tokens : Nat)
  | parsed (decls : Nat)
  | defined (symbol : Symbol)
  | resolved (symbols : Nat)
  | lowered (lines : Nat)
  | compiled (bytes : Nat)
  | notified (notice : Notice)
deriving Inhabited

inductive Level where
  | debug
  | trace
deriving DecidableEq, Repr, Inhabited

structure LogRecord where
  level : Level
  message : String
deriving DecidableEq, Repr, Inhabited

/-- What becomes of the notices in a journal. -/
inductive Delivery where
  | drop
  | keep
  | log
deriving DecidableEq, Repr, Inhabited

def LogRecord.ofNotice (id payload : List UInt8) : LogRecord :=
  ⟨.debug, Notice.logText id payload⟩

namespace Event

def notice? : Event → Option Notice
  | notified notice => some notice
  | _ => none

def record? (delivery : Delivery) : Event → Option LogRecord
  | lexed n => some ⟨.debug, "lexed " ++ toString n ++ " tokens"⟩
  | parsed n => some ⟨.debug, "parsed " ++ toString n ++ " declarations"⟩
  | defined symbol => some ⟨.trace, "defined " ++ symbol.describe⟩
  | resolved n => some ⟨.debug, "resolved program with " ++ toString n ++ " symbols"⟩
  | lowered n => some ⟨.debug, "generated " ++ toString n ++ " lines"⟩
  | compiled n => some ⟨.debug, "compiled " ++ toString n ++ " bytes of source"⟩
  | notified notice =>
    match delivery with
    | .log => some (.ofNotice notice.id.toUTF8.data.toList notice.payload.toUTF8.data.toList)
    | .keep | .drop => none

end Event

/-- The entries of a compilation, the first one first. -/
abbrev Journal := Array Event

namespace Journal

def notices (journal : Journal) : List Notice := journal.toList.filterMap Event.notice?

def kept (delivery : Delivery) (journal : Journal) : List Notice :=
  match delivery with
  | .keep => journal.notices
  | .drop | .log => []

def log (delivery : Delivery) (journal : Journal) : List LogRecord :=
  journal.toList.filterMap (·.record? delivery)

end Journal

end TriadLang
