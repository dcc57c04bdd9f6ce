import TriadLang.Text.Utf8

namespace TriadLang

/-- What the record store is told about one record.  Nothing comes back. -/
structure Notice where
  id : String
  payload : String
deriving DecidableEq, Repr, Inhabited

def recordId (stage name : String) : String := stage ++ "_triad_id_" ++ name

namespace Notice

def defined (name : String) : Notice := ⟨recordId "semantic" name, name⟩

def lowered (name text : String) : Notice := ⟨recordId "codegen" name, text⟩

/-- A record as the log shows it.  The store works on bytes, and those that are
not text are replaced; the count is that of the bytes. -/
def logText (id payload : List UInt8) : String :=
  "store notify " ++ Utf8.decodeLossy id ++ " (" ++ toString payload.length ++ " bytes): " ++
    Utf8.decodeLossy payload

end Notice

end TriadLang
