import TriadLang.CommandLine.Run

namespace TriadLang

def readBytes (path : String) : IO (Except ReadFault (List UInt8)) := do
  try
    return .ok (← IO.FS.readBinFile path).data.toList
  catch
    | .noFileOrDirectory .. => return .error .notFound
    | e => return .error (.other (toString e))

def Response.print (r : Response) : IO UInt32 := do
  IO.print r.out
  IO.eprint r.err
  return r.exitCode.toUInt32

def run (args : List String) : IO UInt32 := do
  match Invocation.ofArguments args with
  | .ok invocation => (invocation.response (← readBytes invocation.file)).print
  | .error fault => fault.response.print

end TriadLang

def main (args : List String) : IO UInt32 := TriadLang.run args
