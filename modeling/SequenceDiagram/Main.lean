import SequenceDiagram.CommandLine.Run

set_option autoImplicit false

namespace SequenceDiagram.CommandLine

def readBytes (bytes : ByteArray) : Except ReadFault String :=
  match String.fromUTF8? bytes with
  | some text => .ok text
  | none => .error .invalidUtf8

/-- A fault that the system reports with a number and a reason. -/
def systemFault (code : UInt32) (reason : String) : ReadFault :=
  .other (reason ++ " (os error " ++ toString code ++ ")")

def readFault : IO.Error → ReadFault
  | .noFileOrDirectory _ _ _ => .notFound
  | .permissionDenied _ code reason => systemFault code reason
  | .inappropriateType _ code reason => systemFault code reason
  | error => .other (toString error)

def readFile (name : String) : IO (Except ReadFault String) := do
  try
    return readBytes (← IO.FS.readBinFile name)
  catch error =>
    return .error (readFault error)

def readFiles (names : List String) : IO (List (String × Except ReadFault String)) :=
  names.mapM fun name => do return (name, ← readFile name)

def readStdin (options : Option Options) : IO (Except ReadFault String) := do
  match options with
  | some { input := none, .. } => return readBytes (← (← IO.getStdin).readBinToEnd)
  | _ => return .ok ""

def runProgram (arguments : List String) : IO UInt32 := do
  let options := Options.read? arguments
  let files ← readFiles ((options.map Options.files).getD [])
  let stdin ← readStdin options
  let outcome := run
    { stdin, file := fun name => (files.lookup name).getD (.error .notFound) } arguments
  IO.print outcome.stdout
  IO.eprint outcome.stderr
  return UInt32.ofNat outcome.exit

end SequenceDiagram.CommandLine

def main (arguments : List String) : IO UInt32 :=
  SequenceDiagram.CommandLine.runProgram arguments
