import SequenceDiagram.CommandLine.Options
import SequenceDiagram.Json.Writer
import SequenceDiagram.Layout.ConfigText
import SequenceDiagram.Report.Canvas
import SequenceDiagram.Report.Diagram
import SequenceDiagram.Script.Writer
import SequenceDiagram.Text.Quoted

set_option autoImplicit false

namespace SequenceDiagram.CommandLine

/-- Why a text could not be read. -/
inductive ReadFault
  | notFound
  | invalidUtf8
  | other (reason : String)
deriving DecidableEq, Repr

namespace ReadFault

def message : ReadFault → String
  | .notFound => "No such file or directory (os error 2)"
  | .invalidUtf8 => "stream did not contain valid UTF-8"
  | .other reason => reason

end ReadFault

structure Environment where
  stdin : Except ReadFault String
  file : String → Except ReadFault String

structure Outcome where
  exit : Nat
  stdout : String
  stderr : String
deriving DecidableEq, Repr

inductive RunError
  | readFile (name : String) (fault : ReadFault)
  | readStdin (fault : ReadFault)
  | readConfig (name : String) (fault : ReadFault)
  | config (name text : String) (error : Layout.ConfigError)

namespace RunError

def message : RunError → String
  | .readFile name fault => "cannot read " ++ Text.quote name ++ ": " ++ fault.message
  | .readStdin fault => "cannot read stdin: " ++ fault.message
  | .readConfig name fault => "io error at " ++ Text.quote name ++ ": " ++ fault.message
  | .config name text (.json error) =>
    "json error at " ++ Text.quote name ++ ": " ++ error.message text.toList
  | .config _ _ (.invalid fault) => fault.message

end RunError

def usage : String :=
  "Usage:\n  seqline fmt [--check] [FILE]\n  seqline check [FILE]\n" ++
  "  seqline layout [--config <file.json>] [--pretty] [FILE]\n\n" ++
  "Without FILE the document is read from stdin.\n" ++
  "--check exits with status 1 instead of printing when FILE is not in canonical form.\n\n" ++
  "Logging goes to stderr; set SEQLINE_LOG (or RUST_LOG) to e.g. `seqline=debug`.\n"

def success (stdout : String) : Outcome :=
  { exit := 0, stdout, stderr := "" }

def failure (stderr : String) : Outcome :=
  { exit := 1, stdout := "", stderr }

def readInput (environment : Environment) (input : Option String) : Except RunError String :=
  match input with
  | some name => (environment.file name).mapError (RunError.readFile name)
  | none => environment.stdin.mapError RunError.readStdin

def displayName (input : Option String) : String :=
  input.getD "<stdin>"

def readConfig (environment : Environment) (config : Option String) :
    Except RunError (Layout.Config Float) :=
  match config with
  | none => .ok .default
  | some name => do
    let text ← (environment.file name).mapError (RunError.readConfig name)
    (Layout.Config.readJson text).mapError (RunError.config name text)

def runFmt (name text : String) (check : Bool) : Outcome :=
  let canonical := Document.format text
  if !check then success canonical
  else if canonical = text then success ""
  else failure (name ++ ": not in canonical form\n")

/-- One line for every error of a document. -/
def faultLine (name : String) (node : Node) : String :=
  match node.element with
  | .error fault =>
    name ++ ":" ++ toString node.lineStart ++ ": " ++ fault.message ++
      (if fault.text = "" then "" else ": " ++ fault.text) ++ "\n"
  | _ => ""

def runCheck (name text : String) : Outcome :=
  match (Document.read text).errors with
  | [] => success ""
  | errors =>
    failure (String.join (errors.map (faultLine name)) ++
      name ++ ": " ++ toString errors.length ++ " error(s)\n")

def runLayout (text : String) (config : Layout.Config Float) (pretty : Bool) : Outcome :=
  let document := Document.read text
  let report := Json.obj
    [("document", document.toJson), ("layout", (document.layout config).toJson)]
  success ((if pretty then report.pretty else report.compact) ++ "\n")

def runOptions (environment : Environment) (options : Options) : Except RunError Outcome := do
  let text ← readInput environment options.input
  let name := displayName options.input
  match options.command with
  | .fmt check => .ok (runFmt name text check)
  | .check => .ok (runCheck name text)
  | .layout config pretty => do
    let config ← readConfig environment config
    .ok (runLayout text config pretty)

def run (environment : Environment) (arguments : List String) : Outcome :=
  match Options.read? arguments with
  | none => { exit := 2, stdout := "", stderr := usage }
  | some options =>
    match runOptions environment options with
    | .ok outcome => outcome
    | .error error => failure ("seqline: " ++ error.message ++ "\n")

end SequenceDiagram.CommandLine
