set_option autoImplicit false

namespace SequenceDiagram.CommandLine

inductive Command
  | fmt (check : Bool)
  | check
  | layout (config : Option String) (pretty : Bool)
deriving DecidableEq, Repr

structure Options where
  command : Command
  /-- The document to read, if not standard input. -/
  input : Option String
deriving DecidableEq, Repr

def isOption (argument : String) : Bool :=
  argument.toList.head? = some '-'

namespace Options

def withInput? (options : Options) (file : String) : Option Options :=
  if options.input.isSome then none else some { options with input := some file }

def readRest? (options : Options) : List String → Option Options
  | [] => some options
  | "--check" :: rest =>
    match options.command with
    | .fmt false => readRest? { options with command := .fmt true } rest
    | .fmt true | .check | .layout _ _ => none
  | "--config" :: rest =>
    match options.command, rest with
    | .layout none pretty, value :: rest =>
      readRest? { options with command := .layout (some value) pretty } rest
    | _, _ => none
  | "--pretty" :: rest =>
    match options.command with
    | .layout config false => readRest? { options with command := .layout config true } rest
    | .layout _ true | .fmt _ | .check => none
  | argument :: rest =>
    if isOption argument then none
    else match options.withInput? argument with
      | some options => readRest? options rest
      | none => none

def readCommand? (name : String) : Option Command :=
  match name with
  | "fmt" => some (.fmt false)
  | "check" => some .check
  | "layout" => some (.layout none false)
  | _ => none

def read? : List String → Option Options
  | [] => none
  | name :: rest =>
    match readCommand? name with
    | some command => readRest? { command, input := none } rest
    | none => none

def files (options : Options) : List String :=
  options.input.toList ++
    match options.command with
    | .layout config _ => config.toList
    | .fmt _ | .check => []

end Options

end SequenceDiagram.CommandLine
