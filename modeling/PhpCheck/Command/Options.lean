import PhpCheck.Settings.Basic
import PhpCheck.Text.Split

/-!
# Command-line arguments

Options and inputs may come in any order; after `--` there are only inputs. No option may be repeated.
-/

namespace PhpCheck.Command

/-- How diagnostics are written. -/
inductive Format where
  | text
  | json
  deriving DecidableEq

def Format.ofName? : String → Option Format
  | "text" => some .text
  | "json" => some .json
  | _ => none

/-- What the arguments ask for. -/
structure Options where
  inputs : List String := []
  /-- The configuration file. -/
  config : Option String := none
  quick : Bool := false
  groupingChecks : Bool := false
  verbose : Bool := false
  format : Option Format := none
  deriving DecidableEq

/-- Why the arguments start no run. -/
inductive Halt where
  /-- They ask for the version. -/
  | version
  /-- They are not in order. -/
  | usage
  deriving DecidableEq

/-- An argument that is no input value. -/
inductive Word where
  /-- The two dashes after which there are only inputs. -/
  | divider
  /-- A long option, with the value after an equals sign. -/
  | long (name : String) (value : Option String)
  /-- One-letter options behind a single dash. -/
  | letters (letters : List Char)
  | plain
  deriving DecidableEq

/-- What an argument is by its form. A single dash is an ordinary input. -/
def Word.ofArgument (argument : String) : Word :=
  match argument.toList with
  | ['-', '-'] => .divider
  | '-' :: '-' :: rest =>
    match rest.span (· != '=') with
    | (name, []) => .long (String.ofList name) none
    | (name, _ :: value) => .long (String.ofList name) (some (String.ofList value))
  | '-' :: c :: rest => .letters (c :: rest)
  | _ => .plain

namespace Options

def addInput (options : Options) (path : String) : Except Halt Options :=
  if path.isEmpty then .error .usage else .ok { options with inputs := options.inputs ++ [path] }

/-- The options with a switch turned on, if the name is that of a switch. -/
def turnOn? (options : Options) : String → Option (Except Halt Options)
  | "quick" => some (if options.quick then .error .usage else .ok { options with quick := true })
  | "backward-compat" =>
    some (if options.groupingChecks then .error .usage
      else .ok { options with groupingChecks := true })
  | "verbose" =>
    some (if options.verbose then .error .usage else .ok { options with verbose := true })
  | "version" => some (.error .version)
  | _ => none

/-- The options with a value for the option of that name. -/
def give (options : Options) (name value : String) : Except Halt Options :=
  match name with
  | "config" =>
    if options.config.isSome || value.isEmpty then .error .usage
    else .ok { options with config := some value }
  | "format" =>
    match options.format, Format.ofName? value with
    | none, some format => .ok { options with format := some format }
    | _, _ => .error .usage
  | _ => .error .usage

/-- The options with one-letter options turned on, from left to right. -/
def turnOnLetters (options : Options) : List Char → Except Halt Options
  | [] => .ok options
  | 'v' :: rest =>
    if options.verbose then .error .usage
    else turnOnLetters { options with verbose := true } rest
  | 'V' :: _ => .error .version
  | _ :: _ => .error .usage

/-- Takes in arguments from left to right; the first one out of order, or that asks for the version,
decides. A value that follows its option does not look like an option. -/
def takeIn (options : Options) : List String → Except Halt Options
  | [] => .ok options
  | argument :: rest =>
    match Word.ofArgument argument with
    | .divider => rest.foldlM addInput options
    | .plain => do takeIn (← options.addInput argument) rest
    | .letters letters => do takeIn (← options.turnOnLetters letters) rest
    | .long name (some value) => do takeIn (← options.give name value) rest
    | .long name none =>
      match options.turnOn? name with
      | some result => do takeIn (← result) rest
      | none =>
        match rest with
        | [] => .error .usage
        | value :: more =>
          if Word.ofArgument value = .plain then do takeIn (← options.give name value) more
          else .error .usage

/-- Reads the arguments. There has to be an input. -/
def parse (arguments : List String) : Except Halt Options := do
  let options ← takeIn {} arguments
  if options.inputs.isEmpty then .error .usage else .ok options

/-- The settings with what the options turn on. -/
def settings (options : Options) (configured : Settings) : Settings :=
  { groupingChecks := configured.groupingChecks || options.groupingChecks
    quick := configured.quick || options.quick }

end Options

end PhpCheck.Command
