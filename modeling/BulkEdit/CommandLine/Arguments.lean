import BulkEdit.Path.Basic

/-!
# Arguments

The arguments name one of three commands, with options before or after their values. Short options can
be put together, and a value may follow its option in the same argument. Nothing may be given twice.
The arguments are taken one at a time, so the first that settles the matter does.
-/

namespace BulkEdit.CommandLine

inductive Verb where
  | apply
  | files
  | check
  deriving DecidableEq, Repr

inductive Switch where
  | plan
  | root
  | dryRun
  | json
  | verbose
  | help
  | version
  deriving DecidableEq, Repr

/-- What the arguments ask for. -/
inductive Command where
  | apply (plan : Path) (root : Option Path) (dryRun json : Bool)
  | files (plan : Path) (root : Option Path)
  | check (plan : Path)
  deriving DecidableEq, Repr

/-- Why the arguments lead to no command. -/
inductive Stop where
  | misused
  | help
  | version
  deriving DecidableEq, Repr

namespace Verb

def all : List Verb := [.apply, .files, .check]

def name : Verb → Text
  | .apply => "apply".toList
  | .files => "files".toList
  | .check => "check".toList

/-- The options of a command, in the order in which they are described. -/
def switches : Verb → List Switch
  | .apply => [.plan, .root, .dryRun, .json, .verbose, .help]
  | .files => [.plan, .root, .verbose, .help]
  | .check => [.plan, .verbose, .help]

end Verb

namespace Switch

def name : Switch → Text
  | .plan => "plan".toList
  | .root => "root".toList
  | .dryRun => "dry-run".toList
  | .json => "json".toList
  | .verbose => "verbose".toList
  | .help => "help".toList
  | .version => "version".toList

def letter? : Switch → Option Char
  | .plan => some 'p'
  | .root => some 'r'
  | .dryRun => some 'n'
  | .json => none
  | .verbose => some 'v'
  | .help => some 'h'
  | .version => some 'V'

def takesValue (switch : Switch) : Bool := switch == .plan || switch == .root

end Switch

/-- How far the arguments have been taken. -/
inductive Stage where
  /-- Before the name of a command. -/
  | start
  | command (verb : Verb)
  /-- After a request for help, and whether it was for a certain command. -/
  | helping (named : Bool)
  deriving DecidableEq, Repr

structure Reading where
  stage : Stage
  flags : List Switch
  values : List (Switch × Text)
  /-- The option whose value comes next. -/
  awaited : Option Switch
  /-- Whether two dashes have ended the options. -/
  ended : Bool
  deriving DecidableEq, Repr

namespace Reading

def start : Reading := ⟨.start, [], [], none, false⟩

def switches (reading : Reading) : List Switch :=
  match reading.stage with
  | .command verb => verb.switches
  | _ => [.verbose, .help, .version]

def value? (reading : Reading) (switch : Switch) : Option Text :=
  (reading.values.find? (·.1 == switch)).map Prod.snd

/-- Takes an option without a value. Help and version are answered at once. -/
def takeFlag (reading : Reading) (switch : Switch) : Except Stop Reading :=
  match switch with
  | .help => .error .help
  | .version => .error .version
  | switch =>
    if reading.flags.contains switch then .error .misused
    else .ok { reading with flags := switch :: reading.flags }

/-- Takes the value of an option, which cannot be empty. -/
def takeValue (reading : Reading) (switch : Switch) (value : Text) : Except Stop Reading :=
  if value.isEmpty ∨ (reading.value? switch).isSome then .error .misused
  else .ok { reading with values := (switch, value) :: reading.values, awaited := none }

/-- Takes short options that stand together. What follows one with a value is the value, less an
equals sign. -/
def takeLetters (reading : Reading) : List Char → Except Stop Reading
  | [] => .ok reading
  | c :: rest =>
    match reading.switches.find? (·.letter? == some c) with
    | none => .error .misused
    | some switch =>
      if switch.takesValue then
        match rest with
        | [] => .ok { reading with awaited := some switch }
        | '=' :: value => reading.takeValue switch value
        | value => reading.takeValue switch value
      else
        match reading.takeFlag switch with
        | .error stop => .error stop
        | .ok reading => reading.takeLetters rest

/-- Takes a long option, with its value behind an equals sign or in the next argument. -/
def takeName (reading : Reading) (text : Text) : Except Stop Reading :=
  let name := text.takeWhile (· != '=')
  match reading.switches.find? (·.name == name), text.drop name.length with
  | none, _ => .error .misused
  | some switch, [] =>
    if switch.takesValue then .ok { reading with awaited := some switch } else reading.takeFlag switch
  | some switch, _ :: value =>
    if switch.takesValue then reading.takeValue switch value else .error .misused

/-- Takes an argument that is no option. -/
def takeWord (reading : Reading) (word : Text) : Except Stop Reading :=
  let verb? := Verb.all.find? (·.name == word)
  let isHelp := word = Switch.help.name
  match reading.stage with
  | .start =>
    match verb? with
    | some verb => .ok { Reading.start with stage := .command verb }
    | none => if isHelp then .ok { Reading.start with stage := .helping false } else .error .misused
  | .helping false =>
    if verb?.isSome ∨ isHelp then .ok { reading with stage := .helping true } else .error .misused
  | _ => .error .misused

def take (reading : Reading) (argument : Text) : Except Stop Reading :=
  if reading.ended then .error .misused
  else
    match reading.stage, reading.awaited, argument with
    | .helping _, _, argument => reading.takeWord argument
    | _, none, ['-', '-'] => .ok { reading with ended := true }
    | _, none, '-' :: '-' :: text => reading.takeName text
    | _, none, '-' :: c :: text => reading.takeLetters (c :: text)
    | _, none, argument => reading.takeWord argument
    | _, some _, '-' :: _ :: _ => .error .misused
    | _, some switch, argument => reading.takeValue switch argument

/-- The command that has been read, if all that it needs is there. -/
def finish (reading : Reading) : Except Stop Command :=
  match reading.stage, reading.awaited, reading.value? .plan with
  | .helping _, _, _ => .error .help
  | .command verb, none, some plan =>
    let root := (reading.value? .root).map Path.mk
    match verb with
    | .apply =>
      .ok (.apply ⟨plan⟩ root (reading.flags.contains .dryRun) (reading.flags.contains .json))
    | .files => .ok (.files ⟨plan⟩ root)
    | .check => .ok (.check ⟨plan⟩)
  | _, _, _ => .error .misused

end Reading

def Command.ofArguments (arguments : List Text) : Except Stop Command :=
  match arguments.foldlM Reading.take .start with
  | .error stop => .error stop
  | .ok reading => reading.finish

end BulkEdit.CommandLine
