import Famicom.CommandLine.Failure
import Famicom.CommandLine.Number

/-!
The options of a run. Arguments are read from the left; the first fault ends the reading, and so does a call
for help. A later option overrides an earlier one of the same name.
-/

namespace Famicom.CommandLine

/-- What a run was asked to do. -/
structure Options where
  rom : Option String := none
  frames : Nat := 60
  config : Option String := none
  saveState : Option String := none
  loadState : Option String := none
  sram : Option String := none
  /-- Buttons of the first pad that are held down. -/
  press : UInt8 := 0
  /-- How many messages of the log are shown. -/
  events : Nat := 16
  deriving DecidableEq, Repr, Inhabited

/-- What the arguments come to. -/
inductive Request where
  | help
  | run (options : Options)
  | failure (reason : Failure)
  deriving DecidableEq, Repr, Inhabited

namespace Options

/-- The files that the options name. -/
def paths (o : Options) : List String :=
  [o.rom, o.config, o.loadState, o.sram].filterMap id

/-- The option that takes a value, and what is said when the value is missing. -/
def missing? : String → Option String
  | "--frames" => some "--frames requires an integer, e.g. --frames 600"
  | "--config" => some "--config requires a path, e.g. --config nescore.json"
  | "--save-state" => some "--save-state requires a path, e.g. --save-state game.ss0"
  | "--load-state" => some "--load-state requires a path, e.g. --load-state game.ss0"
  | "--sram" => some "--sram requires a path, e.g. --sram game.sav"
  | "--press" => some "--press requires a button mask, e.g. --press 0x08"
  | "--events" => some "--events requires an integer, e.g. --events 32"
  | _ => none

/-- A value that is not a number. -/
def invalid (option value : String) : Failure := ⟨s!"invalid {option} value: {value}", []⟩

/-- A number up to a limit as the value of an option. -/
def numberFor (option : String) (limit : Nat) (value : String) : Except Failure Nat :=
  match number 10 limit value.toList with
  | .ok n => .ok n
  | .error e => .error { invalid option value with causes := [e.message] }

/-- Takes an option with its value over. -/
def put (o : Options) (option value : String) : Except Failure Options :=
  match option with
  | "--frames" => (numberFor option 0xFFFFFFFF value).map ({ o with frames := · })
  | "--config" => .ok { o with config := some value }
  | "--save-state" => .ok { o with saveState := some value }
  | "--load-state" => .ok { o with loadState := some value }
  | "--sram" => .ok { o with sram := some value }
  | "--press" =>
    match byte? value with
    | some mask => .ok { o with press := mask }
    | none => .error (invalid option value)
  | _ => (numberFor option 0xFFFFFFFFFFFFFFFF value).map ({ o with events := · })

/-- Takes an argument over that is no option with a value: the cartridge's file. -/
def putRom (o : Options) (argument : String) : Except Failure Options :=
  if argument.startsWith "--" then
    .error ⟨s!"unknown argument: {argument}\nUse --help to view supported options.", []⟩
  else if o.rom.isSome then .error ⟨s!"more than one ROM given: {argument}", []⟩
  else .ok { o with rom := some argument }

/-- Reads arguments. -/
def parse (o : Options) : List String → Request
  | [] => .run o
  | argument :: rest =>
    if argument = "--help" || argument = "-h" then .help
    else match missing? argument, rest with
      | some missing, [] => .failure ⟨missing, []⟩
      | some _, value :: rest =>
        match o.put argument value with
        | .ok o => parse o rest
        | .error reason => .failure reason
      | none, rest =>
        match o.putRom argument with
        | .ok o => parse o rest
        | .error reason => .failure reason

end Options

end Famicom.CommandLine
