import Famicom.Json.Printer
import Famicom.Json.Reader
import Famicom.Settings

/-!
The library that the program reads and writes its files of settings with. A text is read as a value first, and the
value as a record: members of an object by their names, items of an array in order. Unknown members are passed over,
known ones must not stand twice.
-/

namespace Famicom

namespace Filter

/-- The filter of a name. -/
def ofName? (name : String) : Option Filter :=
  [Filter.none, .lowpass, .weighted].find? (·.name == name)

/-- A filter in a file: its name, or an object with the name as its only member and null as that one's
value. -/
def ofJson? : Json → Option Filter
  | .string (some name) => ofName? name
  | .object [(some name, .null)] => ofName? name
  | _ => Option.none

end Filter

namespace Settings

/-- The field of a name. -/
def Field.ofName? (name : String) : Option Field := fields.find? (·.name == name)

/-- A byte in a file. -/
def byte? (value : Json) : Option UInt8 := (value.natAtMost? 0xFF).map UInt8.ofNat

/-- A 32-bit number in a file. -/
def word? (value : Json) : Option UInt32 := (value.natAtMost? 0xFFFFFFFF).map UInt32.ofNat

/-- The readers of values as they stand in a file. -/
def jsonReaders : Readers where
  word? := word?
  byte? := byte?
  bool? := Json.bool?
  filter? := Filter.ofJson?

/-- Takes the members of an object over; `seen` are the fields that have had their turn. -/
def ofMembers? (s : Settings) (seen : List Field) : List (Option String × Json) → Option Settings
  | [] => some s
  | (none, _) :: _ => none
  | (some name, value) :: rest =>
    match Field.ofName? name with
    | none => ofMembers? s seen rest
    | some field =>
      if seen.contains field then none
      else (jsonReaders.put? s field value).bind fun s => ofMembers? s (field :: seen) rest

/-- Takes the items of an array over, each for the next field. -/
def ofItems? (s : Settings) : List Field → List Json → Option Settings
  | _, [] => some s
  | [], _ :: _ => none
  | field :: fields, value :: values =>
    (jsonReaders.put? s field value).bind fun s => ofItems? s fields values

/-- The settings that a value describes, the defaults where it is silent. -/
def ofJson? : Json → Option Settings
  | .object members => ofMembers? {} [] members
  | .array items => ofItems? {} fields items
  | _ => none

/-- The library of the program. -/
def json : Codec where
  toReaders := jsonReaders
  record? := ofJson?
  read? text := (Json.read? text).bind ofJson?
  write s := Json.printObject (fields.map fun f => (f.name, s.get f))

/-- The settings in a file's text. -/
def parse (text : String) : Except SettingsError Settings := parseWith json text

/-- The text of a file with these settings. -/
def print (s : Settings) : String := json.write s

end Settings

end Famicom
