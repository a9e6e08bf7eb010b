import Famicom.Json
import Famicom.Machine

/-!
The settings of a machine, and the JSON file that holds them. A file is an object whose fields may stand in
any order and be left out. Texts are read and written by a library (`Settings.Codec`); what it reads is then
validated.
-/

namespace Famicom

/-- What the owner of a machine can choose. -/
structure Settings where
  sampleRate : UInt32 := 44100
  /-- 8 for unsigned bytes, 16 for signed words. -/
  sampleBits : UInt8 := 16
  refreshRate : UInt32 := 60
  filter : Filter := .weighted
  /-- The voices that are mixed. -/
  channelMask : UInt8 := 0x3F
  drawSprites : Bool := true
  /-- Only the last picture of a run is drawn. -/
  autoFrameSkip : Bool := true
  /-- The devices that are plugged in. -/
  devices : UInt8 := 0x03
  deriving DecidableEq, Repr, Inhabited

/-- Why a settings file is refused. -/
inductive SettingsError where
  | malformed
  | sampleBits (bits : UInt8)
  | zeroRate
  | refreshTooFast (refresh sample : UInt32)
  deriving DecidableEq, Repr, Inhabited

/-- The wording of an error. -/
def SettingsError.message : SettingsError → String
  | .malformed => "invalid config JSON"
  | .sampleBits bits => s!"sample_bits must be 8 or 16, got {bits.toNat}"
  | .zeroRate => "sample_rate and refresh_rate must be non-zero"
  | .refreshTooFast refresh sample =>
    s!"refresh_rate {refresh.toNat} exceeds sample_rate {sample.toNat}"

namespace Filter

/-- The name of a filter in a file. -/
def name : Filter → String
  | .none => "none"
  | .lowpass => "lowpass"
  | .weighted => "weighted"

end Filter

namespace Settings

/-- The fields of a file. -/
inductive Field where
  | sampleRate | sampleBits | refreshRate | filter | channelMask | drawSprites | autoFrameSkip | devices
  deriving DecidableEq, Repr, Inhabited

/-- The fields in order. -/
def fields : List Field :=
  [.sampleRate, .sampleBits, .refreshRate, .filter, .channelMask, .drawSprites, .autoFrameSkip, .devices]

/-- A field's name in a file. -/
def Field.name : Field → String
  | .sampleRate => "sample_rate"
  | .sampleBits => "sample_bits"
  | .refreshRate => "refresh_rate"
  | .filter => "filter"
  | .channelMask => "channel_mask"
  | .drawSprites => "draw_sprites"
  | .autoFrameSkip => "auto_frame_skip"
  | .devices => "devices"

/-- What a field says in a file. -/
def get (s : Settings) : Field → Json
  | .sampleRate => .ofNat s.sampleRate.toNat
  | .sampleBits => .ofNat s.sampleBits.toNat
  | .refreshRate => .ofNat s.refreshRate.toNat
  | .filter => .string (some s.filter.name)
  | .channelMask => .ofNat s.channelMask.toNat
  | .drawSprites => .bool s.drawSprites
  | .autoFrameSkip => .bool s.autoFrameSkip
  | .devices => .ofNat s.devices.toNat

/-- The readers of the types that fields have. -/
structure Readers where
  word? : Json → Option UInt32
  byte? : Json → Option UInt8
  bool? : Json → Option Bool
  filter? : Json → Option Filter

/-- Sets a field to what a file says, which the reader of its type understands. -/
def Readers.put? (readers : Readers) (s : Settings) (field : Field) (value : Json) : Option Settings :=
  match field with
  | .sampleRate => (readers.word? value).map ({ s with sampleRate := · })
  | .sampleBits => (readers.byte? value).map ({ s with sampleBits := · })
  | .refreshRate => (readers.word? value).map ({ s with refreshRate := · })
  | .filter => (readers.filter? value).map ({ s with filter := · })
  | .channelMask => (readers.byte? value).map ({ s with channelMask := · })
  | .drawSprites => (readers.bool? value).map ({ s with drawSprites := · })
  | .autoFrameSkip => (readers.bool? value).map ({ s with autoFrameSkip := · })
  | .devices => (readers.byte? value).map ({ s with devices := · })

/-- What a library for JSON does for files of settings. Nothing is said here about how it works. -/
structure Codec extends Readers where
  /-- The settings that a value describes. -/
  record? : Json → Option Settings
  /-- The settings that a text describes. -/
  read? : String → Option Settings
  /-- The text of a file with these settings. -/
  write : Settings → String

/-- Refuses settings that no machine can run with. -/
def validate (s : Settings) : Except SettingsError Settings :=
  if s.sampleBits ≠ 8 ∧ s.sampleBits ≠ 16 then .error (.sampleBits s.sampleBits)
  else if s.sampleRate = 0 ∨ s.refreshRate = 0 then .error .zeroRate
  else if s.refreshRate > s.sampleRate then .error (.refreshTooFast s.refreshRate s.sampleRate)
  else .ok s

/-- The settings in a file's text. -/
def parseWith (codec : Codec) (text : String) : Except SettingsError Settings :=
  match codec.read? text with
  | none => .error .malformed
  | some s => s.validate

end Settings

/-- A machine with settings. The output rates reset the sound unit, so this comes before a cartridge. -/
def Machine.configure (m : Machine) (s : Settings) : Machine :=
  let sound := (m.sound.setRates s.sampleRate s.refreshRate).chooseVoices s.channelMask
  { m with
    sound := { sound with filter := s.filter }
    ppu := { m.ppu with drawSprites := s.drawSprites }
    pads := Controllers.ofDevices s.devices }

end Famicom
