import Famicom.Cartridge.Image
import Famicom.CommandLine.Disk
import Famicom.CommandLine.Options
import Famicom.Digest.Sha1
import Famicom.Machine.Frame
import Famicom.Machine.Power
import Famicom.Settings.Json
import Famicom.Snapshot
import Famicom.Text.Base64

/-!
The command line: runs a cartridge without screen and speaker and prints digests of the last picture and of
the sound.

    arguments, files ──▶ plan: files to write, text to print, or the failure ──▶ outcome

A plan is made from what reading gives and touches no file, so all that the command decides can be said of a function.
-/

namespace Famicom.CommandLine

/-- The lines of help. -/
def helpLines : List String :=
  ["nescore_run <rom.nes> [options]",
   "",
   "Runs a cartridge headless and prints hashes of the final frame and the audio.",
   "",
   "Options:",
   "  --frames N          frames to emulate (default 60)",
   "  --config PATH       JSON machine settings",
   "  --load-state PATH   restore an SNSS snapshot after power-on",
   "  --save-state PATH   write an SNSS snapshot when done",
   "  --sram PATH         battery RAM file, read if present and written back for battery carts",
   "  --press MASK        joypad 0 buttons held for the whole run (0x01 = A .. 0x80 = right)",
   "  --events N          machine events to print (default 16)",
   "  --help              show this message"]

/-- What help says. -/
def helpText : String := String.join (helpLines.map (· ++ "\n"))

/-- A file to write, and what could not be done if that fails. -/
structure Write where
  path : String
  content : List UInt8
  task : String
  deriving Inhabited

/-- What a run comes to: files to write in order, then text to print, or a failure. -/
structure Plan where
  writes : List Write := []
  output : String := ""
  failure : Option Failure := none
  deriving Inhabited

/-- What a run leaves behind on its streams. -/
structure Outcome where
  code : UInt32 := 0
  output : String := ""
  errors : String := ""
  deriving DecidableEq, Repr, Inhabited

/-! ### Before the run -/

/-- A disk error beneath what it stopped. -/
def diskFailure (task : String) (e : DiskError) : Failure := ⟨task, [e.message]⟩

/-- The settings of a file, or the defaults without one. -/
def settingsFrom (read : Reader) : Option String → Except Failure Settings
  | none => .ok {}
  | some path => do
    let text ← (read.text path).mapError (diskFailure s!"failed to read config: {path}")
    (Settings.parse text).mapError fun e => ⟨s!"failed to load config: {path}", [e.message]⟩

/-- The name of a cartridge: its file's name without the last ending. -/
def stem (path : String) : String :=
  match ((Disk.steps path).filter (· != ".")).getLast? with
  | none | some ".." => "rom"
  | some name =>
    match (name.splitOn ".").dropLast with
    | [] | [""] => name
    | parts => String.intercalate "." parts

/-- The cartridge in a file. -/
def cartridgeFrom (read : Reader) (path : String) : Except Failure Cartridge := do
  let bytes ← (read path).mapError (diskFailure s!"failed to read ROM: {path}")
  (Image.parse bytes.toArray (stem path)).mapError fun e =>
    ⟨s!"failed to load ROM: {path}", [e.message]⟩

/-- A machine with the cartridge of a file plugged in. -/
def insertFrom (read : Reader) (m : Machine) (path : String) : Except Failure Machine := do
  let cart ← cartridgeFrom read path
  match m.insert cart with
  | (.ok (), m) => return m
  | (.error reason, _) => throw ⟨s!"failed to insert {path}", [reason]⟩

/-- Loads battery RAM from a file if there is one. -/
def sramFrom (read : Reader) (m : Machine) : Option String → Except Failure Machine
  | none => .ok m
  | some path =>
    if !read.leads path then .ok m
    else do
      let bytes ← (read path).mapError (diskFailure s!"failed to read SRAM: {path}")
      (m.loadBattery bytes).mapError fun message => ⟨message, []⟩

/-- Restores a snapshot from a file. -/
def stateFrom (read : Reader) (m : Machine) : Option String → Except Failure Machine
  | none => .ok m
  | some path => do
    let bytes ← (read path).mapError (diskFailure s!"failed to read save state: {path}")
    (m.restore bytes).mapError fun e => ⟨s!"failed to load save state: {path}", [e.message]⟩

/-- The machine as it stands before its first frame. -/
def prepare (read : Reader) (o : Options) (s : Settings) (rom : String) : Except Failure Machine := do
  let m ← insertFrom read (Machine.configure {} s) rom
  let m ← sramFrom read m o.sram
  let m ← stateFrom read m o.loadState
  return { m with pads := m.pads.set Device.pad1.mask o.press.toUInt16 }

/-! ### The run -/

/-- The bytes of a sample: one unsigned, or two of a signed word, low byte first. -/
def sampleBytes (bits : UInt8) (sample : Int) : List UInt8 :=
  if bits = 8 then [Sound.toByte sample]
  else [UInt8.ofInt sample, UInt8.ofInt (sample / 256)]

/-- Runs frames and collects their sound. Unless all are drawn, only the last is. -/
def runFrames (s : Settings) (m : Machine) (audio : Array UInt8) : Nat → Machine × Array UInt8
  | 0 => (m, audio)
  | left + 1 =>
    let m := m.runFrame (!s.autoFrameSkip || left = 0)
    let (samples, m) := m.samples m.sound.timing.frameSamples
    runFrames s m (audio ++ (samples.flatMap (sampleBytes s.sampleBits)).toArray) left

/-- A digest as it is printed. -/
def digestText (bytes : Array UInt8) : String := String.ofList (Base64.encode (Sha1.digest bytes))

/-- What is printed after a run. -/
def summary (m : Machine) (audio : Array UInt8) (events : Nat) : String :=
  let events := (m.log.recent events).reverse.map fun message => s!"  {message}\n"
  s!"{m.info}\nframes: {m.frames}\npc: ${Hex.word m.cpu.pc}\n" ++
    s!"frame sha1: {digestText m.ppu.image.toArray}\n" ++
    s!"audio sha1: {digestText audio} ({audio.size} bytes)\n" ++
    if events.isEmpty then "" else "events:\n" ++ String.join events

/-- The files that a run leaves: its snapshot, and battery RAM where the cartridge keeps it. -/
def writesOf (m : Machine) (o : Options) : List Write :=
  (o.saveState.map fun path => ⟨path, m.save, s!"failed to write save state: {path}"⟩).toList ++
    if m.cart.battery then
      (o.sram.map fun path => ⟨path, m.cart.sram.toList, s!"failed to write SRAM: {path}"⟩).toList
    else []

/-- A plan that only fails. -/
def Plan.fail (reason : Failure) : Plan := { failure := some reason }

/-- The plan for options. -/
def planOptions (read : Reader) (o : Options) : Plan :=
  match o.rom with
  | none => { output := helpText, failure := some ⟨"no ROM given", []⟩ }
  | some rom =>
    match settingsFrom read o.config with
    | .error reason => .fail reason
    | .ok s =>
      match prepare read o s rom with
      | .error reason => .fail reason
      | .ok m =>
        let (m, audio) := runFrames s m #[] o.frames
        { writes := writesOf m o, output := summary m audio o.events }

/-- The plan for arguments. -/
def plan (read : Reader) (arguments : List String) : Plan :=
  match Options.parse {} arguments with
  | .help => { output := helpText }
  | .failure reason => .fail reason
  | .run o => planOptions read o

/-! ### After the run -/

/-- The outcome once all files are written. -/
def Plan.outcome (p : Plan) : Outcome :=
  match p.failure with
  | none => { output := p.output }
  | some reason => { code := 1, output := p.output, errors := reason.report }

/-- The outcome when a file could not be written: nothing is printed. -/
def writeFailed (w : Write) (e : DiskError) : Outcome :=
  { code := 1, errors := (diskFailure w.task e).report }

/-- Writes files in order, up to the first that cannot be written. -/
def performWrites (disk : Disk) (done : Outcome) : List Write → Outcome × Disk
  | [] => (done, disk)
  | w :: rest =>
    match disk.write w.path w.content with
    | .ok disk => performWrites disk done rest
    | .error e => (writeFailed w e, disk)

/-- Runs the command on a disk. -/
def run (disk : Disk) (arguments : List String) : Outcome × Disk :=
  let p := plan disk.read arguments
  performWrites disk p.outcome p.writes

end Famicom.CommandLine
