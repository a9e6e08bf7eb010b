import Famicom.Cartridge
import Famicom.Mapper

/-!
Cartridge images: a sixteen-byte header, an optional trainer, the program banks, the pattern banks.

    0-3    4E 45 53 1A
    4, 5   number of 16KB program banks, of 8KB pattern banks
    6      low mapper nybble | four-screen | trainer | battery | vertical
    7      high mapper nybble, trusted unless the header carries a known signature
    8-15   zero in a clean header

Whatever follows the last bank is ignored. A damaged image is refused with its first fault in the
order of the format (`ImageError`).
-/

namespace Famicom

/-- Why an image is refused. -/
inductive ImageError where
  | tooSmall (name : String)
  | notAnImage (name : String)
  | unsupported (mapper : UInt8)
  | trainerCut
  | noPrg (name : String)
  | prgCut (expected : Nat)
  | chrCut (expected : Nat)
  deriving DecidableEq, Repr, Inhabited

/-- The wording of a refusal. -/
def ImageError.message : ImageError → String
  | .tooSmall name => s!"{name} is too small to contain an iNES header"
  | .notAnImage name => s!"{name} is not a valid ROM image"
  | .unsupported mapper => Mapper.rejection mapper
  | .trainerCut => "ROM truncated inside the trainer"
  | .noPrg name => s!"{name} has no PRG-ROM banks"
  | .prgCut expected => s!"ROM truncated: expected {expected} PRG bytes"
  | .chrCut expected => s!"ROM truncated: expected {expected} CHR bytes"

namespace Image

/-- Bytes in a header. -/
def headerSize : Nat := 16

/-- Bytes in a trainer. -/
def trainerSize : Nat := 512

/-- Where the trainer lies in battery RAM. -/
def trainerOffset : Nat := 0x1000

/-- The bytes every image starts with. -/
def magic : List UInt8 := [0x4E, 0x45, 0x53, 0x1A]

/-- The sixteen header bytes, by name. -/
structure Header where
  prgCount : UInt8
  chrCount : UInt8
  control : UInt8
  control2 : UInt8
  reserved : List UInt8
  deriving DecidableEq, Repr, Inhabited

/-- Whether a header's last bytes are all zero. -/
def Header.clean (h : Header) : Bool := h.reserved.all (· == 0)

/-- Whether bytes 7 to 15 spell the signature that a once popular tool left behind. -/
def Header.signed (h : Header) : Bool :=
  h.control2 == 0x44 && h.reserved == [0x69, 0x73, 0x6B, 0x44, 0x75, 0x64, 0x65, 0x21]

/-- The mapper number: its high nybble counts unless the signature overwrote it. -/
def Header.mapper (h : Header) : UInt8 :=
  let low := h.control >>> 4
  if !h.clean && h.signed then low else low ||| (h.control2 &&& 0xF0)

/-- Whether a trainer precedes the program banks. -/
def Header.trainer (h : Header) : Bool := h.control &&& 4 != 0

/-- Bytes of program ROM. -/
def Header.prgSize (h : Header) : Nat := h.prgCount.toNat * Cartridge.prgBankSize

/-- Bytes of pattern ROM. -/
def Header.chrSize (h : Header) : Nat := h.chrCount.toNat * Cartridge.chrBankSize

/-- Remarks that a dirty header deserves. -/
def Header.notes (h : Header) : List String :=
  if h.clean then []
  else if h.signed then ["\x60DiskDude!' found in ROM header, ignoring high mapper nybble"]
  else ["ROM header dirty, possible problem"]

/-- The header of an image, whatever its first four bytes. -/
def header (bytes : Array UInt8) : Header where
  prgCount := bytes.getD 4 0
  chrCount := bytes.getD 5 0
  control := bytes.getD 6 0
  control2 := bytes.getD 7 0
  reserved := (bytes.extract 8 headerSize).toList

/-- Consecutive bytes of an image, if it is long enough. -/
def slice (bytes : Array UInt8) (start size : Nat) : Option (Array UInt8) :=
  if start + size ≤ bytes.size then some (bytes.extract start (start + size)) else none

/-- The cartridge in an image. -/
def parse (bytes : Array UInt8) (name : String) : Except ImageError Cartridge := do
  if bytes.size < headerSize then
    throw (.tooSmall name)
  if (bytes.extract 0 4).toList ≠ magic then
    throw (.notAnImage name)
  let h := header bytes
  if !Mapper.isSupported h.mapper then
    throw (.unsupported h.mapper)
  let start := headerSize + (if h.trainer then trainerSize else 0)
  let sram ← if h.trainer then
      match slice bytes headerSize trainerSize with
      | some t => pure (Memory.writeList (Memory.zero 0x2000) trainerOffset t.toList)
      | none => throw .trainerCut
    else pure (Memory.zero 0x2000)
  if h.prgCount = 0 then
    throw (.noPrg name)
  let some prg := slice bytes start h.prgSize | throw (.prgCut h.prgSize)
  let some chr := slice bytes (start + h.prgSize) h.chrSize | throw (.chrCut h.chrSize)
  pure {
    prg, chr, sram, name
    vram := if h.chrCount = 0 then some (Memory.zero 0x2000) else none
    mapper := h.mapper
    mirroring := if h.control &&& 1 != 0 then .vertical else .horizontal
    battery := h.control &&& 2 != 0
    trainer := h.trainer
    fourScreen := h.control &&& 8 != 0
    versus := h.mapper == 99
    notes := h.notes ++ (if h.trainer then ["Read in trainer at $7000"] else []) }

end Image

end Famicom
