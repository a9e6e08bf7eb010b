import Famicom.Board.Signal

/-!
MMC1: five serial writes fill one of four registers.

    write with bit 7 clear     bit 0 ─▶ latch bit n, n ─▶ n+1; the fifth write commits
    write with bit 7 set       discards the latch, program mode back to its power-on value
    write to another register  discards what was latched for the last one

    register   0 control   1 pattern low   2 pattern high   3 program
-/

namespace Famicom

/-- Registers of the MMC1. -/
structure Mmc1 where
  control : UInt8 := 0
  chrLow : UInt8 := 0
  chrHigh : UInt8 := 0
  prg : UInt8 := 0
  /-- Bits received so far, the first one lowest. -/
  latch : UInt8 := 0
  /-- How many bits the latch holds. -/
  count : UInt8 := 0
  /-- The register that the last counted write was meant for. -/
  target : UInt16 := 0
  deriving DecidableEq, Repr, Inhabited

namespace Mmc1

/-- Empties the latch. -/
def discard (s : Mmc1) : Mmc1 := { s with latch := 0, count := 0 }

/-- The register that an address selects: bits 14-13. -/
def register (address : UInt16) : UInt16 := (address >>> 13) &&& 3

/-- Stores a committed value. -/
def store (s : Mmc1) (register : UInt16) (value : UInt8) : Mmc1 :=
  if register = 0 then { s with control := value }
  else if register = 1 then { s with chrLow := value }
  else if register = 2 then { s with chrHigh := value }
  else { s with prg := value }

/-- The 256KB group that the largest boards select through pattern register bits, in 16KB banks. -/
def group (s : Mmc1) (view : View) : Int :=
  if view.prg16 = 0x20 then
    if s.chrLow &&& 0x10 != 0 then 0 else 0x10
  else if view.prg16 = 0x40 then
    if s.control &&& 0x10 != 0 then bank (((s.chrHigh <<< 1) &&& 0x20) ||| (s.chrLow &&& 0x10))
    else bank ((s.chrLow <<< 1) &&& 0x20)
  else 0

/-- What a committed register value asks for. -/
def commit (s : Mmc1) (view : View) (register : UInt16) (value : UInt8) : List Signal :=
  if register = 0 then
    if value &&& 2 = 0 then [.single (value &&& 1).toNat]
    else [.horizontalIf (value &&& 1 != 0)]
  else if register = 1 then
    if s.control &&& 0x10 != 0 then [.chr 4 0x0000 (bank value)]
    else [.chr 8 0x0000 (bank (value >>> 1))]
  else if register = 2 then
    if s.control &&& 0x10 != 0 then [.chr 4 0x1000 (bank value)] else []
  else
    let group := s.group view
    if s.control &&& 0x08 = 0 then [.prg 32 0x8000 (bank (value >>> 1) + group / 2)]
    else if s.control &&& 0x04 != 0 then [.prg 16 0x8000 (bank (value &&& 0x0F) + group)]
    else [.prg 16 0xC000 (bank (value &&& 0x0F) + group)]

/-- One write. -/
def write (s : Mmc1) (view : View) (address : UInt16) (value : UInt8) : Mmc1 × List Signal :=
  if value &&& 0x80 != 0 then
    ({ s with control := s.control ||| 0x0C }.discard, [])
  else
    let r := register address
    let s := if s.target = r then s else { s.discard with target := r }
    let s := { s with latch := s.latch ||| ((value &&& 1) <<< s.count), count := s.count + 1 }
    if s.count = 5 then
      let s' := (s.store r s.latch).discard
      (s', s'.commit view r s.latch)
    else (s, [])

/-- Power-on: control in its program mode, the rest cleared. -/
def init (s : Mmc1) (view : View) : Mmc1 × List Signal :=
  let cleared : Mmc1 := { target := s.target }
  let fixed := if view.prg16 = 0x20 then [Signal.prg 16 0xC000 0x0F] else []
  let (s, signals) := cleared.write view 0x8000 0x80
  (s, fixed ++ signals)

/-- What a snapshot keeps. -/
def save (s : Mmc1) : List UInt8 := [s.control, s.chrLow, s.chrHigh, s.prg, s.latch, s.count]

/-- Takes a snapshot's bytes over. -/
def load (s : Mmc1) (bytes : Nat → UInt8) : Mmc1 :=
  { s with
    control := bytes 0, chrLow := bytes 1, chrHigh := bytes 2, prg := bytes 3
    latch := bytes 4, count := min (bytes 5) 4 }

end Mmc1

end Famicom
