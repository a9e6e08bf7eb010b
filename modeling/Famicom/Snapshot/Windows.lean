import Famicom.Snapshot.Base

/-!
The block of the board: the numbers of the banks that the windows show, and 128 bytes of the board's own.

    00  four 8KB program banks from $8000 on
    08  eight 1KB pattern banks; with pattern RAM their own numbers
    18  the board's bytes
-/

namespace Famicom.Snapshot

/-- Bytes that a board may keep. -/
def boardSize : Nat := 128

/-- Where the board's bytes lie in the block. -/
def boardOffset : Nat := 0x18

/-- The board's bytes, filled up with zeros. -/
def boardBytes (board : Option Board) : List UInt8 :=
  let bytes := match board with
    | some b => b.save
    | none => []
  (bytes ++ List.replicate boardSize 0).take boardSize

/-- The number of a pattern bank as it is remembered. -/
def patternBank (m : Machine) (window : Nat) : UInt16 :=
  if m.cart.hasChr then m.ppu.pages.chrBank window else UInt16.ofNat window

/-- The address of the n-th 8KB program window. -/
def programAddress (n : Nat) : UInt16 := UInt16.ofNat (0x8000 + n * 0x2000)

/-- The block's body. -/
def windowsBody (m : Machine) : List UInt8 :=
  (List.range 4).flatMap (fun n => wordBytes (m.cpu.pages.prgBank (programAddress n))) ++
    (List.range 8).flatMap (fun n => wordBytes (patternBank m n)) ++ boardBytes m.board

/-- Puts the program windows back. -/
def restoreProgram (pages : PageTable) (prgSize : Nat) (body : List UInt8) : PageTable :=
  (List.range 4).foldl (fun pages n =>
    pages.mapPrg prgSize 8 (programAddress n) (wordAt body (n * 2)).toNat) pages

/-- Puts the pattern windows back. -/
def restorePatterns (pages : PageTable) (cart : Cartridge) (body : List UInt8) : PageTable :=
  let pages :=
    if cart.hasChr then
      (List.range 8).foldl (fun pages n =>
        pages.mapChr cart.chr.size 1 (UInt16.ofNat (n * 0x400)) (wordAt body (8 + n * 2)).toNat) pages
    else pages.mapVram
  pages.repeatNametables

/-- Takes a body over. -/
def restoreWindows (m : Machine) (body : List UInt8) : Machine :=
  let bytes := ((body.drop boardOffset).take boardSize).toArray
  { m with
    cpu.pages := restoreProgram m.cpu.pages m.cart.prg.size body
    ppu.pages := restorePatterns m.ppu.pages m.cart body
    board := m.board.map (·.load fun i => bytes.getD i 0) }

end Famicom.Snapshot
