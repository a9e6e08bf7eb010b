import Famicom.Board.Bootleg
import Famicom.Board.Fcg
import Famicom.Board.Irem
import Famicom.Board.Latch
import Famicom.Board.Mmc1
import Famicom.Board.Mmc2
import Famicom.Board.Mmc3
import Famicom.Board.Mmc5
import Famicom.Board.Multicart
import Famicom.Board.Namco163
import Famicom.Board.Rambo1
import Famicom.Board.Ss8806
import Famicom.Board.Vrc1
import Famicom.Board.Vrc3
import Famicom.Board.Vrc4
import Famicom.Board.Vrc6
import Famicom.Board.Vrc7
import Famicom.Sound.Chip

/-!
All boards behind one interface: a board answers writes, reads, line ends and drawn tiles, and keeps up to
128 bytes in a snapshot. Where a board says nothing about an event, the event passes it by.
-/

namespace Famicom

/-- A cartridge board with its registers. -/
inductive Board where
  | latch (kind : LatchBoard)
  | mmc1 (s : Mmc1)
  | mmc2 (s : Mmc2)
  | mmc3 (s : Mmc3)
  | mmc5 (s : Mmc5)
  | rambo1 (s : Rambo1)
  | vrc1 (s : Vrc1)
  | vrc3 (s : Vrc3)
  | vrc4 (s : Vrc4)
  | vrc6 (s : Vrc6)
  | vrc7 (s : Vrc7)
  | fcg (s : Fcg)
  | ss8806 (s : Ss8806)
  | namco163 (s : Namco163)
  | iremG101 (s : IremG101)
  | iremH3001 (s : IremH3001)
  | caltron (s : Caltron)
  | pelican (s : Pelican)
  | board40 (s : Board40)
  | board42 (s : Board42)
  | board50 (s : Board50)
  | aladdin (s : Aladdin)
  deriving Inhabited

namespace Board

/-- A fresh board for a mapper number. -/
def ofNumber? (number : UInt8) : Option Board :=
  match number.toNat with
  | 0 => some (.latch .nrom)
  | 1 => some (.mmc1 {})
  | 2 => some (.latch .unrom)
  | 3 => some (.latch .cnrom)
  | 4 => some (.mmc3 {})
  | 5 => some (.mmc5 {})
  | 7 => some (.latch .aorom)
  | 8 => some (.latch .frontFarEast)
  | 9 => some (.mmc2 {})
  | 11 => some (.latch .colorDreams)
  | 15 => some (.latch .contra100)
  | 16 => some (.fcg {})
  | 18 => some (.ss8806 {})
  | 19 => some (.namco163 {})
  | 21 => some (.vrc4 { wiring := .board21 })
  | 22 => some (.vrc4 { wiring := .board22 })
  | 23 => some (.vrc4 { wiring := .board23 })
  | 24 => some (.vrc6 {})
  | 25 => some (.vrc4 { wiring := .board25 })
  | 32 => some (.iremG101 {})
  | 33 => some (.latch .taito)
  | 34 => some (.latch .nina1)
  | 40 => some (.board40 {})
  | 41 => some (.caltron {})
  | 42 => some (.board42 {})
  | 46 => some (.pelican {})
  | 50 => some (.board50 {})
  | 64 => some (.rambo1 {})
  | 65 => some (.iremH3001 {})
  | 66 => some (.latch .gnrom)
  | 70 => some (.latch .bandai70)
  | 73 => some (.vrc3 {})
  | 75 => some (.vrc1 {})
  | 78 => some (.latch .irem78)
  | 79 => some (.latch .nina3)
  | 85 => some (.vrc7 {})
  | 87 => some (.latch .vrom87)
  | 93 => some (.latch .board93)
  | 94 => some (.latch .board94)
  | 99 => some (.latch .versus)
  | 160 => some (.aladdin {})
  | 229 => some (.latch .bootleg31)
  | 231 => some (.latch .nina7)
  | _ => none

/-- The mapper number of a board. -/
def number : Board → UInt8
  | .latch kind => kind.number
  | .mmc1 _ => 1
  | .mmc2 _ => 9
  | .mmc3 _ => 4
  | .mmc5 _ => 5
  | .rambo1 _ => 64
  | .vrc1 _ => 75
  | .vrc3 _ => 73
  | .vrc4 s => s.number
  | .vrc6 _ => 24
  | .vrc7 _ => 85
  | .fcg _ => 16
  | .ss8806 _ => 18
  | .namco163 _ => 19
  | .iremG101 _ => 32
  | .iremH3001 _ => 65
  | .caltron _ => 41
  | .pelican _ => 46
  | .board40 _ => 40
  | .board42 _ => 42
  | .board50 _ => 50
  | .aladdin _ => 160

/-- The addresses at which a board listens to writes. -/
def writeRanges : Board → List AddressRange
  | .latch kind => kind.writeRanges
  | .mmc2 _ => Mmc2.writeRanges
  | .mmc5 _ => Mmc5.writeRanges
  | .vrc6 _ => Vrc6.writeRanges
  | .fcg _ => Fcg.writeRanges
  | .namco163 _ => Namco163.writeRanges
  | .caltron _ => Caltron.writeRanges
  | .pelican _ => Pelican.writeRanges
  | .board42 _ => Board42.writeRanges
  | .board50 _ => Board50.writeRanges
  | _ => romRange

/-- The addresses at which a board answers reads. -/
def readRanges : Board → List AddressRange
  | .mmc5 _ => Mmc5.readRanges
  | _ => []

/-- The sound hardware a board brings along. -/
def soundChip : Board → Option SoundChip
  | .mmc5 _ => some .mmc5
  | .vrc6 _ => some .vrc6
  | .vrc7 _ => some .vrc7
  | _ => none

/-- A board's registers and requests, wrapped again as a board. -/
def lift {α : Type} (wrap : α → Board) (r : α × List Signal) : Board × List Signal :=
  (wrap r.1, r.2)

/-- Power-on. -/
def init (board : Board) (view : View) : Board × List Signal :=
  match board with
  | .latch kind => (board, kind.init)
  | .mmc1 s => lift .mmc1 (s.init view)
  | .mmc2 _ => lift .mmc2 (Mmc2.init view)
  | .mmc3 _ => (.mmc3 {}, [])
  | .mmc5 _ => lift .mmc5 Mmc5.init
  | .rambo1 _ => lift .rambo1 Rambo1.init
  | .vrc1 _ => (board, [])
  | .vrc3 _ => (.vrc3 {}, [])
  | .vrc4 s => (.vrc4 s.init, [])
  | .vrc6 _ => (.vrc6 {}, [])
  | .vrc7 _ => lift .vrc7 Vrc7.init
  | .fcg _ => lift .fcg Fcg.init
  | .ss8806 s => (.ss8806 s.init, [])
  | .namco163 _ => (.namco163 {}, [])
  | .iremG101 _ => (board, [])
  | .iremH3001 _ => (.iremH3001 {}, [])
  | .caltron _ => lift .caltron Caltron.init
  | .pelican _ => lift .pelican Pelican.init
  | .board40 _ => lift .board40 Board40.init
  | .board42 _ => lift .board42 Board42.init
  | .board50 _ => lift .board50 Board50.init
  | .aladdin _ => (.aladdin {}, [])

/-- A CPU write. -/
def write (board : Board) (view : View) (address : UInt16) (value : UInt8) : Board × List Signal :=
  match board with
  | .latch kind => (board, kind.write view address value)
  | .mmc1 s => lift .mmc1 (s.write view address value)
  | .mmc2 s => lift .mmc2 (s.write address value)
  | .mmc3 s => lift .mmc3 (s.write view address value)
  | .mmc5 s => lift .mmc5 (s.write address value)
  | .rambo1 s => lift .rambo1 (s.write address value)
  | .vrc1 s => lift .vrc1 (s.write address value)
  | .vrc3 s => lift .vrc3 (s.write address value)
  | .vrc4 s => lift .vrc4 (s.write address value)
  | .vrc6 s => lift .vrc6 (s.write address value)
  | .vrc7 s => lift .vrc7 (s.write address value)
  | .fcg s => lift .fcg (s.write address value)
  | .ss8806 s => lift .ss8806 (s.write address value)
  | .namco163 s => lift .namco163 (s.write address value)
  | .iremG101 s => lift .iremG101 (s.write address value)
  | .iremH3001 s => lift .iremH3001 (s.write address value)
  | .caltron s => lift .caltron (s.write address value)
  | .pelican s => lift .pelican (s.write address value)
  | .board40 s => lift .board40 (s.write address value)
  | .board42 s => lift .board42 (s.write address value)
  | .board50 s => lift .board50 (s.write address value)
  | .aladdin s => lift .aladdin (s.write address value)

/-- A CPU read; a board without readable registers leaves all lines up. -/
def read (board : Board) (_address : UInt16) : UInt8 :=
  match board with
  | .mmc5 s => s.read
  | _ => 0xFF

/-- The end of a line, during vertical blank or not. -/
def hblank (board : Board) (view : View) (vblank : Bool) : Board × List Signal :=
  match board with
  | .mmc3 s => lift .mmc3 (s.hblank view vblank)
  | .mmc5 s => lift .mmc5 (s.hblank view)
  | .rambo1 s => lift .rambo1 (s.hblank view vblank)
  | .vrc3 s => lift .vrc3 s.hblank
  | .vrc4 s => lift .vrc4 s.hblank
  | .vrc6 s => lift .vrc6 s.hblank
  | .vrc7 s => lift .vrc7 s.hblank
  | .fcg s => lift .fcg s.hblank
  | .board40 s => lift .board40 s.hblank
  | .board42 s => lift .board42 s.hblank
  | .board50 s => lift .board50 s.hblank
  | .aladdin s => lift .aladdin (s.hblank view vblank)
  | _ => (board, [])

/-- The renderer drew a tile from the pattern window at `base`: a bank of 4KB that the window shows from
now on, if the tile chose one. -/
def drawn (board : Board) (base : UInt16) (tile : UInt8) : Board × Option Int :=
  match board with
  | .mmc2 s =>
    let (s, chosen) := s.drawn base tile
    (.mmc2 s, chosen)
  | _ => (board, none)

/-- A write to the controller strobe. -/
def strobe (board : Board) (value : UInt8) : List Signal :=
  match board with
  | .latch kind => kind.strobe value
  | _ => []

/-- What a board keeps in a snapshot, from the first byte of its area on. -/
def save : Board → List UInt8
  | .mmc1 s => s.save
  | .mmc2 s => s.save
  | .mmc3 s => s.save
  | .vrc4 s => s.save
  | .vrc6 s => s.line.save
  | .fcg s => s.save
  | .ss8806 s => s.save
  | .namco163 s => s.save
  | .iremH3001 s => s.save
  | .board40 s => s.save
  | _ => []

/-- Takes over the bytes of a snapshot's area. -/
def load (board : Board) (bytes : Nat → UInt8) : Board :=
  match board with
  | .mmc1 s => .mmc1 (s.load bytes)
  | .mmc2 _ => .mmc2 (Mmc2.load bytes)
  | .mmc3 s => .mmc3 (s.load bytes)
  | .vrc4 s => .vrc4 (s.load bytes)
  | .vrc6 s => .vrc6 ⟨s.line.load bytes⟩
  | .fcg _ => .fcg (Fcg.load bytes)
  | .ss8806 s => .ss8806 (s.load bytes)
  | .namco163 _ => .namco163 (Namco163.load bytes)
  | .iremH3001 _ => .iremH3001 (IremH3001.load bytes)
  | .board40 _ => .board40 (Board40.load bytes)
  | _ => board

end Board

end Famicom
