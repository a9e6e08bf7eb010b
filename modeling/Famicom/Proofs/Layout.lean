import Famicom.Machine
import Famicom.Proofs.Boards
import Famicom.Proofs.Processor
import Mathlib.Logic.Relation

/-!
What a running machine keeps of its cartridge, its windows, its palette and its sound (`Layout`), and
the few ways in which they move (`Layout.Step`). Whatever a program, a frame or the sound unit does is a
row of such moves, so an invariant of layouts is proved once for every move and then holds after every
operation.

    machine  ──operation──▶ machine'
       │layout                 │layout
       ▼                       ▼
    layout ──move──▶ … ──▶ layout'

A reset and a snapshot put the windows into place anew; they are no such rows.
-/

namespace Famicom

/-- A cartridge without the contents of its memories: what no program changes. -/
def Cartridge.rom (c : Cartridge) : Cartridge :=
  { c with sram := Memory.zero 0x2000, vram := c.vram.map fun _ => Memory.zero 0x2000 }

/-- The cartridge, the number of its board and of its sound chip, and what windows and palette show. -/
structure Layout where
  rom : Cartridge
  board : Option UInt8
  cpu : PageTable
  ppu : PageTable
  palette : Memory 32
  chip : Option SoundChip
  /-- The level of the sample voice. -/
  level : UInt8

/-- The layout of a machine. -/
def Machine.layout (m : Machine) : Layout where
  rom := m.cart.rom
  board := m.board.map Board.number
  cpu := m.cpu.pages
  ppu := m.ppu.pages
  palette := m.ppu.palette
  chip := m.sound.chip
  level := m.sound.sample.dac

namespace Layout

/-- What a board's wish does to a layout. -/
def obey (l : Layout) : Signal → Layout
  | .prg kb address bank => { l with cpu := l.cpu.mapPrg l.rom.prg.size kb address bank }
  | .chr kb address bank => { l with ppu := l.ppu.mapChr l.rom.chr.size kb address bank }
  | .mirror a b c d => { l with ppu := l.ppu.mirror a b c d }
  | .nametable window value =>
    { l with ppu := (l.ppu.put (8 + window % 4) (Machine.nametablePage l.rom value)).repeatNametables }
  | .irq | .log _ => l

/-- One move: a wish that fits the board, a colour, or a level of the sample voice. -/
inductive Step (l : Layout) : Layout → Prop
  | wish (number : UInt8) (signal : Signal) (plugged : l.board = some number)
    (fits : signal.Fits number) :
    Step l (l.obey signal)
  | backdrop (value : UInt8) :
    Step l { l with palette := Ppu.setBackdrop l.palette ((value &&& colourMask) ||| backdropMark) }
  | colour (index : Nat) (value : UInt8) (inner : index % 4 ≠ 0) :
    Step l { l with palette := l.palette.write index (value &&& colourMask) }
  | level (value : UInt8) (seven : l.level < 0x80 → value < 0x80) : Step l { l with level := value }

/-- Moves in a row. -/
def Moves : Layout → Layout → Prop := Relation.ReflTransGen Step

variable {l l' l'' : Layout}

theorem Moves.refl (l : Layout) : Moves l l := Relation.ReflTransGen.refl

theorem Moves.of_eq (h : l' = l) : Moves l l' := h ▸ Moves.refl l'

theorem Moves.trans (h : Moves l l') (h' : Moves l' l'') : Moves l l'' :=
  Relation.ReflTransGen.trans h h'

theorem Step.moves (h : Step l l') : Moves l l' := Relation.ReflTransGen.single h

/-- What every move keeps, a row of moves keeps. -/
theorem Moves.keeps {P : Layout → Prop} (step : ∀ {l l'}, Step l l' → P l → P l') (h : Moves l l')
    (hl : P l) : P l' := by
  induction h with
  | refl => exact hl
  | tail _ hs ih => exact step hs ih

theorem obey_board (l : Layout) (s : Signal) : (l.obey s).board = l.board := by
  cases s <;> simp only [obey]

/-- Wishes in a row. -/
theorem moves_wishes {number : UInt8} (l : Layout) (signals : List Signal) (h : l.board = some number)
    (fits : AllFit number signals) : Moves l (signals.foldl obey l) := by
  induction signals generalizing l with
  | nil => exact Moves.refl l
  | cons s signals ih =>
    obtain ⟨hs, hrest⟩ := allFit_cons.mp fits
    have hboard : (l.obey s).board = some number := (l.obey_board s).trans h
    exact (Step.wish number s h hs).moves.trans (ih (l.obey s) hboard hrest)

end Layout

namespace Machine

open Layout (Moves)

variable (m : Machine)

/-! ### The board -/

theorem layout_obey (s : Signal) : (m.obey s).layout = m.layout.obey s := by
  cases s with
  | irq => simp only [obey, layout, Layout.obey, Cpu.pages_irq]
  | nametable window value =>
    have hpage : nametablePage m.cart.rom value = nametablePage m.cart value := by
      simp [nametablePage, Cartridge.rom, Cartridge.hasChr]
    simp only [obey, layout, Layout.obey, hpage]
  | _ => simp only [obey, note, layout, Layout.obey, Cartridge.rom]

theorem layout_obeyAll (signals : List Signal) :
    (m.obeyAll signals).layout = signals.foldl Layout.obey m.layout := by
  induction signals generalizing m with
  | nil => rfl
  | cons s signals ih =>
    rw [List.foldl_cons, ← layout_obey, ← ih]
    rfl

/-- Wishes of the plugged-in board that all fit. -/
theorem moves_withBoard (act : Board → Board × List Signal) (number : ∀ b, (act b).1.number = b.number)
    (fits : ∀ b, AllFit b.number (act b).2) : Moves m.layout (m.withBoard act).layout := by
  unfold withBoard
  split
  · exact Moves.refl _
  case h_2 b h =>
    have hsame : ({ m with board := some (act b).1 } : Machine).layout = m.layout := by
      simp only [layout, h, Option.map_some, number]
    simp only [layout_obeyAll, hsame]
    refine Layout.moves_wishes _ _ ?_ (fits b)
    simp only [layout, h, Option.map_some]

theorem moves_boardWrite (address : UInt16) (value : UInt8) :
    Moves m.layout (m.boardWrite address value).layout :=
  m.moves_withBoard _ (fun b => b.write_number _ address value) fun b => b.write_fits _ address value

/-- Interrupts move nothing. -/
theorem obey_irqs (l : Layout) (signals : List Signal) (h : ∀ s ∈ signals, s = Signal.irq) :
    signals.foldl Layout.obey l = l := by
  induction signals with
  | nil => rfl
  | cons s signals ih =>
    obtain rfl := h s (by simp)
    exact ih fun s hs => h s (by simp [hs])

/-- Nor does the end of a line, whatever the board sees of it. -/
theorem layout_hblank (view : View) (vblank : Bool) : (m.withBoard (·.hblank view vblank)).layout = m.layout := by
  unfold withBoard
  split
  · rfl
  case h_2 b h =>
    simp only [layout_obeyAll, obey_irqs _ _ (b.hblank_irq view vblank)]
    simp only [layout, h, Option.map_some, b.hblank_number]

theorem layout_boardHblank (vblank : Bool) : (m.boardHblank vblank).layout = m.layout :=
  m.layout_hblank m.view vblank

end Machine

end Famicom
