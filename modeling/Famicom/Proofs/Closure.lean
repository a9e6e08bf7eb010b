import Famicom.Machine.Frame
import Famicom.Proofs.Fetcher
import Famicom.Proofs.Processor

/-!
Relations that hold across whatever a machine does. An operation is a row of small parts, so a relation that
can be chained and that holds across each part (`Ppu.ClosedDrawing`, `Ppu.Closed`, `Machine.ClosedSlice`,
`Machine.Closed`) holds across drawn lines, slices and frames. An invariant is such a relation, "if it held
before, then it holds after", and so is "some moves lead from here to there".

    drawn tile ─▶ background, sprites ─▶ line of the picture unit ─┐
    bus read, bus write ─▶ instruction ─▶ slice ───────────────────┴─▶ line ─▶ frame
-/

namespace Famicom

/-! ### The picture -/

namespace Ppu

/-- The windows, which drawing leaves alone but for its tiles, and the memories, which it only reads. -/
def shows (p : Ppu) : PageTable × Memory 32 × Memory 0x1000 × Memory 0x100 :=
  (p.pages, p.palette, p.nametables, p.oam)

/-- Sprite 0's hit, and the bit of the status register that stands for it. -/
def mark (p : Ppu) : Bool × Option Nat × UInt8 := (p.hit, p.hitAt, p.status &&& 0x40)

/-- What sets the course of a line: the layers shown, and the two addresses. -/
def course (p : Ppu) : UInt8 × UInt16 × UInt16 := (p.mask, p.scroll, p.vramAddress)

theorem shows_line (p : Ppu) (line : Memory lineSize) : { p with line }.shows = p.shows := rfl

theorem mark_line (p : Ppu) (line : Memory lineSize) : { p with line }.mark = p.mark := rfl

theorem course_line (p : Ppu) (line : Memory lineSize) : { p with line }.course = p.course := rfl

/-- The relation holds across a drawn tile, a hit recorded at the clock, and everything that shows the same
under the same mark on the same course. It is one between picture units, each with the board that watches
it. -/
structure ClosedDrawing (cart : Cartridge) (clock : Nat)
    (R : Ppu × Option Board → Ppu × Option Board → Prop) : Prop where
  trans : ∀ {s t u}, R s t → R t u → R s u
  paint : ∀ {p q : Ppu} (board : Option Board), q.shows = p.shows → q.mark = p.mark →
    q.course = p.course → R (p, board) (q, board)
  hit : ∀ (p : Ppu) (board : Option Board) (column : Nat), R (p, board) (p.recordHit column clock, board)
  drawn : ∀ (p : Ppu) (board : Option Board) (tile : UInt8) {base : UInt16},
    base = 0 ∨ base = 0x1000 → R (p, board) (p.drawn board cart base tile)

/-- The relation does not look at the course either, so it holds across the start of a line too. -/
structure Closed (cart : Cartridge) (clock : Nat)
    (R : Ppu × Option Board → Ppu × Option Board → Prop) : Prop where
  trans : ∀ {s t u}, R s t → R t u → R s u
  still : ∀ {p q : Ppu} (board : Option Board), q.shows = p.shows → q.mark = p.mark →
    R (p, board) (q, board)
  hit : ∀ (p : Ppu) (board : Option Board) (column : Nat), R (p, board) (p.recordHit column clock, board)
  drawn : ∀ (p : Ppu) (board : Option Board) (tile : UInt8) {base : UInt16},
    base = 0 ∨ base = 0x1000 → R (p, board) (p.drawn board cart base tile)

theorem backgroundBase_cases (p : Ppu) : p.backgroundBase = 0 ∨ p.backgroundBase = 0x1000 := by
  unfold backgroundBase
  split <;> simp

theorem spriteBase_cases (p : Ppu) : p.spriteBase = 0 ∨ p.spriteBase = 0x1000 := by
  unfold spriteBase
  split <;> simp

theorem shows_recordHit (p : Ppu) (column clock : Nat) : (p.recordHit column clock).shows = p.shows := by
  unfold recordHit
  split <;> rfl

theorem shows_startLine (p : Ppu) (line : Int) : (p.startLine line).shows = p.shows := by
  unfold startLine
  split_ifs <;> rfl

theorem mark_startLine (p : Ppu) (line : Int) : (p.startLine line).mark = p.mark := by
  unfold startLine
  split_ifs <;> rfl

/-- A mask on bits that were set. -/
theorem or_and_mask (status bits mask : UInt8) :
    (status ||| bits) &&& mask = (status &&& mask) ||| (bits &&& mask) := by
  apply UInt8.toBitVec_inj.mp
  rw [UInt8.toBitVec_and, UInt8.toBitVec_or, BitVec.and_or_distrib_right]
  rfl

/-- Setting another bit leaves the mark alone. -/
theorem mark_set (p : Ppu) {bits : UInt8} (h : bits &&& 0x40 = 0) :
    { p with status := p.status ||| bits }.mark = p.mark := by
  simp only [mark, or_and_mask, h, UInt8.or_zero]

/-- Clearing another bit leaves the mark alone. -/
theorem mark_clear (p : Ppu) {kept : UInt8} (h : kept &&& 0x40 = 0x40) :
    { p with status := p.status &&& kept }.mark = p.mark := by
  simp only [mark, UInt8.and_assoc, h]

namespace ClosedDrawing

variable {cart : Cartridge} {clock : Nat} {R : Ppu × Option Board → Ppu × Option Board → Prop}

theorem refl (h : ClosedDrawing cart clock R) (s : Ppu × Option Board) : R s s := h.paint s.2 rfl rfl rfl

theorem foldl (h : ClosedDrawing cart clock R) {α : Type} {f : Ppu × Option Board → α → Ppu × Option Board}
    (step : ∀ s a, R s (f s a)) (as : List α) (s : Ppu × Option Board) : R s (as.foldl f s) := by
  induction as generalizing s with
  | nil => exact h.refl s
  | cons a as ih => exact h.trans (step s a) (ih (f s a))

theorem drawTile (h : ClosedDrawing cart clock R) (s : Ppu × Option Board) (k : Nat) :
    R s (Ppu.drawTile cart s k) := by
  obtain ⟨p, board⟩ := s
  refine h.trans (h.drawn p board (p.read cart (tileAddress p.vramAddress k)) p.backgroundBase_cases) ?_
  simp only [Ppu.drawTile, paintTile]
  generalize p.drawn board cart p.backgroundBase _ = s
  exact h.paint s.2 (s.1.shows_line _) (s.1.mark_line _) (s.1.course_line _)

theorem drawBackground (h : ClosedDrawing cart clock R) (p : Ppu) (board : Option Board) :
    R (p, board) (p.drawBackground board cart) := by
  rw [drawBackground_eq]
  split
  · exact h.paint board rfl rfl rfl
  · refine h.trans (h.foldl h.drawTile (List.range 33) (p, board)) ?_
    generalize (List.range 33).foldl (Ppu.drawTile cart) (p, board) = s
    obtain ⟨p, board⟩ := s
    simp only
    split
    · exact h.refl _
    · exact h.paint board (p.shows_line _) (p.mark_line _) (p.course_line _)

theorem drawSprite (h : ClosedDrawing cart clock R) (line : Nat) (s : Ppu × Option Board) (index : Nat) :
    R s (Ppu.drawSprite cart line clock s index) := by
  obtain ⟨p, board⟩ := s
  refine h.trans (h.drawn p board (p.sprite index).tile p.spriteBase_cases) ?_
  simp only [Ppu.drawSprite]
  generalize p.drawn board cart p.spriteBase (p.sprite index).tile = s
  obtain ⟨p, board⟩ := s
  simp only
  have hline (line : Memory lineSize) : R (p, board) ({ p with line }, board) :=
    h.paint board (p.shows_line _) (p.mark_line _) (p.course_line _)
  split
  · exact h.trans (hline _) (h.hit _ board _)
  · exact hline _

theorem drawSpritesOf (h : ClosedDrawing cart clock R) (p : Ppu) (board : Option Board) (line : Nat) :
    R (p, board) (p.drawSpritesOf board cart line clock) := by
  unfold Ppu.drawSpritesOf
  split
  · exact h.refl _
  · simp only
    -- the overflow flag shows nothing, so the sprites may start from the unit that bears it
    generalize hp : (if (p.spritesOnLine line).length > 8 then { p with status := p.status ||| 0x20 }
      else p) = p'
    have hflag : R (p, board) (p', board) := by
      rw [← hp]
      split
      · exact h.paint board rfl (p.mark_set rfl) rfl
      · exact h.refl _
    refine h.trans hflag
      (h.trans (h.foldl (h.drawSprite line) ((p.spritesOnLine line).take 8) (p', board)) ?_)
    generalize List.foldl (Ppu.drawSprite cart line clock) _ _ = s
    obtain ⟨p, board⟩ := s
    simp only
    split
    · exact h.refl _
    · exact h.paint board (p.shows_line _) (p.mark_line _) (p.course_line _)

theorem estimateHit (h : ClosedDrawing cart clock R) (p : Ppu) (board : Option Board) (line : Nat) :
    R (p, board) (p.estimateHit cart line clock, board) := by
  simp only [Ppu.estimateHit]
  split
  · exact h.refl _
  · split
    · exact h.refl _
    · split
      · exact h.hit p board _
      · exact h.refl _

/-- A line from its start on. -/
theorem runLine (h : ClosedDrawing cart clock R) (p : Ppu) (board : Option Board) (line : Nat) (draw : Bool) :
    R (p.startLine line, board) (p.runLine board cart line draw clock) := by
  simp only [Ppu.runLine]
  split
  · refine h.trans (h.drawBackground (p.startLine line) board) ?_
    generalize (p.startLine line).drawBackground board cart = s
    obtain ⟨p, board⟩ := s
    simp only
    split
    · exact h.trans (h.drawSpritesOf p board line) (h.paint _ rfl rfl rfl)
    · exact h.trans (h.estimateHit p board line) (h.paint board rfl rfl rfl)
  · exact h.estimateHit _ board line

end ClosedDrawing

namespace Closed

variable {cart : Cartridge} {clock : Nat} {R : Ppu × Option Board → Ppu × Option Board → Prop}

/-- A relation that does not look at the mark. -/
theorem of_shows (trans : ∀ {s t u}, R s t → R t u → R s u)
    (still : ∀ {p q : Ppu} (board : Option Board), q.shows = p.shows → R (p, board) (q, board))
    (drawn : ∀ (p : Ppu) (board : Option Board) (tile : UInt8) {base : UInt16},
      base = 0 ∨ base = 0x1000 → R (p, board) (p.drawn board cart base tile)) : Closed cart clock R where
  trans := trans
  still := fun board hshows _ => still board hshows
  hit := fun p board column => still board (p.shows_recordHit column clock)
  drawn := drawn

theorem drawing (h : Closed cart clock R) : ClosedDrawing cart clock R where
  trans := h.trans
  paint := fun board hshows hmark _ => h.still board hshows hmark
  hit := h.hit
  drawn := h.drawn

theorem runLine (h : Closed cart clock R) (p : Ppu) (board : Option Board) (line : Nat) (draw : Bool) :
    R (p, board) (p.runLine board cart line draw clock) :=
  h.trans (h.still board (p.shows_startLine line) (p.mark_startLine line))
    (h.drawing.runLine p board line draw)

/-- The start of a line; the one that takes the mark away needs a word of its own. -/
theorem startScanline (h : Closed cart clock R) (p : Ppu) (board : Option Board) (line : Int)
    (draw : Bool) (hlast : line = 261 → ∀ q : Ppu, q.shows = p.shows → R (p, board) (q, board)) :
    R (p, board) (p.startScanline board cart line draw clock) := by
  have hclear : R (p, board) ({ p with scanline := line, status := p.status &&& 0xDF }, board) :=
    h.still board rfl (p.mark_clear rfl)
  simp only [Ppu.startScanline]
  split_ifs with habove hvisible hblank hshown
  · exact h.trans hclear (h.still board (shows_startLine _ line) (mark_startLine _ line))
  · exact h.trans hclear (h.runLine _ board line.toNat draw)
  · exact h.still board rfl (p.mark_set rfl)
  · exact hlast hshown _ rfl
  · exact h.still board rfl rfl

end Closed

end Ppu

namespace Machine

/-! ### The phases of a line -/

/-- The picture unit starts the line. -/
def lineStart (m : Machine) (draw : Bool) : Machine :=
  let (ppu, board) := m.ppu.startScanline m.board m.cart m.scanline draw m.cpu.clock
  { m with ppu, board }.drainNotes

/-- Vertical blank begins, if this is its line. -/
def lineBlank (m : Machine) : Machine := if m.scanline = vblankLine then m.beginVblank else m

/-- The board sees the line end, and the line gets its cycles. -/
def lineBoard (m : Machine) (vblank : Bool) : Machine :=
  let m := m.boardHblank vblank
  { m with lineCycles := m.lineCycles + cyclesPerLine }

/-- The program runs for the cycles of the line. -/
def lineSlice (m : Machine) : Machine := m.runSlice (wholeCycles m.lineCycles)

/-- The picture unit ends the line. -/
def lineEnd (m : Machine) : Machine :=
  { m with ppu := m.ppu.finishScanline m.scanline, scanline := m.scanline + 1 }

theorem runLine_eq (m : Machine) (draw vblank : Bool) :
    m.runLine draw vblank = ((m.lineStart draw).lineBlank.lineBoard vblank).lineSlice.lineEnd := rfl

/-! ### Programs and frames -/

/-- The relation holds across every access to the bus, every stop and every interrupt that was waiting, and
across everything that only the processor's registers can tell: all that a slice is made of. -/
structure ClosedSlice (R : Machine → Machine → Prop) : Prop where
  refl : ∀ m, R m m
  trans : ∀ {m n k}, R m n → R n k → R m k
  cpu : ∀ (m : Machine) {c : Cpu}, Cpu.Poised m.cpu c → R m { m with cpu := c }
  serve : ∀ m : Machine, R m (m.mapCpu (·.servePending m.cart))
  jam : ∀ (m : Machine) (opcode : UInt8) (address : UInt16), R m (m.jam opcode address)
  read : ∀ (m : Machine) (address : UInt16), R m (m.read address).2
  write : ∀ (m : Machine) (address : UInt16) (value : UInt8), R m (m.write address value)

/-- The relation holds across slices, every interrupt, every start and end of a line, and everything that only
the clockwork can tell. -/
structure Closed (R : Machine → Machine → Prop) : Prop extends ClosedSlice R where
  nmi : ∀ m : Machine, R m (m.mapCpu (·.nmi m.cart))
  irq : ∀ m : Machine, R m (m.mapCpu (·.irq m.cart))
  clockwork : ∀ (m : Machine) (timer : FrameTimer) (lineCycles : Float32) (scanline : Int) (frames : Nat),
    R m { m with timer, lineCycles, scanline, frames }
  lineStart : ∀ (m : Machine) (draw : Bool), R m (m.lineStart draw)
  hblank : ∀ (m : Machine) (vblank : Bool), R m (m.boardHblank vblank)
  lineEnd : ∀ m : Machine, R m m.lineEnd

namespace ClosedSlice

variable {R : Machine → Machine → Prop} (m : Machine)

theorem mapCpu (h : ClosedSlice R) {f : Cpu → Cpu} (hf : Cpu.Poised m.cpu (f m.cpu)) : R m (m.mapCpu f) :=
  h.cpu m hf

theorem advance (h : ClosedSlice R) (bytes : UInt16) : R m (m.mapCpu (·.advance bytes)) :=
  h.mapCpu m (m.cpu.steady_advance bytes).poised

theorem load (h : ClosedSlice R) (op : Load) (mode : Mode) : R m (m.load op mode).2 := by
  simp only [Machine.load]
  have hfetch := h.advance m mode.size
  generalize m.mapCpu (·.advance mode.size) = n at hfetch ⊢
  split
  · exact h.trans hfetch (h.cpu n (Cpu.steady_load op _ _).poised)
  · have hread := h.trans hfetch (h.read n (m.cpu.effective m.cart mode))
    generalize n.read (m.cpu.effective m.cart mode) = r at hread ⊢
    exact h.trans hread (h.cpu r.2 (Cpu.steady_load op _ _).poised)

theorem store (h : ClosedSlice R) (op : Store) (mode : Mode) : R m (m.store op mode).2 := by
  simp only [Machine.store]
  generalize m.cpu.effective m.cart mode = address
  have hvalue := ((m.cpu.steady_advance mode.size).trans (Cpu.steady_store op _ address)).poised
  generalize op.value (m.cpu.advance mode.size) address = r at hvalue ⊢
  exact h.trans (h.cpu m hvalue) (h.write _ address r.1)

theorem modify (h : ClosedSlice R) (op : Modify) (mode : Mode) : R m (m.modify op mode).2 := by
  simp only [Machine.modify]
  have hfetch := h.advance m mode.size
  have hread := h.trans hfetch (h.read _ (m.cpu.effective m.cart mode))
  generalize Machine.read _ _ = r at hread ⊢
  have happly : R m { r.2 with cpu := (op.apply r.2.cpu r.1).2 } :=
    h.trans hread (h.cpu r.2 (Cpu.steady_modify op r.2.cpu r.1).poised)
  exact h.trans happly (h.write _ _ _)

theorem perform (h : ClosedSlice R) (i : Instruction) : R m (m.perform i).2 := by
  cases i with
  | load op mode => exact h.load m op mode
  | store op mode => exact h.store m op mode
  | modify op mode => exact h.modify m op mode
  | accumulator op =>
    have hmodify := Cpu.steady_modify op m.cpu m.cpu.a
    exact h.cpu m ⟨hmodify.pages, hmodify.pending, hmodify.jammed⟩
  | implied op => exact h.cpu m (Cpu.steady_implied op _).poised
  | branch flag value =>
    exact h.cpu m ((m.cpu.steady_advance 1).trans (Cpu.steady_branch _ _ _)).poised
  | brk => exact h.cpu m (Cpu.steady_brk _ _).poised
  | jsr => exact h.cpu m (Cpu.steady_jsr _ _).poised
  | rti => exact h.cpu m (Cpu.steady_rti _).poised
  | rts => exact h.cpu m (Cpu.steady_rts _).poised
  | jmp => exact h.cpu m (Cpu.steady_jump _ _).poised
  | jmpIndirect => exact h.cpu m (Cpu.steady_jump _ _).poised
  | skip operands cost => exact h.advance m operands
  | jam => exact h.refl m

theorem step (h : ClosedSlice R) : R m m.step := by
  simp only [Machine.step]
  generalize Instruction.decode (m.cpu.peek m.cart m.cpu.pc) = instruction
  have hfetch := h.advance m 1
  split
  · exact h.jam m _ m.cpu.pc
  · refine h.trans hfetch (h.trans (h.perform _ instruction) ?_)
    generalize (m.mapCpu (·.advance 1)).perform instruction = r
    have hspend : R r.2 (r.2.mapCpu (·.spend r.1)) := h.mapCpu _ (Cpu.poised_spend _ _)
    split
    · exact h.trans hspend (h.serve _)
    · exact hspend

theorem run (h : ClosedSlice R) (fuel : Nat) : R m (Machine.run fuel m) := by
  induction fuel generalizing m with
  | zero => exact h.refl m
  | succ fuel ih =>
    unfold Machine.run
    split
    · exact h.trans (h.step m) (ih m.step)
    · exact h.refl m

/-- A slice of any program. -/
theorem execute (h : ClosedSlice R) (slice : Int) : R m (m.execute slice).2 := by
  have hbudget : Cpu.Poised m.cpu { m.cpu with budget := slice } := ⟨rfl, rfl, rfl⟩
  have hpay := hbudget.trans ((Cpu.poised_payOwed _).trans (Cpu.poised_idleIfJammed _))
  refine h.trans ?_ (h.run _ _)
  exact h.trans (h.cpu m hpay) (h.serve _)

end ClosedSlice

namespace Closed

variable {R : Machine → Machine → Prop} (m : Machine)

theorem elapseTimer (h : Closed R) (cycles : Int) : R m (m.elapseTimer cycles) := by
  simp only [Machine.elapseTimer]
  have htimer : R m { m with timer := (m.timer.elapse cycles).2 } := h.clockwork m _ _ _ _
  split
  · exact h.trans htimer (h.irq _)
  · exact htimer

theorem runSlice (h : Closed R) (slice : Int) : R m (m.runSlice slice) := by
  refine h.trans (h.execute m slice) ?_
  unfold Machine.runSlice
  generalize m.execute slice = r
  exact h.trans (h.clockwork r.2 _ _ _ _) (h.elapseTimer _ r.1)

theorem lineBlank (h : Closed R) : R m m.lineBlank := by
  unfold Machine.lineBlank beginVblank
  split
  · refine h.trans (h.runSlice m nmiDelay) ?_
    simp only
    split
    · exact h.nmi _
    · exact h.refl _
  · exact h.refl m

theorem lineBoard (h : Closed R) (vblank : Bool) : R m (m.lineBoard vblank) :=
  h.trans (h.hblank m vblank) (h.clockwork _ _ _ _ _)

theorem runLine (h : Closed R) (draw vblank : Bool) : R m (m.runLine draw vblank) := by
  have hready : R m ((m.lineStart draw).lineBlank.lineBoard vblank) :=
    h.trans (h.trans (h.lineStart m draw) (h.lineBlank _)) (h.lineBoard _ vblank)
  rw [runLine_eq]
  exact h.trans hready (h.trans (h.runSlice _ _) (h.lineEnd _))

theorem runLines (h : Closed R) (draw vblank : Bool) (count : Nat) :
    R m (m.runLines draw vblank count) := by
  induction count generalizing m vblank with
  | zero => exact h.refl m
  | succ count ih => exact h.trans (h.runLine m draw _) (ih _ _)

/-- A frame, drawn or not. -/
theorem runFrame (h : Closed R) (draw : Bool) : R m (m.runFrame draw) := by
  unfold Machine.runFrame
  split
  · exact h.refl m
  · exact h.trans (h.runLines m draw false _) (h.clockwork _ _ _ _ _)

end Closed

end Machine

end Famicom
