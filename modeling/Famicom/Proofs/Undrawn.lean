import Famicom.Proofs.Operations
import Famicom.Proofs.Slice
import Famicom.Proofs.Unseen

/-!
What drawing leaves behind: pixels, the sprite 0 hit and the overflow flag (`Ppu.undrawn` takes them away).
Nothing else depends on them, and only a read of the status register shows them, so a program that does
not read it runs alike with and without them.

    registers, windows, memory ─────────▶ programs
        │ drawn line                         ▲
        ▼                                    │ $2002 only
    line, frame    hit, hitAt    overflow ───╯
-/

namespace Famicom

/-! ### The picture unit -/

namespace Ppu

/-- The picture unit without what drawing leaves behind. -/
def undrawn (p : Ppu) : Ppu :=
  { p with
    status := p.status &&& 0xDF
    hit := false
    hitAt := none
    line := Memory.zero lineSize
    frame := Vector.replicate 240 (Memory.zero 256) }

variable (p : Ppu)

theorem readData_undrawn (cart : Cartridge) :
    p.undrawn.readData cart = ((p.readData cart).1, (p.readData cart).2.undrawn) := by
  have hread (q : Ppu) : q.readData cart = (q.readBuffer, step (
      if q.busy then { q with
        bus := q.readBuffer
        readBuffer := 0xFF
        notes := q.notes ++ [s!"VRAM read at {q.place}"] }
      else { q with
        bus := q.readBuffer
        readBuffer :=
          q.read cart (if q.vramAddress ≥ 0x3000 then q.vramAddress - 0x1000 else q.vramAddress) })) := rfl
  have hbusy : p.undrawn.busy = p.busy := rfl
  rw [hread, hread, hbusy]
  cases p.busy <;> rfl

theorem readRegister_undrawn (cart : Cartridge) (address : UInt16) (clock : Nat)
    (h : address.toNat % 8 ≠ 2) : p.undrawn.readRegister cart address clock =
      ((p.readRegister cart address clock).1, (p.readRegister cart address clock).2.undrawn) := by
  unfold readRegister
  split
  case h_1 heq => exact absurd heq h
  case h_2 => exact p.readData_undrawn cart
  case h_3 => rfl

theorem write_undrawn (cart : Cartridge) (address : UInt16) (value : UInt8) :
    p.undrawn.write cart address value =
      ((p.write cart address value).1.undrawn, (p.write cart address value).2) := by
  have hpages : p.undrawn.pages = p.pages := rfl
  simp only [write, hpages]
  split <;> rfl

theorem storeData_undrawn (cart : Cartridge) (value : UInt8) :
    p.undrawn.storeData cart value =
      ((p.storeData cart value).1.undrawn, (p.storeData cart value).2) := by
  have hvram : p.undrawn.vramAddress = p.vramAddress := rfl
  have hbusy : p.undrawn.busy = p.busy := rfl
  simp only [storeData, hvram, hbusy]
  split_ifs
  · let remarked : Ppu := { p with notes := p.notes ++ [s!"VRAM write to {p.place}"] }
    exact remarked.write_undrawn cart p.vramAddress 0xFF
  · exact p.write_undrawn cart p.vramAddress value
  all_goals rfl

theorem writeRegister_undrawn (cart : Cartridge) (address : UInt16) (value : UInt8) :
    p.undrawn.writeRegister cart address value =
      ((p.writeRegister cart address value).1.undrawn, (p.writeRegister cart address value).2) := by
  have htoggle : p.undrawn.toggle = p.toggle := rfl
  simp only [writeRegister]
  split
  case h_5 =>
    simp only [writeScroll, htoggle]
    split <;> rfl
  case h_6 =>
    simp only [writeAddress, htoggle]
    split <;> rfl
  case h_7 =>
    let p' : Ppu := { p with bus := value }
    have hstore := p'.storeData_undrawn cart value
    exact congrArg (fun s : Ppu × Cartridge => (s.1.step, s.2)) hstore
  all_goals rfl

theorem transfer_undrawn (block : Memory 0x100) :
    p.undrawn.transfer block = (p.transfer block).undrawn := by
  have haddress : p.undrawn.oamAddress = p.oamAddress := rfl
  have hoam (oam : Memory 0x100) : { p.undrawn with oam } = ({ p with oam } : Ppu).undrawn := rfl
  simp only [transfer, haddress]
  exact hoam _

theorem startLine_undrawn (line : Int) : p.undrawn.startLine line = (p.startLine line).undrawn := by
  have henabled : p.undrawn.enabled = p.enabled := rfl
  unfold startLine
  rw [henabled]
  split_ifs <;> rfl

theorem finishScanline_undrawn (line : Int) :
    p.undrawn.finishScanline line = (p.finishScanline line).undrawn := by
  have henabled : p.undrawn.enabled = p.enabled := rfl
  unfold finishScanline
  rw [henabled]
  split <;> rfl

/-! ### Drawing -/

theorem undrawn_line (line : Memory lineSize) : ({ p with line } : Ppu).undrawn = p.undrawn := rfl

theorem undrawn_frame (frame : Frame) : ({ p with frame } : Ppu).undrawn = p.undrawn := rfl

/-- The overflow flag does not stay. -/
theorem overflow_masked (status : UInt8) : (status ||| 0x20) &&& 0xDF = status &&& 0xDF := by
  rw [or_and_mask]
  exact UInt8.or_zero

theorem undrawn_recordHit (column clock : Nat) : (p.recordHit column clock).undrawn = p.undrawn := by
  unfold recordHit
  split <;> rfl

section
variable {board : Option Board} (hboard : ∀ b, board = some b → b.number ≠ 9) (cart : Cartridge)
include hboard

/-- Only one board looks at the tiles that are drawn. -/
theorem drawn_plain (base : UInt16) (tile : UInt8) : p.drawn board cart base tile = (p, board) := by
  cases board with
  | none => rfl
  | some b =>
    cases b with
    | mmc2 s => exact absurd rfl (hboard _ rfl)
    | _ => rfl

theorem undrawn_drawTile (k : Nat) :
    (drawTile cart (p, board) k).1.undrawn = p.undrawn ∧ (drawTile cart (p, board) k).2 = board := by
  simp only [drawTile, paintTile, p.drawn_plain hboard]
  exact ⟨p.undrawn_line _, trivial⟩

theorem undrawn_drawSprite (line clock index : Nat) :
    (drawSprite cart line clock (p, board) index).1.undrawn = p.undrawn ∧
      (drawSprite cart line clock (p, board) index).2 = board := by
  simp only [drawSprite, p.drawn_plain hboard]
  split
  · exact ⟨(undrawn_recordHit _ _ _).trans (p.undrawn_line _), rfl⟩
  · exact ⟨p.undrawn_line _, rfl⟩

end

/-- What each of many strokes leaves behind, all of them do. -/
theorem undrawn_foldl {α : Type} {board : Option Board} {f : Ppu × Option Board → α → Ppu × Option Board}
    (h : ∀ p a, (f (p, board) a).1.undrawn = p.undrawn ∧ (f (p, board) a).2 = board) (as : List α) :
    (as.foldl f (p, board)).1.undrawn = p.undrawn ∧ (as.foldl f (p, board)).2 = board := by
  induction as generalizing p with
  | nil => exact ⟨rfl, rfl⟩
  | cons a as ih =>
    obtain ⟨hundrawn, hsame⟩ := h p a
    have hstate : f (p, board) a = ((f (p, board) a).1, board) := Prod.ext rfl hsame
    rw [List.foldl_cons, hstate, ← hundrawn]
    exact ih _

section
variable {board : Option Board} (hboard : ∀ b, board = some b → b.number ≠ 9) (cart : Cartridge)
include hboard

theorem undrawn_drawBackground :
    (p.drawBackground board cart).1.undrawn = p.undrawn ∧ (p.drawBackground board cart).2 = board := by
  simp only [drawBackground_eq]
  split
  · exact ⟨p.undrawn_line _, rfl⟩
  · have htile (q : Ppu) (k : Nat) := q.undrawn_drawTile hboard cart k
    obtain ⟨hundrawn, hsame⟩ := p.undrawn_foldl htile (List.range 33)
    generalize List.foldl (drawTile cart) (p, board) (List.range 33) = s at hundrawn hsame ⊢
    refine ⟨Eq.trans ?_ hundrawn, hsame⟩
    split
    · rfl
    · exact s.1.undrawn_line _

theorem undrawn_drawSpritesOf (line clock : Nat) :
    (p.drawSpritesOf board cart line clock).1.undrawn = p.undrawn ∧
      (p.drawSpritesOf board cart line clock).2 = board := by
  simp only [drawSpritesOf]
  split
  · exact ⟨rfl, rfl⟩
  · -- the overflow flag is taken away, so the strokes may start from the unit that bears it
    have hmark : (if (p.spritesOnLine line).length > 8 then { p with status := p.status ||| 0x20 }
        else p).undrawn = p.undrawn := by
      split
      · simp only [undrawn, overflow_masked]
      · rfl
    generalize (if (p.spritesOnLine line).length > 8 then { p with status := p.status ||| 0x20 }
        else p) = q at hmark ⊢
    have hsprite (q : Ppu) (k : Nat) := q.undrawn_drawSprite hboard cart line clock k
    obtain ⟨hundrawn, hsame⟩ := q.undrawn_foldl hsprite ((p.spritesOnLine line).take 8)
    generalize List.foldl (drawSprite cart line clock) (q, board) _ = s at hundrawn hsame ⊢
    refine ⟨Eq.trans ?_ (hundrawn.trans hmark), hsame⟩
    split
    · rfl
    · exact s.1.undrawn_line _

end

theorem undrawn_estimateHit (cart : Cartridge) (line clock : Nat) :
    (p.estimateHit cart line clock).undrawn = p.undrawn := by
  simp only [estimateHit]
  split
  · rfl
  · split
    · rfl
    · split
      · exact p.undrawn_recordHit _ _
      · rfl

/-! ### Lines -/

/-- What the start of a line does, drawn or not. -/
def passLine (p : Ppu) (line : Int) : Ppu :=
  let p := { p with scanline := line }
  if line < 240 then p.startLine line
  else if line = 241 then { p with status := p.status ||| 0x80, unlocked := true }
  else if line = 261 then { p with status := p.status &&& 0x7F, unlocked := false }
  else p

section
variable {board : Option Board} (hboard : ∀ b, board = some b → b.number ≠ 9) (cart : Cartridge)
include hboard

theorem undrawn_runLine (line : Nat) (draw : Bool) (clock : Nat) :
    (p.runLine board cart line draw clock).1.undrawn = (p.startLine line).undrawn ∧
      (p.runLine board cart line draw clock).2 = board := by
  generalize hstart : p.startLine line = q
  simp only [runLine, hstart]
  split
  · obtain ⟨hundrawn, hsame⟩ := q.undrawn_drawBackground hboard cart
    generalize q.drawBackground board cart = s at hundrawn hsame ⊢
    obtain ⟨s, board'⟩ := s
    obtain rfl : board' = board := hsame
    simp only
    split
    · obtain ⟨hundrawn', hsame'⟩ := s.undrawn_drawSpritesOf hboard cart line clock
      exact ⟨(undrawn_frame _ _).trans (hundrawn'.trans hundrawn), hsame'⟩
    · exact ⟨(undrawn_frame _ _).trans ((s.undrawn_estimateHit cart line clock).trans hundrawn), rfl⟩
  · exact ⟨q.undrawn_estimateHit cart line clock, rfl⟩

/-- Drawing a line leaves behind what skipping it does, pixels and marks apart. -/
theorem undrawn_startScanline (line : Int) (draw : Bool) (clock : Nat) :
    (p.startScanline board cart line draw clock).1.undrawn = p.undrawn.passLine line ∧
      (p.startScanline board cart line draw clock).2 = board := by
  have hmarks : (p.status &&& 0xDF) &&& 0xDF = p.status &&& 0xDF := by
    rw [UInt8.and_assoc]
    rfl
  have hblank : (p.status ||| 0x80) &&& 0xDF = (p.status &&& 0xDF) ||| 0x80 := by
    rw [or_and_mask]
    rfl
  have hshown : (p.status &&& 0x7F) &&& 0xDF = (p.status &&& 0xDF) &&& 0x7F := by
    rw [UInt8.and_assoc, UInt8.and_assoc]
    rfl
  -- the overflow flag is cleared at the start of a line
  let q : Ppu := { p with scanline := line, status := p.status &&& 0xDF }
  have hcleared : q.undrawn = { p.undrawn with scanline := line } := by
    simp only [q, undrawn, hmarks]
  by_cases hvisible : line < 240
  · have hpass : p.undrawn.passLine line = q.undrawn.startLine line := by
      rw [hcleared]
      exact if_pos hvisible
    rw [hpass, q.startLine_undrawn]
    simp only [startScanline, if_pos hvisible]
    split
    · exact ⟨rfl, rfl⟩
    · have hline : (line.toNat : Int) = line := by omega
      have hrun := q.undrawn_runLine hboard cart line.toNat draw clock
      rw [hline] at hrun
      exact hrun
  · have hbelow : ¬ line < 0 := by omega
    simp only [startScanline, passLine, if_neg hvisible, if_neg hbelow]
    split_ifs
    · simp only [undrawn, hblank, and_self]
    · simp only [undrawn, hshown, and_self]
    · exact ⟨rfl, rfl⟩

end

end Ppu

/-! ### The bus -/

namespace Machine

/-- An address of the status register. -/
def ShowsStatus (address : UInt16) : Prop :=
  0x2000 ≤ address ∧ address < 0x4000 ∧ address.toNat % 8 = 2

instance (address : UInt16) : Decidable (ShowsStatus address) := instDecidableAnd

/-- The machine without what drawing leaves behind. -/
def undrawn (m : Machine) : Machine := { m with ppu := m.ppu.undrawn }

variable (m : Machine)

theorem drainNotes_undrawn : m.undrawn.drainNotes = m.drainNotes.undrawn := by
  have hnotes : m.undrawn.ppu.notes = m.ppu.notes := rfl
  unfold drainNotes
  rw [hnotes]
  split <;> rfl

theorem read_undrawn (address : UInt16) (h : ¬ ShowsStatus address) :
    m.undrawn.read address = ((m.read address).1, (m.read address).2.undrawn) := by
  simp only [read]
  split_ifs with hram hrom hpicture
  · rfl
  · rfl
  · have hregister : address.toNat % 8 ≠ 2 := fun heq => h ⟨by simpa using hram, hpicture, heq⟩
    have hread := m.ppu.readRegister_undrawn m.cart address m.cpu.clock hregister
    have hdrain := drainNotes_undrawn { m with ppu := (m.ppu.readRegister m.cart address m.cpu.clock).2 }
    rw [← hdrain]
    exact congrArg (fun s : UInt8 × Ppu => (s.1, { m with ppu := s.2 }.drainNotes)) hread
  all_goals rfl

theorem obey_undrawn (s : Signal) : m.undrawn.obey s = (m.obey s).undrawn := by
  have hpages (pages : PageTable) :
      ({ m.undrawn with ppu.pages := pages } : Machine) =
        ({ m with ppu.pages := pages } : Machine).undrawn := rfl
  have hshown : m.undrawn.ppu.pages = m.ppu.pages := rfl
  have hcart : m.undrawn.cart = m.cart := rfl
  cases s with
  | prg => rfl
  | chr =>
    simp only [obey, hshown, hcart]
    exact hpages _
  | mirror =>
    simp only [obey, hshown]
    exact hpages _
  | nametable =>
    simp only [obey, hshown, hcart]
    exact hpages _
  | irq => rfl
  | log => rfl

theorem obeyAll_undrawn (signals : List Signal) :
    m.undrawn.obeyAll signals = (m.obeyAll signals).undrawn := by
  induction signals generalizing m with
  | nil => rfl
  | cons s signals ih =>
    have hobey := m.obey_undrawn s
    have hrest := ih (m.obey s)
    rw [← hobey] at hrest
    exact hrest

theorem withBoard_undrawn (act : Board → Board × List Signal) :
    m.undrawn.withBoard act = (m.withBoard act).undrawn := by
  have hboard : m.undrawn.board = m.board := rfl
  simp only [withBoard, hboard]
  split
  · rfl
  case h_2 b _ => exact obeyAll_undrawn { m with board := some (act b).1 } (act b).2

theorem boardHblank_undrawn (vblank : Bool) :
    m.undrawn.boardHblank vblank = (m.boardHblank vblank).undrawn := m.withBoard_undrawn _

theorem poke_undrawn (address : UInt16) (value : UInt8) :
    m.undrawn.poke address value = (m.poke address value).undrawn := by
  have hcpu : m.undrawn.cpu = m.cpu := rfl
  simp only [poke, hcpu]
  split <;> rfl

theorem writeCartridge_undrawn (address : UInt16) (value : UInt8) :
    m.undrawn.writeCartridge address value = (m.writeCartridge address value).undrawn := by
  have hsound : m.undrawn.sound = m.sound := rfl
  have hboard : m.undrawn.board = m.board := rfl
  simp only [writeCartridge, hsound, hboard]
  split
  · rfl
  · exact m.withBoard_undrawn _
  · split
    · rfl
    · exact m.poke_undrawn address value

theorem write_undrawn (address : UInt16) (value : UInt8) :
    m.undrawn.write address value = (m.write address value).undrawn := by
  simp only [write]
  split_ifs
  · rfl
  · have hwrite := m.ppu.writeRegister_undrawn m.cart address value
    have hdrain := (m.withPicture (m.ppu.writeRegister m.cart address value)).drainNotes_undrawn
    refine Eq.trans ?_ hdrain
    exact congrArg (fun s : Ppu × Cartridge => (m.withPicture s).drainNotes) hwrite
  · exact congrArg (fun ppu => { m with ppu, cpu := (m.cpu.charge transferCycles).endSlice })
      (m.ppu.transfer_undrawn (m.block value))
  · rfl
  · simp only [writeStrobe]
    rw [m.withBoard_undrawn fun b => (b, b.strobe value)]
    rfl
  · rfl
  · exact m.writeCartridge_undrawn address value

/-- Only the status register shows what drawing leaves behind. -/
theorem unseen_undrawn : Unseen undrawn {} ShowsStatus (fun _ => False) where
  cpu _ := rfl
  cart _ := rfl
  setCpu _ _ := rfl
  read m address h := m.read_undrawn address h
  write m address value _ := m.write_undrawn address value

end Machine

end Famicom
