import Famicom.Proofs.ScrollRange
import Famicom.Proofs.SpriteRows

/-!
Drawing with every step checked. The picture unit draws with indices that wrap and words that overflow in
silence; here the same steps fail where an index is out of its memory or a word has no room for its sum:

    line buffer   0 … 271       margin - fine x, + 8 per tile, + 7 in the 33rd; margin + sprite x + 7
    palette       0 … 31        4 * group + colour; 16 + 4 * group + colour
    picture       0 … 61439     256 per line
    addresses     16 bits       nametable, attributes, patterns, the next row

With the scroll registers in range no check ever fails, so the checked steps draw what the unchecked ones do.
-/

namespace Famicom

/-! ### Checks -/

/-- The sum of two words, if it is one. -/
def addWord? (v w : UInt16) : Option UInt16 := if v.toNat + w.toNat < 0x10000 then some (v + w) else none

/-- The difference of two words, if it is one. -/
def subWord? (v w : UInt16) : Option UInt16 := if w.toNat ≤ v.toNat then some (v - w) else none

/-- The difference of two numbers, if it is one. -/
def sub? (a b : Nat) : Option Nat := if b ≤ a then some (a - b) else none

/-- A value that needs a stretch of cells, if the stretch ends within the memory. -/
def inside? {α : Type} (start count size : Nat) (value : α) : Option α :=
  if start + count ≤ size then some value else none

namespace Memory

variable {n : Nat}

/-- The byte at an address of the memory. -/
def read? (m : Memory n) (address : Nat) : Option UInt8 := if address < n then some (m.read address) else none

/-- Stores a byte at an address of the memory. -/
def write? (m : Memory n) (address : Nat) (value : UInt8) : Option (Memory n) :=
  if address < n then some (m.write address value) else none

end Memory

namespace Ppu

/-! ### The background, checked -/

/-- The fetcher at the start of a line. -/
def fetcher? (p : Ppu) (cart : Cartridge) : Option Fetcher := do
  let v := p.vramAddress
  let cells : UInt16 := v &&& 0x0FE0
  let column : UInt16 := v &&& 0x1F
  let tileRow : UInt16 := (v >>> 5) &&& 0x1F
  let row ← addWord? 0x2000 cells
  let table : UInt16 := row &&& 0x2C00
  let inTable : UInt16 := (tileRow &&& 0x1C) <<< 1
  let attributes ← addWord? table 0x3C0
  let attributeRow ← addWord? attributes inTable
  let first ← addWord? attributeRow (column >>> 2)
  let pair : UInt16 := (tileRow &&& 2) <<< 1
  let tile ← addWord? row column
  let nextAttributes ← addWord? first 1
  let shift ← addWord? (column &&& 2) pair
  some { row, attributeRow, column, tile, nextAttributes, attributes := p.read cart first, shift := shift.toUInt8 }

/-- Reads the next attribute byte. -/
def readAttribute? (p : Ppu) (cart : Cartridge) (f : Fetcher) : Option Fetcher := do
  let nextAttributes ← addWord? f.nextAttributes 1
  some { f with attributes := p.read cart f.nextAttributes, nextAttributes }

/-- The fetcher one tile further. -/
def advance? (p : Ppu) (cart : Cartridge) (f : Fetcher) : Option Fetcher := do
  let column ← addWord? f.column 1
  let tile ← addWord? f.tile 1
  let f := { f with column, tile }
  if f.column &&& 1 ≠ 0 then some f
  else
    let f ← (if f.column &&& 3 = 0 then p.readAttribute? cart f.cross else some f)
    some { f with shift := f.shift ^^^ 2 }

/-- Puts the eight pixels of a pattern row into a line. -/
def putTile? (line : Memory lineSize) (palette : Memory 32) (x : Nat) (lo hi group : UInt8) :
    Option (Memory lineSize) :=
  (List.range 8).foldlM (fun l px => do
    let colour ← palette.read? (4 * group.toNat + (patternPixel lo hi px).toNat)
    l.write? (x + px) colour) line

/-- Where the row of a tile's pattern that falls on the line lies. -/
def backgroundRowAddress? (p : Ppu) (tile : UInt8) : Option UInt16 := do
  let fineY : UInt16 := (p.vramAddress >>> 12) &&& 7
  let pattern ← addWord? p.backgroundBase (16 * tile.toUInt16)
  addWord? pattern fineY

/-- Draws a tile as tile `k` of the line. -/
def paintTile? (p : Ppu) (board : Option Board) (cart : Cartridge) (k : Nat) (tile group : UInt8) :
    Option (Ppu × Option Board) := do
  let pattern ← p.backgroundRowAddress? tile
  let upper ← addWord? pattern 8
  let lo := p.read cart pattern
  let hi := p.read cart upper
  let (p, board) := p.drawn board cart p.backgroundBase tile
  let start ← sub? lineMargin p.fineX.toNat
  let line ← putTile? p.line p.palette (start + 8 * k) lo hi group
  some ({ p with line }, board)

/-- Fetches and draws tile `k`. -/
def fetchTile? (cart : Cartridge) (s : Ppu × Option Board × Fetcher) (k : Nat) :
    Option (Ppu × Option Board × Fetcher) := do
  let (p, board, f) := s
  let (p, board) ← p.paintTile? board cart k (p.read cart f.tile) f.group
  let f ← p.advance? cart f
  some (p, board, f)

/-- Draws the background of the current line. -/
def drawBackground? (p : Ppu) (board : Option Board) (cart : Cartridge) : Option (Ppu × Option Board) :=
  if !p.backgroundOn then some ({ p with line := Memory.filled lineSize p.backdrop }, board)
  else do
    let f ← p.fetcher? cart
    let (p, board, _) ← (List.range 33).foldlM (fetchTile? cart) (p, board, f)
    let p ← (if p.backgroundLeft then some p else inside? lineMargin 8 lineSize (p.fillLeft p.backdrop))
    some (p, board)

/-! ### Sprites, checked -/

/-- Where the row of a sprite's pattern that falls on a line lies. -/
def spriteRowAddress? (p : Ppu) (s : Sprite) (line : Nat) : Option UInt16 := do
  let tall := p.spriteHeight = 16
  let base ← (if tall then addWord? ((s.tile &&& 1).toUInt16 <<< 12) ((s.tile &&& 0xFE).toUInt16 <<< 4)
    else addWord? (s.tile.toUInt16 <<< 4) p.spriteBase)
  let row ← sub? line s.top
  let offset := UInt16.ofNat (if row > 7 then row + 8 else row)
  if s.flipY then
    let last ← addWord? base (if tall then 23 else 7)
    subWord? last offset
  else addWord? base offset

/-- The two bytes of the row of a sprite's pattern that falls on a line. -/
def spriteRow? (p : Ppu) (cart : Cartridge) (s : Sprite) (line : Nat) : Option (UInt8 × UInt8) := do
  let address ← p.spriteRowAddress? s line
  let upper ← addWord? address 8
  some (p.read cart address, p.read cart upper)

/-- Draws pixel `px` of a sprite's row. -/
def drawSpritePixel? (palette : Memory 32) (s : Sprite) (lo hi : UInt8) (line : Memory lineSize) (px : Nat) :
    Option (Memory lineSize) :=
  let colour := s.pixel lo hi px
  if colour = 0 then some line
  else do
    let cell := lineMargin + s.x + px
    let under ← line.read? cell
    let entry ← palette.read? (s.colours + colour.toNat)
    line.write? cell (blend s under entry)

/-- Whether a pixel of a sprite's row and the line under it are solid. -/
def strikes? (line : Memory lineSize) (s : Sprite) (lo hi : UInt8) (px : Nat) : Option Bool :=
  if s.pixel lo hi px = 0 then some false
  else do
    let under ← line.read? (lineMargin + s.x + px)
    some (under &&& backdropMark == 0)

/-- The first column of a sprite's row at which it and the line under it are solid, if there is one. -/
def searchHit? (line : Memory lineSize) (s : Sprite) (lo hi : UInt8) : Option (Option Nat) := do
  let px? ← (List.range 8).findM? (strikes? line s lo hi)
  some (px?.map (s.x + ·))

/-- Draws one sprite on a line and, for sprite 0, records its hit. -/
def drawSprite? (cart : Cartridge) (line clock : Nat) (state : Ppu × Option Board) (index : Nat) :
    Option (Ppu × Option Board) := do
  let (p, board) := state
  let s := p.sprite index
  let (p, board) := p.drawn board cart p.spriteBase s.tile
  let (lo, hi) ← p.spriteRow? cart s line
  let hit ← (if index = 0 && !p.hit then searchHit? p.line s lo hi else some none)
  let cells ← (List.range 8).foldlM (drawSpritePixel? p.palette s lo hi) p.line
  let p := { p with line := cells }
  match hit with
  | some column => some (p.recordHit column clock, board)
  | none => some (p, board)

/-- Draws the sprites of a line over its background. -/
def drawSpritesOf? (p : Ppu) (board : Option Board) (cart : Cartridge) (line clock : Nat) :
    Option (Ppu × Option Board) :=
  if !p.spritesOn then some (p, board)
  else do
    let saved ← inside? lineMargin 8 lineSize p.leftColumns
    let covering := p.spritesOnLine line
    let p := if covering.length > 8 then { p with status := p.status ||| 0x20 } else p
    let (p, board) ← (covering.take 8).foldlM (drawSprite? cart line clock) (p, board)
    let cells ← (if p.spritesLeft then some p.line
      else inside? lineMargin saved.length lineSize (p.line.writeList lineMargin saved))
    some ({ p with line := cells }, board)

/-- Estimates sprite 0's hit on a line that is not drawn. -/
def estimateHit? (p : Ppu) (cart : Cartridge) (line clock : Nat) : Option Ppu :=
  if !p.spritesOn || p.hit then some p
  else
    let s := p.sprite 0
    if !p.covers s line 241 then some p
    else do
      let (lo, hi) ← p.spriteRow? cart s line
      match (List.range 8).find? fun px => s.pixel lo hi px != 0 with
      | some px => some (p.recordHit (s.x + px) clock)
      | none => some p

/-! ### Lines, checked -/

/-- Puts the visible part of the line buffer into the picture, row after row of one memory. -/
def showLine? (p : Ppu) (line : Nat) : Option Ppu := do
  let row ← inside? lineMargin screenWidth lineSize p.visible
  inside? (line * screenWidth) screenWidth (screenWidth * screenHeight)
    { p with frame := p.frame.setIfInBounds line row }

/-- Runs a visible line. -/
def runLine? (p : Ppu) (board : Option Board) (cart : Cartridge) (line : Nat) (draw : Bool) (clock : Nat) :
    Option (Ppu × Option Board) :=
  let p := p.startLine line
  if draw then do
    let (p, board) ← p.drawBackground? board cart
    let (p, board) ← (if p.drawSprites then p.drawSpritesOf? board cart line clock
      else (p.estimateHit? cart line clock).map (·, board))
    let p ← p.showLine? line
    some (p, board)
  else (p.estimateHit? cart line clock).map (·, board)

/-- The start of a line from 0 on. -/
def startScanline? (p : Ppu) (board : Option Board) (cart : Cartridge) (line : Nat) (draw : Bool)
    (clock : Nat) : Option (Ppu × Option Board) :=
  if line < 240 then
    { p with scanline := line, status := p.status &&& 0xDF }.runLine? board cart line draw clock
  else some (p.startScanline board cart line draw clock)

/-- The address one row of pixels further down. -/
def nextRow? (v : UInt16) : Option UInt16 :=
  if v >>> 12 ≠ 7 then addWord? v 0x1000
  else
    let v := v &&& 0x8FFF
    let row := (v >>> 5) &&& 0x1F
    if row = 29 then some ((v &&& 0xFC1F) ^^^ 0x0800)
    else if row = 31 then some (v &&& 0xFC1F)
    else addWord? v 0x20

/-- The end of a line. -/
def finishScanline? (p : Ppu) (line : Nat) : Option Ppu :=
  if line ≥ 240 || !p.enabled then some p
  else do
    let v ← nextRow? p.vramAddress
    some { p with vramAddress := v }

/-! ### Checks that pass -/

end Ppu

theorem addWord?_eq {v w : UInt16} (h : v.toNat + w.toNat < 0x10000) : addWord? v w = some (v + w) := if_pos h

theorem subWord?_eq {v w : UInt16} (h : w.toNat ≤ v.toNat) : subWord? v w = some (v - w) := if_pos h

theorem sub?_eq {a b : Nat} (h : b ≤ a) : sub? a b = some (a - b) := if_pos h

theorem inside?_eq {α : Type} {start count size : Nat} (h : start + count ≤ size) (value : α) :
    inside? start count size value = some value := if_pos h

theorem Memory.read?_eq {n : Nat} (m : Memory n) {address : Nat} (h : address < n) :
    m.read? address = some (m.read address) := if_pos h

theorem Memory.write?_eq {n : Nat} (m : Memory n) {address : Nat} (h : address < n) (value : UInt8) :
    m.write? address value = some (m.write address value) := if_pos h

/-- A step that passes hands its value on. -/
theorem bind_passed {α β : Type} {step : Option α} {value : α} (h : step = some value) (rest : α → Option β) :
    (step >>= rest) = rest value := by
  rw [h]
  rfl

theorem toNat_addWord_le (v w : UInt16) : (v + w).toNat ≤ v.toNat + w.toNat := by
  rw [UInt16.toNat_add]
  exact Nat.mod_le _ _

theorem toNat_mask_le (v mask : UInt16) : (v &&& mask).toNat ≤ mask.toNat := by
  rw [UInt16.toNat_and]
  exact Nat.and_le_right

section
variable {α β : Type}

/-- Checked steps that pass under an invariant add up to the unchecked ones. -/
theorem foldlM_checked {f? : β → α → Option β} {f : β → α → β} {I : β → Prop} (as : List α)
    (step : ∀ a ∈ as, ∀ s, I s → f? s a = some (f s a) ∧ I (f s a)) {s : β} (h : I s) :
    as.foldlM f? s = some (as.foldl f s) := by
  induction as generalizing s with
  | nil => rfl
  | cons a as ih =>
    obtain ⟨hpass, hkept⟩ := step a List.mem_cons_self s h
    rw [List.foldlM_cons, hpass]
    exact ih (fun b hb => step b (List.mem_cons_of_mem a hb)) hkept

/-- The same with an invariant that says how far the steps have come. -/
theorem foldlM_range_checked {f? : β → Nat → Option β} {f : β → Nat → β} {I : Nat → β → Prop} (count : Nat)
    (step : ∀ k < count, ∀ s, I k s → f? s k = some (f s k) ∧ I (k + 1) (f s k)) {s : β} (h : I 0 s) :
    (List.range count).foldlM f? s = some ((List.range count).foldl f s) ∧
      I count ((List.range count).foldl f s) := by
  induction count with
  | zero => exact ⟨rfl, h⟩
  | succ count ih =>
    obtain ⟨hbefore, hkept⟩ := ih fun k hk => step k (Nat.lt_succ_of_lt hk)
    obtain ⟨hpass, hkept⟩ := step count (Nat.lt_succ_self count) _ hkept
    rw [List.range_succ, List.foldlM_append, hbefore, List.foldl_append]
    refine ⟨?_, hkept⟩
    show (List.foldlM f? _ [count]) = _
    rw [List.foldlM_cons, hpass]
    rfl

/-- A search whose questions all have an answer. -/
theorem findM?_checked {f? : α → Option Bool} {f : α → Bool} (as : List α)
    (h : ∀ a ∈ as, f? a = some (f a)) : as.findM? f? = some (as.find? f) := by
  induction as with
  | nil => rfl
  | cons a as ih =>
    rw [List.findM?, h a List.mem_cons_self, List.find?_cons]
    show (match f a with | true => _ | false => _) = _
    cases f a with
    | true => rfl
    | false => exact ih fun b hb => h b (List.mem_cons_of_mem a hb)

end

namespace Ppu

/-! ### The background -/

/-- The fetcher's sums stay within the picture's address space. -/
theorem fetcher?_eq (p : Ppu) (cart : Cartridge) : p.fetcher? cart = some (p.fetcher cart) := by
  have hcells : (p.vramAddress &&& 0x0FE0).toNat ≤ 0x0FE0 := toNat_mask_le _ _
  have hcolumn : (p.vramAddress &&& 0x1F).toNat ≤ 0x1F := toNat_mask_le _ _
  have hinTable : ((((p.vramAddress >>> 5) &&& 0x1F) &&& 0x1C) <<< 1).toNat ≤ 0x38 := toNat_field_le _ _ _
  have hpair : ((((p.vramAddress >>> 5) &&& 0x1F) &&& 2) <<< 1).toNat ≤ 4 := toNat_field_le _ _ _
  simp only [fetcher?, fetcher]
  generalize p.vramAddress &&& 0x0FE0 = cells at hcells ⊢
  generalize p.vramAddress &&& 0x1F = column at hcolumn ⊢
  generalize (((p.vramAddress >>> 5) &&& 0x1F) &&& 0x1C) <<< 1 = inTable at hinTable ⊢
  generalize (((p.vramAddress >>> 5) &&& 0x1F) &&& 2) <<< 1 = pair at hpair ⊢
  have hrow : (0x2000 + cells).toNat ≤ 0x2000 + cells.toNat := toNat_addWord_le _ _
  have htable : ((0x2000 + cells) &&& 0x2C00).toNat ≤ 0x2C00 := toNat_mask_le _ _
  have hattributes : (((0x2000 + cells) &&& 0x2C00) + 0x3C0).toNat ≤ _ + 0x3C0 := toNat_addWord_le _ _
  have hattributeRow := toNat_addWord_le (((0x2000 + cells) &&& 0x2C00) + 0x3C0) inTable
  have hfirst := toNat_addWord_le (((0x2000 + cells) &&& 0x2C00) + 0x3C0 + inTable) (column >>> 2)
  have hquarter : (column >>> 2).toNat ≤ column.toNat := by
    rw [UInt16.toNat_shiftRight, Nat.shiftRight_eq_div_pow]
    exact Nat.div_le_self _ _
  have htwo : (column &&& 2).toNat ≤ 2 := toNat_mask_le _ _
  have h2000 : (0x2000 : UInt16).toNat = 0x2000 := rfl
  have h3C0 : (0x3C0 : UInt16).toNat = 0x3C0 := rfl
  have h1 : (1 : UInt16).toNat = 1 := rfl
  rw [bind_passed (addWord?_eq (by omega)), bind_passed (addWord?_eq (by omega)),
    bind_passed (addWord?_eq (by omega)), bind_passed (addWord?_eq (by omega)),
    bind_passed (addWord?_eq (by omega)), bind_passed (addWord?_eq (by omega)),
    bind_passed (addWord?_eq (by omega))]

/-- So does the next attribute byte's address, in this nametable or the neighbour. -/
theorem readAttribute?_eq (p : Ppu) (cart : Cartridge) {f : Fetcher} (hrow : f.attributeRow.toNat < 0x4000)
    (hnext : f.nextAttributes.toNat < 0x4000) :
    p.readAttribute? cart f.cross = some (p.readAttribute cart f.cross) := by
  have hneighbour : (f.attributeRow ^^^ 0x400).toNat < 2 ^ 14 := by
    rw [UInt16.toNat_xor]
    exact Nat.xor_lt_two_pow hrow (by decide)
  have hcross : f.cross.nextAttributes.toNat < 0x4000 := by
    unfold Fetcher.cross
    split
    · exact hneighbour
    · exact hnext
  have h1 : (1 : UInt16).toNat = 1 := rfl
  rw [readAttribute?, bind_passed (addWord?_eq (by omega))]
  rfl

/-- Where the fetcher is on a line, its words have room for the next tile. -/
theorem advance?_eq {p : Ppu} {cart : Cartridge} {v : UInt16} {k : Nat} {f : Fetcher} (h : f.At p cart v k) :
    p.advance? cart f = some (p.advance cart f) := by
  have htable := tileTable_lt v k
  have hrow := tileRow_lt v
  have hcolumn := h.column
  have htile := toNat_tileAddress v k
  have hattributeRow := h.attributeRow
  have hattributes := toNat_attributeAddress v k
  have hnext : f.nextAttributes.toNat ≤ (attributeAddress v k).toNat + 1 :=
    h.nextAttributes ▸ toNat_addWord_le _ _
  have h1 : (1 : UInt16).toNat = 1 := rfl
  rw [← h.tile] at htile
  have hrow' : f.attributeRow.toNat < 0x4000 := by omega
  have hnext' : f.nextAttributes.toNat < 0x4000 := by omega
  rw [advance?, bind_passed (addWord?_eq (by omega)), bind_passed (addWord?_eq (by omega))]
  simp only [advance]
  split
  · rfl
  · split
    · let g : Fetcher := { f with column := f.column + 1, tile := f.tile + 1 }
      exact bind_passed (p.readAttribute?_eq cart (f := g) hrow' hnext') _
    · rfl

theorem putTile?_eq (line : Memory lineSize) (palette : Memory 32) {x : Nat} (lo hi : UInt8) {group : UInt8}
    (hx : x + 8 ≤ lineSize) (hgroup : group.toNat < 4) :
    putTile? line palette x lo hi group = some (putTile line palette x lo hi group) := by
  refine foldlM_checked (I := fun _ => True) (List.range 8) (fun px hpx l _ => ⟨?_, trivial⟩) trivial
  have hpx := List.mem_range.mp hpx
  have hcolour := patternPixel_lt lo hi hpx
  rw [bind_passed (Memory.read?_eq palette (by omega)), Memory.write?_eq l (by omega),
    toNat_entry hgroup hcolour]

theorem backgroundRowAddress?_eq (p : Ppu) (tile : UInt8) :
    p.backgroundRowAddress? tile = some (p.backgroundRowAddress tile) := by
  have hbase : p.backgroundBase.toNat ≤ 0x1000 := by
    rcases p.backgroundBase_cases with hbase | hbase <;> rw [hbase] <;> decide
  have htile := tile.toNat_lt
  have hpattern : (16 * tile.toUInt16).toNat = 16 * tile.toNat := by
    rw [UInt16.toNat_mul, UInt8.toNat_toUInt16]
    simp
    omega
  have hstart := toNat_addWord_le p.backgroundBase (16 * tile.toUInt16)
  have hfine : ((p.vramAddress >>> 12) &&& 7).toNat ≤ 7 := toNat_mask_le _ _
  rw [backgroundRowAddress?, bind_passed (addWord?_eq (by omega)), addWord?_eq (by omega)]
  rfl

theorem paintTile?_eq {p : Ppu} (hfine : p.fineX ≤ 7) (board : Option Board) (cart : Cartridge) {k : Nat}
    (hk : k < 33) (tile : UInt8) {group : UInt8} (hgroup : group.toNat < 4) :
    p.paintTile? board cart k tile group = some (p.paintTile board cart k tile group) := by
  have hrow := p.toNat_backgroundRowAddress tile
  have hbase : p.backgroundBase.toNat ≤ 0x1000 := by
    rcases p.backgroundBase_cases with hbase | hbase <;> rw [hbase] <;> decide
  have htile := tile.toNat_lt
  have hlow : p.vramAddress.toNat >>> 12 &&& 7 ≤ 7 := Nat.and_le_right
  have h8 : (8 : UInt16).toNat = 8 := rfl
  rw [paintTile?, bind_passed (p.backgroundRowAddress?_eq tile), bind_passed (addWord?_eq (by omega))]
  simp only [paintTile]
  have hstanding := p.standing_drawn board cart p.backgroundBase tile
  generalize p.drawn board cart p.backgroundBase tile = s at hstanding ⊢
  obtain ⟨q, board⟩ := s
  have hfine' : q.fineX.toNat ≤ 7 := (kept_of_standing hstanding).fineX.trans_le hfine
  have hmargin : q.fineX.toNat ≤ lineMargin := Nat.le_succ_of_le hfine'
  have hx : lineMargin - q.fineX.toNat + 8 * k + 8 ≤ lineSize := by
    simp only [lineMargin, lineSize]
    omega
  simp only
  rw [bind_passed (sub?_eq hmargin), bind_passed (putTile?_eq _ _ _ _ hx hgroup)]

/-- A drawn tile leaves the fetcher where it is. -/
theorem at_paintTile {p : Ppu} {cart : Cartridge} {v : UInt16} {k : Nat} {f : Fetcher} (h : f.At p cart v k)
    (board : Option Board) (tile group : UInt8) : f.At (p.paintTile board cart k tile group).1 cart v k := by
  have hattributes := toNat_attributeAddress v k
  have htable := tileTable_lt v k
  have hrow := tileRow_lt v
  have hread : (p.paintTile board cart k tile group).1.read cart (attributeAddress v k) =
      p.read cart (attributeAddress v k) :=
    p.read_paintTile board cart k tile group (by omega) (by omega)
  exact { h with attributes := h.attributes.trans hread.symm }

/-- The picture unit and its fetcher before tile `k`. -/
structure Fetching (cart : Cartridge) (k : Nat) (s : Ppu × Option Board × Fetcher) : Prop where
  fine : s.1.fineX ≤ 7
  fetcher : s.2.2.At s.1 cart s.1.vramAddress k

theorem Fetching.pass {cart : Cartridge} {k : Nat} {s : Ppu × Option Board × Fetcher} (h : Fetching cart k s)
    (hk : k < 33) : fetchTile? cart s k = some (fetchTile cart s k) := by
  obtain ⟨p, board, f⟩ := s
  have hgroup : f.group.toNat < 4 := by
    rw [Fetcher.group, UInt8.toNat_and]
    exact Nat.lt_succ_of_le Nat.and_le_right
  have hat := at_paintTile h.fetcher board (p.read cart f.tile) f.group
  simp only [fetchTile?, fetchTile]
  rw [bind_passed (paintTile?_eq h.fine board cart hk _ hgroup)]
  generalize p.paintTile board cart k (p.read cart f.tile) f.group = t at hat ⊢
  obtain ⟨q, board⟩ := t
  exact bind_passed (advance?_eq hat) _

theorem Fetching.next {cart : Cartridge} {k : Nat} {s : Ppu × Option Board × Fetcher} (h : Fetching cart k s) :
    Fetching cart (k + 1) (fetchTile cart s k) := by
  have hfetched : Fetched cart s.1.vramAddress k s (s.1, s.2.1) := ⟨rfl, rfl, h.fetcher⟩
  have hnext := hfetched.step
  have hpicture : (fetchTile cart s k).1 = (drawTile cart (s.1, s.2.1) k).1 := congrArg Prod.fst hnext.picture
  have hstanding := standing_drawTile cart (s.1, s.2.1) k
  rw [← hpicture] at hstanding
  exact ⟨(kept_of_standing hstanding).fineX.trans_le h.fine, hnext.start.symm ▸ hnext.fetcher⟩

theorem drawBackground?_eq {p : Ppu} (hfine : p.fineX ≤ 7) (board : Option Board) (cart : Cartridge) :
    p.drawBackground? board cart = some (p.drawBackground board cart) := by
  unfold drawBackground? drawBackground
  split
  · rfl
  · have hstart : Fetching cart 0 (p, board, p.fetcher cart) := ⟨hfine, p.fetcher_at cart⟩
    have hstep : ∀ k < 33, ∀ s, Fetching cart k s →
        fetchTile? cart s k = some (fetchTile cart s k) ∧ Fetching cart (k + 1) (fetchTile cart s k) :=
      fun k hk s h => ⟨h.pass hk, h.next⟩
    obtain ⟨htiles, -⟩ := foldlM_range_checked 33 hstep hstart
    rw [bind_passed (p.fetcher?_eq cart), bind_passed htiles]
    generalize (List.range 33).foldl (fetchTile cart) (p, board, p.fetcher cart) = t
    obtain ⟨q, board, f⟩ := t
    simp only
    split
    · rfl
    · exact bind_passed (inside?_eq (by decide) _) _

/-! ### Sprites -/

/-- From the base of a pattern, or back from its last row. -/
theorem rowAddress_checked {base last offset : UInt16} (hbase : base.toNat ≤ 0x2000) (hlast : last.toNat ≤ 23)
    (hoffset : offset.toNat ≤ last.toNat) (flip : Bool) :
    (if flip = true then addWord? base last >>= fun bottom => subWord? bottom offset
      else addWord? base offset) = some (if flip = true then base + last - offset else base + offset) := by
  have hbottom : (base + last).toNat = base.toNat + last.toNat := by
    rw [UInt16.toNat_add]
    omega
  cases flip with
  | true =>
    simp only [if_true]
    rw [bind_passed (addWord?_eq (by omega)), subWord?_eq (by omega)]
  | false =>
    simp only [Bool.false_eq_true, if_false]
    rw [addWord?_eq (by omega)]

theorem toNat_byteField_le (byte mask : UInt8) (shift : UInt16) :
    ((byte &&& mask).toUInt16 <<< shift).toNat ≤ mask.toNat * 2 ^ (shift.toNat % 16) := by
  rw [UInt8.toUInt16_and, ← UInt8.toNat_toUInt16 mask]
  exact toNat_field_le _ _ _

theorem spriteRowAddress?_eq {p : Ppu} {s : Sprite} {line : Nat} (h : p.StandsOn s line) :
    p.spriteRowAddress? s line = some (p.spriteRowAddress s line) := by
  obtain ⟨htop, hbottom⟩ := h
  have htile := s.tile.toNat_lt
  have hoffset : (UInt16.ofNat (if line - s.top > 7 then line - s.top + 8 else line - s.top)).toNat ≤
      if p.spriteHeight = 16 then 23 else 7 := by
    rw [UInt16.toNat_ofNat']
    rcases p.spriteHeight_cases with h8 | h16
    · rw [h8] at hbottom
      rw [if_neg (by omega), if_neg (by omega)]
      omega
    · rw [if_pos h16]
      split_ifs <;> omega
  simp only [spriteRowAddress?, spriteRowAddress]
  rcases p.spriteHeight_cases with h8 | h16
  · have hbase : p.spriteBase.toNat ≤ 0x1000 := by
      rcases p.spriteBase_cases with hbase | hbase <;> rw [hbase] <;> decide
    have hsmall := p.toNat_smallBase s.tile
    have hpattern : (s.tile.toUInt16 <<< 4).toNat ≤ 0xFF0 := by
      rw [UInt16.toNat_shiftLeft, UInt8.toNat_toUInt16]
      simp [Nat.shiftLeft_eq]
      omega
    have hnot : ¬ (8 : Nat) = 16 := by decide
    simp only [h8, hnot, if_false] at hoffset ⊢
    rw [bind_passed (addWord?_eq (by omega)), bind_passed (sub?_eq htop)]
    exact rowAddress_checked (by omega) (by decide) hoffset s.flipY
  · have hbase := toNat_tallBase s.tile
    have htable : ((s.tile &&& 1).toUInt16 <<< 12).toNat ≤ 0x1000 := toNat_byteField_le _ _ _
    have hpattern : ((s.tile &&& 0xFE).toUInt16 <<< 4).toNat ≤ 0xFE0 := toNat_byteField_le _ _ _
    simp only [h16, if_true] at hoffset ⊢
    rw [bind_passed (addWord?_eq (by omega)), bind_passed (sub?_eq htop)]
    exact rowAddress_checked (by omega) (by decide) hoffset s.flipY

theorem spriteRow?_eq {p : Ppu} {s : Sprite} {line : Nat} (cart : Cartridge) (h : p.StandsOn s line) :
    p.spriteRow? cart s line = some (p.spriteRow cart s line) := by
  have hplace := rowPlace_lt (rowOn_lt h)
  have haddress := toNat_spriteRowAddress h
  have hfits := p.patternStart_le s
  have h8 : (8 : UInt16).toNat = 8 := rfl
  rw [spriteRow?, bind_passed (spriteRowAddress?_eq h), bind_passed (addWord?_eq (by omega))]
  rfl

theorem spritePixel_lt (s : Sprite) (lo hi : UInt8) {px : Nat} (hpx : px < 8) :
    (s.pixel lo hi px).toNat < 4 := by
  refine patternPixel_lt lo hi ?_
  split <;> omega

section
variable {s : Sprite} (hs : s.x < 256) (lo hi : UInt8)
include hs

/-- The last cell that a sprite reaches is the last but one of the buffer. -/
theorem spriteCell_lt {px : Nat} (hpx : px < 8) : lineMargin + s.x + px < lineSize := by
  simp only [lineMargin, lineSize]
  omega

theorem drawSpritePixel?_eq (palette : Memory 32) (line : Memory lineSize) {px : Nat} (hpx : px < 8) :
    drawSpritePixel? palette s lo hi line px = some (drawSpritePixel palette s lo hi line px) := by
  have hcell := spriteCell_lt hs hpx
  have hcolour := spritePixel_lt s lo hi hpx
  have hgroup : (s.attributes &&& 3).toNat ≤ 3 := by
    rw [UInt8.toNat_and]
    exact Nat.and_le_right
  have hentry : s.colours + (s.pixel lo hi px).toNat < 32 := by
    rw [Sprite.colours]
    omega
  simp only [drawSpritePixel?, drawSpritePixel]
  split
  · rfl
  · rw [bind_passed (Memory.read?_eq line hcell), bind_passed (Memory.read?_eq palette hentry),
      Memory.write?_eq line hcell]

theorem strikes?_eq (line : Memory lineSize) {px : Nat} (hpx : px < 8) : strikes? line s lo hi px =
    some (s.pixel lo hi px != 0 && line.read (lineMargin + s.x + px) &&& backdropMark == 0) := by
  unfold strikes?
  split
  case isTrue hclear => rw [hclear]; rfl
  case isFalse hsolid =>
    rw [bind_passed (Memory.read?_eq line (spriteCell_lt hs hpx)), bne_iff_ne.mpr hsolid, Bool.true_and]

theorem searchHit?_eq (line : Memory lineSize) :
    searchHit? line s lo hi = some (hitColumn? line s lo hi) := by
  have hsearch : (List.range 8).findM? (strikes? line s lo hi) = some _ :=
    findM?_checked (List.range 8) fun px hpx => strikes?_eq hs lo hi line (List.mem_range.mp hpx)
  rw [searchHit?, bind_passed hsearch, hitColumn?]

end

theorem drawSprite?_eq {p : Ppu} {board : Option Board} {cart : Cartridge} {line index : Nat} (clock : Nat)
    (h : p.StandsOn (p.sprite index) line) :
    drawSprite? cart line clock (p, board) index = some (drawSprite cart line clock (p, board) index) := by
  have hx : (p.sprite index).x < 256 := UInt8.toNat_lt _
  simp only [drawSprite?, drawSprite]
  have hstanding := p.standing_drawn board cart p.spriteBase (p.sprite index).tile
  generalize p.sprite index = s at h hx hstanding ⊢
  generalize p.drawn board cart p.spriteBase s.tile = t at hstanding ⊢
  obtain ⟨q, board⟩ := t
  have hstands : q.StandsOn s line := by
    rw [StandsOn, spriteHeight, (kept_of_standing hstanding).ctrl]
    exact h
  simp only
  rw [bind_passed (spriteRow?_eq cart hstands)]
  generalize q.spriteRow cart s line = row
  obtain ⟨lo, hi⟩ := row
  have hsearch : (if index = 0 && !q.hit then searchHit? q.line s lo hi else some none) =
      some (if index = 0 && !q.hit then hitColumn? q.line s lo hi else none) := by
    split
    · exact searchHit?_eq hx lo hi q.line
    · rfl
  have hcells : (List.range 8).foldlM (drawSpritePixel? q.palette s lo hi) q.line = some _ :=
    foldlM_checked (I := fun _ => True) (List.range 8) (fun px hpx cells _ =>
      ⟨drawSpritePixel?_eq hx lo hi q.palette cells (List.mem_range.mp hpx), trivial⟩) trivial
  simp only
  rw [bind_passed hsearch, bind_passed hcells]
  generalize (if index = 0 && !q.hit then hitColumn? q.line s lo hi else none) = hit
  cases hit <;> rfl

/-- The entries that cover a line still cover it while it is drawn. -/
theorem drawSpritesOf?_eq (p : Ppu) (board : Option Board) (cart : Cartridge) (line clock : Nat) :
    p.drawSpritesOf? board cart line clock = some (p.drawSpritesOf board cart line clock) := by
  unfold drawSpritesOf? drawSpritesOf
  split
  · rfl
  · have hlength : p.leftColumns.length = 8 := by simp [leftColumns]
    rw [bind_passed (inside?_eq (by decide) p.leftColumns)]
    simp only
    generalize hq : (if (p.spritesOnLine line).length > 8 then { p with status := p.status ||| 0x20 }
      else p) = q
    have hflag : q.standing = p.standing := by
      rw [← hq]
      split
      · exact p.standing_overflow
      · rfl
    have hstep : ∀ i ∈ (p.spritesOnLine line).take 8, ∀ s : Ppu × Option Board, s.1.standing = p.standing →
        drawSprite? cart line clock s i = some (drawSprite cart line clock s i) ∧
          (drawSprite cart line clock s i).1.standing = p.standing := by
      intro i hi s hs
      have hkept := kept_of_standing hs
      have hcovers := (List.mem_filter.mp (List.mem_of_mem_take hi)).2
      have hstands : s.1.StandsOn (s.1.sprite i) line := by
        rw [StandsOn, sprite, spriteHeight, hkept.ctrl, hkept.oam]
        exact standsOn_of_covers hcovers
      exact ⟨drawSprite?_eq clock hstands, (standing_drawSprite cart line clock s i).trans hs⟩
    rw [bind_passed (foldlM_checked _ hstep hflag)]
    generalize List.foldl (drawSprite cart line clock) _ _ = t
    obtain ⟨r, board⟩ := t
    simp only
    split
    · rfl
    · exact bind_passed (inside?_eq (by rw [hlength]; decide) _) _

theorem estimateHit?_eq (p : Ppu) (cart : Cartridge) (line clock : Nat) :
    p.estimateHit? cart line clock = some (p.estimateHit cart line clock) := by
  simp only [estimateHit?, estimateHit]
  split
  · rfl
  · split
    · rfl
    case isFalse hcovers =>
      have hstands := standsOn_of_covers (by simpa using hcovers)
      rw [bind_passed (spriteRow?_eq cart hstands)]
      generalize p.spriteRow cart (p.sprite 0) line = row
      obtain ⟨lo, hi⟩ := row
      simp only
      generalize (List.range 8).find? (fun px => (p.sprite 0).pixel lo hi px != 0) = first
      cases first <;> rfl

/-! ### Lines -/

theorem showLine?_eq (p : Ppu) {line : Nat} (hline : line < 240) :
    p.showLine? line = some { p with frame := p.frame.setIfInBounds line p.visible } := by
  rw [showLine?, bind_passed (inside?_eq (by decide) p.visible)]
  refine inside?_eq ?_ _
  simp only [screenWidth, screenHeight]
  omega

theorem runLine?_eq {p : Ppu} (h : p.InRange) (board : Option Board) (cart : Cartridge) {line : Nat}
    (hline : line < 240) (draw : Bool) (clock : Nat) :
    p.runLine? board cart line draw clock = some (p.runLine board cart line draw clock) := by
  simp only [runLine?, runLine]
  have hfine := (h.startLine line).fine
  generalize p.startLine line = q at hfine ⊢
  split
  · rw [bind_passed (drawBackground?_eq hfine board cart)]
    generalize q.drawBackground board cart = t
    obtain ⟨r, board⟩ := t
    have hsprites : (if r.drawSprites then r.drawSpritesOf? board cart line clock
        else (r.estimateHit? cart line clock).map (·, board)) =
        some (if r.drawSprites then r.drawSpritesOf board cart line clock
          else (r.estimateHit cart line clock, board)) := by
      split
      · exact r.drawSpritesOf?_eq board cart line clock
      · rw [estimateHit?_eq]
        rfl
    simp only
    rw [bind_passed hsprites]
    generalize (if r.drawSprites then r.drawSpritesOf board cart line clock
      else (r.estimateHit cart line clock, board)) = t
    obtain ⟨u, board⟩ := t
    exact bind_passed (u.showLine?_eq hline) _
  · rw [estimateHit?_eq]
    rfl

theorem startScanline?_eq {p : Ppu} (h : p.InRange) (board : Option Board) (cart : Cartridge) (line : Nat)
    (draw : Bool) (clock : Nat) :
    p.startScanline? board cart line draw clock = some (p.startScanline board cart line draw clock) := by
  unfold startScanline?
  split
  case isTrue hline =>
    have hbelow : ¬ (line : Int) < 0 := by omega
    have hvisible : (line : Int) < 240 := by omega
    have hcleared : InRange { p with scanline := line, status := p.status &&& 0xDF } :=
      ⟨h.fine, h.address, h.scroll⟩
    rw [runLine?_eq hcleared board cart hline]
    simp only [startScanline, if_neg hbelow, if_pos hvisible, Int.toNat_natCast]
  · rfl

/-- The address below the last row of a cell has room for one row of cells more. -/
theorem nextRow?_eq {v : UInt16} (h : v < 0x8000) : nextRow? v = some (nextRow v) := by
  have hv : v.toNat < 0x8000 := h
  have hkept : (v &&& 0x8FFF).toNat ≤ 0x8FFF := toNat_mask_le _ _
  have h1000 : (0x1000 : UInt16).toNat = 0x1000 := rfl
  have h20 : (0x20 : UInt16).toNat = 0x20 := rfl
  simp only [nextRow?, nextRow]
  split
  · exact addWord?_eq (by omega)
  · split
    · rfl
    · split
      · rfl
      · exact addWord?_eq (by omega)

theorem finishScanline?_eq {p : Ppu} (h : p.InRange) (line : Nat) :
    p.finishScanline? line = some (p.finishScanline line) := by
  have hvisible : decide ((line : Int) ≥ 240) = decide (line ≥ 240) := by
    rw [decide_eq_decide]
    omega
  simp only [finishScanline?, finishScanline, hvisible]
  split
  · rfl
  · rw [bind_passed (nextRow?_eq h.address)]

/-- Whatever is done to a picture unit from power-on, the scroll registers are in range, and no step of a line's
start or end leaves its memory or overflows a word, for any board and cartridge, drawn or not. -/
theorem drawing_in_bounds (operations : List (Nat × Operation)) :
    let p := powerOn.run operations
    p.fineX ≤ 7 ∧ p.vramAddress < 0x8000 ∧ p.scroll < 0x8000 ∧
    ∀ line : Nat,
      (∀ (board : Option Board) (cart : Cartridge) (draw : Bool) (clock : Nat),
        p.startScanline? board cart line draw clock = some (p.startScanline board cart line draw clock)) ∧
      p.finishScanline? line = some (p.finishScanline line) := by
  intro p
  have h : p.InRange := inRange_powerOn.run operations
  refine ⟨h.fine, h.address, h.scroll, fun line => ⟨fun board cart draw clock => ?_, ?_⟩⟩
  · exact startScanline?_eq h board cart line draw clock
  · exact finishScanline?_eq h line

/-- A fine scroll that is wider than the margin would be caught. -/
example : (({ powerOn with fineX := 9 } : Ppu).startScanline? none {} 0 true 0).isNone = true := by
  decide +kernel

end Ppu

end Famicom
