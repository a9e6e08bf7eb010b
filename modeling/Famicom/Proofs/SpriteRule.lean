import Famicom.Proofs.BackgroundPixels
import Famicom.Proofs.Native

/-!
Which sprite shows at a pixel, said in two ways. The rule (`composed`) asks every sprite for its colour at the
column and takes the first in memory that is solid there. The drawing lays one sprite after the other into a
buffer whose two marks carry the priority:

    cell            0 0 cccccc     1 0 cccccc     0 1 cccccc
    holds           background     backdrop       a sprite's choice, which no later one changes

What a sprite finds is either what the background left (`Untaken`) or a cell that is taken (`Taken`), and that
is all the rule needs.
-/

namespace Famicom

namespace Ppu

/-! ### The rule -/

section
variable (p : Ppu) (cart : Cartridge) (line x : Nat)

/-- The entries of sprite memory that cover a line, in order. -/
def entriesOn : List Nat :=
  (List.range 64).filter fun i => (p.sprite i).top ≤ line ∧ line < (p.sprite i).top + p.spriteHeight

/-- The row of the upright sprite that stands on the line. -/
def rowOn (s : Sprite) : Nat :=
  if s.flipY then p.spriteHeight - 1 - (line - s.top) else line - s.top

/-- Where the pattern of that row lies. A tall sprite is an even tile over the odd one that follows, from the
table that the lowest bit of its number names. -/
def patternOn (s : Sprite) : Nat :=
  let row := p.rowOn line s
  if p.spriteHeight = 16 then
    0x1000 * (s.tile.toNat % 2) + 16 * (2 * (s.tile.toNat / 2) + row / 8) + row % 8
  else p.spriteBase.toNat + 16 * s.tile.toNat + row

/-- The colour of a sprite at a column, 0 where it does not reach. -/
def spriteColour (s : Sprite) : Nat :=
  if s.x ≤ x ∧ x < s.x + 8 then
    let column := if s.flipX then 7 - (x - s.x) else x - s.x
    let pattern := p.patternOn line s
    colourBits (p.read cart (.ofNat pattern)) (p.read cart (.ofNat (pattern + 8))) (7 - column)
  else 0

/-- Of the first eight entries that cover the line, the first that is solid at a column. -/
def topmost? : Option Nat :=
  ((p.entriesOn line).take 8).find? fun i => p.spriteColour cart line x (p.sprite i) != 0

/-- What the sprites make of a background pixel. -/
def composed (under : UInt8) : UInt8 :=
  match p.topmost? cart line x with
  | none => under
  | some i =>
    let s := p.sprite i
    if s.behind && under &&& 0x80 == 0 then 0x40 ||| under
    else 0x40 ||| p.palette.read (16 + 4 * (s.attributes &&& 3).toNat + p.spriteColour cart line x s)

end

/-! ### The row of a pattern -/

section
variable (p : Ppu) (cart : Cartridge) {s : Sprite} {line : Nat}

theorem spriteHeight_cases : p.spriteHeight = 8 ∨ p.spriteHeight = 16 := by
  unfold spriteHeight
  split <;> simp

/-- The sprite stands on the line. -/
def StandsOn (s : Sprite) (line : Nat) : Prop := s.top ≤ line ∧ line < s.top + p.spriteHeight

theorem toNat_tallBase (tile : UInt8) :
    (((tile &&& 1).toUInt16 <<< 12) + ((tile &&& 0xFE).toUInt16 <<< 4)).toNat =
      0x1000 * (tile.toNat % 2) + 16 * (2 * (tile.toNat / 2)) := by
  have hodd : (tile &&& 1).toNat = tile.toNat % 2 := Nat.and_two_pow_sub_one_eq_mod _ 1
  have heven : (tile &&& 0xFE).toNat = 2 * (tile.toNat / 2) := by
    rw [UInt8.toNat_and]
    refine (and_field tile.toNat 1 7).trans ?_
    have htile := tile.toNat_lt
    omega
  have htile := tile.toNat_lt
  rw [UInt16.toNat_add, UInt16.toNat_shiftLeft, UInt16.toNat_shiftLeft, UInt8.toNat_toUInt16,
    UInt8.toNat_toUInt16, hodd, heven]
  simp [Nat.shiftLeft_eq]
  omega

theorem toNat_smallBase (tile : UInt8) :
    ((tile.toUInt16 <<< 4) + p.spriteBase).toNat = p.spriteBase.toNat + 16 * tile.toNat := by
  have htile := tile.toNat_lt
  rw [UInt16.toNat_add, UInt16.toNat_shiftLeft, UInt8.toNat_toUInt16]
  rcases p.spriteBase_cases with hbase | hbase <;> rw [hbase] <;> simp [Nat.shiftLeft_eq] <;> omega

/-- The address of the row, as it is put together. -/
theorem spriteRowAddress_eq (hs : p.StandsOn s line) :
    p.spriteRowAddress s line = UInt16.ofNat (p.patternOn line s) := by
  obtain ⟨htop, hbottom⟩ := hs
  have htall := toNat_tallBase s.tile
  have hsmall := p.toNat_smallBase s.tile
  have htile := s.tile.toNat_lt
  have hbase : p.spriteBase.toNat ≤ 0x1000 := by
    rcases p.spriteBase_cases with hbase | hbase <;> rw [hbase] <;> decide
  apply UInt16.toNat_inj.mp
  rw [UInt16.toNat_ofNat']
  simp only [spriteRowAddress, patternOn, rowOn]
  rcases p.spriteHeight_cases with h8 | h16
  · rw [h8] at hbottom ⊢
    have hoffset : (if line - s.top > 7 then line - s.top + 8 else line - s.top) = line - s.top :=
      if_neg (by omega)
    have hlow : (UInt16.ofNat (line - s.top)).toNat = line - s.top := by
      rw [UInt16.toNat_ofNat']
      omega
    have hsmall' : ¬ (8 : Nat) = 16 := by decide
    simp only [hoffset, hsmall', if_false]
    split
    · rw [UInt16.toNat_sub, UInt16.toNat_add, hsmall, hlow]
      simp
      omega
    · rw [UInt16.toNat_add, hsmall, hlow]
  · -- the rows of the second tile lie eight bytes further on
    rw [h16] at hbottom ⊢
    generalize hoffset : (if line - s.top > 7 then line - s.top + 8 else line - s.top) = offset
    have hlow : (UInt16.ofNat offset).toNat = offset ∧
        offset = 16 * ((line - s.top) / 8) + (line - s.top) % 8 := by
      rw [UInt16.toNat_ofNat', ← hoffset]
      split_ifs <;> omega
    simp only [if_true]
    split
    · rw [UInt16.toNat_sub, UInt16.toNat_add, htall, hlow.1, hlow.2]
      simp
      omega
    · rw [UInt16.toNat_add, htall, hlow.1, hlow.2]
      omega

/-- The colour of a sprite is the one it is drawn in. -/
theorem spriteColour_eq (hs : p.StandsOn s line) (x : Nat) :
    p.spriteColour cart line x s =
      if s.x ≤ x ∧ x < s.x + 8 then
        (s.pixel (p.spriteRow cart s line).1 (p.spriteRow cart s line).2 (x - s.x)).toNat
      else 0 := by
  simp only [spriteColour, spriteRow, p.spriteRowAddress_eq hs, UInt16.ofNat_add]
  split
  case isTrue hreach =>
    have hpixel : (if s.flipX then 7 - (x - s.x) else x - s.x) < 8 := by
      split <;> omega
    rw [Sprite.pixel, toNat_patternPixel _ _ hpixel]
    rfl
  case isFalse => rfl

theorem spriteColour_lt (s : Sprite) (line x : Nat) : p.spriteColour cart line x s < 4 := by
  unfold spriteColour
  split
  · exact colourBits_lt _ _ _
  · decide

/-! ### One sprite on the line -/

/-- The line with a sprite drawn over it. -/
def withSprite (line : Nat) (cells : Memory lineSize) (index : Nat) : Memory lineSize :=
  let s := p.sprite index
  let (lo, hi) := p.spriteRow cart s line
  (List.range 8).foldl (drawSpritePixel p.palette s lo hi) cells

/-- The entry of the palette that a solid sprite shows at a column. -/
def spriteEntry (line x : Nat) (s : Sprite) : UInt8 :=
  p.palette.read (16 + 4 * (s.attributes &&& 3).toNat + p.spriteColour cart line x s)

/-- A pixel of a sprite's row changes its own cell. -/
theorem read_drawSpritePixel (palette : Memory 32) (lo hi : UInt8) {px x : Nat} (hleft : s.x < 256)
    (hpx : px < 8) (hx : x < 264) (cells : Memory lineSize) :
    (drawSpritePixel palette s lo hi cells px).read (lineMargin + x) =
      if px + s.x = x ∧ s.pixel lo hi px ≠ 0 then
        blend s (cells.read (lineMargin + x)) (palette.read (s.colours + (s.pixel lo hi px).toNat))
      else cells.read (lineMargin + x) := by
  simp only [drawSpritePixel]
  by_cases hsolid : s.pixel lo hi px = 0
  · rw [if_pos hsolid, if_neg (fun h => h.2 hsolid)]
  · rw [if_neg hsolid]
    by_cases hmine : px + s.x = x
    · have hcell : lineMargin + s.x + px = lineMargin + x := by omega
      rw [if_pos ⟨hmine, hsolid⟩, hcell, Memory.read_write_self _ (by decide)]
    · rw [if_neg (fun h => hmine h.1), Memory.read_write_of_ne]
      simp only [lineMargin, lineSize]
      omega

/-- A sprite changes the cells that it is solid at. -/
theorem read_withSprite {index x : Nat} (hs : p.StandsOn (p.sprite index) line) (hx : x < 264)
    (cells : Memory lineSize) :
    (p.withSprite cart line cells index).read (lineMargin + x) =
      if p.spriteColour cart line x (p.sprite index) = 0 then cells.read (lineMargin + x)
      else
        blend (p.sprite index) (cells.read (lineMargin + x)) (p.spriteEntry cart line x (p.sprite index)) := by
  have hleft : (p.sprite index).x < 256 := UInt8.toNat_lt _
  have hcolour := p.spriteColour_eq cart hs x
  simp only [withSprite, spriteEntry]
  generalize p.sprite index = s at hcolour hleft ⊢
  generalize p.spriteRow cart s line = row at hcolour ⊢
  by_cases hreach : s.x ≤ x ∧ x < s.x + 8
  · -- one pixel of the row falls on the column
    rw [if_pos hreach] at hcolour
    have htouched : ∀ px < 8, ∀ m : Memory lineSize,
        (drawSpritePixel p.palette s row.1 row.2 m px).read (lineMargin + x) =
          if px = x - s.x then
            if p.spriteColour cart line x s = 0 then m.read (lineMargin + x)
            else blend s (m.read (lineMargin + x))
              (p.palette.read (s.colours + p.spriteColour cart line x s))
          else m.read (lineMargin + x) := by
      intro px hpx m
      rw [read_drawSpritePixel p.palette row.1 row.2 hleft hpx hx, hcolour]
      by_cases hmine : px = x - s.x
      · subst hmine
        rw [if_pos rfl]
        by_cases hsolid : s.pixel row.1 row.2 (x - s.x) = 0
        · rw [if_neg (fun h => h.2 hsolid), hsolid, UInt8.toNat_zero, if_pos rfl]
        · have hsolid' : (s.pixel row.1 row.2 (x - s.x)).toNat ≠ 0 := fun h => hsolid (UInt8.toNat_inj.mp h)
          rw [if_pos ⟨Nat.sub_add_cancel hreach.1, hsolid⟩, if_neg hsolid']
      · rw [if_neg (by omega), if_neg hmine]
    rw [Memory.read_foldl_touched (g := fun under => if p.spriteColour cart line x s = 0 then under
      else blend s under (p.palette.read (s.colours + p.spriteColour cart line x s))) htouched,
      if_pos (by omega)]
    rfl
  · rw [if_neg hreach] at hcolour
    have huntouched : ∀ px < 8, ∀ m : Memory lineSize,
        (drawSpritePixel p.palette s row.1 row.2 m px).read (lineMargin + x) =
          if px = 8 then m.read (lineMargin + x) else m.read (lineMargin + x) := by
      intro px hpx m
      rw [read_drawSpritePixel p.palette row.1 row.2 hleft hpx hx, if_neg (by omega), ite_self]
    rw [Memory.read_foldl_touched (g := id) huntouched, if_pos hcolour]
    rfl

end

/-! ### Marks -/

/-- A background pixel: no sprite has drawn it. -/
def Untaken (value : UInt8) : Prop := value &&& 0x40 = 0

/-- A pixel that a sprite has drawn. -/
structure Taken (value : UInt8) : Prop where
  sprite : value &&& 0x40 = 0x40
  solid : value &&& 0x80 = 0

theorem taken_mark {value : UInt8} (h : value &&& 0x80 = 0) : Taken (0x40 ||| value) := by
  have hsprite : ∀ v : BitVec 8, (0x40#8 ||| v) &&& 0x40#8 = 0x40#8 := by decide
  constructor
  · exact UInt8.toBitVec_inj.mp (hsprite value.toBitVec)
  · rw [or_and_mask, h]
    rfl

theorem Taken.mark {value : UInt8} (h : Taken value) : 0x40 ||| value = value := by
  have hset : ∀ v : BitVec 8, v &&& 0x40#8 = 0x40#8 → 0x40#8 ||| v = v := by decide
  exact UInt8.toBitVec_inj.mp (hset value.toBitVec (UInt8.toBitVec_inj.mpr h.sprite))

/-- A sprite leaves a taken cell alone. -/
theorem blend_taken {s : Sprite} {under : UInt8} (h : Taken under) (colour : UInt8) :
    blend s under colour = under := by
  have hmark : under &&& spriteMark = 0x40 := h.sprite
  have hsolid : under &&& backdropMark = 0 := h.solid
  simp only [blend, hmark, hsolid]
  split
  · exact h.mark
  · rfl

/-- On an untaken one it takes the cell: behind a solid background with the background's colour. -/
theorem blend_untaken {s : Sprite} {under : UInt8} (h : Untaken under) (colour : UInt8) :
    blend s under colour =
      if s.behind && under &&& 0x80 == 0 then 0x40 ||| under else 0x40 ||| colour := by
  have hmark : under &&& spriteMark = 0 := h
  simp only [blend, hmark]
  cases s.behind with
  | false => rfl
  | true =>
    by_cases hsolid : under &&& 0x80 = 0
    · simp [hsolid, backdropMark, spriteMark]
    · simp [hsolid, backdropMark, spriteMark]

theorem taken_blend {s : Sprite} {under colour : UInt8} (h : Untaken under) (hcolour : colour &&& 0x80 = 0) :
    Taken (blend s under colour) := by
  rw [blend_untaken h]
  split
  case isTrue hbehind => exact taken_mark (by simpa using (Bool.and_eq_true_iff.mp hbehind).2)
  case isFalse => exact taken_mark hcolour

/-- The palette has no entry that a sprite would have drawn. -/
theorem untaken_entry {palette : Memory 32} (h : Marked palette) (a : Nat) : Untaken (palette.read a) := by
  have hcolour (value : UInt8) : (value &&& colourMask) &&& 0x40 = 0 := by
    rw [UInt8.and_assoc]
    exact UInt8.and_zero
  rw [Untaken, ← Memory.read_mod, h _ (Nat.mod_lt _ (by decide))]
  split
  · rw [or_and_mask, hcolour]
    rfl
  · exact hcolour _

theorem solid_entry {palette : Memory 32} (h : Marked palette) {a : Nat} (ha : a % 4 ≠ 0) :
    palette.read a &&& 0x80 = 0 := by
  rw [← Memory.read_mod, h _ (Nat.mod_lt _ (by decide)), if_neg (by omega), UInt8.and_assoc]
  exact UInt8.and_zero

/-! ### All sprites of the line -/

section
variable {p : Ppu} {cart : Cartridge} {line x : Nat}

theorem solid_spriteEntry (h : Marked p.palette) {s : Sprite} (hs : p.spriteColour cart line x s ≠ 0) :
    p.spriteEntry cart line x s &&& 0x80 = 0 := by
  have hcolour := p.spriteColour_lt cart s line x
  exact solid_entry h (by omega)

/-- No sprite draws over a taken cell. -/
theorem read_foldl_taken {entries : List Nat} (hentries : ∀ i ∈ entries, p.StandsOn (p.sprite i) line)
    (hx : x < 264) (cells : Memory lineSize) (h : Taken (cells.read (lineMargin + x))) :
    (entries.foldl (p.withSprite cart line) cells).read (lineMargin + x) = cells.read (lineMargin + x) := by
  induction entries generalizing cells with
  | nil => rfl
  | cons i rest ih =>
    have hstep : (p.withSprite cart line cells i).read (lineMargin + x) = cells.read (lineMargin + x) := by
      rw [p.read_withSprite cart (hentries i List.mem_cons_self) hx, blend_taken h, ite_self]
    rw [List.foldl_cons, ih (fun j hj => hentries j (List.mem_cons_of_mem i hj)) _ (hstep.symm ▸ h), hstep]

/-- The first sprite that is solid at an untaken cell draws it, and no other. -/
theorem read_foldl_untaken (hp : Marked p.palette) {entries : List Nat}
    (hentries : ∀ i ∈ entries, p.StandsOn (p.sprite i) line) (hx : x < 264) (cells : Memory lineSize)
    (h : Untaken (cells.read (lineMargin + x))) :
    (entries.foldl (p.withSprite cart line) cells).read (lineMargin + x) =
      match entries.find? fun i => p.spriteColour cart line x (p.sprite i) != 0 with
      | none => cells.read (lineMargin + x)
      | some i =>
        blend (p.sprite i) (cells.read (lineMargin + x)) (p.spriteEntry cart line x (p.sprite i)) := by
  induction entries generalizing cells with
  | nil => rfl
  | cons i rest ih =>
    have hrest : ∀ j ∈ rest, p.StandsOn (p.sprite j) line := fun j hj =>
      hentries j (List.mem_cons_of_mem i hj)
    have hstep := p.read_withSprite cart (hentries i List.mem_cons_self) hx cells
    rw [List.foldl_cons, List.find?_cons]
    by_cases hsolid : p.spriteColour cart line x (p.sprite i) = 0
    · rw [if_pos hsolid] at hstep
      rw [ih hrest _ (hstep.symm ▸ h), hstep, hsolid]
      rfl
    · -- the cell is taken, so the rest of the entries does not count
      rw [if_neg hsolid] at hstep
      have htaken := taken_blend (s := p.sprite i) h (solid_spriteEntry hp hsolid)
      rw [read_foldl_taken hrest hx _ (hstep.symm ▸ htaken), hstep, bne_iff_ne.mpr hsolid]

end

end Ppu

end Famicom
