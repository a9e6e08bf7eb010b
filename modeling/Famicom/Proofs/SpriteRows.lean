import Famicom.Proofs.SpriteRule

/-!
The rows of a sprite's pattern, line by line. The pattern data is one tile, or for a tall sprite an even tile
and the odd one after it; in a tile the eight rows of the lower plane stand before those of the upper one.

    row       0 … 7        8 … 15
    lower    +0 … +7      +16 … +23
    upper    +8 … +15     +24 … +31

Over the lines that the sprite covers the rows are taken from the top down, or flipped from the bottom up, each
of them once.
-/

namespace Famicom

namespace Ppu

/-- Where the pattern data of a sprite begins. -/
def patternStart (p : Ppu) (s : Sprite) : Nat :=
  if p.spriteHeight = 16 then 0x1000 * (s.tile.toNat % 2) + 16 * (s.tile.toNat - s.tile.toNat % 2)
  else p.spriteBase.toNat + 16 * s.tile.toNat

/-- Bytes of the pattern data of a sprite: two planes of every row. -/
def patternSize (p : Ppu) : Nat := 2 * p.spriteHeight

/-- How far into the pattern data the lower plane of a row lies. -/
def rowPlace (row : Nat) : Nat := 16 * (row / 8) + row % 8

/-- The two bytes that a sprite is drawn from on a line. -/
def rowBytes (p : Ppu) (s : Sprite) (line : Nat) : List UInt16 :=
  [p.spriteRowAddress s line, p.spriteRowAddress s line + 8]

variable {p : Ppu} {s : Sprite} {line line' limit : Nat}

/-! ### Places -/

/-- No row shares a byte with another. -/
theorem rowPlace_apart {row row' : Nat} (h : row ≠ row') :
    rowPlace row ≠ rowPlace row' ∧ rowPlace row ≠ rowPlace row' + 8 := by
  unfold rowPlace
  omega

/-- Both planes of a row lie in the data. -/
theorem rowPlace_lt {row : Nat} (h : row < p.spriteHeight) : rowPlace row + 8 < p.patternSize := by
  unfold rowPlace patternSize
  rcases p.spriteHeight_cases with h8 | h16 <;> omega

/-- The data lies in the pattern tables. -/
theorem patternStart_le (p : Ppu) (s : Sprite) : p.patternStart s + p.patternSize ≤ 0x2000 := by
  have htile := s.tile.toNat_lt
  unfold patternStart patternSize
  rcases p.spriteHeight_cases with h8 | h16
  · rw [h8, if_neg (by decide)]
    rcases p.spriteBase_cases with hbase | hbase <;> rw [hbase] <;> simp <;> omega
  · rw [h16, if_pos rfl]
    omega

/-! ### Lines -/

theorem standsOn_of_covers (h : p.covers s line limit = true) : p.StandsOn s line := by
  simp only [covers, Bool.and_eq_true, decide_eq_true_eq] at h
  exact h.1

theorem rowOn_lt (h : p.StandsOn s line) : p.rowOn line s < p.spriteHeight := by
  obtain ⟨htop, hbottom⟩ := h
  unfold rowOn
  split <;> omega

/-- A sprite shows another row on every line. -/
theorem rowOn_inj (h : p.StandsOn s line) (h' : p.StandsOn s line') (hne : line ≠ line') :
    p.rowOn line s ≠ p.rowOn line' s := by
  obtain ⟨htop, hbottom⟩ := h
  obtain ⟨htop', hbottom'⟩ := h'
  unfold rowOn
  split <;> omega

theorem patternOn_eq (h : p.StandsOn s line) :
    p.patternOn line s = p.patternStart s + rowPlace (p.rowOn line s) := by
  have hrow := rowOn_lt h
  simp only [patternOn, patternStart, rowPlace]
  rcases p.spriteHeight_cases with h8 | h16
  · rw [h8] at hrow ⊢
    simp only [show ¬ (8 : Nat) = 16 by decide, if_false]
    omega
  · simp only [h16, if_true]
    omega

/-- The address of a row is its place in the data. -/
theorem toNat_spriteRowAddress (h : p.StandsOn s line) :
    (p.spriteRowAddress s line).toNat = p.patternStart s + rowPlace (p.rowOn line s) := by
  have hfits := p.patternStart_le s
  have hplace := rowPlace_lt (rowOn_lt h)
  rw [p.spriteRowAddress_eq h, patternOn_eq h, UInt16.toNat_ofNat']
  omega

/-- The upper plane follows within the tables. -/
theorem toNat_upperPlane (h : p.StandsOn s line) :
    (p.spriteRowAddress s line + 8).toNat = (p.spriteRowAddress s line).toNat + 8 := by
  have hfits := p.patternStart_le s
  have hplace := rowPlace_lt (rowOn_lt h)
  rw [UInt16.toNat_add, toNat_spriteRowAddress h]
  simp
  omega

/-- Lines that show different rows are drawn from different bytes. -/
theorem rowBytes_disjoint (h : p.StandsOn s line) (h' : p.StandsOn s line') (hne : line ≠ line') :
    ∀ byte ∈ p.rowBytes s line, byte ∉ p.rowBytes s line' := by
  obtain ⟨hlower, hupper⟩ := rowPlace_apart (rowOn_inj h h' hne)
  obtain ⟨-, hupper'⟩ := rowPlace_apart (rowOn_inj h h' hne).symm
  have haddress := toNat_spriteRowAddress h
  have haddress' := toNat_spriteRowAddress h'
  have hplane := toNat_upperPlane h
  have hplane' := toNat_upperPlane h'
  intro byte hbyte hbyte'
  simp only [rowBytes, List.mem_cons, List.not_mem_nil, or_false] at hbyte hbyte'
  rcases hbyte with rfl | rfl <;> rcases hbyte' with heq | heq <;> rw [← UInt16.toNat_inj] at heq <;> omega

/-- A flip is a mirror between the first line and the last. -/
theorem rowOn_flipped {k : Nat} {flipped upright : Sprite} (hflipped : flipped.flipY = true)
    (hupright : upright.flipY = false) (hk : k < p.spriteHeight) :
    p.rowOn (flipped.top + k) flipped = p.rowOn (upright.top + (p.spriteHeight - 1 - k)) upright := by
  simp only [rowOn, hflipped, hupright, if_true, Bool.false_eq_true, if_false]
  omega

/-- On the lines that a sprite covers, both bytes of its row lie in its own pattern data, which lies in the
tables. No two lines share a byte; the row is the next one on every next line, from the top down; and a flip
exchanges line `k` of the sprite with the `k`-th from its end. -/
theorem sprite_rows_in_order (p : Ppu) (s : Sprite) {line limit : Nat} (h : p.covers s line limit = true) :
    (∀ byte ∈ p.rowBytes s line,
      p.patternStart s ≤ byte.toNat ∧ byte.toNat < p.patternStart s + p.patternSize) ∧
    p.patternStart s + p.patternSize ≤ 0x2000 ∧
    (p.spriteRowAddress s line + 8).toNat = (p.spriteRowAddress s line).toNat + 8 ∧
    (∀ line' limit', p.covers s line' limit' = true → line ≠ line' →
      ∀ byte ∈ p.rowBytes s line, byte ∉ p.rowBytes s line') ∧
    (s.flipY = false →
      (p.spriteRowAddress s line).toNat = p.patternStart s + rowPlace (line - s.top)) ∧
    ∀ k < p.spriteHeight, ∀ flipped upright : UInt8, flipped &&& 0x80 ≠ 0 → upright &&& 0x80 = 0 →
      p.spriteRowAddress { s with attributes := flipped } (s.top + k) =
        p.spriteRowAddress { s with attributes := upright } (s.top + (p.spriteHeight - 1 - k)) := by
  have hs := standsOn_of_covers h
  have haddress := toNat_spriteRowAddress hs
  have hplane := toNat_upperPlane hs
  have hplace := rowPlace_lt (rowOn_lt hs)
  refine ⟨?_, p.patternStart_le s, hplane, ?_, ?_, ?_⟩
  · intro byte hbyte
    simp only [rowBytes, List.mem_cons, List.not_mem_nil, or_false] at hbyte
    rcases hbyte with rfl | rfl <;> omega
  · intro line' limit' h' hne
    exact rowBytes_disjoint hs (standsOn_of_covers h') hne
  · intro hupright
    rw [haddress, rowOn, hupright, if_neg Bool.false_ne_true]
  · intro k hk flipped upright hflipped hupright
    let down : Sprite := { s with attributes := flipped }
    let up : Sprite := { s with attributes := upright }
    have hdown : p.StandsOn down (down.top + k) := ⟨by omega, by omega⟩
    have hup : p.StandsOn up (up.top + (p.spriteHeight - 1 - k)) := ⟨by omega, by omega⟩
    have hrow : p.rowOn (down.top + k) down = p.rowOn (up.top + (p.spriteHeight - 1 - k)) up := by
      refine rowOn_flipped ?_ ?_ hk
      · exact bne_iff_ne.mpr hflipped
      · exact bne_eq_false_iff_eq.mpr hupright
    apply UInt16.toNat_inj.mp
    calc (p.spriteRowAddress down (down.top + k)).toNat
        = p.patternStart s + rowPlace (p.rowOn (down.top + k) down) := toNat_spriteRowAddress hdown
      _ = p.patternStart s + rowPlace (p.rowOn (up.top + (p.spriteHeight - 1 - k)) up) := by rw [hrow]
      _ = (p.spriteRowAddress up (up.top + (p.spriteHeight - 1 - k))).toNat :=
        (toNat_spriteRowAddress hup).symm

/-- The picture unit with tall sprites. -/
def tall : Ppu := { powerOn with ctrl := 0x20 }

/-- A flipped sprite of which the bottom edge of the picture leaves three lines. -/
def clipped : Sprite := { top := 237, tile := 0xFF, attributes := 0x80, x := 0 }

theorem sprite_rows_in_order_clipped : tall.covers clipped 239 240 = true ∧
    tall.patternStart clipped = 0x1FE0 ∧ (tall.spriteRowAddress clipped 239 + 8).toNat < 0x2000 ∧
    tall.spriteRowAddress clipped 239 = tall.spriteRowAddress { clipped with attributes := 0 } 250 := by
  have hcovers : tall.covers clipped 239 240 = true := by decide +kernel
  have hheight : tall.spriteHeight = 16 := by decide +kernel
  obtain ⟨hown, hfits, -, -, -, hflip⟩ := tall.sprite_rows_in_order clipped hcovers
  have hupper := (hown (tall.spriteRowAddress clipped 239 + 8) (by simp [rowBytes])).2
  rw [hheight] at hflip
  exact ⟨hcovers, by decide +kernel, by omega, hflip 2 (by decide) 0x80 0 (by decide) (by decide)⟩

end Ppu

end Famicom
