import Famicom.Proofs.Closure

/-!
The way of the address down a frame. A line takes its horizontal half from the scroll register; the vertical
half starts there on line 0 and then moves on by itself, one row of pixels a line:

    row of pixels    0 ─▶ 1 ─▶ … ─▶ 239 ─▶ 0 of the nametable below or above
                                240 ─▶ … ─▶ 255 ─▶ 0 of the same one

A frame of 240 lines comes past row 239 at most once, so where it is on a line has a closed form in the
register and the line's number. The state of the board and the picture drawn so far have no part in it.
-/

namespace Famicom

namespace Ppu

/-! ### The parts of an address -/

/-- The row of pixels within a cell. -/
def fineRow (v : UInt16) : Nat := v.toNat / 0x1000

/-- Whether the nametable is one of the lower two. -/
def lowerTable (v : UInt16) : Nat := v.toNat / 0x800 % 2

/-- Whether the nametable is one of the right two. -/
def rightTable (v : UInt16) : Nat := v.toNat / 0x400 % 2

/-- The row of pixels within the nametable. -/
def pixelRow (v : UInt16) : Nat := 8 * tileRow v + fineRow v

section
variable {v : UInt16}

theorem fineRow_lt (h : v.toNat < 0x8000) : fineRow v < 8 := Nat.div_lt_of_lt_mul h

theorem fineRow_eq (h : v.toNat < 0x8000) : fineRow v = pixelRow v % 8 := by
  have hfine := fineRow_lt h
  unfold pixelRow
  omega

theorem tileRow_eq (h : v.toNat < 0x8000) : tileRow v = pixelRow v / 8 := by
  have hfine := fineRow_lt h
  unfold pixelRow
  omega

theorem lowerTable_lt (v : UInt16) : lowerTable v < 2 := Nat.mod_lt _ (by decide)

/-! ### One row down -/

theorem toNat_highest (v : UInt16) : (v >>> 12).toNat = fineRow v := by
  rw [UInt16.toNat_shiftRight, Nat.shiftRight_eq_div_pow]
  rfl

/-- Within a cell, only the fine row moves. -/
theorem nextRow_within (h : v.toNat < 0x8000) (hfine : fineRow v ≠ 7) :
    (nextRow v).toNat = v.toNat + 0x1000 := by
  have hne : v >>> 12 ≠ 7 := fun heq => hfine ((toNat_highest v).symm.trans (congrArg UInt16.toNat heq))
  unfold fineRow at hfine
  rw [nextRow, if_pos hne, UInt16.toNat_add]
  simp
  omega

/-- From the last row of a cell on, the row of cells moves; past row 29 the nametable is another. -/
theorem nextRow_across (h : v.toNat < 0x8000) (hfine : fineRow v = 7) :
    (nextRow v).toNat =
      if tileRow v = 29 then
        if lowerTable v = 0 then v.toNat - 0x7000 - 29 * 0x20 + 0x800
        else v.toNat - 0x7000 - 29 * 0x20 - 0x800
      else if tileRow v = 31 then v.toNat - 0x7000 - 31 * 0x20
      else v.toNat - 0x7000 + 0x20 := by
  have heq : v >>> 12 = 7 := UInt16.toNat_inj.mp ((toNat_highest v).trans hfine)
  unfold fineRow at hfine
  have hfirst : (v &&& 0x8FFF).toNat = v.toNat - 0x7000 := by
    rw [toNat_and_not v (by rfl : (0x8FFF : UInt16) = ~~~0x7000), toNat_and_field v 12 3 rfl]
    omega
  have hrow : (((v &&& 0x8FFF) >>> 5) &&& 0x1F).toNat = tileRow v := by
    rw [toNat_coarseY, tileRow, tileRow, hfirst]
    omega
  have hcleared : ((v &&& 0x8FFF) &&& 0xFC1F).toNat = v.toNat - 0x7000 - tileRow v * 0x20 := by
    rw [toNat_and_not (v &&& 0x8FFF) (by rfl : (0xFC1F : UInt16) = ~~~0x3E0),
      toNat_and_field (v &&& 0x8FFF) 5 5 rfl, hfirst, tileRow]
    omega
  have hwhen (row : UInt16) : ((v &&& 0x8FFF) >>> 5) &&& 0x1F = row ↔ tileRow v = row.toNat := by
    rw [← UInt16.toNat_inj, hrow]
  have h29 : ((v &&& 0x8FFF) >>> 5) &&& 0x1F = 29 ↔ tileRow v = 29 := hwhen 29
  have h31 : ((v &&& 0x8FFF) >>> 5) &&& 0x1F = 31 ↔ tileRow v = 31 := hwhen 31
  simp only [nextRow, if_neg (not_not_intro heq)]
  by_cases hlast : tileRow v = 29
  · rw [if_pos (h29.mpr hlast), if_pos hlast, toNat_xor_bit _ 11 rfl, hcleared, hlast, lowerTable]
    unfold tileRow at hlast
    split_ifs <;> omega
  · rw [if_neg (mt h29.mp hlast), if_neg hlast]
    by_cases hbelow : tileRow v = 31
    · rw [if_pos (h31.mpr hbelow), if_pos hbelow, hcleared, hbelow]
    · rw [if_neg (mt h31.mp hbelow), if_neg hbelow, UInt16.toNat_add, hfirst]
      simp
      omega

/-- What one row down does to the vertical half of an address. -/
theorem nextRow_vertical (h : v.toNat < 0x8000) :
    (nextRow v).toNat < 0x8000 ∧
    pixelRow (nextRow v) = (if pixelRow v = 239 ∨ pixelRow v = 255 then 0 else pixelRow v + 1) ∧
    lowerTable (nextRow v) = if pixelRow v = 239 then 1 - lowerTable v else lowerTable v := by
  by_cases hfine : fineRow v = 7
  · -- past the last row of the picture, the last row of the memory, or another row of cells
    have hnext := nextRow_across h hfine
    unfold pixelRow fineRow tileRow lowerTable at *
    split_ifs at hnext <;> refine ⟨by omega, ?_, ?_⟩ <;> split_ifs <;> omega
  · have hnext := nextRow_within h hfine
    have hlt := fineRow_lt h
    unfold pixelRow fineRow tileRow lowerTable at *
    rw [hnext, if_neg (by omega), if_neg (by omega)]
    omega

/-! ### The start of a line -/

/-- The address that a line other than the first starts from. -/
theorem toNat_reload (v scroll : UInt16) : ((v &&& 0xFBE0) ||| (scroll &&& 0x041F)).toNat =
    v.toNat - rightTable v * 0x400 - v.toNat % 0x20 + rightTable scroll * 0x400 + scroll.toNat % 0x20 := by
  have hhalf (w : UInt16) : (w &&& 0x041F).toNat = rightTable w * 0x400 + w.toNat % 0x20 := by
    have hmask : w &&& 0x041F = w &&& (0x0400 ||| 0x1F) := rfl
    rw [hmask, toNat_and_or w (by rfl), toNat_and_field w 10 1 rfl, toNat_and_field w 0 5 rfl, rightTable]
    omega
  have hapart : (v &&& 0xFBE0) &&& (scroll &&& 0x041F) = 0 := by
    have hmasks : (0xFBE0 &&& 0x041F : UInt16) = 0 := rfl
    rw [UInt16.and_assoc, UInt16.and_comm scroll, ← UInt16.and_assoc 0xFBE0, hmasks, UInt16.zero_and,
      UInt16.and_zero]
  rw [toNat_or_disjoint hapart, toNat_and_not v (by rfl : (0xFBE0 : UInt16) = ~~~0x041F), hhalf, hhalf,
    Nat.sub_sub, Nat.add_assoc]

/-- The vertical half stays, the horizontal one is the register's. -/
theorem reload_halves (h : v.toNat < 0x8000) (scroll : UInt16) :
    let w := (v &&& 0xFBE0) ||| (scroll &&& 0x041F)
    w.toNat < 0x8000 ∧ pixelRow w = pixelRow v ∧ lowerTable w = lowerTable v ∧
      tileColumn w 0 = tileColumn scroll 0 ∧ rightTable w = rightTable scroll := by
  intro w
  have hw : w.toNat = _ := toNat_reload v scroll
  unfold pixelRow fineRow tileRow lowerTable tileColumn rightTable at *
  omega

end

/-! ### Down the frame -/

/-- Where an address is that has come `n` rows down from the register. -/
structure Down (scroll : UInt16) (n : Nat) (v : UInt16) : Prop where
  lt : v.toNat < 0x8000
  row : pixelRow v = (pixelRow scroll + n) % (if tileRow scroll ≤ 29 then 240 else 256)
  lower : lowerTable v =
    lowerTable scroll ^^^ (if tileRow scroll ≤ 29 ∧ 240 ≤ pixelRow scroll + n then 1 else 0)
  column : tileColumn v 0 = tileColumn scroll 0
  right : rightTable v = rightTable scroll

theorem Down.first {scroll : UInt16} (h : scroll.toNat < 0x8000) : Down scroll 0 scroll := by
  have hfine := fineRow_lt h
  have hrow := tileRow_lt scroll
  have hy : pixelRow scroll = 8 * tileRow scroll + fineRow scroll := rfl
  refine ⟨h, ?_, ?_, rfl, rfl⟩
  · split_ifs <;> omega
  · rw [if_neg (by omega), Nat.xor_zero]

/-- From one line to the next. A frame is too short to come past row 239 a second time, or past it at all
from the rows below. -/
theorem Down.next {scroll v : UInt16} {n : Nat} (h : Down scroll n v) (hscroll : scroll.toNat < 0x8000)
    (hn : n + 1 < 240) : Down scroll (n + 1) ((nextRow v &&& 0xFBE0) ||| (scroll &&& 0x041F)) := by
  have hfine := fineRow_lt hscroll
  have hrow := tileRow_lt scroll
  have hy : pixelRow scroll = 8 * tileRow scroll + fineRow scroll := rfl
  obtain ⟨hlt, hnext, hside⟩ := nextRow_vertical h.lt
  obtain ⟨hlt', hrow', hside', hcolumn', hright'⟩ := reload_halves hlt scroll
  refine ⟨hlt', ?_, ?_, hcolumn', hright'⟩
  · rw [hrow', hnext, h.row]
    split_ifs <;> omega
  · have hbit := lowerTable_lt scroll
    have hflip : ∀ bit < 2, 1 - (bit ^^^ 0) = bit ^^^ 1 := by decide
    rw [hside', hside, h.lower, h.row]
    by_cases hupper : tileRow scroll ≤ 29
    · -- the other nametable comes with the line that leaves row 239, and stays
      simp only [hupper, true_and, if_true]
      by_cases hpast : 240 ≤ pixelRow scroll + n
      · rw [if_neg (by omega), if_pos hpast, if_pos (by omega)]
      · by_cases hlast : pixelRow scroll + n = 239
        · rw [if_pos (by omega), if_neg hpast, if_pos (by omega), hflip _ hbit]
        · rw [if_neg (by omega), if_neg hpast, if_neg (by omega)]
    · simp only [hupper, false_and, if_false]
      rw [if_neg (by omega)]

/-- What drawing a line is given, apart from the picture unit. -/
structure Pass where
  board : Option Board
  cart : Cartridge
  draw : Bool
  clock : Nat

/-- The picture unit with line `n` run but for its end. -/
def passed (p : Ppu) (pass : Pass) (n : Nat) : Ppu :=
  (p.startScanline pass.board pass.cart n pass.draw pass.clock).1

/-- The picture unit before line `n` of a frame in which nobody touches its registers. -/
def descend (p : Ppu) (passes : Nat → Pass) : Nat → Ppu
  | 0 => p
  | n + 1 => ((p.descend passes n).passed (passes n) n).finishScanline n

/-- Drawing takes no line off its course. -/
theorem closed_course (cart : Cartridge) (clock : Nat) :
    ClosedDrawing cart clock fun s t => t.1.course = s.1.course where
  trans h h' := h'.trans h
  paint _ _ _ hcourse := hcourse
  hit p _ column := by
    simp only [recordHit]
    split <;> rfl
  drawn p board tile _ _ := by
    simp only [drawn]
    split
    · rfl
    · split <;> rfl

theorem course_eq {p q : Ppu} :
    q.course = p.course ↔ q.mask = p.mask ∧ q.scroll = p.scroll ∧ q.vramAddress = p.vramAddress := by
  simp only [course, Prod.mk.injEq]

theorem enabled_congr {p q : Ppu} (h : q.mask = p.mask) : q.enabled = p.enabled := by
  simp only [enabled, backgroundOn, spritesOn, h]

theorem course_startLine {p q : Ppu} (h : q.course = p.course) (line : Int) :
    (q.startLine line).course = (p.startLine line).course := by
  obtain ⟨hmask, hscroll, hvram⟩ := course_eq.mp h
  simp only [startLine, enabled_congr hmask]
  split_ifs <;> simp only [course, hmask, hscroll, hvram]

theorem course_passed (p : Ppu) (pass : Pass) {n : Nat} (hn : n < 240) :
    (p.passed pass n).course = (p.startLine n).course := by
  have hvisible : (n : Int) < 240 := by omega
  have hbelow : ¬ (n : Int) < 0 := by omega
  let q : Ppu := { p with scanline := n, status := p.status &&& 0xDF }
  have hrun := (closed_course pass.cart pass.clock).runLine q pass.board n pass.draw
  simp only [passed, startScanline, if_neg hbelow, if_pos hvisible, Int.toNat_natCast]
  exact hrun.trans (course_startLine (p := p) (q := q) rfl n)

theorem startLine_first {p : Ppu} (henabled : p.enabled = true) :
    p.startLine 0 = { p with vramAddress := p.scroll } := by
  rw [startLine, henabled]
  rfl

theorem startLine_later {p : Ppu} (henabled : p.enabled = true) {n : Nat} (hn : 0 < n) :
    p.startLine n = { p with vramAddress := (p.vramAddress &&& 0xFBE0) ||| (p.scroll &&& 0x041F) } := by
  have hlater : ¬ (n : Int) = 0 := by omega
  rw [startLine, henabled, if_neg hlater]
  rfl

theorem startLine_kept (p : Ppu) (line : Int) :
    (p.startLine line).mask = p.mask ∧ (p.startLine line).scroll = p.scroll := by
  simp only [startLine]
  split_ifs <;> exact ⟨rfl, rfl⟩

theorem finishScanline_visible {p : Ppu} (henabled : p.enabled = true) {n : Nat} (hn : n < 240) :
    p.finishScanline n = { p with vramAddress := nextRow p.vramAddress } := by
  have hvisible : ¬ (n : Int) ≥ 240 := by omega
  simp only [finishScanline, henabled, hvisible]
  rfl

/-- The unit `q` is where `p` has come before line `n`. -/
structure Descends (p : Ppu) (n : Nat) (q : Ppu) : Prop where
  mask : q.mask = p.mask
  scroll : q.scroll = p.scroll
  down : Down p.scroll n (q.startLine n).vramAddress

theorem Descends.first {p : Ppu} (henabled : p.enabled = true) (hscroll : p.scroll.toNat < 0x8000) :
    Descends p 0 p where
  mask := rfl
  scroll := rfl
  down := by
    have hstart : p.startLine (0 : Nat) = { p with vramAddress := p.scroll } := startLine_first henabled
    rw [hstart]
    exact Down.first hscroll

theorem Descends.next {p q : Ppu} {n : Nat} (h : Descends p n q) (henabled : p.enabled = true)
    (hscroll : p.scroll.toNat < 0x8000) (hn : n + 1 < 240) (pass : Pass) :
    Descends p (n + 1) ((q.passed pass n).finishScanline n) := by
  obtain ⟨hmask, hscroll', hvram⟩ := course_eq.mp (q.course_passed pass (Nat.lt_of_succ_lt hn))
  obtain ⟨hkept, hkept'⟩ := q.startLine_kept n
  have hmask' : (q.passed pass n).mask = p.mask := hmask.trans (hkept.trans h.mask)
  have hscroll'' : (q.passed pass n).scroll = p.scroll := hscroll'.trans (hkept'.trans h.scroll)
  generalize q.passed pass n = r at hvram hmask' hscroll'' ⊢
  have henabled' : r.enabled = true := (enabled_congr hmask').trans henabled
  rw [finishScanline_visible henabled' (Nat.lt_of_succ_lt hn)]
  refine ⟨hmask', hscroll'', ?_⟩
  rw [startLine_later (p := { r with vramAddress := nextRow r.vramAddress }) henabled' (Nat.succ_pos n)]
  simp only [hvram, hscroll'']
  exact h.down.next hscroll hn

theorem descends {p : Ppu} (henabled : p.enabled = true) (hscroll : p.scroll.toNat < 0x8000)
    (passes : Nat → Pass) {n : Nat} (hn : n < 240) : Descends p n (p.descend passes n) := by
  induction n with
  | zero => exact Descends.first henabled hscroll
  | succ n ih => exact (ih (Nat.lt_of_succ_lt hn)).next henabled hscroll hn (passes n)

/-- The address that line `n` of a frame is drawn from, which drawing leaves alone, is the scroll register's
moved `n` rows of pixels down. -/
theorem scrolls_down {p : Ppu} (henabled : p.enabled = true) (hscroll : p.scroll < 0x8000)
    (passes : Nat → Pass) {n : Nat} (hn : n < 240) :
    let v := ((p.descend passes n).startLine n).vramAddress
    let y := 8 * tileRow p.scroll + fineRow p.scroll
    ((p.descend passes n).passed (passes n) n).vramAddress = v ∧ v < 0x8000 ∧
    (if tileRow p.scroll ≤ 29 then
      fineRow v = (y + n) % 8 ∧ tileRow v = (y + n) % 240 / 8 ∧
        lowerTable v = lowerTable p.scroll ^^^ (if 240 ≤ y + n then 1 else 0)
    else
      fineRow v = (y + n) % 256 % 8 ∧ tileRow v = (y + n) % 256 / 8 ∧ lowerTable v = lowerTable p.scroll) ∧
    tileColumn v 0 = tileColumn p.scroll 0 ∧ rightTable v = rightTable p.scroll := by
  intro v y
  have hscroll' : p.scroll.toNat < 0x8000 := hscroll
  obtain ⟨hlt, hrow, hlower, hcolumn, hright⟩ := (descends henabled hscroll' passes hn).down
  obtain ⟨-, -, hvram⟩ := course_eq.mp ((p.descend passes n).course_passed (passes n) hn)
  have hy : pixelRow p.scroll = y := rfl
  rw [hy] at hrow hlower
  refine ⟨hvram, hlt, ?_, hcolumn, hright⟩
  have hfine : fineRow v = _ := fineRow_eq hlt
  have htile : tileRow v = _ := tileRow_eq hlt
  by_cases hupper : tileRow p.scroll ≤ 29
  · simp only [hupper, true_and, if_true] at hrow hlower ⊢
    rw [hfine, htile, hrow]
    refine ⟨?_, rfl, hlower⟩
    exact Nat.mod_mod_of_dvd _ (by decide)
  · simp only [hupper, false_and, if_false] at hrow hlower ⊢
    rw [hfine, htile, hrow]
    refine ⟨rfl, rfl, ?_⟩
    rw [hlower, Nat.xor_zero]

/-- A frame that starts on the last but one row of the upper left nametable. -/
def lowest : Ppu := { powerOn with scroll := 0x63A5 }

/-- Every line of it drawn, without a board. -/
def drawnPlain : Nat → Pass := fun n => { board := none, cart := {}, draw := true, clock := 114 * n }

theorem scrolls_down_to_last : lowest.enabled = true ∧ lowest.scroll < 0x8000 ∧
    fineRow ((lowest.descend drawnPlain 239).startLine 239).vramAddress = 5 ∧
    tileRow ((lowest.descend drawnPlain 239).startLine 239).vramAddress = 29 ∧
    lowerTable ((lowest.descend drawnPlain 239).startLine 239).vramAddress = 1 := by
  have henabled : lowest.enabled = true := by decide
  have hscroll : lowest.scroll < 0x8000 := by decide
  obtain ⟨-, -, hrows, -, -⟩ := scrolls_down henabled hscroll drawnPlain (by decide : 239 < 240)
  exact ⟨henabled, hscroll, hrows⟩

end Ppu

end Famicom
