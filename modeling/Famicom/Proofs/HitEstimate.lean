import Famicom.Proofs.VisibleHit

/-!
The hit of sprite 0 on a line that is skipped. With no background to look at, it is estimated from the sprite
alone, as if everything under it were solid:

    drawn      the first column at which sprite 0 and the background are solid
    skipped    the first column at which sprite 0 is solid

The second set of columns holds the first, so its first column lies no further right (`firstSolid_le`) and the
estimate is never late. A line that is skipped leaves everything else as a drawn one does.
-/

namespace Famicom.Ppu

/-! ### The estimate -/

section
variable (p : Ppu) (cart : Cartridge) (line : Nat)

/-- Sprite 0 stands on the line and is solid at a column. -/
def solidAt (x : Nat) : Bool :=
  let s := p.sprite 0
  s.top ≤ line && line < s.top + p.spriteHeight && p.spriteColour cart line x s != 0

/-- The first column at which it is. -/
def firstSolid? : Option Nat := (List.range 263).find? (p.solidAt cart line)

end

section
variable {p : Ppu} {cart : Cartridge} {line : Nat}

theorem solidAt_iff {x : Nat} : p.solidAt cart line x = true ↔
    p.StandsOn (p.sprite 0) line ∧ p.spriteColour cart line x (p.sprite 0) ≠ 0 := by
  simp only [solidAt, StandsOn, Bool.and_eq_true, decide_eq_true_eq, bne_iff_ne]

/-- The estimate looks for the first solid column, and records it as a hit. -/
theorem estimateHit_eq (hon : p.spritesOn = true) (hline : line < 240) (clock : Nat) :
    p.estimateHit cart line clock = p.struck clock (p.firstSolid? cart line) := by
  by_cases hhit : p.hit = true
  · -- what is recorded stays
    have hstays (column? : Option Nat) : p.struck clock column? = p := by
      cases column? with
      | none => exact p.struck_none clock
      | some column => rw [struck_some, recordHit, if_pos hhit]
    rw [hstays, estimateHit, if_pos (by simp [hhit])]
  · rw [estimateHit, if_neg (by simp [hon, hhit])]
    by_cases hs : p.StandsOn (p.sprite 0) line
    · have hcovers : p.covers (p.sprite 0) line 241 = true := by
        obtain ⟨htop, hbottom⟩ := hs
        simp only [covers, Bool.and_eq_true, decide_eq_true_eq]
        omega
      have hrow := find?_row cart hs (UInt8.toNat_lt _) fun _ => true
      have hsolid : p.solidAt cart line = fun x => p.spriteColour cart line x (p.sprite 0) != 0 := by
        obtain ⟨htop, hbottom⟩ := hs
        funext x
        simp only [solidAt, htop, hbottom, decide_true, Bool.true_and]
      simp only [Bool.and_true] at hrow
      simp only [hcovers, firstSolid?, hsolid, ← hrow]
      generalize p.spriteRow cart (p.sprite 0) line = row
      cases (List.range 8).find? fun px => (p.sprite 0).pixel row.1 row.2 px != 0 with
      | none => exact (p.struck_none clock).symm
      | some px => exact (p.struck_some clock _).symm
    · have hcovers : ¬ p.covers (p.sprite 0) line 241 = true := by
        simp only [covers, Bool.and_eq_true, decide_eq_true_eq]
        exact fun h => hs h.1
      have hnone : p.firstSolid? cart line = none := by
        refine List.find?_range_eq_none.mpr fun x _ => ?_
        rw [Bool.not_eq_true', ← Bool.not_eq_true, solidAt_iff]
        exact fun h => hs h.1
      simp only [hcovers, hnone, Bool.not_false, if_true]
      exact (p.struck_none clock).symm

/-- Whatever lies under it, sprite 0 is solid no later than it strikes. -/
theorem firstSolid_le {under : Memory lineSize} {x : Nat} (hx : p.firstStrike? cart line under = some x) :
    ∃ y ≤ x, p.firstSolid? cart line = some y := by
  obtain ⟨hstrike, hfits, -⟩ := firstStrike_iff.mp hx
  obtain ⟨hs, hcolour, -⟩ := strikesAt_iff.mp hstrike
  have hsolid : p.solidAt cart line x = true := solidAt_iff.mpr ⟨hs, hcolour⟩
  cases hfirst : p.firstSolid? cart line with
  | none =>
    have hmiss := List.find?_range_eq_none.mp hfirst x hfits
    rw [hsolid] at hmiss
    exact absurd hmiss (by decide)
  | some y =>
    obtain ⟨-, -, hbefore⟩ := List.find?_range_eq_some.mp hfirst
    refine ⟨y, ?_, rfl⟩
    by_contra hlate
    have hmiss := hbefore x (Nat.lt_of_not_le hlate)
    rw [hsolid] at hmiss
    exact absurd hmiss (by decide)

end

/-! ### Drawn and skipped lines -/

section
variable {p : Ppu} {board : Option Board} (hboard : ∀ b, board = some b → b.number ≠ 9) {cart : Cartridge}
  {line : Nat}

/-- What a skipped line records. -/
theorem hit_skipped (hon : p.spritesOn = true) (hhit : p.hit = false) (hline : line < 240) (clock : Nat) :
    let r := (p.startScanline board cart line false clock).1
    r.hit = (p.firstSolid? cart line).isSome ∧
      r.hitAt = ((p.firstSolid? cart line).map fun x => clock + x / 3).or p.hitAt := by
  intro r
  have hvisible : (line : Int) < 240 := by omega
  have habove : ¬ (line : Int) < 0 := by omega
  have hr : r = (p.opened line).estimateHit cart line clock := by
    simp only [r, startScanline, if_neg habove, if_pos hvisible, Int.toNat_natCast, runLine]
    rfl
  obtain ⟨v, hv⟩ := p.opened_eq line
  have hon' : (p.opened line).spritesOn = true := by
    rw [hv]
    exact hon
  rw [hr, estimateHit_eq hon' hline, hv]
  constructor
  · exact congrArg (· || (p.firstSolid? cart line).isSome) hhit
  · exact if_neg (by rw [hhit]; decide)

/-- Units that differ in what drawing leaves behind show programs the same, the overflow flag apart. -/
theorem seen_of_undrawn {q r : Ppu} (h : r.undrawn = q.undrawn) : r.vramAddress = q.vramAddress ∧
    r.oam = q.oam ∧ r.nametables = q.nametables ∧ r.palette = q.palette ∧ r.pages = q.pages ∧
      r.status &&& 0xDF = q.status &&& 0xDF := by
  simp only [undrawn, Ppu.mk.injEq] at h
  simp only [h, and_self]

include hboard

/-- Without sprites a drawn line records nothing. -/
theorem spritesOn_of_hit (hdraw : p.drawSprites = true) (hhit : p.hit = false) (hline : line < 240)
    {clock : Nat} (hdrawn : (p.startScanline board cart line true clock).1.hit = true) :
    p.spritesOn = true := by
  by_contra hoff
  obtain ⟨v, hv⟩ := p.opened_eq line
  have hoff' : ({ p.opened line with line := p.background cart board line } : Ppu).spritesOn = false := by
    rw [hv]
    exact Bool.eq_false_of_not_eq_true hoff
  have hsame : (p.startScanline board cart line true clock).1.hit = p.hit := by
    rw [p.startScanline_drawn hboard cart hdraw hline clock, drawSpritesOf, hoff', hv]
    rfl
  rw [hsame, hhit] at hdrawn
  exact absurd hdrawn (by decide)

/-- The estimate is never late. If drawing a line records a hit that shows from some cycle on, skipping it
records one that shows from that cycle or an earlier one; and both leave the same address, memories, windows
and flags, the overflow flag apart. -/
theorem estimated_no_later (p : Ppu) (cart : Cartridge) (hdraw : p.drawSprites = true) (hhit : p.hit = false)
    {line : Nat} (hline : line < 240) (clock : Nat) :
    let drawn := (p.startScanline board cart line true clock).1
    let skipped := (p.startScanline board cart line false clock).1
    (drawn.hit = true → ∃ deadline estimate, drawn.hitAt = some deadline ∧ skipped.hit = true ∧
      skipped.hitAt = some estimate ∧ estimate ≤ deadline) ∧
    skipped.vramAddress = drawn.vramAddress ∧ skipped.oam = drawn.oam ∧
    skipped.nametables = drawn.nametables ∧ skipped.palette = drawn.palette ∧
    skipped.pages = drawn.pages ∧ skipped.status &&& 0xDF = drawn.status &&& 0xDF := by
  intro drawn skipped
  constructor
  · intro hdrawn
    have hon := spritesOn_of_hit hboard hdraw hhit hline hdrawn
    obtain ⟨hhits, hat⟩ := @hit_recorded p board hboard cart line hdraw hon hhit hline clock
    obtain ⟨hhits', hat'⟩ := @hit_skipped p board cart line hon hhit hline clock
    obtain ⟨x, hx⟩ := Option.isSome_iff_exists.mp (hhits.symm.trans hdrawn)
    obtain ⟨y, hle, hy⟩ := firstSolid_le hx
    rw [hx, Option.map_some, Option.some_or] at hat
    rw [hy, Option.map_some, Option.some_or] at hat'
    rw [hy] at hhits'
    have hcycles : y / 3 ≤ x / 3 := Nat.div_le_div_right hle
    exact ⟨clock + x / 3, clock + y / 3, hat, hhits', hat', Nat.add_le_add_left hcycles clock⟩
  · obtain ⟨hundrawn, -⟩ := p.undrawn_startScanline hboard cart line true clock
    obtain ⟨hundrawn', -⟩ := p.undrawn_startScanline hboard cart line false clock
    have hsame : skipped.undrawn = drawn.undrawn := hundrawn'.trans hundrawn.symm
    exact seen_of_undrawn hsame

end

/-- Sprite 0 from column 4 on, in front of a background that is blank in the leftmost eight columns. -/
def overhanging : Ppu :=
  { powerOn with
    mask := 0x1C
    pages := (PageTable.blank.mapChr 0x2000 8 0 0).mirror 0 0 1 1
    oam := Memory.ofList 0x100 [9, 0, 0, 4] }

theorem estimated_no_later_overhanging : overhanging.drawSprites = true ∧ overhanging.hit = false ∧
    (overhanging.startScanline none { chr := #[0xFF] } (10 : Nat) true 0).1.hitAt = some 2 ∧
    (overhanging.startScanline none { chr := #[0xFF] } (10 : Nat) false 0).1.hit = true ∧
    ∃ estimate < 2,
      (overhanging.startScanline none { chr := #[0xFF] } (10 : Nat) false 0).1.hitAt = some estimate := by
  have hdraw : overhanging.drawSprites = true := by decide
  have hon : overhanging.spritesOn = true := by decide
  have hhit : overhanging.hit = false := by decide
  have hboard : ∀ b, (none : Option Board) = some b → b.number ≠ 9 := by simp
  have hstands : overhanging.StandsOn (overhanging.sprite 0) 10 := ⟨by decide +kernel, by decide +kernel⟩
  have hcolour : overhanging.spriteColour { chr := #[0xFF] } 10 8 (overhanging.sprite 0) ≠ 0 := by
    decide +kernel
  have htile : (overhanging.opened 10).colourAt { chr := #[0xFF] } 8 ≠ 0 := by decide +kernel
  have hsolid := (overhanging.background_solid_iff { chr := #[0xFF] } hboard marked_powerOn (by decide)
    (by decide : 8 < 256)).mpr ⟨by decide, Or.inl (Nat.le_refl 8), htile⟩
  -- the first strike is where the background begins
  have hstrike : overhanging.firstStrike? { chr := #[0xFF] } 10
      (overhanging.background { chr := #[0xFF] } none 10) = some 8 := by
    refine firstStrike_iff.mpr ⟨strikesAt_iff.mpr ⟨hstands, hcolour, hsolid⟩, by decide, ?_⟩
    intro y hy hearlier
    exact absurd (backgroundLeft_of_strike hboard hy hearlier) (by decide)
  obtain ⟨hhits, hat⟩ := hit_recorded (p := overhanging) hboard hdraw hon hhit (by decide : 10 < 240) 0
  rw [hstrike] at hhits hat
  have hestimate : (overhanging.startScanline none { chr := #[0xFF] } (10 : Nat) false 0).1.hitAt = some 1 := by
    decide +kernel
  obtain ⟨hearly, -⟩ :=
    overhanging.estimated_no_later hboard { chr := #[0xFF] } hdraw hhit (by decide : 10 < 240) 0
  obtain ⟨_, _, _, hskipped, _⟩ := hearly hhits
  exact ⟨hdraw, hhit, hat, hskipped, 1, by decide, hestimate⟩

end Famicom.Ppu
