import Famicom.Proofs.SpritePixels

/-!
Which hits of sprite 0 are ones that can be seen. The check for a hit reads the line buffer as the background
left it, before the sprites of the leftmost columns are taken back, and the buffer reaches past the screen:

    column      0 … 7              8 … 255        256 … 262
    seen        both layers shown  always         never
    recorded    background shown   always         always

The first column at which both are solid counts (`firstStrike?`). So what is recorded is what can be seen
unless that column lies past the screen, or in the leftmost ones with sprites hidden there.
-/

namespace Famicom

/-- Looking for the first place in a window that holds all of them. -/
theorem find?_range_window {f q : Nat → Bool} {x count n : Nat} (hfit : x + count ≤ n)
    (hf : ∀ i < count, f i = q (x + i)) (hin : ∀ y, q y = true → x ≤ y ∧ y < x + count) :
    ((List.range count).find? f).map (x + ·) = (List.range n).find? q := by
  apply Option.ext
  intro y
  rw [Option.map_eq_some_iff, List.find?_range_eq_some]
  constructor
  · rintro ⟨i, hi, rfl⟩
    obtain ⟨hthere, hmem, hbefore⟩ := List.find?_range_eq_some.mp hi
    have hlt := List.mem_range.mp hmem
    refine ⟨hf i hlt ▸ hthere, List.mem_range.mpr (Nat.lt_of_lt_of_le (Nat.add_lt_add_left hlt x) hfit), ?_⟩
    intro z hz
    cases hq : q z with
    | false => rfl
    | true =>
      obtain ⟨hlo, hhi⟩ := hin z hq
      have hmiss := hbefore (z - x) (Nat.sub_lt_left_of_lt_add hlo hz)
      rwa [hf _ (Nat.sub_lt_left_of_lt_add hlo hhi), Nat.add_sub_cancel' hlo, hq] at hmiss
  · rintro ⟨hq, -, hbefore⟩
    obtain ⟨hlo, hhi⟩ := hin y hq
    have hlt : y - x < count := Nat.sub_lt_left_of_lt_add hlo hhi
    refine ⟨y - x, List.find?_range_eq_some.mpr ⟨?_, List.mem_range.mpr hlt, fun j hj => ?_⟩,
      Nat.add_sub_cancel' hlo⟩
    · rw [hf _ hlt, Nat.add_sub_cancel' hlo, hq]
    · rw [hf _ (Nat.lt_trans hj hlt)]
      exact hbefore (x + j) (Nat.add_lt_of_lt_sub' hj)

namespace Ppu

/-! ### Strikes -/

section
variable (p : Ppu) (cart : Cartridge) (line : Nat) (under : Memory lineSize)

/-- Sprite 0 stands on the line, and it and the background are both solid at a column. -/
def strikesAt (x : Nat) : Bool :=
  let s := p.sprite 0
  s.top ≤ line && line < s.top + p.spriteHeight && p.spriteColour cart line x s != 0 &&
    under.read (lineMargin + x) &&& 0x80 == 0

/-- The first column of the buffer at which they are. -/
def firstStrike? : Option Nat := (List.range 263).find? (p.strikesAt cart line under)

/-- The column is one of the screen, and neither sprites nor the background are hidden there. -/
def inSight (x : Nat) : Bool := x < 256 && (8 ≤ x || p.spritesLeft && p.backgroundLeft)

/-- The first column in sight at which they are. -/
def firstSeen? : Option Nat := (List.range 256).find? fun x => p.inSight x && p.strikesAt cart line under x

end

section
variable {p : Ppu} {cart : Cartridge} {line : Nat}

theorem strikesAt_iff {under : Memory lineSize} {x : Nat} : p.strikesAt cart line under x = true ↔
    p.StandsOn (p.sprite 0) line ∧ p.spriteColour cart line x (p.sprite 0) ≠ 0 ∧
      under.read (lineMargin + x) &&& 0x80 = 0 := by
  simp only [strikesAt, StandsOn, Bool.and_eq_true, decide_eq_true_eq, bne_iff_ne, beq_iff_eq, and_assoc]

variable (cart) in
/-- A sprite's own columns are all that need looking at for one at which it is solid. -/
theorem find?_row {s : Sprite} (hs : p.StandsOn s line) (hleft : s.x < 256) (f : Nat → Bool) :
    ((List.range 8).find? fun px =>
        s.pixel (p.spriteRow cart s line).1 (p.spriteRow cart s line).2 px != 0 && f (s.x + px)).map (s.x + ·) =
      (List.range 263).find? fun x => p.spriteColour cart line x s != 0 && f x := by
  have hcolour := p.spriteColour_eq cart hs
  generalize p.spriteRow cart s line = row at hcolour ⊢
  refine find?_range_window (by omega) (fun px hpx => ?_) (fun x hx => ?_)
  · have hmine := hcolour (s.x + px)
    rw [if_pos (by omega), Nat.add_sub_cancel_left] at hmine
    have hsolid : (s.pixel row.1 row.2 px).toNat ≠ 0 ↔ s.pixel row.1 row.2 px ≠ 0 :=
      not_congr (UInt8.toNat_inj (b := 0))
    rw [Bool.eq_iff_iff, Bool.and_eq_true, Bool.and_eq_true, bne_iff_ne, bne_iff_ne, hmine, hsolid]
  · have hsolid := bne_iff_ne.mp (Bool.and_eq_true_iff.mp hx).1
    rw [hcolour] at hsolid
    by_contra hout
    exact hsolid (if_neg hout)

/-- The check of a drawn line for a hit looks for the first strike. -/
theorem strikeColumn_eq (hline : line < 240) :
    p.strikeColumn? cart line = p.firstStrike? cart line p.line := by
  by_cases hs : p.StandsOn (p.sprite 0) line
  · have hcovers : p.covers (p.sprite 0) line 240 = true := by
      obtain ⟨htop, hbottom⟩ := hs
      simp only [covers, Bool.and_eq_true, decide_eq_true_eq]
      omega
    have hrow := find?_row cart hs (UInt8.toNat_lt _)
      fun x => p.line.read (lineMargin + x) &&& backdropMark == 0
    have hstrikes : p.strikesAt cart line p.line = fun x =>
        p.spriteColour cart line x (p.sprite 0) != 0 && p.line.read (lineMargin + x) &&& backdropMark == 0 := by
      obtain ⟨htop, hbottom⟩ := hs
      funext x
      simp only [strikesAt, htop, hbottom, decide_true, Bool.true_and, backdropMark]
    simp only [strikeColumn?, hcovers, if_true, hitColumn?, firstStrike?, hstrikes, Nat.add_assoc]
    exact hrow
  · have hcovers : ¬ p.covers (p.sprite 0) line 240 = true := by
      simp only [covers, Bool.and_eq_true, decide_eq_true_eq]
      exact fun h => hs h.1
    have hnone : p.strikeColumn? cart line = none := if_neg hcovers
    rw [hnone, firstStrike?, eq_comm, List.find?_range_eq_none]
    intro x _
    rw [Bool.not_eq_true', ← Bool.not_eq_true, strikesAt_iff]
    exact fun h => hs h.1

end

/-! ### What is solid -/

theorem backdropMark_or (value : UInt8) : ¬ (value ||| 0x80) &&& 0x80 = 0 := by
  have hmarked : ∀ v : BitVec 8, ¬ (v ||| 0x80#8) &&& 0x80#8 = 0#8 := by decide
  exact fun h => hmarked value.toBitVec (UInt8.toBitVec_inj.mpr h)

theorem solid_entry_iff {palette : Memory 32} (h : Marked palette) (a : Nat) :
    palette.read a &&& 0x80 = 0 ↔ a % 4 ≠ 0 := by
  refine ⟨fun hsolid hfirst => ?_, solid_entry h⟩
  rw [← Memory.read_mod, h _ (Nat.mod_lt _ (by decide)), if_pos (by omega)] at hsolid
  exact backdropMark_or _ hsolid

section
variable (p : Ppu) (cart : Cartridge)

theorem solid_backgroundPixel_iff (hp : Marked p.palette) (x : Nat) :
    p.backgroundPixel cart x &&& 0x80 = 0 ↔ p.colourAt cart x ≠ 0 := by
  have hcolour : p.colourAt cart x < 4 := colourBits_lt _ _ _
  rw [backgroundPixel, solid_entry_iff hp]
  omega

variable {board : Option Board} (hboard : ∀ b, board = some b → b.number ≠ 9)
include hboard

/-- The background of a line is solid where it is shown and its tile is. -/
theorem background_solid_iff (hp : Marked p.palette) (hfine : p.fineX.toNat ≤ 8) {line x : Nat}
    (hx : x < 256) :
    (p.background cart board line).read (lineMargin + x) &&& 0x80 = 0 ↔
      p.backgroundOn = true ∧ (8 ≤ x ∨ p.backgroundLeft = true) ∧ (p.opened line).colourAt cart x ≠ 0 := by
  obtain ⟨v, hv⟩ := p.opened_eq line
  have hfits : p.fineX.toNat + x < 264 := by omega
  have hreach : (p.opened line).fineX.toNat + x < 264 ∧ (p.opened line).fineX.toNat ≤ 8 ∧
      Marked (p.opened line).palette := by
    rw [hv]
    exact ⟨hfits, hfine, hp⟩
  have hshown : (p.opened line).backgroundOn = p.backgroundOn ∧
      (p.opened line).backgroundLeft = p.backgroundLeft := by
    rw [hv]
    exact ⟨rfl, rfl⟩
  rw [background, ← hshown.1, ← hshown.2]
  generalize p.opened line = q at hreach ⊢
  obtain ⟨hreach, hfine', hp'⟩ := hreach
  cases hon : q.backgroundOn with
  | false =>
    rw [read_drawBackground_off cart hon]
    exact iff_of_false (backdropMark_or _) (fun h => Bool.false_ne_true h.1)
  | true =>
    rw [q.read_drawBackground hboard cart hon hfine' (by omega), if_pos hreach]
    by_cases hblank : x < 8 ∧ q.backgroundLeft = false
    · rw [if_pos hblank]
      refine iff_of_false (backdropMark_or _) ?_
      rintro ⟨-, hright | hleft, -⟩
      · omega
      · exact Bool.false_ne_true (hblank.2.symm.trans hleft)
    · have hshown' : 8 ≤ x ∨ q.backgroundLeft = true := by
        cases hleft : q.backgroundLeft with
        | true => exact Or.inr rfl
        | false => exact Or.inl (Nat.le_of_not_lt fun h => hblank ⟨h, hleft⟩)
      rw [if_neg hblank, q.solid_backgroundPixel_iff cart hp']
      exact ⟨fun h => ⟨rfl, hshown', h⟩, fun h => h.2.2⟩

end

/-! ### What is recorded -/

section
variable {p : Ppu} {board : Option Board} (hboard : ∀ b, board = some b → b.number ≠ 9) {cart : Cartridge}
  {line : Nat}
include hboard

/-- Hidden in the leftmost columns, the background is all backdrop there. -/
theorem read_blanked (p : Ppu) (hleft : p.backgroundLeft = false) {x : Nat} (hx : x < 8) :
    (p.drawBackground board cart).1.line.read (lineMargin + x) = p.backdrop := by
  cases hon : p.backgroundOn with
  | false => exact read_drawBackground_off cart hon (lineMargin + x)
  | true =>
    have hcell : lineMargin + x < lineSize := column_lt_lineSize (by omega)
    rw [p.drawBackground_line hboard cart hon]
    generalize (List.range 33).foldl (p.withTile cart) p.line = cells
    simp only [hleft]
    rw [if_neg Bool.false_ne_true, read_fillLeft _ _ hcell, if_pos (by simp only [lineMargin]; omega)]

/-- There, nothing hits it. -/
theorem backgroundLeft_of_strike {x : Nat} (hx : x < 8)
    (h : p.strikesAt cart line (p.background cart board line) x = true) : p.backgroundLeft = true := by
  by_contra hhidden
  obtain ⟨v, hv⟩ := p.opened_eq line
  have hleft : (p.opened line).backgroundLeft = false := by
    rw [hv]
    exact Bool.eq_false_of_not_eq_true hhidden
  have hsolid := (strikesAt_iff.mp h).2.2
  rw [background, read_blanked hboard _ hleft hx] at hsolid
  exact backdropMark_or _ hsolid

/-- A drawn line records the first strike, if there is one. -/
theorem hit_recorded (hdraw : p.drawSprites = true) (hon : p.spritesOn = true) (hhit : p.hit = false)
    (hline : line < 240) (clock : Nat) :
    let strike? := p.firstStrike? cart line (p.background cart board line)
    let r := (p.startScanline board cart line true clock).1
    r.hit = strike?.isSome ∧ r.hitAt = (strike?.map fun x => clock + x / 3).or p.hitAt := by
  intro strike? r
  obtain ⟨-, -, hhits, hat⟩ := p.drawn_line hboard cart hdraw hon hline clock
  rw [strikeColumn_eq hline] at hhits hat
  obtain ⟨v, hv⟩ := p.opened_eq line
  rw [hv] at hhits hat
  refine ⟨hhits.trans ?_, hat.trans ?_⟩
  · exact congrArg (· || strike?.isSome) hhit
  · exact if_neg (by rw [hhit]; decide)

end

/-! ### What is seen -/

section
variable {p : Ppu} {cart : Cartridge} {line : Nat} {under : Memory lineSize} {x : Nat}

theorem inSight_iff : p.inSight x = true ↔
    x < 256 ∧ (8 ≤ x ∨ p.spritesLeft = true ∧ p.backgroundLeft = true) := by
  simp only [inSight, Bool.and_eq_true, Bool.or_eq_true, decide_eq_true_eq]

theorem firstStrike_iff : p.firstStrike? cart line under = some x ↔
    p.strikesAt cart line under x = true ∧ x < 263 ∧ ∀ y < x, ¬ p.strikesAt cart line under y = true := by
  simp only [firstStrike?, List.find?_range_eq_some, List.mem_range, Bool.not_eq_true', Bool.not_eq_true]

theorem firstSeen_iff : p.firstSeen? cart line under = some x ↔
    (p.inSight x = true ∧ p.strikesAt cart line under x = true) ∧
      ∀ y < x, p.inSight y = true → ¬ p.strikesAt cart line under y = true := by
  have hscreen (h : p.inSight x = true) : x < 256 := (inSight_iff.mp h).1
  simp only [firstSeen?, List.find?_range_eq_some, List.mem_range, Bool.and_eq_true, Bool.not_eq_true',
    ← Bool.not_eq_true, not_and]
  exact ⟨fun h => ⟨h.1, h.2.2⟩, fun h => ⟨h.1, hscreen h.1.1, h.2⟩⟩

/-- What is recorded is what can be seen, to the cycle, unless the first strike is out of sight and the next
in sight falls into another cycle. -/
theorem same_cycle_iff (hleft : ∀ x < 8, p.strikesAt cart line under x = true → p.backgroundLeft = true) :
    (p.firstStrike? cart line under).map (· / 3) = (p.firstSeen? cart line under).map (· / 3) ↔
      ∀ x, p.firstStrike? cart line under = some x →
        x < 256 ∧ (8 ≤ x ∨ p.spritesLeft = true ∨ x / 3 = 2 ∧ p.strikesAt cart line under 8 = true) := by
  constructor
  · intro hsame x hx
    rw [hx, Option.map_some] at hsame
    obtain ⟨seen, hseen, hcycle⟩ := Option.map_eq_some_iff.mp hsame.symm
    obtain ⟨⟨hsight, hstrike⟩, -⟩ := firstSeen_iff.mp hseen
    obtain ⟨hscreen, hshown⟩ := inSight_iff.mp hsight
    have hfirst : x ≤ seen := by
      by_contra hlate
      exact (firstStrike_iff.mp hx).2.2 seen (Nat.lt_of_not_le hlate) hstrike
    refine ⟨Nat.lt_of_le_of_lt hfirst hscreen, ?_⟩
    rcases hshown with hright | ⟨hsprites, -⟩
    · by_cases hcolumn : 8 ≤ x
      · exact Or.inl hcolumn
      · -- the two columns share a cycle across the edge of the hidden part
        obtain ⟨rfl, htwo⟩ : seen = 8 ∧ x / 3 = 2 := by omega
        exact Or.inr (Or.inr ⟨htwo, hstrike⟩)
    · exact Or.inr (Or.inl hsprites)
  · intro hall
    cases hx : p.firstStrike? cart line under with
    | none =>
      have hnone : p.firstSeen? cart line under = none := by
        refine List.find?_range_eq_none.mpr fun y hy => ?_
        have hmiss := List.find?_range_eq_none.mp hx y (Nat.lt_trans hy (by decide))
        rw [Bool.not_eq_true'] at hmiss
        rw [hmiss, Bool.and_false, Bool.not_false]
      rw [hnone]
    | some x =>
      obtain ⟨hstrike, -, hbefore⟩ := firstStrike_iff.mp hx
      obtain ⟨hscreen, hshown⟩ := hall x hx
      by_cases hsight : p.inSight x = true
      · have hseen : p.firstSeen? cart line under = some x :=
          firstSeen_iff.mpr ⟨⟨hsight, hstrike⟩, fun y hy _ => hbefore y hy⟩
        rw [hseen]
      · -- the strike is hidden, so the one at the first column that is not takes its place
        have hright : ¬ 8 ≤ x := fun h => hsight (inSight_iff.mpr ⟨hscreen, Or.inl h⟩)
        have hsprites : ¬ p.spritesLeft = true := fun h =>
          hsight (inSight_iff.mpr ⟨hscreen, Or.inr ⟨h, hleft x (Nat.lt_of_not_le hright) hstrike⟩⟩)
        obtain ⟨hcycle, hedge⟩ := (hshown.resolve_left hright).resolve_left hsprites
        have hseen : p.firstSeen? cart line under = some 8 := by
          refine firstSeen_iff.mpr
            ⟨⟨inSight_iff.mpr ⟨by decide, Or.inl (Nat.le_refl 8)⟩, hedge⟩, fun y hy hsight' => ?_⟩
          rcases (inSight_iff.mp hsight').2 with hlate | ⟨hshown', -⟩
          · exact absurd hy (Nat.not_lt.mpr hlate)
          · exact absurd hshown' hsprites
        rw [hseen, Option.map_some, Option.map_some, hcycle]

end

section
variable (p : Ppu) {board : Option Board} (hboard : ∀ b, board = some b → b.number ≠ 9) (cart : Cartridge)
include hboard

/-- With no hit recorded before, a drawn line records the first column of the buffer at which sprite 0 and the
background are both solid. That is the first such column in sight, to the cycle, unless it lies past the
screen, or in the leftmost columns with sprites hidden there and no other to follow in its cycle. -/
theorem hit_in_sight_iff (hdraw : p.drawSprites = true) (hon : p.spritesOn = true) (hhit : p.hit = false)
    {line : Nat} (hline : line < 240) (clock : Nat) :
    let under := p.background cart board line
    let r := (p.startScanline board cart line true clock).1
    r.hit = (p.firstStrike? cart line under).isSome ∧
    (∀ x, p.firstStrike? cart line under = some x → r.hitAt = some (clock + x / 3)) ∧
    ((r.hit = (p.firstSeen? cart line under).isSome ∧
        ∀ x, p.firstSeen? cart line under = some x → r.hitAt = some (clock + x / 3)) ↔
      ∀ x, p.firstStrike? cart line under = some x →
        x < 256 ∧ (8 ≤ x ∨ p.spritesLeft = true ∨ x / 3 = 2 ∧ p.strikesAt cart line under 8 = true)) := by
  intro under r
  obtain ⟨hhits, hat⟩ : r.hit = (p.firstStrike? cart line under).isSome ∧
      r.hitAt = ((p.firstStrike? cart line under).map fun x => clock + x / 3).or p.hitAt :=
    hit_recorded hboard hdraw hon hhit hline clock
  rw [← same_cycle_iff fun x hx => backgroundLeft_of_strike hboard hx]
  refine ⟨hhits, fun x hx => by rw [hat, hx]; rfl, ?_⟩
  rw [hhits, hat]
  cases p.firstStrike? cart line under with
  | none =>
    cases p.firstSeen? cart line under with
    | none => simp
    | some seen => simp
  | some x =>
    cases p.firstSeen? cart line under with
    | none => simp
    | some seen => simp

end

/-- Sprite 0 in the leftmost columns of line 10, where sprites are hidden, on a solid background. -/
def hidden : Ppu :=
  { powerOn with
    mask := 0x1A
    pages := (PageTable.blank.mapChr 0x2000 8 0 0).mirror 0 0 1 1
    oam := Memory.ofList 0x100 [9, 0, 0, 0] }

theorem hit_in_sight_iff_hidden : hidden.drawSprites = true ∧ hidden.spritesOn = true ∧ hidden.hit = false ∧
    (hidden.startScanline none { chr := #[0xFF] } (10 : Nat) true 0).1.hit = true ∧
    hidden.firstSeen? { chr := #[0xFF] } 10 (hidden.background { chr := #[0xFF] } none 10) = none := by
  have hdraw : hidden.drawSprites = true := by decide
  have hon : hidden.spritesOn = true := by decide
  have hhit : hidden.hit = false := by decide
  have hboard : ∀ b, (none : Option Board) = some b → b.number ≠ 9 := by simp
  have hstands : hidden.StandsOn (hidden.sprite 0) 10 := ⟨by decide +kernel, by decide +kernel⟩
  have hcolour : hidden.spriteColour { chr := #[0xFF] } 10 0 (hidden.sprite 0) ≠ 0 := by decide +kernel
  have htile : (hidden.opened 10).colourAt { chr := #[0xFF] } 0 ≠ 0 := by decide +kernel
  have hsolid := (hidden.background_solid_iff { chr := #[0xFF] } hboard marked_powerOn (by decide)
    (by decide : 0 < 256)).mpr ⟨by decide, Or.inr (by decide), htile⟩
  have hstrike := strikesAt_iff.mpr ⟨hstands, hcolour, hsolid⟩
  have hfirst := firstStrike_iff.mpr ⟨hstrike, by decide, fun y hy => absurd hy (Nat.not_lt_zero y)⟩
  obtain ⟨hhits, -, -⟩ := hidden.hit_in_sight_iff hboard { chr := #[0xFF] } hdraw hon hhit
    (by decide : 10 < 240) 0
  refine ⟨hdraw, hon, hhit, hhits.trans (congrArg Option.isSome hfirst), ?_⟩
  refine List.find?_range_eq_none.mpr fun x _ => ?_
  by_contra hseen
  rw [Bool.not_eq_true', Bool.not_eq_false, Bool.and_eq_true] at hseen
  rcases (inSight_iff.mp hseen.1).2 with hright | ⟨hsprites, -⟩
  · have hleft : (hidden.sprite 0).x = 0 := by decide +kernel
    exact (strikesAt_iff.mp hseen.2).2.1 (if_neg (by omega))
  · exact absurd hsprites (by decide)

end Ppu

end Famicom
