import Famicom.Proofs.SpriteRule

/-!
A drawn line with its sprites. Drawing the sprites changes three things, each of which has an equation of its
own: the cells (`spriteLine`), the overflow flag, and the hit of sprite 0, which is looked for before anything
else is drawn (`struck`).

    background ─▶ sprite 0 ─▶ up to seven more ─▶ leftmost columns back
                  ╰ hit       ╰ the first solid one shows

So a pixel of the line is the background's or that of the first sprite which is solid there.
-/

namespace Famicom

namespace Ppu

/-! ### The sprites of a line change the line, the hit and the overflow flag -/

section
variable (p : Ppu) {board : Option Board} (hboard : ∀ b, board = some b → b.number ≠ 9) (cart : Cartridge)
  (line clock : Nat)

/-- The column at which sprite 0 hits what the line shows before any sprite. -/
def strikeColumn? : Option Nat :=
  let s := p.sprite 0
  let (lo, hi) := p.spriteRow cart s line
  if p.covers s line 240 then hitColumn? p.line s lo hi else none

/-- A hit at a column, if there is one and none was recorded before. -/
def struck (column? : Option Nat) : Ppu :=
  { p with
    hit := p.hit || column?.isSome
    hitAt := if p.hit then p.hitAt else (column?.map fun column => clock + column / 3).or p.hitAt }

theorem recordHit_line (column : Nat) (cells : Memory lineSize) :
    ({ p with line := cells } : Ppu).recordHit column clock =
      { p.recordHit column clock with line := cells } := by
  unfold recordHit
  split <;> rfl

theorem with_hit {hit : Bool} {hitAt : Option Nat} (h : hit = p.hit) (hat : hitAt = p.hitAt) :
    { p with hit, hitAt } = p := by
  subst h hat
  rfl

theorem struck_none : p.struck clock none = p :=
  p.with_hit (Bool.or_false p.hit) (ite_self p.hitAt)

theorem struck_some (column : Nat) : p.struck clock (some column) = p.recordHit column clock := by
  unfold recordHit struck
  by_cases hhit : p.hit = true
  · rw [if_pos hhit, if_pos hhit]
    exact p.with_hit (by rw [hhit]; rfl) rfl
  · rw [if_neg hhit, if_neg hhit, Bool.eq_false_of_not_eq_true hhit]
    rfl

/-- The entries of a line, with sprite 0 in front if it is one of them. -/
theorem spritesOnLine_cons : ∃ later : List Nat, (∀ i ∈ later, i ≠ 0) ∧
    p.spritesOnLine line = if p.covers (p.sprite 0) line 240 then 0 :: later else later := by
  refine ⟨((List.range 63).map Nat.succ).filter fun i => p.covers (p.sprite i) line 240, ?_, ?_⟩
  · intro i hi
    obtain ⟨j, -, rfl⟩ := List.mem_map.mp (List.mem_filter.mp hi).1
    exact Nat.succ_ne_zero j
  · rw [spritesOnLine, List.range_succ_eq_map, List.filter_cons]

section
include hboard

theorem drawSprite_later {index : Nat} (hindex : index ≠ 0) (cells : Memory lineSize) :
    drawSprite cart line clock ({ p with line := cells }, board) index =
      ({ p with line := p.withSprite cart line cells index }, board) := by
  have hnone (column? : Option Nat) : (if index = 0 && !p.hit then column? else none) = none := by
    rw [decide_eq_false hindex, Bool.false_and, if_neg Bool.false_ne_true]
  simp only [drawSprite, drawn_plain _ hboard, hnone]
  rfl

theorem foldl_drawSprite_later {later : List Nat} (hlater : ∀ i ∈ later, i ≠ 0) (cells : Memory lineSize) :
    later.foldl (drawSprite cart line clock) ({ p with line := cells }, board) =
      ({ p with line := later.foldl (p.withSprite cart line) cells }, board) := by
  induction later generalizing cells with
  | nil => rfl
  | cons i later ih =>
    rw [List.foldl_cons, p.drawSprite_later hboard cart line clock (hlater i List.mem_cons_self),
      ih (fun j hj => hlater j (List.mem_cons_of_mem i hj)), List.foldl_cons]

theorem drawSprite_first (hcovers : p.covers (p.sprite 0) line 240 = true) :
    drawSprite cart line clock (p, board) 0 =
      ({ p.struck clock (p.strikeColumn? cart line) with line := p.withSprite cart line p.line 0 },
        board) := by
  simp only [drawSprite, drawn_plain _ hboard, strikeColumn?, hcovers, if_true]
  generalize hitColumn? p.line (p.sprite 0) (p.spriteRow cart (p.sprite 0) line).1
    (p.spriteRow cart (p.sprite 0) line).2 = column?
  cases column? with
  | none =>
    rw [ite_self, struck_none]
    rfl
  | some column =>
    rw [struck_some]
    by_cases hhit : p.hit = true
    · -- a hit that is recorded stays
      have hsame : p.recordHit column clock = p := if_pos hhit
      rw [if_neg (by simp [hhit]), hsame]
      rfl
    · rw [if_pos (by simp [hhit])]
      exact congrArg (·, board) (p.recordHit_line clock column _)

end

/-- The cells that the first eight sprites of a line leave, clipped on the left or not. -/
def spriteLine : Memory lineSize :=
  let drawn := ((p.spritesOnLine line).take 8).foldl (p.withSprite cart line) p.line
  if p.spritesLeft then drawn else drawn.writeList lineMargin p.leftColumns

include hboard

theorem foldl_drawSprite :
    ((p.spritesOnLine line).take 8).foldl (drawSprite cart line clock) (p, board) =
      ({ p.struck clock (p.strikeColumn? cart line) with
          line := ((p.spritesOnLine line).take 8).foldl (p.withSprite cart line) p.line }, board) := by
  obtain ⟨later, hlater, hentries⟩ := p.spritesOnLine_cons line
  have htake (count : Nat) : ∀ i ∈ later.take count, i ≠ 0 := fun i hi => hlater i (List.mem_of_mem_take hi)
  rw [hentries]
  by_cases hcovers : p.covers (p.sprite 0) line 240 = true
  · rw [if_pos hcovers, List.take_succ_cons, List.foldl_cons, List.foldl_cons,
      p.drawSprite_first hboard _ _ _ hcovers,
      (p.struck clock (p.strikeColumn? cart line)).foldl_drawSprite_later hboard cart line clock (htake 7)]
    rfl
  · have hnone : p.strikeColumn? cart line = none := if_neg hcovers
    rw [if_neg hcovers, hnone, p.struck_none]
    exact p.foldl_drawSprite_later hboard cart line clock (htake 8) p.line

theorem drawSpritesOf_eq (hon : p.spritesOn = true) : p.drawSpritesOf board cart line clock =
    ({ p.struck clock (p.strikeColumn? cart line) with
        status := if (p.spritesOnLine line).length > 8 then p.status ||| 0x20 else p.status
        line := p.spriteLine cart line }, board) := by
  -- the overflow flag comes first, and nothing of what follows looks at it
  let flagged : Ppu :=
    { p with status := if (p.spritesOnLine line).length > 8 then p.status ||| 0x20 else p.status }
  have hflagged : (if (p.spritesOnLine line).length > 8 then { p with status := p.status ||| 0x20 } else p) =
      flagged := by
    simp only [flagged]
    split <;> rfl
  have hfold := flagged.foldl_drawSprite hboard cart line clock
  have hentries : flagged.spritesOnLine line = p.spritesOnLine line := rfl
  have hclip (q : Ppu) (cells : Memory lineSize) :
      (if q.spritesLeft then { q with line := cells }
        else { q with line := cells.writeList lineMargin p.leftColumns }) =
      { q with line := if q.spritesLeft then cells else cells.writeList lineMargin p.leftColumns } := by
    split <;> rfl
  rw [hentries] at hfold
  simp only [drawSpritesOf, hon, hflagged, hfold]
  exact congrArg (·, board) (hclip (flagged.struck clock (flagged.strikeColumn? cart line)) _)

end

/-! ### Composition -/

section
variable {p : Ppu} {cart : Cartridge} {line x : Nat}

theorem spritesOnLine_eq (hline : line < 240) : p.spritesOnLine line = p.entriesOn line := by
  apply List.filter_congr
  intro i _
  rw [covers, ← Bool.decide_and, ← Bool.decide_and, decide_eq_decide]
  omega

theorem standsOn_of_mem {i : Nat} (h : i ∈ p.entriesOn line) : p.StandsOn (p.sprite i) line := by
  have hboth := (List.mem_filter.mp h).2
  rw [decide_eq_true_eq] at hboth
  exact hboth

/-- The priorities come out of the marks. -/
theorem composed_eq (hp : Marked p.palette) (hx : x < 264) (cells : Memory lineSize)
    (h : Untaken (cells.read (lineMargin + x))) :
    (((p.entriesOn line).take 8).foldl (p.withSprite cart line) cells).read (lineMargin + x) =
      p.composed cart line x (cells.read (lineMargin + x)) := by
  rw [read_foldl_untaken hp (fun i hi => standsOn_of_mem (List.mem_of_mem_take hi)) hx cells h, composed,
    topmost?]
  split
  · rfl
  · rw [blend_untaken h]
    rfl

theorem read_clipped (p : Ppu) (cells : Memory lineSize) (hx : x < 256) :
    (cells.writeList lineMargin p.leftColumns).read (lineMargin + x) =
      if x < 8 then p.line.read (lineMargin + x) else cells.read (lineMargin + x) := by
  have hlength : p.leftColumns.length = 8 := by simp [leftColumns]
  have hcell : lineMargin + x < lineSize := column_lt_lineSize (by omega)
  rw [Memory.read_writeList _ _ _ hcell (by rw [hlength]; decide), hlength]
  by_cases hleft : x < 8
  · rw [if_pos (by omega), if_pos hleft, Nat.add_sub_cancel_left, leftColumns, List.getD_eq_getElem?_getD]
    simp [hleft]
  · rw [if_neg (by omega), if_neg hleft]

/-- The sprites of a line over its background. -/
theorem read_spriteLine (hp : Marked p.palette) (hline : line < 240) (hx : x < 256)
    (h : Untaken (p.line.read (lineMargin + x))) :
    (p.spriteLine cart line).read (lineMargin + x) =
      if x < 8 ∧ p.spritesLeft = false then p.line.read (lineMargin + x)
      else p.composed cart line x (p.line.read (lineMargin + x)) := by
  have hdrawn : (((p.entriesOn line).take 8).foldl (p.withSprite cart line) p.line).read (lineMargin + x) =
      p.composed cart line x (p.line.read (lineMargin + x)) := composed_eq hp (by omega) p.line h
  simp only [spriteLine, spritesOnLine_eq hline]
  cases hleft : p.spritesLeft with
  | true => simpa using hdrawn
  | false =>
    rw [if_neg Bool.false_ne_true, read_clipped p _ hx, hdrawn]
    simp

end

/-! ### A drawn line -/

/-- The picture unit that line `line` is drawn by. -/
def opened (p : Ppu) (line : Nat) : Ppu :=
  ({ p with scanline := line, status := p.status &&& 0xDF } : Ppu).startLine line

section
variable (p : Ppu) {board : Option Board} (hboard : ∀ b, board = some b → b.number ≠ 9) (cart : Cartridge)

/-- The cells that the background of a line leaves. -/
def background (board : Option Board) (line : Nat) : Memory lineSize :=
  ((p.opened line).drawBackground board cart).1.line

section
include hboard

theorem drawBackground_only (q : Ppu) : q.drawBackground board cart =
    ({ q with line := (q.drawBackground board cart).1.line }, board) := by
  cases hon : q.backgroundOn with
  | true =>
    rw [q.drawBackground_line hboard cart hon]
    simp only
    split <;> rfl
  | false =>
    rw [drawBackground_eq, hon]
    rfl

/-- A scroll that is wider than the margin starts the tiles at the first cell, as one of eight pixels does. -/
theorem drawBackground_far {q : Ppu} (hon : q.backgroundOn = true) (hfar : 8 ≤ q.fineX.toNat) :
    (q.drawBackground board cart).1.line =
      (({ q with fineX := 8 } : Ppu).drawBackground board cart).1.line := by
  let near : Ppu := { q with fineX := 8 }
  have hstart : lineMargin - q.fineX.toNat = lineMargin - near.fineX.toNat := Nat.sub_eq_zero_of_le hfar
  have htiles : q.withTile cart = near.withTile cart := by
    funext cells k
    simp only [withTile, hstart]
    rfl
  have hcells : near.line = q.line := rfl
  rw [q.drawBackground_line hboard cart hon, near.drawBackground_line hboard cart hon, htiles, hcells]
  generalize (List.range 33).foldl (near.withTile cart) q.line = cells
  have hleft : near.backgroundLeft = q.backgroundLeft := rfl
  simp only [hleft]
  split <;> rfl

omit hboard in
/-- A hidden background is all backdrop. -/
theorem read_drawBackground_off {q : Ppu} (hon : q.backgroundOn = false) (a : Nat) :
    (q.drawBackground board cart).1.line.read a = q.backdrop := by
  rw [drawBackground_eq, hon]
  exact Memory.read_filled (n := lineSize) (by decide) a q.backdrop

/-- Every cell of the screen is drawn, and none by a sprite. -/
theorem untaken_background {q : Ppu} (hp : Marked q.palette) {x : Nat} (hx : x < 256) :
    Untaken ((q.drawBackground board cart).1.line.read (lineMargin + x)) := by
  have hbackdrop : Untaken q.backdrop := by
    have hfirst := untaken_entry hp 0
    rw [Untaken] at hfirst ⊢
    rw [backdrop, or_and_mask, hfirst]
    rfl
  cases hon : q.backgroundOn with
  | false => exact (read_drawBackground_off cart hon (lineMargin + x)).symm ▸ hbackdrop
  | true =>
    rcases Nat.le_total q.fineX.toNat 8 with hnear | hfar
    · rw [q.read_drawBackground hboard cart hon hnear (by omega)]
      rw [if_pos (by omega : q.fineX.toNat + x < 264)]
      split
      · exact hbackdrop
      · exact untaken_entry hp _
    · let near : Ppu := { q with fineX := 8 }
      have hnear : near.fineX.toNat ≤ 8 := Nat.le_refl 8
      rw [drawBackground_far hboard cart hon hfar, near.read_drawBackground hboard cart hon hnear (by omega)]
      rw [if_pos (by omega : near.fineX.toNat + x < 264)]
      split
      · exact hbackdrop
      · exact untaken_entry hp _

/-- A drawn line is its background with its sprites over it. -/
theorem startScanline_drawn (hdraw : p.drawSprites = true) {line : Nat} (hline : line < 240) (clock : Nat) :
    p.startScanline board cart line true clock =
      let s := ({ p.opened line with line := p.background cart board line } : Ppu).drawSpritesOf
        board cart line clock
      ({ s.1 with frame := s.1.frame.setIfInBounds line s.1.visible }, s.2) := by
  have hvisible : (line : Int) < 240 := by omega
  have habove : ¬ (line : Int) < 0 := by omega
  have hopened : ({ p with scanline := line, status := p.status &&& 0xDF } : Ppu).startLine line =
      p.opened line := rfl
  have hdraw' : (p.opened line).drawSprites = true := by
    rw [← hdraw, opened, startLine]
    split_ifs <;> rfl
  have hbackground : (p.opened line).drawBackground board cart =
      ({ p.opened line with line := p.background cart board line }, board) :=
    drawBackground_only hboard cart (p.opened line)
  simp only [startScanline, if_neg habove, if_pos hvisible, Int.toNat_natCast, runLine, hopened, hbackground,
    hdraw', if_true]

omit hboard in
theorem opened_eq (line : Nat) : ∃ v, p.opened line =
    { p with scanline := line, status := p.status &&& 0xDF, vramAddress := v } := by
  unfold opened startLine
  split_ifs
  · exact ⟨_, rfl⟩
  · exact ⟨_, rfl⟩
  · exact ⟨_, rfl⟩

/-- What is left of a drawn line, from what its sprites find. -/
theorem drawn_line (hdraw : p.drawSprites = true) (hon : p.spritesOn = true) {line : Nat} (hline : line < 240)
    (clock : Nat) :
    let found : Ppu := { p.opened line with line := p.background cart board line }
    let r := (p.startScanline board cart line true clock).1
    r.line = found.spriteLine cart line ∧
    r.status = (if 9 ≤ (p.entriesOn line).length then found.status ||| 0x20 else found.status) ∧
    r.hit = (found.struck clock (found.strikeColumn? cart line)).hit ∧
    r.hitAt = (found.struck clock (found.strikeColumn? cart line)).hitAt := by
  intro found r
  have hfound : found.spritesOn = true ∧ found.spritesOnLine line = p.entriesOn line := by
    rw [← spritesOnLine_eq hline, ← hon]
    obtain ⟨v, hv⟩ := p.opened_eq line
    simp only [found, hv]
    exact ⟨rfl, rfl⟩
  have hr : r = _ := congrArg Prod.fst (p.startScanline_drawn hboard cart hdraw hline clock)
  rw [hr, found.drawSpritesOf_eq hboard cart line clock hfound.1, hfound.2]
  exact ⟨rfl, rfl, rfl, rfl⟩

/-- On a drawn line, of the first eight entries that cover it the first one that is solid at a column shows
there, or the background before it; the leftmost eight columns may be kept from the sprites. A ninth entry
sets the overflow flag, and nothing else does. -/
theorem sprites_by_priority (hdraw : p.drawSprites = true) (hon : p.spritesOn = true)
    (hp : Marked p.palette) {line : Nat} (hline : line < 240) (clock : Nat) :
    let under := p.background cart board line
    let r := (p.startScanline board cart line true clock).1
    (∀ x < 256, r.line.read (lineMargin + x) =
      if x < 8 ∧ p.spritesLeft = false then under.read (lineMargin + x)
      else p.composed cart line x (under.read (lineMargin + x))) ∧
    (r.status &&& 0x20 ≠ 0 ↔ 9 ≤ (p.entriesOn line).length) := by
  intro under r
  obtain ⟨v, hv⟩ := p.opened_eq line
  obtain ⟨hcells, hstatus, -, -⟩ := p.drawn_line hboard cart hdraw hon hline clock
  rw [hv] at hcells hstatus
  have hp' : Marked (p.opened line).palette := by
    rw [hv]
    exact hp
  refine ⟨fun x hx => ?_, ?_⟩
  · have huntaken : Untaken (under.read (lineMargin + x)) := untaken_background hboard cart hp' hx
    rw [hcells]
    exact read_spriteLine (p := { p with
      scanline := line, status := p.status &&& 0xDF, vramAddress := v, line := under }) hp hline hx huntaken
  · have hcleared : (p.status &&& 0xDF) &&& 0x20 = 0 := by
      rw [UInt8.and_assoc]
      exact UInt8.and_zero
    rw [hstatus]
    split
    case isTrue hnine =>
      have hset : ((p.status &&& 0xDF) ||| 0x20) &&& 0x20 ≠ 0 := by
        rw [or_and_mask, hcleared]
        decide
      exact iff_of_true hset hnine
    case isFalse hfew => exact iff_of_false (not_not_intro hcleared) hfew

end

end

/-- Two solid sprites on line 10 that share the columns 20 to 23. -/
def crossed : Ppu :=
  { powerOn with
    mask := 0x1E
    pages := (PageTable.blank.mapChr 0x2000 8 0 0).mirror 0 0 1 1
    oam := Memory.ofList 0x100 [9, 0, 1, 20, 9, 0, 2, 16]
    palette := powerOn.palette.write 23 (0x16 &&& colourMask) }

theorem sprites_by_priority_crossed : crossed.drawSprites = true ∧ crossed.spritesOn = true ∧
    Marked crossed.palette ∧ crossed.entriesOn 10 = [0, 1] ∧
    (crossed.startScanline none { chr := #[0xFF] } (10 : Nat) true 0).1.line.read (lineMargin + 20) =
      0x56 := by
  have hdraw : crossed.drawSprites = true := by decide
  have hon : crossed.spritesOn = true := by decide
  have hp : Marked crossed.palette := marked_powerOn.colour 0x16 (by decide)
  have hboard : ∀ b, (none : Option Board) = some b → b.number ≠ 9 := by simp
  have hentries : crossed.entriesOn 10 = [0, 1] := by decide +kernel
  refine ⟨hdraw, hon, hp, hentries, ?_⟩
  obtain ⟨hcells, -⟩ :=
    crossed.sprites_by_priority hboard { chr := #[0xFF] } hdraw hon hp (by decide : 10 < 240) 0
  rw [hcells 20 (by decide), if_neg (by decide)]
  have htop : crossed.topmost? { chr := #[0xFF] } 10 20 = some 0 := by decide +kernel
  simp only [composed, htop]
  decide +kernel

end Ppu

end Famicom
