import Famicom.Proofs.Renewal
import Mathlib.Data.List.DropRight

/-!
The tile latches of the MMC2. A pattern window of 4KB has two registers, and shows the bank in the one that
belongs to the tile, FD or FE, that was last drawn from it:

    window    FD       FE
    lower     $B000    $C000
    upper     $D000    $E000

The program writes the registers and the renderer draws the tiles, and neither looks at what the other one did.
A write switches the window only if its register is the one in force, and a tile puts its register in force and
switches the window to whatever has been written there before. So, with nothing but a reset to start it all
over, register and window stay together in all orders (`Mmc2.InForce`), as soon as they have been brought
together once.
-/

namespace Famicom

namespace Mmc2

/-- Something that reaches the board. -/
inductive Use where
  | write (address : UInt16) (value : UInt8)
  | drawn (upper : Bool) (tile : UInt8)
  | reset (kind : Machine.Reset)
  deriving DecidableEq, Repr

/-- Where a pattern window begins. -/
def base (upper : Bool) : UInt16 := if upper then 0x1000 else 0

/-- The block of addresses at which a window's register for a tile is written. -/
def block (upper : Bool) (tile : UInt8) : UInt16 := (if upper then 0xD else 0xB) + (tile - 0xFD).toUInt16

namespace Use

def isReset : Use → Bool
  | .reset _ => true
  | _ => false

/-- The choosing tile drawn from a window. -/
def chosen (upper : Bool) : Use → Option UInt8
  | .drawn side tile => if side = upper ∧ (tile = 0xFD ∨ tile = 0xFE) then some tile else none
  | _ => none

/-- The value written to a block of addresses. -/
def written (block : UInt16) : Use → Option UInt8
  | .write address value => if address >>> 12 = block then some value else none
  | _ => none

end Use

/-- What happened since the last reset. -/
def sinceReset (uses : List Use) : List Use := uses.rtakeWhile (!·.isReset)

/-- The choosing tile that was last drawn from a window, FE without one. -/
def lastTile (upper : Bool) (uses : List Use) : UInt8 :=
  ((sinceReset uses).filterMap (·.chosen upper)).getLast?.getD 0xFE

/-- The value that was last written to a block of addresses. -/
def lastWritten (block : UInt16) (uses : List Use) : Option UInt8 :=
  ((sinceReset uses).filterMap (·.written block)).getLast?

section
variable (uses : List Use) (u : Use)

theorem sinceReset_concat : sinceReset (uses ++ [u]) = if u.isReset then [] else sinceReset uses ++ [u] := by
  rw [sinceReset, List.rtakeWhile_concat]
  cases u.isReset <;> rfl

/-- The last of the results of a search, one element later. -/
theorem getLast?_filterMap_concat {α : Type} (f : Use → Option α) :
    ((uses ++ [u]).filterMap f).getLast? = (f u).or (uses.filterMap f).getLast? := by
  rw [List.filterMap_append, List.getLast?_append]
  cases h : f u <;> simp [h]

theorem lastTile_concat (upper : Bool) : lastTile upper (uses ++ [u]) =
    if u.isReset then 0xFE else (u.chosen upper).getD (lastTile upper uses) := by
  rw [lastTile, sinceReset_concat]
  split
  · rfl
  · rw [getLast?_filterMap_concat, lastTile]
    cases u.chosen upper <;> rfl

theorem lastWritten_concat (block : UInt16) : lastWritten block (uses ++ [u]) =
    if u.isReset then none else (u.written block).or (lastWritten block uses) := by
  rw [lastWritten, sinceReset_concat]
  split
  · rfl
  · rw [getLast?_filterMap_concat, lastWritten]

theorem lastWritten_write (block address : UInt16) (value : UInt8) :
    lastWritten block (uses ++ [.write address value]) =
      if address >>> 12 = block then some value else lastWritten block uses := by
  simp only [lastWritten_concat, Use.isReset, Use.written, Bool.false_eq_true, if_false]
  split_ifs <;> rfl

theorem lastTile_drawn (upper which : Bool) (tile : UInt8) : lastTile upper (uses ++ [.drawn which tile]) =
    if which = upper ∧ (tile = 0xFD ∨ tile = 0xFE) then tile else lastTile upper uses := by
  simp only [lastTile_concat, Use.isReset, Use.chosen, Bool.false_eq_true, if_false]
  split_ifs <;> rfl

theorem lastTile_cases (upper : Bool) : lastTile upper uses = 0xFD ∨ lastTile upper uses = 0xFE := by
  induction uses using List.reverseRecOn with
  | nil => exact Or.inr rfl
  | append_singleton uses u ih =>
    rw [lastTile_concat]
    split_ifs
    · exact Or.inr rfl
    · cases hchosen : u.chosen upper with
      | none => exact ih
      | some tile =>
        cases u with
        | drawn side tile' =>
          simp only [Use.chosen] at hchosen
          split_ifs at hchosen with hdrawn
          obtain rfl := Option.some.inj hchosen
          exact hdrawn.2
        | _ => exact absurd hchosen.symm (Option.some_ne_none tile)

end

/-! ### The board -/

/-- The part of the registers that belongs to one window. -/
structure Side where
  latch : UInt8
  fd : UInt8
  fe : UInt8
  deriving DecidableEq, Repr

/-- The register for a tile. -/
def Side.register (d : Side) (tile : UInt8) : UInt8 := if tile = 0xFD then d.fd else d.fe

def side (s : Mmc2) (upper : Bool) : Side :=
  if upper then ⟨s.latchHigh, s.highFd, s.highFe⟩ else ⟨s.latchLow, s.lowFd, s.lowFe⟩

/-- The register for a tile written. -/
def Side.store (d : Side) (tile value : UInt8) : Side :=
  if tile = 0xFD then { d with fd := value } else { d with fe := value }

/-- The register that the latch puts in force. -/
def Side.inForce (d : Side) : UInt8 := d.register d.latch

theorem Side.latch_store (d : Side) (tile value : UInt8) : (d.store tile value).latch = d.latch := by
  unfold Side.store
  split <;> rfl

theorem Side.register_store (d : Side) {tile tile' : UInt8} (htile : tile = 0xFD ∨ tile = 0xFE)
    (htile' : tile' = 0xFD ∨ tile' = 0xFE) (value : UInt8) :
    (d.store tile value).register tile' = if tile = tile' then value else d.register tile' := by
  rcases htile with rfl | rfl <;> rcases htile' with rfl | rfl <;> rfl

theorem Side.inForce_store (d : Side) {tile : UInt8} (htile : tile = 0xFD ∨ tile = 0xFE)
    (hlatch : d.latch = 0xFD ∨ d.latch = 0xFE) (value : UInt8) :
    (d.store tile value).inForce = if d.latch = tile then value else d.inForce := by
  rw [inForce, latch_store, register_store d htile hlatch, inForce]
  simp only [eq_comm]

theorem block_inj {tile tile' : UInt8} (htile : tile = 0xFD ∨ tile = 0xFE) (htile' : tile' = 0xFD ∨ tile' = 0xFE)
    {which upper : Bool} : block which tile = block upper tile' ↔ which = upper ∧ tile = tile' := by
  rcases htile with rfl | rfl <;> rcases htile' with rfl | rfl <;> revert which upper <;> decide

/-- All registers lie where the board listens. -/
theorem le_of_block {address : UInt16} {upper : Bool} {tile : UInt8} (htile : tile = 0xFD ∨ tile = 0xFE)
    (h : address >>> 12 = block upper tile) : 0xA000 ≤ address := by
  have hblock : address.toNat / 2 ^ 12 = (block upper tile).toNat := by
    rw [← h, UInt16.toNat_shiftRight]
    exact (Nat.shiftRight_eq_div_pow _ _).symm
  have hlow : 0xB ≤ (block upper tile).toNat := by
    rcases htile with rfl | rfl <;> cases upper <;> decide
  rw [UInt16.le_iff_toNat_le]
  simp only [UInt16.reduceToNat]
  omega

section
variable (s : Mmc2) {address : UInt16} (value : UInt8) {tile : UInt8}

/-- What the four ports have in common. -/
theorem write_register (htile : tile = 0xFD ∨ tile = 0xFE) {which : Bool} (h : address >>> 12 = block which tile) :
    (∀ upper, (s.write address value).1.side upper =
      if upper = which then (s.side upper).store tile value else s.side upper) ∧
    (s.write address value).2 =
      if (s.side which).latch = tile then [.chr 4 (base which) (bank value)] else [] := by
  simp only [write, h]
  rcases htile with rfl | rfl <;> cases which <;> exact ⟨fun upper => by cases upper <;> rfl, rfl⟩

/-- Any other write. -/
theorem write_elsewhere (h : ∀ which tile, tile = 0xFD ∨ tile = 0xFE → address >>> 12 ≠ block which tile) :
    (s.write address value).1 = s ∧ ((s.write address value).2 = [.prg 8 0x8000 (bank value)] ∨
      (s.write address value).2 = [.horizontalIf (value &&& 1 != 0)]) := by
  have hB : address >>> 12 ≠ 0xB := h false 0xFD (Or.inl rfl)
  have hC : address >>> 12 ≠ 0xC := h false 0xFE (Or.inr rfl)
  have hD : address >>> 12 ≠ 0xD := h true 0xFD (Or.inl rfl)
  have hE : address >>> 12 ≠ 0xE := h true 0xFE (Or.inr rfl)
  simp only [write, if_neg hB, if_neg hC, if_neg hD, if_neg hE]
  split
  · exact ⟨rfl, Or.inl rfl⟩
  · exact ⟨rfl, Or.inr rfl⟩

theorem drawn_chosen (htile : tile = 0xFD ∨ tile = 0xFE) (which : Bool) :
    (∀ upper, (s.drawn (base which) tile).1.side upper =
      if upper = which then { s.side upper with latch := tile } else s.side upper) ∧
    (s.drawn (base which) tile).2 = some (bank ((s.side which).register tile)) := by
  rcases htile with rfl | rfl <;> cases which <;> exact ⟨fun upper => by cases upper <;> rfl, rfl⟩

theorem drawn_other (h : ¬ (tile = 0xFD ∨ tile = 0xFE)) (base : UInt16) : s.drawn base tile = (s, none) := by
  obtain ⟨hfd, hfe⟩ := not_or.mp h
  rw [drawn, if_neg hfd, if_neg hfe]

end

/-- The pages of a bank of 4KB. -/
def patternPage (size : Nat) (value : UInt8) (i : Nat) : Page :=
  ⟨.chr, value.toNat % (size / 0x1000) * 0x1000 + i * 0x400⟩

end Mmc2

namespace Circuit

open Mmc2 (base block patternPage)

variable {c : Circuit} {i : Nat}

/-- Switching a pattern window leaves the other one alone. -/
theorem page_obey_chr (hsize : 0x1000 ≤ c.rom.chr.size) (which upper : Bool) (value : UInt8) (hi : i < 4) :
    (c.obey (.chr 4 (base which) (bank value))).ppu.page (4 * upper.toNat + i) =
      if which = upper then patternPage c.rom.chr.size value i else c.ppu.page (4 * upper.toNat + i) := by
  have hbase : (base which).toNat % 0x2000 / 0x400 = 4 * which.toNat := by cases which <;> rfl
  have hupper := upper.toNat_le
  have hbanks : max (c.rom.chr.size / (4 * 1024)) 1 = c.rom.chr.size / 0x1000 := by omega
  rw [obey, PageTable.page_mapChr _ (by omega) _ _ _ (by omega), hbase]
  by_cases hwindow : which = upper
  · subst hwindow
    rw [if_pos (by omega), if_pos rfl, bank, wrapBank_natCast, hbanks, Nat.add_sub_cancel_left, patternPage]
  · have happart : which.toNat + upper.toNat = 1 := by cases which <;> cases upper <;> simp_all
    rw [if_neg (by omega), if_neg hwindow]

/-- The wiring of the nametables is no matter of patterns. -/
theorem page_obey_wiring (bit : Bool) {w : Nat} (hw : w < 8) :
    (c.obey (.horizontalIf bit)).ppu.page w = c.ppu.page w := by
  cases bit <;> exact (PageTable.page_mirror _ _ _ _ _ (by omega)).trans (if_pos hw)

/-- After all these uses the board has the registers, and each window shows what is in force: from the first
write to the register that is in force at first, or the first drawn FD, on. -/
structure InForce (c : Circuit) (uses : List Mmc2.Use) (s : Mmc2) : Prop where
  board : c.board = some (.mmc2 s)
  latch : ∀ upper, (s.side upper).latch = Mmc2.lastTile upper uses
  register : ∀ upper tile, tile = 0xFD ∨ tile = 0xFE →
    (s.side upper).register tile = (Mmc2.lastWritten (block upper tile) uses).getD 0
  shown : ∀ upper, Mmc2.lastTile upper uses = 0xFD ∨ (Mmc2.lastWritten (block upper 0xFE) uses).isSome →
    ∀ i < 4, c.ppu.page (4 * upper.toNat + i) = patternPage c.rom.chr.size (s.side upper).inForce i

variable {uses : List Mmc2.Use} {s : Mmc2} {address : UInt16}

section
variable (hboard : c.board = some (.mmc2 s)) {tile : UInt8} (htile : tile = 0xFD ∨ tile = 0xFE) {which : Bool}
include hboard htile

/-- A write switches the window whose register in force it hits. -/
theorem page_store (hsize : 0x1000 ≤ c.rom.chr.size) (hblock : address >>> 12 = block which tile) (view : View)
    (value : UInt8) (upper : Bool) (hi : i < 4) :
    (c.hear (.write view address value)).ppu.page (4 * upper.toNat + i) =
      if (s.side which).latch = tile ∧ which = upper then patternPage c.rom.chr.size value i
      else c.ppu.page (4 * upper.toNat + i) := by
  let written : Circuit := { c with board := some (.mmc2 (s.write address value).1) }
  have hsignals : (s.write address value).2 = _ := (s.write_register value htile hblock).2
  have hhear : c.hear (.write view address value) = (s.write address value).2.foldl obey written :=
    act_some hboard _
  rw [hhear, hsignals]
  by_cases hforce : (s.side which).latch = tile
  · rw [if_pos hforce]
    refine (page_obey_chr (c := written) hsize which upper value hi).trans ?_
    simp only [hforce, true_and]
    rfl
  · rw [if_neg hforce, if_neg fun h => hforce h.1]
    rfl

/-- A choosing tile switches the window that it is drawn from. -/
theorem page_chosen (hsize : 0x1000 ≤ c.rom.chr.size) (upper : Bool) (hi : i < 4) :
    (c.hear (.drawn (base which) tile)).ppu.page (4 * upper.toNat + i) =
      if which = upper then patternPage c.rom.chr.size ((s.side which).register tile) i
      else c.ppu.page (4 * upper.toNat + i) := by
  let drawn : Circuit := { c with board := some (.mmc2 (s.drawn (base which) tile).1) }
  have hchosen := (s.drawn_chosen htile which).2
  have hhear : c.hear (.drawn (base which) tile) =
      ((s.drawn (base which) tile).2.map (Signal.chr 4 (base which))).toList.foldl obey drawn := act_some hboard _
  rw [hhear, hchosen]
  exact page_obey_chr (c := drawn) hsize which upper _ hi

end

/-- A write to a register. -/
theorem InForce.store (h : c.InForce uses s) (hsize : 0x1000 ≤ c.rom.chr.size) (view : View) (value : UInt8)
    {which : Bool} {tile : UInt8} (htile : tile = 0xFD ∨ tile = 0xFE)
    (hblock : address >>> 12 = block which tile) :
    ∃ s', (c.hear (.write view address value)).InForce (uses ++ [.write address value]) s' := by
  have hside := (s.write_register value htile hblock).1
  have hrom : (c.hear (.write view address value)).rom = c.rom := c.rom_act _
  have hlatches : ∀ upper, (s.side upper).latch = 0xFD ∨ (s.side upper).latch = 0xFE := fun upper =>
    h.latch upper ▸ Mmc2.lastTile_cases uses upper
  have hlast : ∀ upper, Mmc2.lastTile upper (uses ++ [.write address value]) = Mmc2.lastTile upper uses :=
    fun upper => Mmc2.lastTile_concat _ _ upper
  have hwritten : ∀ upper tile', tile' = 0xFD ∨ tile' = 0xFE →
      Mmc2.lastWritten (block upper tile') (uses ++ [.write address value]) =
        if which = upper ∧ tile = tile' then some value else Mmc2.lastWritten (block upper tile') uses :=
    fun upper tile' htile' => by
      rw [Mmc2.lastWritten_write, hblock]
      simp only [Mmc2.block_inj htile htile']
  have hboard : (c.hear (.write view address value)).board = some (.mmc2 (s.write address value).1) := by
    rw [Circuit.hear, act_some h.board, board_obeyAll]
    rfl
  refine ⟨(s.write address value).1, hboard, fun upper => ?_, fun upper tile' htile' => ?_,
    fun upper hready i hi => ?_⟩
  · rw [hside, hlast, ← h.latch]
    split_ifs
    exacts [Mmc2.Side.latch_store _ _ _, rfl]
  · rw [hside, hwritten upper tile' htile', apply_ite Option.getD]
    by_cases hwindow : upper = which
    · subst hwindow
      rw [if_pos rfl, Mmc2.Side.register_store _ htile htile', h.register upper tile' htile']
      simp only [true_and]
      split_ifs <;> rfl
    · rw [if_neg hwindow, if_neg fun hboth => hwindow hboth.1.symm, h.register upper tile' htile']
  · rw [hrom, page_store h.board htile hsize hblock view value upper hi]
    by_cases hswitched : (s.side which).latch = tile ∧ which = upper
    · obtain ⟨hforce, rfl⟩ := hswitched
      rw [if_pos ⟨hforce, rfl⟩, hside, if_pos rfl, Mmc2.Side.inForce_store _ htile (hlatches which), if_pos hforce]
    · have hinForce : ((s.write address value).1.side upper).inForce = (s.side upper).inForce := by
        rw [hside]
        by_cases hwindow : upper = which
        · subst hwindow
          rw [if_pos rfl, Mmc2.Side.inForce_store _ htile (hlatches upper),
            if_neg fun hforce => hswitched ⟨hforce, rfl⟩]
        · rw [if_neg hwindow]
      have hbefore : Mmc2.lastTile upper uses = 0xFD ∨ (Mmc2.lastWritten (block upper 0xFE) uses).isSome := by
        rw [hlast, hwritten upper 0xFE (Or.inr rfl)] at hready
        by_cases hfe : which = upper ∧ tile = 0xFE
        · -- the register of FE has been written but is not in force
          obtain ⟨rfl, rfl⟩ := hfe
          rw [← h.latch]
          exact Or.inl ((hlatches which).resolve_right fun hforce => hswitched ⟨hforce, rfl⟩)
        · rwa [if_neg hfe] at hready
      rw [if_neg hswitched, hinForce]
      exact h.shown upper hbefore i hi

/-- A choosing tile drawn. -/
theorem InForce.choose (h : c.InForce uses s) (hsize : 0x1000 ≤ c.rom.chr.size) {tile : UInt8}
    (htile : tile = 0xFD ∨ tile = 0xFE) (which : Bool) :
    ∃ s', (c.hear (.drawn (base which) tile)).InForce (uses ++ [.drawn which tile]) s' := by
  have hside := (s.drawn_chosen htile which).1
  have hrom : (c.hear (.drawn (base which) tile)).rom = c.rom := c.rom_act _
  have hlast : ∀ upper, Mmc2.lastTile upper (uses ++ [.drawn which tile]) =
      if which = upper then tile else Mmc2.lastTile upper uses := fun upper => by
    rw [Mmc2.lastTile_drawn]
    simp only [htile, and_true]
  have hwritten : ∀ block, Mmc2.lastWritten block (uses ++ [.drawn which tile]) = Mmc2.lastWritten block uses :=
    fun block => Mmc2.lastWritten_concat _ _ block
  have hboard : (c.hear (.drawn (base which) tile)).board = some (.mmc2 (s.drawn (base which) tile).1) := by
    rw [Circuit.hear, act_some h.board, board_obeyAll]
    rfl
  have hregister : ∀ upper tile', ((s.drawn (base which) tile).1.side upper).register tile' =
      (s.side upper).register tile' := fun upper tile' => by
    rw [hside]
    split_ifs <;> rfl
  have hlatch : ∀ upper, ((s.drawn (base which) tile).1.side upper).latch =
      if which = upper then tile else (s.side upper).latch := fun upper => by
    rw [hside]
    simp only [eq_comm (a := upper)]
    split_ifs <;> rfl
  refine ⟨(s.drawn (base which) tile).1, hboard, fun upper => ?_, fun upper tile' htile' => ?_,
    fun upper hready i hi => ?_⟩
  · rw [hlatch, hlast, h.latch]
  · rw [hregister, hwritten, h.register upper tile' htile']
  · rw [hrom, page_chosen h.board htile hsize upper hi, Mmc2.Side.inForce, hlatch, hregister]
    rw [hlast, hwritten] at hready
    by_cases hwindow : which = upper
    · rw [if_pos hwindow, if_pos hwindow, hwindow]
    · rw [if_neg hwindow] at hready
      rw [if_neg hwindow, if_neg hwindow]
      exact h.shown upper hready i hi

/-- Any other use changes nothing. -/
theorem InForce.other (h : c.InForce uses s) {u : Mmc2.Use} {d : Circuit} (hreset : u.isReset = false)
    (hchosen : ∀ upper, u.chosen upper = none)
    (hwritten : ∀ upper tile, tile = 0xFD ∨ tile = 0xFE → u.written (block upper tile) = none)
    (hrom : d.rom = c.rom) (hboard : d.board = c.board) (hpages : ∀ w < 8, d.ppu.page w = c.ppu.page w) :
    d.InForce (uses ++ [u]) s := by
  have hlast : ∀ upper, Mmc2.lastTile upper (uses ++ [u]) = Mmc2.lastTile upper uses := fun upper => by
    rw [Mmc2.lastTile_concat, hreset, hchosen]
    rfl
  have hkept : ∀ upper tile, tile = 0xFD ∨ tile = 0xFE → Mmc2.lastWritten (block upper tile) (uses ++ [u]) =
      Mmc2.lastWritten (block upper tile) uses := fun upper tile htile => by
    rw [Mmc2.lastWritten_concat, hreset, hwritten upper tile htile]
    rfl
  refine ⟨hboard.trans h.board, fun upper => ?_, fun upper tile htile => ?_, fun upper hready i hi => ?_⟩
  · rw [hlast, h.latch]
  · rw [hkept upper tile htile, h.register upper tile htile]
  · rw [hlast, hkept upper 0xFE (Or.inr rfl)] at hready
    have hupper := upper.toNat_le
    rw [hrom, hpages _ (by omega)]
    exact h.shown upper hready i hi

/-- A reset starts it all over. -/
theorem InForce.fresh (hboard : c.board = some (.mmc2 {})) (huses : Mmc2.sinceReset uses = []) :
    c.InForce uses {} := by
  have hlast : ∀ upper, Mmc2.lastTile upper uses = 0xFE := fun upper => by
    rw [Mmc2.lastTile, huses]
    rfl
  have hwritten : ∀ block, Mmc2.lastWritten block uses = none := fun block => by
    rw [Mmc2.lastWritten, huses]
    rfl
  refine ⟨hboard, fun upper => ?_, fun upper tile htile => ?_, fun upper hready => ?_⟩
  · rw [hlast]
    cases upper <;> rfl
  · rw [hwritten]
    cases upper <;> rcases htile with rfl | rfl <;> rfl
  · rw [hlast, hwritten] at hready
    exact hready.elim (absurd · (by decide)) (absurd · Bool.false_ne_true)

/-- A write that the board hears. -/
theorem InForce.write (h : c.InForce uses s) (hsize : 0x1000 ≤ c.rom.chr.size) (view : View) (address : UInt16)
    (value : UInt8) : ∃ s', (c.hear (.write view address value)).InForce (uses ++ [.write address value]) s' := by
  by_cases hport : ∃ which tile, (tile = 0xFD ∨ tile = 0xFE) ∧ address >>> 12 = block which tile
  · obtain ⟨which, tile, htile, hblock⟩ := hport
    exact h.store hsize view value htile hblock
  have hports : ∀ which tile, tile = 0xFD ∨ tile = 0xFE → address >>> 12 ≠ block which tile :=
    fun which tile htile hblock => hport ⟨which, tile, htile, hblock⟩
  obtain ⟨hsame, hsignals⟩ := s.write_elsewhere value hports
  let written : Circuit := { c with board := some (.mmc2 (s.write address value).1) }
  have hhear : c.hear (.write view address value) = (s.write address value).2.foldl obey written :=
    act_some h.board _
  refine ⟨s, h.other rfl (fun _ => rfl) (fun upper tile htile => if_neg (hports upper tile htile))
    (c.rom_act _) ?_ fun w hw => ?_⟩
  · rw [hhear, board_obeyAll, h.board]
    exact congrArg (some <| Board.mmc2 ·) hsame
  · rw [hhear]
    rcases hsignals with hprg | hwiring
    · rw [hprg]
      rfl
    · rw [hwiring]
      exact page_obey_wiring (c := written) _ hw

/-- A drawn tile. -/
theorem InForce.drawn (h : c.InForce uses s) (hsize : 0x1000 ≤ c.rom.chr.size) (upper : Bool) (tile : UInt8) :
    ∃ s', (c.hear (.drawn (base upper) tile)).InForce (uses ++ [.drawn upper tile]) s' := by
  by_cases htile : tile = 0xFD ∨ tile = 0xFE
  · exact h.choose hsize htile upper
  have hsame : c.hear (.drawn (base upper) tile) = c := by
    rw [Circuit.hear, act_some h.board, Board.answer, Board.drawn, s.drawn_other htile]
    simp only [Option.map_none, Option.toList_none, List.foldl_nil, ← h.board]
  rw [hsame]
  exact ⟨s, h.other rfl (fun _ => if_neg fun hdrawn => htile hdrawn.2) (fun _ _ _ => rfl) rfl rfl fun _ _ => rfl⟩

end Circuit

theorem Board.mmc2_of_number {b : Board} (h : b.number = 9) : ∃ s, b = .mmc2 s := by
  have hkind := Board.renewed_of_number (.mmc2 {}) h
  cases b with
  | mmc2 s => exact ⟨s, rfl⟩
  | _ => cases hkind

/-! ### Machines -/

namespace Machine

variable (m : Machine) {cart : Cartridge}

/-- The machine after a use of its board. -/
def use (m : Machine) : Mmc2.Use → Machine
  | .write address value => m.write address value
  | .drawn upper tile => m.boardDrawn (Mmc2.base upper) tile
  | .reset kind => m.reset kind

theorem circuit_boardDrawn (base : UInt16) (tile : UInt8) :
    (m.boardDrawn base tile).circuit = m.circuit.hear (.drawn base tile) :=
  Circuit.paint_drawn (c := m.circuit) rfl m.ppu m.board base tile

theorem moves_boardDrawn {base : UInt16} (hbase : base = 0 ∨ base = 0x1000) (tile : UInt8) :
    Layout.Moves m.layout (m.boardDrawn base tile).layout :=
  Layout.moves_drawn (l := m.layout) rfl m.ppu m.board tile hbase

/-- The board hears of all writes from $A000 on, and no other one is a matter of its registers. -/
theorem inForce_write {uses : List Mmc2.Use} {s : Mmc2} (h : m.circuit.InForce uses s)
    (hsize : 0x1000 ≤ m.circuit.rom.chr.size) (hsilent : m.sound.expansion = none) (address : UInt16)
    (value : UInt8) :
    ∃ s', (m.write address value).circuit.InForce (uses ++ [.write address value]) s' := by
  rw [circuit_write, m.heard_of_silent hsilent h.board]
  split_ifs with hstrobe hheard
  · have hunheard : m.circuit.hear (.strobe value) = m.circuit := by
      rw [Circuit.hear, Circuit.act_some h.board]
      simp only [Board.answer, Board.strobe, List.foldl_nil, ← h.board]
    rw [Option.elim_some, hunheard]
    refine ⟨s, h.other rfl (fun _ => rfl) (fun upper tile htile => if_neg fun hblock => ?_) rfl rfl fun _ _ => rfl⟩
    exact absurd (hstrobe ▸ Mmc2.le_of_block htile hblock) (by decide)
  · exact h.write hsize m.view address value
  · refine ⟨s, h.other rfl (fun _ => rfl) (fun upper tile htile => if_neg fun hblock => hheard ?_) rfl rfl
      fun _ _ => rfl⟩
    have hle := Mmc2.le_of_block htile hblock
    have hlistens : covered (Board.mmc2 s).writeRanges address = true := by
      simp [covered, Board.writeRanges, Mmc2.writeRanges, hle, le_top]
    exact ⟨UInt16.lt_of_lt_of_le (by decide) hle, hlistens⟩

/-- A reset clears the board. -/
theorem board_reset_mmc2 (hcartridge : m.hasCartridge = true) {s : Mmc2} (hboard : m.board = some (.mmc2 s))
    (kind : Reset) : (m.reset kind).circuit.board = some (.mmc2 {}) := by
  obtain ⟨view, -, hreset⟩ := m.circuit_reset kind hcartridge
  have hplaced : m.circuit.placed.board = some (.mmc2 s) := hboard
  rw [hreset, Circuit.act_some hplaced, Circuit.board_obeyAll]
  rfl

/-- Every use. -/
theorem inForce_use (hw : cart.WellFormed) (hmapper : cart.mapper = 9) (hchr : cart.chr.size ≠ 0)
    (hplugged : m.layout.Powered cart) {uses : List Mmc2.Use} {s : Mmc2} (h : m.circuit.InForce uses s)
    (u : Mmc2.Use) : (m.use u).layout.Powered cart ∧ ∃ s', (m.use u).circuit.InForce (uses ++ [u]) s' := by
  have hsize : 0x1000 ≤ m.circuit.rom.chr.size := by
    obtain ⟨n, -, hn⟩ := hw.chr
    have hsame : m.circuit.rom.chr.size = cart.chr.size := hplugged.chrSize
    omega
  have hsilent : m.sound.expansion = none := m.expansion_none hplugged.toPlugged (by rw [hmapper]; rfl)
  cases u with
  | write address value =>
    exact ⟨hplugged.moves hw (m.moves_write address value), m.inForce_write h hsize hsilent address value⟩
  | drawn upper tile =>
    have hbase : Mmc2.base upper = 0 ∨ Mmc2.base upper = 0x1000 := by cases upper <;> simp [Mmc2.base]
    refine ⟨hplugged.moves hw (m.moves_boardDrawn hbase tile), ?_⟩
    rw [use, circuit_boardDrawn]
    exact h.drawn hsize upper tile
  | reset kind =>
    refine ⟨reset_powered hw kind hplugged.toPlugged, {}, ?_⟩
    have hboard := m.board_reset_mmc2 hplugged.toPlugged.hasCartridge h.board kind
    exact Circuit.InForce.fresh hboard (Mmc2.sinceReset_concat _ _)

theorem inForce_run (hw : cart.WellFormed) (hmapper : cart.mapper = 9) (hchr : cart.chr.size ≠ 0) (m₀ : Machine)
    (uses : List Mmc2.Use) : (uses.foldl use (m₀.insert cart).2).layout.Powered cart ∧
      ∃ s, (uses.foldl use (m₀.insert cart).2).circuit.InForce uses s := by
  induction uses using List.reverseRecOn with
  | nil =>
    obtain ⟨n, hn, hplugged, -⟩ := insert_plugged hw m₀
    obtain ⟨b, hb, hnumber⟩ := Option.map_eq_some_iff.mp hplugged.board
    obtain ⟨s, rfl⟩ := Board.mmc2_of_number (hnumber.trans hmapper)
    refine ⟨insert_powered hw m₀, {}, Circuit.InForce.fresh ?_ rfl⟩
    rw [List.foldl_nil, hn]
    exact n.board_reset_mmc2 hplugged.hasCartridge hb .hard
  | append_singleton uses u ih =>
    obtain ⟨hplugged, s, hs⟩ := ih
    rw [List.foldl_append]
    exact inForce_use _ hw hmapper hchr hplugged hs u

/-- The pattern windows of the MMC2 show what is in force. In any order of writes, drawn tiles and resets, as
soon as all four registers have been written since the last reset, each of the two windows shows the bank that
was last written to the register of the tile, FD or FE, that was last drawn from it, or of FE if none was. -/
theorem tile_latches_in_force (hw : cart.WellFormed) (hmapper : cart.mapper = 9) (hchr : cart.chr.size ≠ 0)
    (m₀ : Machine) {uses : List Mmc2.Use}
    (hwritten : ∀ k ∈ [0xB, 0xC, 0xD, 0xE], (Mmc2.lastWritten k uses).isSome) (upper : Bool) :
    ∃ value, Mmc2.lastWritten (Mmc2.block upper (Mmc2.lastTile upper uses)) uses = some value ∧
      ∀ i < 4, (uses.foldl use (m₀.insert cart).2).ppu.pages.page (4 * upper.toNat + i) =
        ⟨.chr, value.toNat % (cart.chr.size / 0x1000) * 0x1000 + i * 0x400⟩ := by
  obtain ⟨hplugged, s, hs⟩ := inForce_run hw hmapper hchr m₀ uses
  have htile := Mmc2.lastTile_cases uses upper
  have hblock : ∀ tile, tile = 0xFD ∨ tile = 0xFE → Mmc2.block upper tile ∈ [0xB, 0xC, 0xD, 0xE] := by
    rintro tile (rfl | rfl) <;> cases upper <;> decide
  obtain ⟨value, hvalue⟩ := Option.isSome_iff_exists.mp (hwritten _ (hblock _ htile))
  refine ⟨value, hvalue, fun i hi => ?_⟩
  have hforce : (s.side upper).inForce = value := by
    rw [Mmc2.Side.inForce, hs.latch, hs.register upper _ htile, hvalue, Option.getD_some]
  have hshown := hs.shown upper (Or.inr (hwritten _ (hblock 0xFE (Or.inr rfl)))) i hi
  have hsize : (uses.foldl use (m₀.insert cart).2).circuit.rom.chr.size = cart.chr.size := hplugged.chrSize
  rw [hforce, hsize] at hshown
  exact hshown

/-- FD drawn from the lower window only: it shows bank 3, from the register that was written first, and the
upper one bank 0, from the last. -/
theorem tile_latches_in_force_lower :
    let cart : Cartridge := { prg := Array.replicate 0x4000 0, chr := Array.replicate 0x4000 0, mapper := 9 }
    let uses : List Mmc2.Use :=
      [.write 0xB000 3, .write 0xC000 1, .write 0xD000 2, .write 0xE000 0, .drawn false 0xFD]
    (uses.foldl use ((default : Machine).insert cart).2).ppu.pages.page 0 = ⟨.chr, 0x3000⟩ ∧
      (uses.foldl use ((default : Machine).insert cart).2).ppu.pages.page 4 = ⟨.chr, 0⟩ := by
  intro cart uses
  have hw : cart.WellFormed :=
    ⟨⟨1, by decide, by decide, Array.size_replicate⟩, ⟨2, by decide, Array.size_replicate⟩,
      iff_of_false Bool.false_ne_true (by simp [cart]), by decide⟩
  have hchr : cart.chr.size = 0x4000 := Array.size_replicate
  have hwritten : ∀ k ∈ [0xB, 0xC, 0xD, 0xE], (Mmc2.lastWritten k uses).isSome := by
    simp only [List.forall_mem_cons]
    exact ⟨rfl, rfl, rfl, rfl, fun k hk => absurd hk List.not_mem_nil⟩
  obtain ⟨low, hlow, hlower⟩ := tile_latches_in_force hw rfl (by omega) default hwritten false
  obtain ⟨high, hhigh, hupper⟩ := tile_latches_in_force hw rfl (by omega) default hwritten true
  have hfirst : Mmc2.lastWritten (Mmc2.block false (Mmc2.lastTile false uses)) uses = some 3 := by decide
  have hlast : Mmc2.lastWritten (Mmc2.block true (Mmc2.lastTile true uses)) uses = some 0 := by decide
  obtain rfl : 3 = low := Option.some.inj (hfirst.symm.trans hlow)
  obtain rfl : 0 = high := Option.some.inj (hlast.symm.trans hhigh)
  rw [hchr] at hlower hupper
  exact ⟨hlower 0 (by decide), hupper 0 (by decide)⟩

end Machine

end Famicom
