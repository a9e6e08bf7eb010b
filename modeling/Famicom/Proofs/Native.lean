import Famicom.Proofs.Powered

/-!
Machines that owe nothing to a snapshot: plugged in, reset and run. Two things hold of them beyond the
layout of every powered machine, for a snapshot could break both:

    palette   entries 0, 4, 8, … are one marked backdrop, the others plain colours
    board 0   shows the first bank and the last for ever, and its patterns in order
-/

namespace Famicom

/-- The event takes no snapshot over. -/
def Event.isNative : Event → Bool
  | .restore _ => false
  | _ => true

/-! ### The palette -/

theorem Ppu.read_setBackdrop (palette : Memory 32) (value : UInt8) {a : Nat} (ha : a < 32) :
    (setBackdrop palette value).read a = if a % 4 = 0 then value else palette.read a := by
  simp only [setBackdrop, List.foldl_cons, List.foldl_nil, Memory.read_write _ (by decide : 0 < 32),
    Nat.mod_eq_of_lt ha]
  split_ifs <;> first | rfl | omega

/-- The backdrop entries bear one marked colour, the others a colour without a mark. -/
def Marked (palette : Memory 32) : Prop :=
  ∀ a < 32, palette.read a =
    if a % 4 = 0 then (palette.read 0 &&& colourMask) ||| backdropMark
    else palette.read a &&& colourMask

theorem colour_idem (value : UInt8) : value &&& colourMask &&& colourMask = value &&& colourMask := by
  rw [UInt8.and_assoc]
  rfl

theorem colour_marked (value : UInt8) :
    ((value &&& colourMask) ||| backdropMark) &&& colourMask = value &&& colourMask := by
  apply UInt8.toBitVec_inj.mp
  rw [UInt8.toBitVec_and, UInt8.toBitVec_or, BitVec.and_or_distrib_right, ← UInt8.toBitVec_and,
    colour_idem]
  exact BitVec.or_zero

theorem Marked.backdrop {palette : Memory 32} (h : Marked palette) (value : UInt8) :
    Marked (Ppu.setBackdrop palette ((value &&& colourMask) ||| backdropMark)) := by
  intro a ha
  rw [Ppu.read_setBackdrop _ _ ha, Ppu.read_setBackdrop _ _ (by decide : 0 < 32),
    if_pos (Nat.zero_mod 4),
    colour_marked]
  split
  · rfl
  case isFalse hinner =>
    rw [h a ha, if_neg hinner, colour_idem]

theorem Marked.colour {palette : Memory 32} (h : Marked palette) {index : Nat} (value : UInt8)
    (hinner : index % 4 ≠ 0) : Marked (palette.write index (value &&& colourMask)) := by
  intro a ha
  rw [Memory.read_write _ (by decide : 0 < 32), Memory.read_write _ (by decide : 0 < 32),
    if_neg (by omega : ¬ index % 32 = 0 % 32)]
  split
  · rw [if_neg (by omega), colour_idem]
  · exact h a ha

/-- The palette at power-on: black, marked. -/
theorem marked_powerOn : Marked Ppu.powerOn.palette := by
  intro a ha
  show (Ppu.setBackdrop (Memory.zero 32) backdropMark).read a = if a % 4 = 0 then
    ((Ppu.setBackdrop (Memory.zero 32) backdropMark).read 0 &&& colourMask) ||| backdropMark
    else (Ppu.setBackdrop (Memory.zero 32) backdropMark).read a &&& colourMask
  rw [Ppu.read_setBackdrop _ _ ha, Ppu.read_setBackdrop _ _ (by decide : 0 < 32),
    if_pos (Nat.zero_mod 4)]
  split
  · rfl
  · rw [Memory.zero, Memory.read_filled (by decide)]
    rfl

/-! ### Layouts -/

namespace Layout

/-- The program and pattern windows show what they show first. -/
def Still (l : Layout) : Prop :=
  (∀ w, 8 ≤ w → w < 16 → l.cpu.page w = (Machine.initialProgramPages l.rom PageTable.blank).page w) ∧
    ∀ w < 8, l.ppu.page w = (Machine.initialPicturePages l.rom PageTable.blank).page w

/-- A powered layout that owes nothing to a snapshot. -/
structure Native (cart : Cartridge) (l : Layout) : Prop extends Powered cart l where
  palette : Marked l.palette
  still : cart.mapper = 0 → l.Still

/-- The first position of the program windows covers whatever they showed. -/
theorem page_initialProgram (c : Cartridge) (t t' : PageTable) {w : Nat} (hlo : 8 ≤ w) (hhi : w < 16) :
    (Machine.initialProgramPages c t).page w = (Machine.initialProgramPages c t').page w := by
  have h8 : (0x8000 : UInt16).toNat / 0x1000 = 8 := rfl
  have h12 : (0xC000 : UInt16).toNat / 0x1000 = 12 := rfl
  simp only [Machine.initialProgramPages, PageTable.page_mapPrg _ _ _ _ _ hhi, h8, h12]
  split
  · rfl
  · rw [if_pos (by omega), if_pos (by omega)]

/-- So does that of the pattern windows. -/
theorem page_initialPicture (c : Cartridge) (t t' : PageTable) {w : Nat} (hw : w < 8) :
    (Machine.initialPicturePages c t).page w = (Machine.initialPicturePages c t').page w := by
  have hw16 : w < 16 := by omega
  unfold Machine.initialPicturePages
  by_cases hchr : c.hasChr = true
  · have h0 : c.chr.size ≠ 0 := by simpa [Cartridge.hasChr] using hchr
    have hmap : ∀ t : PageTable, (t.mapChr c.chr.size 8 0 0).page w = _ := fun t =>
      (t.page_mapChr h0 8 0 0 hw16).trans (if_pos ⟨Nat.zero_le w, hw⟩)
    simp only [hchr, if_true]
    split
    · rw [PageTable.page_mirror _ _ _ _ _ hw16, PageTable.page_mirror _ _ _ _ _ hw16, if_pos hw,
        if_pos hw,
        hmap, hmap]
    · split <;>
        rw [PageTable.page_mirror _ _ _ _ _ hw16, PageTable.page_mirror _ _ _ _ _ hw16, if_pos hw,
          if_pos hw, hmap, hmap]
  · simp only [hchr, if_false, Bool.false_eq_true]
    rw [PageTable.page_mapVram _ hw16, PageTable.page_mapVram _ hw16, if_pos hw, if_pos hw]

variable {cart : Cartridge} {l l' : Layout}

theorem Plugged.fresh_native (hw : cart.WellFormed) (h : Plugged cart l) (hp : Marked l.palette) :
    Native cart l.fresh := by
  have hpowered := h.fresh hw
  unfold Layout.fresh at hpowered ⊢
  refine ⟨hpowered, hp, fun _ => ⟨fun w hlo hhi => ?_, fun w hlt => ?_⟩⟩
  · exact page_initialProgram l.rom l.cpu PageTable.blank hlo hhi
  · exact page_initialPicture l.rom l.ppu PageTable.blank hlt

theorem obey_palette (l : Layout) (s : Signal) : (l.obey s).palette = l.palette := by
  cases s <;> simp only [obey]

/-- On board 0 no wish moves a window. -/
theorem Still.obey {s : Signal} (hfits : s.Fits 0) (h : l.Still) : (l.obey s).Still := by
  cases s with
  | prg kb address bank => exact absurd rfl hfits.1
  | chr kb address bank => exact absurd rfl hfits.1
  | mirror a b c d => exact absurd rfl hfits
  | nametable window value =>
    have h19 : (0 : UInt8) = 19 := hfits
    exact absurd h19 (by decide)
  | irq => exact h
  | log message => exact h

theorem Still.withPalette (h : l.Still) (palette : Memory 32) : Still { l with palette } := ⟨h.1, h.2⟩

theorem Still.withLevel (h : l.Still) (level : UInt8) : Still { l with level } := ⟨h.1, h.2⟩

theorem Native.step (hw : cart.WellFormed) (hs : Step l l') (h : Native cart l) : Native cart l' := by
  refine ⟨h.toPowered.step hw hs, ?_, fun h0 => ?_⟩
  · cases hs with
    | wish number signal plugged fits => exact (l.obey_palette signal).symm ▸ h.palette
    | backdrop value => exact h.palette.backdrop value
    | colour index value inner => exact h.palette.colour value inner
    | level value seven => exact h.palette
  · cases hs with
    | wish number signal plugged fits =>
      obtain rfl : number = cart.mapper := Option.some.inj (plugged.symm.trans h.board)
      exact (h.still h0).obey (h0 ▸ fits)
    | backdrop value => exact (h.still h0).withPalette _
    | colour index value inner => exact (h.still h0).withPalette _
    | level value seven => exact (h.still h0).withLevel value

theorem Native.moves (hw : cart.WellFormed) (hm : Moves l l') (h : Native cart l) : Native cart l' :=
  hm.keeps (P := Native cart) (fun hs h => h.step hw hs) h

end Layout

/-! ### Runs -/

namespace Machine

open Layout (Native Plugged)

variable {cart : Cartridge} {m : Machine}

theorem reset_native (hw : cart.WellFormed) (kind : Reset) (h : m.layout.Plugged cart)
    (hp : Marked m.layout.palette) : (m.reset kind).layout.Native cart :=
  (h.fresh_native hw hp).moves hw (m.moves_reset kind h.hasCartridge)

theorem insert_native (hw : cart.WellFormed) (m : Machine) : (m.insert cart).2.layout.Native cart := by
  obtain ⟨n, hn, hplugged, hpalette⟩ := insert_plugged hw m
  have hreset := reset_native hw .hard hplugged (hpalette ▸ marked_powerOn)
  simpa only [hn] using hreset

theorem after_native (hw : cart.WellFormed) (h : m.layout.Native cart) {e : Event}
    (he : e.isNative = true) : (m.after e).layout.Native cart := by
  cases e with
  | reset kind => exact reset_native hw kind h.toPlugged h.palette
  | frame draw => exact h.moves hw (m.moves_runFrame draw)
  | execute slice => exact h.moves hw (m.moves_execute slice)
  | read address => exact (m.layout_read address).symm ▸ h
  | write address value => exact h.moves hw (m.moves_write address value)
  | samples count => exact h.moves hw (m.moves_samples count)
  | restore bytes => exact absurd he Bool.false_ne_true

/-- A machine that takes no snapshot over stays native. -/
theorem run_native (hw : cart.WellFormed) (h : m.layout.Native cart) (events : List Event)
    (hevents : ∀ e ∈ events, e.isNative = true) : (events.foldl after m).layout.Native cart := by
  induction events generalizing m with
  | nil => exact h
  | cons e events ih =>
    exact ih (after_native hw h (hevents e List.mem_cons_self)) fun f hf =>
      hevents f (List.mem_cons_of_mem e hf)

end Machine

end Famicom
