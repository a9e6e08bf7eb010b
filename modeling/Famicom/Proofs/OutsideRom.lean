import Famicom.Proofs.Restart
import Famicom.Proofs.Resume

/-!
What a snapshot says of the windows outside ROM space. Of a nametable window it keeps the number of an
internal nametable, of the windows at $6000 it keeps nothing.

    window                      in the snapshot     comes back as
    internal nametable t        t                   internal nametable t
    pattern memory (board 19)   its own number w    internal nametable w
    battery RAM                 nothing             battery RAM
    bank since power-on         nothing             the same bank
    bank switched (board 42)    nothing             battery RAM

So the two boards that point such windows elsewhere, 19 and 42, lose them, and no other board does.
-/

namespace Famicom

/-! ### Nametable windows -/

namespace Snapshot

/-- The nametable windows of a machine's body. -/
theorem getD_window (m : Machine) {w : Nat} (hw : w < 4) :
    (baseBody m).getD (windowOffset + w) 0 = windowByte m.ppu.pages w := by
  have hlength : (m.ppu.palette.map (· &&& colourMask)).toList.length = 32 := Vector.length_toList
  have hdrop : (baseBody m).drop windowOffset = baseTail m := by
    rw [show windowOffset = paletteOffset + 32 from rfl, ← List.drop_drop, drop_palette,
      List.drop_left' hlength]
  rw [getD_add, hdrop]
  interval_cases w <;> rfl

/-- What comes back of a nametable window: the internal nametable it showed, or that of its own number. -/
def remembered (pages : PageTable) (w : Nat) : Page :=
  if (pages.page (8 + w)).region = .nametable then pages.page (8 + w) else ⟨.nametable, w * 0x400⟩

/-- A window on pattern memory does not show an internal nametable. -/
theorem table_of_region {mapper : UInt8} {chrSize : Nat} {p : Page} (h : ShowsTable mapper chrSize p)
    (hregion : p.region = .nametable) : ∃ t < 4, p = ⟨.nametable, t * 0x400⟩ := by
  rcases h with htable | ⟨-, ⟨n, rfl, -⟩ | ⟨-, n, -, rfl⟩⟩
  · exact htable
  · exact absurd hregion (by simp)
  · exact absurd hregion (by simp)

theorem page_windowsOf {mapper : UInt8} {chrSize : Nat} (t : PageTable) {m : Machine} {w : Nat} (hw : w < 4)
    (h : ShowsTable mapper chrSize (m.ppu.pages.page (8 + w))) :
    (windowsOf t (baseBody m)).page (8 + w) = remembered m.ppu.pages w := by
  have hpage : (windowsOf t (baseBody m)).page (8 + w) =
      ⟨.nametable, ((baseBody m).getD (windowOffset + w) 0).toNat % 4 * 0x400⟩ := by
    simp only [windowsOf]
    rw [PageTable.page_mirror _ _ _ _ _ (by omega), if_neg (by omega)]
    interval_cases w <;> rfl
  have hbyte : ∀ n < 4, (UInt8.ofNat n).toNat % 4 = n := by decide
  rw [hpage, getD_window m hw, windowByte, remembered]
  split
  case isTrue hregion =>
    obtain ⟨n, hn, htable⟩ := table_of_region h hregion
    rw [htable, Nat.mul_div_cancel _ (by decide), hbyte n hn]
  case isFalse => rw [hbyte w hw]

/-! ### Windows below the ROM -/

/-- Besides the program and the patterns, the blocks bring no window back but the nametables. -/
theorem windows_resumed {mapper : UInt8} {chrSize : Nat} (m start : Machine)
    (htables : ∀ w < 4, ShowsTable mapper chrSize (m.ppu.pages.page (8 + w))) :
    (∀ w < 8, (resumed m (restoreBase start (baseBody m))).cpu.pages.page w = start.cpu.pages.page w) ∧
      ∀ w < 4, (resumed m (restoreBase start (baseBody m))).ppu.pages.page (8 + w) =
        remembered m.ppu.pages w := by
  have hset := (restoreBase_setUp start (baseBody m)).1
  have hcpu : (restoreBase start (baseBody m)).cpu.pages = start.cpu.pages :=
    (restoreBase_windows start (baseBody m)).1
  have hppu : ∀ w < 4, (restoreBase start (baseBody m)).ppu.pages.page (8 + w) =
      remembered m.ppu.pages w := by
    intro w hw
    rw [hset.pages]
    exact page_windowsOf start.ppu.pages hw (htables w hw)
  generalize restoreBase start (baseBody m) = k at hcpu hppu
  unfold resumed
  split
  · exact ⟨fun w _ => congrArg (·.page w) hcpu, hppu⟩
  · constructor
    · intro w hw
      exact (page_restoreProgram_low _ _ _ hw).trans (congrArg (·.page w) hcpu)
    · intro w hw
      exact (page_restorePatterns_table _ _ _ (by omega) (by omega)).trans (hppu w hw)

/-- Taking blocks over changes no ROM. -/
theorem roms_resumed (m start : Machine) :
    (resumed m (restoreBase start (baseBody m))).cart.prg = start.cart.prg ∧
      (resumed m (restoreBase start (baseBody m))).cart.chr = start.cart.chr := by
  have hcart : (restoreBase start (baseBody m)).cart = start.cart :=
    (restoreBase_setUp start (baseBody m)).1.cart
  rw [← hcart]
  generalize restoreBase start (baseBody m) = k
  unfold resumed
  split <;> exact ⟨rfl, rfl⟩

end Snapshot

/-! ### What a machine without a snapshot shows -/

namespace Machine

open Circuit (Descends)

variable {cart : Cartridge} {b : Board}

/-- On board 42 the cartridge is plugged in with its battery RAM in sight. -/
theorem battery_insert (hb : Board.ofNumber? cart.mapper = some b) (h42 : cart.mapper = 42) (m : Machine) :
    (m.insert cart).2.cpu.pages.page 6 = ⟨.sram, 0⟩ ∧
      (m.insert cart).2.cpu.pages.page 7 = ⟨.sram, 0x1000⟩ := by
  obtain rfl : b = .board42 {} := by
    rw [h42] at hb
    exact (Option.some.inj hb).symm
  obtain ⟨view, -, hinsert⟩ := circuit_insert hb m
  have hspares : AllSpare 8 ((Board.board42 {}).init view).2 := by
    simp [Board.init, Board.lift, Board42.init]
  have hlow : ∀ w < 8, (m.insert cart).2.cpu.pages.page w = poweredPages.page w := by
    intro w hw
    have hpage := congrArg (fun c : Circuit => c.cpu.page w) hinsert
    rw [Circuit.act_some (c := (Circuit.plugged cart (.board42 {})).placed) rfl] at hpage
    simp only [Circuit.low_obeyAll hspares hw (by omega : w < 16)] at hpage
    exact hpage.trans (Circuit.page_placed_low hw)
  exact ⟨hlow 6 (by decide), hlow 7 (by decide)⟩

/-- Below the ROM a machine shows what it showed when its cartridge was plugged in, switched banks of board
42 apart. -/
theorem low_run (hw : cart.WellFormed) (m₀ n₀ : Machine) {events : List Event}
    (hevents : ∀ e ∈ events, e.isNative = true) {w : Nat} (hlo : 6 ≤ w) (hhi : w < 8) :
    let m := events.foldl after (m₀.insert cart).2
    let n := (n₀.insert cart).2
    if cart.mapper = 42 ∧ (m.cpu.pages.page w).region = .prg then
      n.cpu.pages.page w = ⟨.sram, (w - 6) * 0x1000⟩
    else n.cpu.pages.page w = m.cpu.pages.page w := by
  intro m n
  obtain ⟨b, hb⟩ := board_of_wellFormed hw
  have hnumber : b.number = cart.mapper := Board.number_ofNumber? hb
  by_cases h42 : cart.mapper = 42
  · have hbattery : n.cpu.pages.page w = ⟨.sram, (w - 6) * 0x1000⟩ := by
      obtain ⟨h6, h7⟩ := battery_insert hb h42 n₀
      rcases (by omega : w = 6 ∨ w = 7) with rfl | rfl
      · exact h6
      · exact h7
    split
    case isTrue => exact hbattery
    case isFalse hbank =>
      have hlow : LowWindows cart.prg.size m.cpu.pages :=
        (run_native hw (insert_native hw m₀) events hevents).low
      rcases hlow.battery with ⟨h6, h7⟩ | ⟨k, h6, h7, -⟩
      · rcases (by omega : w = 6 ∨ w = 7) with rfl | rfl
        · exact hbattery.trans h6.symm
        · exact hbattery.trans h7.symm
      · refine absurd ⟨h42, ?_⟩ hbank
        rcases (by omega : w = 6 ∨ w = 7) with rfl | rfl
        · rw [h6]
        · rw [h7]
  · have hpast : ∀ h ∈ events.map Happening.event, h.isNative = true := by
      simpa [Happening.isNative] using hevents
    have hdescends := descends_insert hb m₀ n₀ hpast
    rw [List.foldl_map] at hdescends
    have hmoved : w < lowestMoved b.number := by
      rw [lowestMoved, hnumber, if_neg h42]
      exact hhi
    rw [if_neg fun h => h42 h.1]
    exact (hdescends.low w hmoved).symm

end Machine

/-! ### What comes back -/

namespace Machine

open Layout (Native)

variable {m k : Machine} {address : UInt16}

theorem table_window (hlo : 0x2000 ≤ address) (hhi : address < 0x3000) :
    ∃ w < 4, address.toNat / 0x400 = 8 + w := by
  have h2 : 0x2000 ≤ address.toNat := UInt16.le_iff_toNat_le.mp hlo
  have h3 : address.toNat < 0x3000 := UInt16.lt_iff_toNat_lt.mp hhi
  exact ⟨address.toNat / 0x400 - 8, by omega, by omega⟩

theorem read_remembered (hlo : 0x2000 ≤ address) (hhi : address < 0x3000)
    (hsame : k.ppu.nametables = m.ppu.nametables)
    (hpage : ∀ w < 4, k.ppu.pages.page (8 + w) = Snapshot.remembered m.ppu.pages w) :
    k.ppu.read k.cart address =
      if (m.ppu.pages.page (address.toNat / 0x400)).region = .nametable then m.ppu.read m.cart address
      else m.ppu.nametables.read (address.toNat % 0x1000) := by
  obtain ⟨w, hw, hwindow⟩ := table_window hlo hhi
  have hk := hpage w hw
  unfold Ppu.read
  by_cases hregion : (m.ppu.pages.page (8 + w)).region = .nametable
  · rw [Snapshot.remembered, if_pos hregion] at hk
    simp only [hwindow, hk, hregion, hsame, if_true]
  · rw [Snapshot.remembered, if_neg hregion] at hk
    have hindex : w * 0x400 + address.toNat % 0x400 = address.toNat % 0x1000 := by omega
    simp only [hwindow, hk, if_neg hregion, hindex, hsame]

theorem low_window (hlo : 0x6000 ≤ address) (hhi : address < 0x8000) :
    6 ≤ address.toNat / 0x1000 ∧ address.toNat / 0x1000 < 8 := by
  have h6 : 0x6000 ≤ address.toNat := UInt16.le_iff_toNat_le.mp hlo
  have h8 : address.toNat < 0x8000 := UInt16.lt_iff_toNat_lt.mp hhi
  omega

/-- The byte behind a window that shows what a fresh machine does: battery RAM, or what it showed before. -/
theorem peek_low {n : Machine} {lost : Prop} [Decidable lost] (hlo : 0x6000 ≤ address)
    (hhi : address < 0x8000) (hcpu : Cpu.SameState m.cpu k.cpu) (hprg : k.cart.prg = m.cart.prg)
    (hchr : k.cart.chr = m.cart.chr) (hsram : k.cart.sram = m.cart.sram) (hvram : k.cart.vram = m.cart.vram)
    (hpage : k.cpu.pages.page (address.toNat / 0x1000) = n.cpu.pages.page (address.toNat / 0x1000))
    (hfresh : if lost then
        n.cpu.pages.page (address.toNat / 0x1000) = ⟨.sram, (address.toNat / 0x1000 - 6) * 0x1000⟩
      else n.cpu.pages.page (address.toNat / 0x1000) = m.cpu.pages.page (address.toNat / 0x1000)) :
    k.cpu.peek k.cart address =
      if lost then m.cart.sram.read (address.toNat % 0x2000) else m.cpu.peek m.cart address := by
  obtain ⟨h6, h8⟩ := low_window hlo hhi
  have hindex : (address.toNat / 0x1000 - 6) * 0x1000 + address.toNat % 0x1000 =
      address.toNat % 0x2000 := by omega
  unfold Cpu.peek Cartridge.read
  by_cases hlost : lost
  · rw [if_pos hlost] at hfresh ⊢
    simp only [hpage, hfresh, hindex, hsram]
  · rw [if_neg hlost] at hfresh ⊢
    simp only [hpage, hfresh, hcpu.ram, hprg, hchr, hsram, hvram]

/-- The snapshot of a machine, taken over by one that has the same cartridge plugged in just now, brings back
every nametable window that shows an internal nametable, and the windows at $6000 unless they show a bank that
board 42 has switched there. A nametable window on pattern memory, which only board 19 has, comes back as the
internal nametable of its own number, and a switched bank as battery RAM. -/
theorem restore_outside_rom {cart : Cartridge} (hw : cart.WellFormed) (m₀ n₀ : Machine)
    {events : List Event} (hevents : ∀ e ∈ events, e.isNative = true) :
    let m := events.foldl after (m₀.insert cart).2
    let n := (n₀.insert cart).2
    ∃ k, n.restore m.save = .ok k ∧
      (∀ address : UInt16, 0x2000 ≤ address → address < 0x3000 → k.ppu.read k.cart address =
        if (m.ppu.pages.page (address.toNat / 0x400)).region = .nametable then
          m.ppu.read m.cart address
        else m.ppu.nametables.read (address.toNat % 0x1000)) ∧
      (∀ address : UInt16, 0x6000 ≤ address → address < 0x8000 → k.cpu.peek k.cart address =
        if cart.mapper = 42 ∧ (m.cpu.pages.page (address.toNat / 0x1000)).region = .prg then
          m.cart.sram.read (address.toNat % 0x2000)
        else m.cpu.peek m.cart address) ∧
      (cart.mapper ≠ 19 → ∀ address : UInt16, 0x2000 ≤ address → address < 0x3000 →
        (m.ppu.pages.page (address.toNat / 0x400)).region = .nametable) := by
  intro m n
  have hm : m.layout.Native cart := run_native hw (insert_native hw m₀) events hevents
  have hn : n.layout.Native cart := insert_native hw n₀
  have htables : ∀ w < 4, ShowsTable cart.mapper cart.chr.size (m.ppu.pages.page (8 + w)) :=
    hm.picture.tables
  obtain ⟨start, remark, hlayout, -, hrestore⟩ := Snapshot.restore_resumed hm hn
  have hresumes := Snapshot.resumes_resumed hm (hlayout.symm ▸ hn) hw
  obtain ⟨hlow, hpicture⟩ := Snapshot.windows_resumed m start htables
  have hrom : start.cart.rom = m.cart.rom := (congrArg Layout.rom hlayout).trans (hn.rom.trans hm.rom.symm)
  have hprgRom := congrArg Cartridge.prg hrom
  have hchrRom := congrArg Cartridge.chr hrom
  obtain ⟨hprg, hchr⟩ := Snapshot.roms_resumed m start
  refine ⟨_, hrestore, fun address hlo hhi => ?_, fun address hlo hhi => ?_, fun h19 address hlo hhi => ?_⟩
  · exact read_remembered hlo hhi hresumes.ppu.nametables hpicture
  · obtain ⟨h6, h8⟩ := low_window hlo hhi
    have hpage := (hlow _ h8).trans
      (congrArg (fun l : Layout => l.cpu.page (address.toNat / 0x1000)) hlayout)
    exact peek_low hlo hhi hresumes.cpu (hprg.trans hprgRom) (hchr.trans hchrRom) hresumes.sram
      hresumes.vram hpage (low_run hw m₀ n₀ hevents h6 h8)
  · obtain ⟨w, hw4, hwindow⟩ := table_window hlo hhi
    rcases htables w hw4 with ⟨t, -, htable⟩ | ⟨h, -⟩
    · rw [hwindow, htable]
    · exact absurd h h19

/-- A blank cartridge with a bank of pattern ROM in which every byte is the given one. -/
def patterned (mapper tile : UInt8) : Cartridge where
  prg := Array.replicate 0x4000 0
  chr := Array.replicate 0x2000 tile
  mapper := mapper

/-- A bank that board 42 has switched in gives way to battery RAM, and a nametable window that board 19 has
pointed at patterns to an empty internal nametable. -/
theorem restore_forgets_windows :
    (let m := [Event.write 0x6000 5, .write 0xE000 0].foldl after ((default : Machine).insert (.blank 42)).2
      ∃ k, ((default : Machine).insert (.blank 42)).2.restore m.save = .ok k ∧
        m.cpu.peek m.cart 0x6000 = 0 ∧ k.cpu.peek k.cart 0x6000 = 5) ∧
    (let m := [Event.write 0xC000 0].foldl after ((default : Machine).insert (patterned 19 7)).2
      ∃ k, ((default : Machine).insert (patterned 19 7)).2.restore m.save = .ok k ∧
        m.ppu.read m.cart 0x2000 = 7 ∧ k.ppu.read k.cart 0x2000 = 0) := by
  constructor
  · have hw : (Cartridge.blank 42).WellFormed := Cartridge.blank_wellFormed (by decide)
    obtain ⟨k, hrestore, -, hlow, -⟩ := restore_outside_rom hw default default
      (by decide : ∀ e ∈ [Event.write 0x6000 5, .write 0xE000 0], e.isNative = true)
    refine ⟨k, hrestore, by decide +kernel, ?_⟩
    rw [hlow 0x6000 (by decide) (by decide), if_pos ⟨rfl, by decide +kernel⟩]
    decide +kernel
  · have hw : (patterned 19 7).WellFormed :=
      ⟨⟨1, by decide, by decide, Array.size_replicate⟩, ⟨1, by decide, Array.size_replicate⟩,
        iff_of_false Bool.false_ne_true (by simp [patterned]), by decide⟩
    obtain ⟨k, hrestore, htables, -, -⟩ := restore_outside_rom hw default default
      (by decide : ∀ e ∈ [Event.write 0xC000 0], e.isNative = true)
    refine ⟨k, hrestore, by decide +kernel, ?_⟩
    rw [htables 0x2000 (by decide) (by decide), if_neg (by decide +kernel)]
    decide +kernel

end Machine

end Famicom
