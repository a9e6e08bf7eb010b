import Famicom.Proofs.Renewal

/-!
The MMC5's registers on the bus. Its sound comes before its board there, and takes two ranges out of the
board's own:

    $5114-$5115   program banks of $8000 and $A000: the sound ignores them, so nothing ever switches
    $5205-$5206   factors of the multiplier, which the board does not know either

Everywhere else a write over the bus is a write straight to the board.
-/

namespace Famicom

/-- The windows, and the board with its registers and its interrupt. -/
def Machine.wiring (m : Machine) : PageTable × PageTable × Option Board :=
  (m.cpu.pages, m.ppu.pages, m.board)

theorem Expansion.mmc5_of_chip {e : Expansion} (h : e.chip = .mmc5) : ∃ s, e = .mmc5 s := by
  cases e with
  | mmc5 s => exact ⟨s, rfl⟩
  | _ => simp [Expansion.chip] at h

/-! ### Who answers -/

theorem covered_mmc5Sound {address : UInt16} (h : 0x5016 ≤ address) :
    covered Mmc5Sound.writeRanges address =
      (address == 0x5114 || address == 0x5115 || address == 0x5205 || address == 0x5206) := by
  simp only [covered, Mmc5Sound.writeRanges, List.any_cons, List.any_nil, Bool.or_false]
  rw [Bool.eq_iff_iff]
  simp only [Bool.or_eq_true, Bool.and_eq_true, decide_eq_true_eq, beq_iff_eq, UInt16.le_iff_toNat_le,
    ← UInt16.toNat_inj] at h ⊢
  simp only [UInt16.toNat_ofNat, Nat.reducePow, Nat.reduceMod] at h ⊢
  omega

/-- The board's registers lie above those of the console. -/
theorem high_of_board {address : UInt16} (h : 0x5016 ≤ address ∧ address ≤ 0x5FFF ∨ 0x8000 ≤ address) :
    0x5016 ≤ address := by
  rcases h with h | h
  · exact h.1
  · exact UInt16.le_trans (by decide) h

theorem covered_mmc5 {address : UInt16} (h : 0x5016 ≤ address ∧ address ≤ 0x5FFF ∨ 0x8000 ≤ address) :
    covered Mmc5.writeRanges address = true := by
  simpa [covered, Mmc5.writeRanges, Machine.le_top] using h

namespace Machine

variable (m : Machine)

/-- A machine whose board and sound chip are the MMC5's. -/
structure HasMmc5 (m : Machine) : Prop where
  board : ∃ s, m.board = some (.mmc5 s)
  sound : ∃ s, m.sound.expansion = some (.mmc5 s)

variable {m}

theorem hasMmc5_of_powered {cart : Cartridge} (h : m.layout.Powered cart) (h5 : cart.mapper = 5) :
    m.HasMmc5 := by
  constructor
  · obtain ⟨b, hb, hn⟩ := Option.map_eq_some_iff.mp h.board
    obtain ⟨s, rfl⟩ := Board.mmc5_of_number (hn.trans h5)
    exact ⟨s, hb⟩
  · have hchip : m.sound.chip = some .mmc5 := by
      have hc := h.chip
      rw [h5] at hc
      exact hc
    obtain ⟨e, he, hc⟩ := Option.map_eq_some_iff.mp hchip
    obtain ⟨s, rfl⟩ := Expansion.mmc5_of_chip hc
    exact ⟨s, he⟩

variable {address : UInt16}

/-- What the sound takes, it takes alone. -/
theorem HasMmc5.wiring_sound (h : m.HasMmc5) (ha : 0x5016 ≤ address)
    (hc : covered Mmc5Sound.writeRanges address = true) (value : UInt8) :
    (m.write address value).wiring = m.wiring := by
  obtain ⟨s, hs⟩ := h.sound
  rw [m.write_high ha]
  unfold writeCartridge
  have hfilter :
      m.sound.expansion.filter (fun e => covered e.writeRanges address) = some (.mmc5 s) := by
    simp [hs, Expansion.writeRanges, hc]
  simp only [hfilter]
  rfl

/-- What the sound leaves, the board gets. -/
theorem HasMmc5.write_board (h : m.HasMmc5)
    (ha : 0x5016 ≤ address ∧ address ≤ 0x5FFF ∨ 0x8000 ≤ address)
    (hc : covered Mmc5Sound.writeRanges address = false) (value : UInt8) :
    m.write address value = m.boardWrite address value := by
  obtain ⟨s, hs⟩ := h.sound
  obtain ⟨b, hb⟩ := h.board
  have hchip : m.sound.expansion.filter (fun e => covered e.writeRanges address) = none := by
    simp [hs, Expansion.writeRanges, hc]
  exact m.write_board (high_of_board ha) hb hchip (covered_mmc5 ha) value

/-- The board does not know the factors of the multiplier: it only logs them. -/
theorem HasMmc5.wiring_factor (h : m.HasMmc5) (ha : address = 0x5205 ∨ address = 0x5206)
    (value : UInt8) :
    (m.boardWrite address value).wiring = m.wiring := by
  obtain ⟨b, hb⟩ := h.board
  rcases ha with rfl | rfl <;>
    simp [boardWrite, withBoard, hb, Board.write, Board.lift, Mmc5.write, obeyAll, obey, note, wiring]

/-- Written straight, both registers of the lost range switch the window at $8000. -/
theorem HasMmc5.page_bank (h : m.HasMmc5) (ha : address = 0x5114 ∨ address = 0x5115) (value : UInt8) :
    (m.boardWrite address value).cpu.pages.page 8 =
      ⟨.prg, wrapBank (bank value) (m.cart.prg.size / 0x2000) * 0x2000⟩ := by
  obtain ⟨b, hb⟩ := h.board
  rcases ha with rfl | rfl
  · simp [boardWrite, withBoard, hb, Board.write, Board.lift, Mmc5.write, obeyAll, obey,
      PageTable.page_mapPrg]
  · simp [boardWrite, withBoard, hb, Board.write, Board.lift, Mmc5.write, obeyAll, obey,
      PageTable.page_mapPrg]

/-- They switch nothing but windows of the processor. -/
theorem HasMmc5.wiring_bank (h : m.HasMmc5) (ha : address = 0x5114 ∨ address = 0x5115) (value : UInt8) :
    (m.boardWrite address value).wiring =
      ((m.boardWrite address value).cpu.pages, m.ppu.pages, m.board) := by
  obtain ⟨b, hb⟩ := h.board
  rcases ha with rfl | rfl <;>
    simp [boardWrite, withBoard, hb, Board.write, Board.lift, Mmc5.write, obeyAll, obey, wiring]

/-- Over the bus they switch nothing at all. -/
theorem HasMmc5.wiring_lost (h : m.HasMmc5) (ha : address = 0x5114 ∨ address = 0x5115) (value : UInt8) :
    (m.write address value).wiring = m.wiring := by
  rcases ha with rfl | rfl
  · exact h.wiring_sound (by decide) rfl value
  · exact h.wiring_sound (by decide) rfl value

/-- All other registers work over the bus as they do straight. -/
theorem HasMmc5.wiring_write (h : m.HasMmc5)
    (haddress : 0x5016 ≤ address ∧ address ≤ 0x5FFF ∨ 0x8000 ≤ address)
    (ha : ¬ (address = 0x5114 ∨ address = 0x5115)) (value : UInt8) :
    (m.write address value).wiring = (m.boardWrite address value).wiring := by
  have hlow := high_of_board haddress
  have hcovered := covered_mmc5Sound hlow
  by_cases hfactor : address = 0x5205 ∨ address = 0x5206
  · have hsound : covered Mmc5Sound.writeRanges address = true := by
      rcases hfactor with rfl | rfl <;> rfl
    rw [h.wiring_factor hfactor, h.wiring_sound hlow hsound]
  · obtain ⟨h14, h15⟩ := not_or.mp ha
    obtain ⟨h05, h06⟩ := not_or.mp hfactor
    have hsound : covered Mmc5Sound.writeRanges address = false := by simp [*]
    rw [h.write_board haddress hsound]

/-- Two banks cannot both be where a write that switches nothing leaves the window. -/
theorem HasMmc5.lost_bank (h : m.HasMmc5) (hprg : 0x4000 ≤ m.cart.prg.size)
    (ha : address = 0x5114 ∨ address = 0x5115) :
    ∃ value, (m.boardWrite address value).wiring ≠ m.wiring := by
  refine Classical.byContradiction fun hnone => ?_
  have hstays : ∀ value, (m.boardWrite address value).cpu.pages = m.cpu.pages := fun value =>
    congrArg Prod.fst (Classical.byContradiction fun hne => hnone ⟨value, hne⟩)
  have h0 := h.page_bank ha 0
  have h1 := h.page_bank ha 1
  rw [hstays] at h0 h1
  have hoffset := congrArg Page.offset (h0.symm.trans h1)
  have hcount : 1 < max (m.cart.prg.size / 0x2000) 1 := by omega
  simp only [bank, wrapBank_natCast, UInt8.toNat_ofNat] at hoffset
  generalize max (m.cart.prg.size / 0x2000) 1 = count at hoffset hcount
  have hzero : 0 % 2 ^ 8 % count = 0 := Nat.zero_mod count
  have hone : 1 % 2 ^ 8 % count = 1 := Nat.mod_eq_of_lt hcount
  omega

/-- The MMC5's registers over the bus, in every state: a write does what it does straight to the board,
except that the bank registers at $5114 and $5115 switch nothing at all. So the two agree exactly where
the bank is shown already, and for either register there is a bank that it fails to show. -/
theorem mmc5_bus_write {bytes : Array UInt8} {name : String} {cart : Cartridge}
    (hparse : Image.parse bytes name = .ok cart) (hmapper : cart.mapper = 5) (m₀ : Machine)
    (events : List Event) {address : UInt16}
    (haddress : 0x5016 ≤ address ∧ address ≤ 0x5FFF ∨ 0x8000 ≤ address) (value : UInt8) :
    let m := events.foldl after (m₀.insert cart).2
    ((m.write address value).wiring = (m.boardWrite address value).wiring ↔
        (address = 0x5114 ∨ address = 0x5115 → (m.boardWrite address value).cpu.pages = m.cpu.pages)) ∧
      (address = 0x5114 ∨ address = 0x5115 →
        (m.write address value).wiring = m.wiring ∧
        ∃ other, (m.write address other).wiring ≠ (m.boardWrite address other).wiring) := by
  intro m
  have hw := Image.parse_wellFormed hparse
  have hpowered : m.layout.Powered cart := run_powered hw (insert_powered hw m₀) events
  have h : m.HasMmc5 := hasMmc5_of_powered hpowered hmapper
  have hprg : 0x4000 ≤ m.cart.prg.size := by
    obtain ⟨n, hn, -, hsize⟩ := hw.prg
    rw [show m.cart.prg.size = cart.prg.size from hpowered.prgSize]
    omega
  refine ⟨?_, fun ha => ⟨h.wiring_lost ha value, ?_⟩⟩
  · by_cases ha : address = 0x5114 ∨ address = 0x5115
    · rw [h.wiring_lost ha value, h.wiring_bank ha value]
      simp only [ha, forall_const, wiring, Prod.mk.injEq, and_true]
      exact eq_comm
    · exact iff_of_true (h.wiring_write haddress ha value) fun hc => absurd hc ha
  · obtain ⟨other, hother⟩ := h.lost_bank hprg ha
    refine ⟨other, ?_⟩
    rw [h.wiring_lost ha other]
    exact hother.symm

/-- A fresh MMC5 cartridge loses what is written to $5114, whatever the bank. -/
theorem mmc5_bus_write_fresh : ∃ cart, Image.parse (Image.blank 0x50) "" = .ok cart ∧ cart.mapper = 5 ∧
    let m := ((default : Machine).insert cart).2
    (m.write 0x5114 1).wiring = m.wiring ∧
      ∃ value, (m.write 0x5114 value).wiring ≠ (m.boardWrite 0x5114 value).wiring := by
  obtain ⟨cart, hparse, hmapper⟩ := @Image.parse_blank 0x50 (by decide) (by decide)
  exact ⟨cart, hparse, hmapper, (mmc5_bus_write hparse hmapper default [] (by decide) 1).2 (Or.inl rfl)⟩

end Machine

end Famicom
