import Famicom.Proofs.Powered

/-!
The two ways in which the processor comes to a byte. Data is read over the bus; opcodes, operands, vectors and
the bytes of a sprite transfer are taken straight from the windows.

    address        over the bus         from the windows
    $0000-$0FFF    RAM, repeated        RAM, repeated
    $1000-$1FFF    RAM, repeated        nothing, window 1 is dead
    $6000-$7FFF    windows 6 and 7      the same
    $8000-$FFFF    windows 8 to 15      the same

So both ways lead to the same memory, except that the windows lack the upper half of RAM's repetitions:
a program that runs there sees zeros, and a transfer from there brings zeros.
-/

namespace Famicom

/-! ### Over the bus -/

/-- Ranges that end below an address do not hold it. -/
theorem covered_eq_false {ranges : List AddressRange} {address : UInt16}
    (h : ∀ r ∈ ranges, r.2 < address) : covered ranges address = false := by
  refine List.any_eq_false.mpr fun r hr => ?_
  simp [UInt16.not_le.mpr (h r hr)]

/-- No board answers a read above its registers. -/
theorem Board.covered_readRanges (b : Board) {address : UInt16} (h : 0x6000 ≤ address) :
    covered b.readRanges address = false := by
  refine covered_eq_false fun r hr => ?_
  have hend : r.2 < 0x6000 := by
    cases b <;> simp [readRanges, Mmc5.readRanges] at hr
    simp [hr]
  exact UInt16.lt_of_lt_of_le hend h

/-- Nor does a sound chip. -/
theorem Expansion.covered_readRanges (e : Expansion) {address : UInt16} (h : 0x6000 ≤ address) :
    covered e.readRanges address = false := by
  refine covered_eq_false fun r hr => ?_
  have hend : r.2 < 0x6000 := by
    cases e <;> simp [readRanges, Mmc5Sound.readRanges] at hr
    simp [hr]
  exact UInt16.lt_of_lt_of_le hend h

namespace Machine

variable (m : Machine) {address : UInt16}

/-- Above the registers the cartridge leaves all reads to the windows. -/
theorem readCartridge_window (h : 0x6000 ≤ address) :
    m.readCartridge address = m.cpu.peek m.cart address := by
  have hchip : m.sound.expansion.filter (fun e => covered e.readRanges address) = none :=
    Option.filter_eq_none_iff.mpr fun e _ => by simp [e.covered_readRanges h]
  have hboard : m.board.filter (fun b => covered b.readRanges address) = none :=
    Option.filter_eq_none_iff.mpr fun b _ => by simp [b.covered_readRanges h]
  have hopen : covered openBus address = false :=
    covered_eq_false fun r hr => by
      obtain rfl := List.mem_singleton.mp hr
      exact UInt16.lt_of_lt_of_le (by decide) h
  simp [readCartridge, hchip, hboard, hopen]

/-- Cartridge memory is read over the bus as the windows show it. -/
theorem read_window (h : 0x6000 ≤ address) : (m.read address).1 = m.cpu.peek m.cart address := by
  have above : ∀ register : UInt16, register < 0x6000 → ¬ address < register ∧ address ≠ register := by
    intro register hlow
    have hlt := UInt16.lt_of_lt_of_le hlow h
    exact ⟨UInt16.not_lt.mpr (UInt16.le_of_lt hlt), (UInt16.ne_of_lt hlt).symm⟩
  unfold read
  rw [if_neg (above 0x2000 (by decide)).1]
  split
  · rfl
  · rw [if_neg (above 0x4000 (by decide)).1, if_neg (above 0x4015 (by decide)).1,
      if_neg (above 0x4015 (by decide)).2, if_neg (above 0x4016 (by decide)).2,
      if_neg (above 0x4017 (by decide)).2]
    exact m.readCartridge_window h

/-- RAM repeats four times over the bus. -/
theorem read_ram (h : address < 0x2000) : (m.read address).1 = m.cpu.ram.read address.toNat := by
  unfold read
  rw [if_pos h]

/-! ### From the windows -/

/-- RAM repeats twice in the first window. -/
theorem peek_ram {prgSize : Nat} (hw : LowWindows prgSize m.cpu.pages) (h : address < 0x1000) :
    m.cpu.peek m.cart address = m.cpu.ram.read address.toNat := by
  have hlow : address.toNat < 0x1000 := UInt16.lt_iff_toNat_lt.mp h
  have hwindow : address.toNat / 0x1000 = 0 := by omega
  have hindex : 0 + address.toNat % 0x1000 = address.toNat := by omega
  simp only [Cpu.peek, hwindow, hw.ram, hindex]

/-- The second window shows nothing. -/
theorem peek_dead {prgSize : Nat} (hw : LowWindows prgSize m.cpu.pages) (hlo : 0x1000 ≤ address)
    (hhi : address < 0x2000) : m.cpu.peek m.cart address = 0 := by
  have h1 : 0x1000 ≤ address.toNat := UInt16.le_iff_toNat_le.mp hlo
  have h2 : address.toNat < 0x2000 := UInt16.lt_iff_toNat_lt.mp hhi
  have hwindow : address.toNat / 0x1000 = 1 := by omega
  simp only [Cpu.peek, hwindow, hw.dead 1 (by decide) (by decide)]
  rfl

/-- Whatever a console has been through, RAM and the cartridge's memory show the same byte over the bus and
through the windows, except from $1000 to $1FFF: there the bus repeats RAM, and the windows show zeros. -/
theorem peek_read {bytes : Array UInt8} {name : String} {cart : Cartridge}
    (hparse : Image.parse bytes name = .ok cart) (m₀ : Machine) (events : List Event) {address : UInt16}
    (hmemory : address < 0x2000 ∨ 0x6000 ≤ address) :
    let m := events.foldl after (m₀.insert cart).2
    (m.cpu.peek m.cart address =
      if 0x1000 ≤ address ∧ address < 0x2000 then 0 else (m.read address).1) ∧
      (address < 0x2000 → (m.read address).1 = m.cpu.ram.read address.toNat) := by
  intro m
  have hwell := Image.parse_wellFormed hparse
  have hw : LowWindows cart.prg.size m.cpu.pages := (run_powered hwell (insert_powered hwell m₀) events).low
  refine ⟨?_, fun hram => m.read_ram hram⟩
  split
  case isTrue hdead => exact m.peek_dead hw hdead.1 hdead.2
  case isFalse hlive =>
    rcases hmemory with hram | hcart
    · have hfirst : address < 0x1000 := UInt16.not_le.mp fun h => hlive ⟨h, hram⟩
      rw [m.read_ram hram, m.peek_ram hw hfirst]
    · exact (m.read_window hcart).symm

/-- A byte stored in RAM is read over the bus at $1000, but a sprite transfer from there brings zeros. -/
theorem transfer_misses_ram : ∃ cart, Image.parse (Image.blank 0) "" = .ok cart ∧
    let m := [Event.write 0 0x55].foldl after ((default : Machine).insert cart).2
    (m.read 0x1000).1 = 0x55 ∧ m.block 0x10 = Memory.zero 0x100 := by
  obtain ⟨cart, hparse, -⟩ := @Image.parse_blank 0 (by decide) (by decide)
  refine ⟨cart, hparse, ?_, ?_⟩
  · rw [(peek_read hparse default [.write 0 0x55] (by decide)).2 (by decide)]
    exact Memory.read_write_self _ (by decide) 0 _
  · have hpage : ∀ i : Fin 0x100, let address := (0x10 : UInt8).toUInt16 <<< 8 + UInt16.ofNat i.val
        0x1000 ≤ address ∧ address < 0x2000 := by decide +kernel
    refine Vector.ext fun i hi => ?_
    have hdead := hpage ⟨i, hi⟩
    have hpeek := (peek_read hparse default [.write 0 0x55] (.inl hdead.2)).1
    rw [if_pos hdead] at hpeek
    simpa [block, Memory.zero, Memory.filled] using hpeek

end Machine

end Famicom
