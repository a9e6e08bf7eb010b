import Famicom.Proofs.Renewal

/-!
What the MMC3's program windows show, after every history. Its banks have 8KB, the last window shows the
last bank for ever, and one of two others is fixed to the second-last bank, which a command may move:

    command bit 6    $8000     $A000     $C000     $E000
    0                bank 6    bank 7    -2        -1
    1                -2        bank 7    bank 6    -1

The board moves windows only when it is told to, so this is an invariant of its registers and the
windows together (`Mmc3.Shown`); the registers have one of their own (`Mmc3.Tuned`).
-/

namespace Famicom

/-- The windows `w` and `w + 1` show the halves of a bank of 8KB, chosen by its number. -/
def PageTable.ShowsAt (t : PageTable) (size w : Nat) (bank : Int) : Prop :=
  ∀ i < 2, t.page (w + i) = ⟨.prg, wrapBank bank (size / 0x2000) * 0x2000 + i * 0x1000⟩

namespace PageTable

variable {t : PageTable} {size kb v w : Nat} {address : UInt16}

theorem showsAt_mapPrg (ha : address.toNat = w * 0x1000) (hw : w < 15) (bank : Int) :
    (t.mapPrg size 8 address bank).ShowsAt size w bank := by
  intro i hi
  rw [page_mapPrg t _ _ _ _ (by omega), if_pos (by omega), ha, Page.mk.injEq]
  refine ⟨rfl, ?_⟩
  rw [show w + i - w * 0x1000 / 0x1000 = i by omega]

/-- A bank of 16KB is two of 8KB. -/
theorem showsAt_mapPrg_double {n : Nat} (hn : 0 < n) (hsize : size = n * 0x4000)
    (ha : address.toNat = w * 0x1000) (hw : w < 13) (bank : Int) {j : Nat} (hj : j < 2) :
    (t.mapPrg size 16 address bank).ShowsAt size (w + 2 * j) ((2 * wrapBank bank n + j : Nat)) := by
  intro i hi
  have hbank := wrapBank_lt bank n
  have hcount : size / (16 * 1024) = n := by omega
  have hmax : max (size / 0x2000) 1 = 2 * n := by omega
  rw [page_mapPrg t _ _ _ _ (by omega), if_pos (by omega), hcount, wrapBank_natCast, hmax,
    Nat.mod_eq_of_lt (by omega), Page.mk.injEq]
  exact ⟨rfl, by omega⟩

/-- Windows apart from a switched one stay as they are. -/
theorem ShowsAt.mapPrg {b : Int} (h : t.ShowsAt size w b) (ha : address.toNat = v * 0x1000)
    (hapart : v + kb / 4 ≤ w ∨ w + 2 ≤ v) (hw : w < 15) (bank : Int) :
    (t.mapPrg size kb address bank).ShowsAt size w b := by
  intro i hi
  rw [page_mapPrg t _ _ _ _ (by omega), if_neg (by omega)]
  exact h i hi

/-- Switching a window to the bank that it shows changes nothing. -/
theorem ShowsAt.page_mapPrg {b : Int} (h : t.ShowsAt size w b) (ha : address.toNat = w * 0x1000)
    (hw : w < 15) {i : Nat} (hi : i < 16) : (t.mapPrg size 8 address b).page i = t.page i := by
  by_cases hcovered : w ≤ i ∧ i < w + 2
  · obtain ⟨j, rfl⟩ := Nat.exists_eq_add_of_le hcovered.1
    rw [showsAt_mapPrg ha hw b j (by omega), h j (by omega)]
  · rw [PageTable.page_mapPrg t _ _ _ _ hi, if_neg (by omega)]

/-- Only the bank that a number selects is shown. -/
theorem ShowsAt.congr {b b' : Int} (h : t.ShowsAt size w b)
    (hb : wrapBank b (size / 0x2000) = wrapBank b' (size / 0x2000)) : t.ShowsAt size w b' := by
  intro i hi
  rw [← hb]
  exact h i hi

/-- A window shows one bank. -/
theorem ShowsAt.unique {b b' : Int} (h : t.ShowsAt size w b) (h' : t.ShowsAt size w b') :
    wrapBank b (size / 0x2000) = wrapBank b' (size / 0x2000) := by
  have hpage := (h 0 (by omega)).symm.trans (h' 0 (by omega))
  rw [Page.mk.injEq] at hpage
  omega

end PageTable

namespace Mmc3

/-! ### Registers -/

/-- The derived registers follow the command, and the counter stays between its end and a byte. -/
structure Tuned (s : Mmc3) : Prop where
  chrBase : s.chrBase = chrBaseOf s.command
  prgSwap : s.prgSwap = s.command &&& 0x40
  low : -1 ≤ s.counter
  high : s.counter ≤ 255

theorem bank_le (value : UInt8) : 0 ≤ bank value ∧ bank value ≤ 255 := by
  have h := value.toNat_lt
  unfold bank
  omega

theorem write_eq (s : Mmc3) (view : View) (address : UInt16) (value : UInt8) :
    s.write view address value =
      ((s.writeRegister view address value).1.settle, (s.writeRegister view address value).2) := rfl

theorem Tuned.init : Tuned {} := ⟨rfl, rfl, by decide, by decide⟩

theorem Tuned.count {s : Mmc3} (h : s.Tuned) (reload : Bool) {counter : Int} (hlow : -1 ≤ counter)
    (hhigh : counter ≤ 255) : { s with reload, counter }.Tuned :=
  ⟨h.chrBase, h.prgSwap, hlow, hhigh⟩

theorem Tuned.settle {s : Mmc3} (h : s.Tuned) : s.settle.Tuned := by
  have hlatch := bank_le s.latch
  unfold Mmc3.settle
  split
  · exact h.count s.reload (by omega) hlatch.2
  · exact h

theorem Tuned.setCommand {s : Mmc3} (h : s.Tuned) (view : View) (value : UInt8) :
    (s.setCommand view value).1.Tuned := by
  simp only [Mmc3.setCommand]
  split
  case isTrue hswap => exact ⟨rfl, hswap, h.low, h.high⟩
  case isFalse => exact ⟨rfl, rfl, h.low, h.high⟩

theorem Tuned.write {s : Mmc3} (h : s.Tuned) (view : View) (address : UInt16) (value : UInt8) :
    (s.write view address value).1.Tuned := by
  have hlatch := bank_le s.latch
  rw [write_eq]
  refine Tuned.settle ?_
  unfold writeRegister
  dsimp only
  repeat' split
  · exact h.setCommand view value
  · exact h
  · exact h
  · exact h
  · exact ⟨h.chrBase, h.prgSwap, h.low, h.high⟩
  · exact h.count true (by omega) hlatch.2
  · exact ⟨h.chrBase, h.prgSwap, h.low, h.high⟩
  · exact ⟨h.chrBase, h.prgSwap, h.low, h.high⟩
  · exact h

theorem Tuned.hblank {s : Mmc3} (h : s.Tuned) (view : View) (vblank : Bool) :
    (s.hblank view vblank).1.Tuned := by
  have hlow := h.low
  have hhigh := h.high
  unfold Mmc3.hblank
  split
  · exact h
  case isFalse hcounts =>
    have hrunning : ¬ s.counter < 0 := by simp_all
    simp only
    split
    · exact h.count true (by omega) (by omega)
    · exact h.count false (by omega) (by omega)

/-! ### Which window a write switches -/

/-- Where a command fixes the second-last bank. -/
def fixedAddress (command : UInt8) : UInt16 := if command &&& 0x40 != 0 then 0x8000 else 0xC000

/-- Where a command leaves room for bank 6. -/
def freeAddress (command : UInt8) : UInt16 := if command &&& 0x40 != 0 then 0xC000 else 0x8000

/-- The program window that a write switches, and the bank that it shows from then on. -/
def switched (s : Mmc3) (view : View) (address : UInt16) (value : UInt8) : Option (UInt16 × Int) :=
  let p := address &&& 0xE001
  if p = 0x8000 then
    if s.prgSwap = value &&& 0x40 then none else some (fixedAddress value, view.prg8 - 2)
  else if p = 0x8001 then
    if s.command &&& 7 = 6 then some (freeAddress s.command, bank value)
    else if s.command &&& 7 = 7 then some (0xA000, bank value)
    else none
  else none

/-- The low three bits of a command are one of eight numbers. -/
theorem register_cases (command : UInt8) : command &&& 7 = 0 ∨ command &&& 7 = 1 ∨ command &&& 7 = 2 ∨
    command &&& 7 = 3 ∨ command &&& 7 = 4 ∨ command &&& 7 = 5 ∨ command &&& 7 = 6 ∨ command &&& 7 = 7 := by
  have hmod : (command &&& 7).toNat = command.toNat % 8 := by
    rw [UInt8.toNat_and]
    exact Nat.and_two_pow_sub_one_eq_mod _ 3
  simp only [← UInt8.toNat_inj, hmod, UInt8.toNat_ofNat, Nat.reducePow, Nat.reduceMod]
  omega

theorem cpu_bankSignals (s : Mmc3) (value : UInt8) (c : Circuit) :
    ((s.bankSignals value).foldl Circuit.obey c).cpu =
      if s.command &&& 7 = 6 then c.cpu.mapPrg c.rom.prg.size 8 (freeAddress s.command) (bank value)
      else if s.command &&& 7 = 7 then c.cpu.mapPrg c.rom.prg.size 8 0xA000 (bank value)
      else c.cpu := by
  rcases register_cases s.command with h | h | h | h | h | h | h | h <;>
    simp [bankSignals, freeAddress, h, Circuit.obey]

theorem cpu_setCommand (s : Mmc3) (view : View) (value : UInt8) (c : Circuit) :
    ((s.setCommand view value).2.foldl Circuit.obey c).cpu =
      if s.prgSwap = value &&& 0x40 then c.cpu
      else c.cpu.mapPrg c.rom.prg.size 8 (fixedAddress value) (view.prg8 - 2) := by
  simp only [setCommand]
  split
  · rfl
  · simp only [List.foldl_cons, List.foldl_nil, Circuit.obey, fixedAddress]

/-- The wiring of the nametables is no matter of program windows. -/
theorem cpu_wiring (fourScreen bit : Bool) (c : Circuit) :
    ((if fourScreen then [] else [.horizontalIf bit] : List Signal).foldl Circuit.obey c).cpu =
      c.cpu := by
  cases fourScreen <;> cases bit <;>
    simp [Signal.horizontalIf, Signal.horizontal, Signal.vertical, Circuit.obey]

/-- A write switches at most one program window. -/
theorem cpu_write (s : Mmc3) (view : View) (address : UInt16) (value : UInt8) (c : Circuit) :
    ((s.write view address value).2.foldl Circuit.obey c).cpu =
      match s.switched view address value with
      | some (window, bank) => c.cpu.mapPrg c.rom.prg.size 8 window bank
      | none => c.cpu := by
  simp only [write_eq, writeRegister, switched]
  split
  · rw [cpu_setCommand]
    split <;> rfl
  · split
    · rw [cpu_bankSignals]
      split
      · rfl
      · split <;> rfl
    · split
      · exact cpu_wiring _ _ c
      · split_ifs <;> rfl

/-- Registers of banks stay as they are when a reload is due. -/
theorem settle_banking (s : Mmc3) : s.settle.command = s.command ∧ s.settle.prgSwap = s.prgSwap := by
  unfold settle
  split <;> exact ⟨rfl, rfl⟩

/-- Only a write to the command register changes the command. -/
theorem command_write (s : Mmc3) (view : View) (address : UInt16) (value : UInt8) :
    (s.write view address value).1.command = if address &&& 0xE001 = 0x8000 then value else s.command := by
  rw [write_eq, (settle_banking _).1]
  unfold writeRegister
  dsimp only
  split
  · unfold setCommand
    dsimp only
    split <;> rfl
  · repeat' split
    all_goals rfl

theorem command_hblank (s : Mmc3) (view : View) (vblank : Bool) :
    (s.hblank view vblank).1.command = s.command := by
  unfold hblank
  dsimp only
  split_ifs <;> rfl

/-! ### The windows -/

/-- Where the second-last bank is shown under a command. -/
def fixedWindow (command : UInt8) : Nat := if command &&& 0x40 = 0 then 12 else 8

/-- Every program window shows a bank, the last one the last bank, and the fixed one the second-last. -/
structure Shown (size : Nat) (command : UInt8) (t : PageTable) : Prop where
  banks : ∀ k < 4, ∃ bank, t.ShowsAt size (8 + 2 * k) bank
  last : t.ShowsAt size 14 lastBank
  second : t.ShowsAt size (fixedWindow command) ((size / 0x2000 : Nat) - 2)

theorem fixedAddress_eq (command : UInt8) :
    (fixedAddress command).toNat = fixedWindow command * 0x1000 := by
  unfold fixedAddress fixedWindow
  by_cases h : command &&& 0x40 = 0 <;> simp [h]

theorem freeAddress_eq (command : UInt8) :
    (freeAddress command).toNat = (20 - fixedWindow command) * 0x1000 := by
  unfold freeAddress fixedWindow
  by_cases h : command &&& 0x40 = 0 <;> simp [h]

theorem fixedWindow_cases (command : UInt8) : fixedWindow command = 12 ∨ fixedWindow command = 8 := by
  unfold fixedWindow
  split <;> simp

section
variable {size v : Nat} {command : UInt8} {t : PageTable} {address : UInt16}

/-- Switching one of the first three windows leaves a bank in all of them. -/
theorem Shown.banks_mapPrg (h : Shown size command t) (hv : v = 8 ∨ v = 10 ∨ v = 12)
    (ha : address.toNat = v * 0x1000) (bank : Int) :
    ∀ k < 4, ∃ b, (t.mapPrg size 8 address bank).ShowsAt size (8 + 2 * k) b := by
  intro k hk
  by_cases hwindow : v = 8 + 2 * k
  · exact ⟨bank, PageTable.showsAt_mapPrg (hwindow ▸ ha) (by omega) bank⟩
  · obtain ⟨b, hb⟩ := h.banks k hk
    exact ⟨b, hb.mapPrg ha (by omega) (by omega) bank⟩

theorem Shown.last_mapPrg (h : Shown size command t) (hv : v = 8 ∨ v = 10 ∨ v = 12)
    (ha : address.toNat = v * 0x1000) (bank : Int) :
    (t.mapPrg size 8 address bank).ShowsAt size 14 lastBank :=
  h.last.mapPrg ha (by omega) (by omega) bank

/-- Switching a window that is not fixed. -/
theorem Shown.switch (h : Shown size command t) (hv : v = 8 ∨ v = 10 ∨ v = 12)
    (hfree : v ≠ fixedWindow command) (ha : address.toNat = v * 0x1000) (bank : Int) :
    Shown size command (t.mapPrg size 8 address bank) := by
  have hfixed := fixedWindow_cases command
  exact ⟨h.banks_mapPrg hv ha bank, h.last_mapPrg hv ha bank,
    h.second.mapPrg ha (by omega) (by omega) bank⟩

/-- Moving the second-last bank to where another command fixes it. -/
theorem Shown.move (h : Shown size command t) (command' : UInt8) :
    Shown size command' (t.mapPrg size 8 (fixedAddress command') ((size / 0x2000 : Nat) - 2)) := by
  have hfixed := fixedWindow_cases command'
  have ha := fixedAddress_eq command'
  exact ⟨h.banks_mapPrg (by omega) ha _, h.last_mapPrg (by omega) ha _,
    PageTable.showsAt_mapPrg ha (by omega) _⟩

end

theorem Shown.write {s : Mmc3} {view : View} {c : Circuit} (h : Shown c.rom.prg.size s.command c.cpu)
    (hs : s.Tuned) (hview : view.Of c.rom) (address : UInt16) (value : UInt8) :
    Shown c.rom.prg.size (s.write view address value).1.command
      ((s.write view address value).2.foldl Circuit.obey c).cpu := by
  have hprg8 : view.prg8 = (c.rom.prg.size / 0x2000 : Nat) := by rw [View.prg8, hview.prgSize]
  have hfixed := fixedWindow_cases s.command
  rw [cpu_write, command_write, switched, hprg8]
  by_cases hcommand : address &&& 0xE001 = 0x8000
  · simp only [if_pos hcommand]
    by_cases hsame : s.prgSwap = value &&& 0x40
    · -- the swap bit is the old one, so both commands fix the same window
      have hwindow : fixedWindow value = fixedWindow s.command := by
        rw [fixedWindow, fixedWindow, ← hsame, ← hs.prgSwap]
      rw [if_pos hsame]
      exact ⟨h.banks, h.last, hwindow ▸ h.second⟩
    · rw [if_neg hsame]
      exact h.move value
  · simp only [if_neg hcommand]
    by_cases hbank : address &&& 0xE001 = 0x8001
    · rw [if_pos hbank]
      by_cases h6 : s.command &&& 7 = 6
      · rw [if_pos h6]
        exact h.switch (by omega) (by omega) (freeAddress_eq s.command) (bank value)
      · rw [if_neg h6]
        by_cases h7 : s.command &&& 7 = 7
        · rw [if_pos h7]
          exact h.switch (v := 10) (by omega) (by omega) rfl (bank value)
        · rw [if_neg h7]
          exact h
    · rw [if_neg hbank]
      exact h

end Mmc3

/-! ### Every history -/

/-- The board is the MMC3 with these registers, and its invariants hold. -/
structure Circuit.HasMmc3 (c : Circuit) (s : Mmc3) : Prop where
  board : c.board = some (.mmc3 s)
  tuned : s.Tuned
  shown : Mmc3.Shown c.rom.prg.size s.command c.cpu

namespace Circuit

variable {c : Circuit} {s : Mmc3}

/-- Every cue keeps the invariants. -/
theorem HasMmc3.hear (h : c.HasMmc3 s) {cue : Cue} (hcue : cue.Fits c.rom) :
    ∃ s', (c.hear cue).HasMmc3 s' := by
  have hrom : (c.hear cue).rom = c.rom := c.rom_act _
  rw [Circuit.hear, act_some h.board] at hrom ⊢
  cases cue with
  | write view address value =>
    let d : Circuit := { c with board := some (.mmc3 (s.write view address value).1) }
    have hshown := Mmc3.Shown.write (c := d) h.shown h.tuned hcue address value
    refine ⟨(s.write view address value).1, board_obeyAll d _, h.tuned.write view address value, ?_⟩
    rw [hrom]
    exact hshown
  | hblank view vblank =>
    let d : Circuit := { c with board := some (.mmc3 (s.hblank view vblank).1) }
    have hstays : (s.hblank view vblank).2.foldl obey d = d :=
      d.obey_irqs _ ((Board.mmc3 s).hblank_irq view vblank)
    refine ⟨(s.hblank view vblank).1, board_obeyAll d _, h.tuned.hblank view vblank, ?_⟩
    rw [hrom, s.command_hblank]
    exact (congrArg (fun d : Circuit => Mmc3.Shown c.rom.prg.size s.command d.cpu) hstays).mpr h.shown
  | strobe value => exact ⟨s, rfl, h.tuned, h.shown⟩
  | drawn base tile => exact ⟨s, rfl, h.tuned, h.shown⟩

theorem wrapBank_last {n : Nat} (hn : 0 < n) : wrapBank lastBank n = n - 1 := by
  have hmax : max n 1 = n := by omega
  have hmod : (lastBank + n) % (n : Int) = ((n - 1 : Nat) : Int) := by
    rw [show lastBank + n = ((n - 1 : Nat) : Int) by unfold lastBank; omega]
    exact Int.emod_eq_of_lt (by omega) (by omega)
  rw [wrapBank, hmax, ← Int.add_emod_right, hmod, Int.toNat_natCast]

/-- The first position of the windows shows what a fresh board expects. -/
theorem shown_placed {n : Nat} (hn : 0 < n) (hsize : c.rom.prg.size = n * 0x4000) :
    Mmc3.Shown c.rom.prg.size 0 c.placed.cpu := by
  have hfirst := fun j hj =>
    @PageTable.showsAt_mapPrg_double c.cpu _ 8 0x8000 n hn hsize rfl (by omega) 0 j hj
  generalize hfirstPages : c.cpu.mapPrg c.rom.prg.size 16 0x8000 0 = t at hfirst
  have hlast := fun j hj =>
    @PageTable.showsAt_mapPrg_double t _ 12 0xC000 n hn hsize rfl (by omega) lastBank j hj
  have hplaced : c.placed.cpu = t.mapPrg c.rom.prg.size 16 0xC000 lastBank := by
    rw [← hfirstPages]
    rfl
  rw [wrapBank_last hn] at hlast
  rw [hplaced]
  refine ⟨fun k hk => ?_, ?_, ?_⟩
  · rcases (by omega : k < 2 ∨ 2 ≤ k) with hlow | hhigh
    · exact ⟨_, (hfirst k hlow).mapPrg (v := 12) rfl (by omega) (by omega) lastBank⟩
    · rw [show 8 + 2 * k = 12 + 2 * (k - 2) by omega]
      exact ⟨_, hlast (k - 2) (by omega)⟩
  · refine (hlast 1 (by omega)).congr ?_
    rw [wrapBank_last (by omega), wrapBank_natCast, Nat.mod_eq_of_lt (by omega)]
    omega
  · refine (hlast 0 (by omega)).congr ?_
    rw [show ((c.rom.prg.size / 0x2000 : Nat) : Int) - 2 = ((2 * (n - 1) + 0 : Nat) : Int) by omega]

/-- Resetting an MMC3 cartridge establishes the invariants. -/
theorem hasMmc3_init {n : Nat} (hn : 0 < n) (hsize : c.rom.prg.size = n * 0x4000)
    (hboard : c.board = some (.mmc3 s)) (view : View) : (c.placed.act (·.init view)).HasMmc3 {} := by
  have hshown := shown_placed hn hsize
  have hplaced : c.placed.board = some (.mmc3 s) ∧ c.placed.rom = c.rom := by
    simp only [placed, hboard, and_self]
  generalize c.placed = d at hshown hplaced
  rw [act_some hplaced.1]
  rw [← hplaced.2] at hshown
  exact ⟨rfl, Mmc3.Tuned.init, hshown⟩

end Circuit

namespace Machine

variable {cart : Cartridge}

/-- A freshly plugged-in MMC3 cartridge. -/
theorem hasMmc3_insert (hw : cart.WellFormed) (hmapper : cart.mapper = 4) (m₀ : Machine) :
    (m₀.insert cart).2.circuit.HasMmc3 {} ∧
      (m₀.insert cart).2.circuit.rom.prg.size = cart.prg.size := by
  obtain ⟨k, hk, -, hsize⟩ := hw.prg
  obtain ⟨n, hn, hplugged, -⟩ := insert_plugged hw m₀
  obtain ⟨b, hb, hnumber⟩ := Option.map_eq_some_iff.mp hplugged.board
  obtain ⟨s, rfl⟩ := Board.mmc3_of_number (hnumber.trans hmapper)
  obtain ⟨view, -, hreset⟩ := n.circuit_reset .hard hplugged.hasCartridge
  have hprg : n.circuit.rom.prg.size = cart.prg.size := hplugged.prgSize
  have hrom : (n.reset .hard).circuit.rom = n.circuit.rom := by
    rw [hreset, Circuit.rom_act, Circuit.placed]
  rw [hn]
  refine ⟨?_, by rw [hrom, hprg]⟩
  rw [hreset]
  exact Circuit.hasMmc3_init hk (hprg.trans hsize) hb view

/-- It keeps the invariants, short of taking snapshots over. -/
theorem hasMmc3_run (hw : cart.WellFormed) (hmapper : cart.mapper = 4) (m₀ : Machine)
    {events : List Event} (hevents : ∀ e ∈ events, e.isNative = true) :
    ∃ s, (events.foldl after (m₀.insert cart).2).circuit.HasMmc3 s := by
  obtain ⟨k, hk, -, hsize⟩ := hw.prg
  obtain ⟨hfresh, hprg⟩ := hasMmc3_insert hw hmapper m₀
  -- along the run: the size of the ROM, and the invariants of some registers
  let P : Circuit → Prop := fun c => c.rom.prg.size = k * 0x4000 ∧ ∃ s, c.HasMmc3 s
  have hhear : ∀ {c : Circuit} {cue : Cue}, cue.Fits c.rom → P c → P (c.hear cue) := by
    rintro c cue hcue ⟨hsize, s, hs⟩
    exact ⟨by rw [Circuit.hear, Circuit.rom_act, hsize], hs.hear hcue⟩
  have hinit : ∀ {c : Circuit} {view : View}, view.Of c.rom → P c → P (c.placed.act (·.init view)) := by
    rintro c view - ⟨hsize, s, hs⟩
    refine ⟨?_, {}, Circuit.hasMmc3_init hk hsize hs.board view⟩
    rw [Circuit.rom_act, Circuit.placed, hsize]
  exact (run_circuit _ hevents hhear hinit ⟨hprg.trans hsize, {}, hfresh⟩).2

end Machine

end Famicom
