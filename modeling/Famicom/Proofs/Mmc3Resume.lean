import Famicom.Proofs.Mmc3InStep
import Famicom.Proofs.Resume

/-!
Snapshots of the MMC3. Four bytes are kept of the board, and three facts are not among them:

    fact                      what comes back             what tells the difference
    an expired counter, -1    255                         256 lines later, an interrupt
    a due reload              no reload                   the next write and line
    the swap bit              0                           commands, if they find other banks

So a machine that takes the snapshot over goes on like the first one, bank for bank and interrupt for
interrupt, exactly if there is nothing of the kind to forget (`Circuit.agree_iff`).
-/

namespace Famicom

/-! ### The registers out of a snapshot -/

namespace Mmc3

/-- What a fresh board takes out of the bytes that a board keeps. -/
def reloaded (s : Mmc3) : Mmc3 := ({} : Mmc3).load fun i => s.save.getD i 0

theorem load_congr (s : Mmc3) {bytes bytes' : Nat → UInt8} (h : ∀ i < 4, bytes i = bytes' i) :
    s.load bytes = s.load bytes' := by
  simp only [load, h 0 (by omega), h 1 (by omega), h 2 (by omega), h 3 (by omega)]

theorem reloaded_eq (s : Mmc3) : s.reloaded =
    { s with
      counter := bank (UInt8.ofInt s.counter)
      chrBase := chrBaseOf s.command
      prgSwap := 0
      reload := false } := by
  obtain ⟨command, chrBase, prgSwap, counter, latch, enabled, reload⟩ := s
  cases enabled <;> rfl

/-- A byte keeps the counter, but not the sign of an expired one. -/
theorem counter_reloaded {s : Mmc3} (h : s.Tuned) :
    s.reloaded.counter = if 0 ≤ s.counter then s.counter else 255 := by
  have hlow := h.low
  have hhigh := h.high
  rw [reloaded_eq]
  show bank (UInt8.ofInt s.counter) = _
  split
  case isTrue hcounts =>
    obtain ⟨n, hn⟩ := Int.eq_ofNat_of_zero_le hcounts
    rw [hn] at hhigh ⊢
    simp only [bank, UInt8.ofInt, UInt8.toNat_ofNat']
    omega
  case isFalse hends =>
    rw [show s.counter = -1 by omega]
    rfl

/-- Nothing but the swap bit is lost while the counter runs and no reload is due. -/
theorem reloaded_running {s : Mmc3} (h : s.Tuned) (hcounter : 0 ≤ s.counter)
    (hreload : s.reload = false) : s.reloaded = s.unswapped := by
  have hback := counter_reloaded h
  rw [if_pos hcounter] at hback
  rw [reloaded_eq] at hback ⊢
  rw [unswapped, show bank (UInt8.ofInt s.counter) = s.counter from hback, ← h.chrBase, ← hreload]

end Mmc3

namespace Circuit

variable {c d : Circuit} {s : Mmc3}

/-- The second circuit has taken a snapshot of the first one over. -/
structure Reloaded (c d : Circuit) (s : Mmc3) : Prop where
  first : c.HasMmc3 s
  second : d.board = some (.mmc3 s.reloaded)
  rom : d.rom = c.rom
  banks : SameBanks c d

/-- The same of circuits as of machines. -/
def Agree (c d : Circuit) : Prop := ∀ later : List Access, (∀ a ∈ later, a.InRom) →
  SameBanks (later.foldl access c) (later.foldl access d) ∧
    ∀ a, a.InRom → (later.foldl access d).asks a = (later.foldl access c).asks a

theorem InStep.agree (h : InStep c d) : Agree c d := fun later _ =>
  ⟨(h.run later).banks, fun a _ => ((h.run later).access a).2⟩

/-- With nothing to forget the two are in step. -/
theorem Reloaded.inStep (h : Reloaded c d s) (hcounter : 0 ≤ s.counter) (hreload : s.reload = false)
    (hswap : s.prgSwap = 0 ∨ s.command &&& 7 ≠ 6 ∧ c.cpu.ShowsAt c.rom.prg.size 12 c.secondLast) :
    InStep c d := by
  have hregisters := Mmc3.reloaded_running h.first.tuned hcounter hreload
  have hsecond := h.second
  rw [hregisters] at hsecond
  refine ⟨h.rom, h.banks, ?_⟩
  by_cases hzero : s.prgSwap = 0
  · have hsame : s.unswapped = s := by rw [Mmc3.unswapped, ← hzero]
    exact Or.inl ⟨s, h.first.board, hsame ▸ hsecond⟩
  · obtain ⟨hquiet, hhigh⟩ := hswap.resolve_left hzero
    have hfixed : Mmc3.fixedWindow s.command = 8 := by
      rw [Mmc3.fixedWindow, ← h.first.tuned.prgSwap, if_neg hzero]
    exact Or.inr ⟨s, h.first.board, hsecond, hquiet, hfixed ▸ h.first.shown.second, hhigh⟩

end Circuit

/-! ### What tells the difference -/

namespace Circuit

variable {c d : Circuit} {s : Mmc3}

theorem board_write (h : c.board = some (.mmc3 s)) (address : UInt16) (value : UInt8) :
    (c.access (.write address value)).board = some (.mmc3 (s.write c.view address value).1) := by
  rw [access_write h, board_obeyAll]

/-- The board after the latch has been written and interrupts are on: a due reload has been done. -/
theorem board_armed (h : c.board = some (.mmc3 s)) (value : UInt8) :
    ([.write 0xC000 value, .write 0xE001 0].foldl access c).board = some (.mmc3
      { s with
        latch := value
        enabled := true
        counter := if s.reload then bank value else s.counter }) := by
  rw [List.foldl_cons, List.foldl_cons, List.foldl_nil, board_write (board_write h 0xC000 value)]
  obtain ⟨command, chrBase, prgSwap, counter, latch, enabled, reload⟩ := s
  cases reload <;> rfl

/-- A reload that is due in the first and not in the second. -/
theorem Reloaded.reload (h : Reloaded c d s) (hagree : Agree c d) : s.reload = false := by
  refine Classical.byContradiction fun hdue => ?_
  have hline : ∀ value, decide (s.reloaded.counter = 0) = decide (bank value = 0) := by
    intro value
    obtain ⟨-, hasks⟩ := hagree [.write 0xC000 value, .write 0xE001 0]
      (by simp [Access.InRom])
    have hline := hasks (.hblank true false) trivial
    rw [asks_hblank (board_armed h.first.board value), asks_hblank (board_armed h.second value),
      Mmc3.asks_line _ rfl, Mmc3.asks_line _ rfl] at hline
    simpa [Mmc3.reloaded_eq, hdue] using hline
  have hzero := hline 0
  rw [hline 1] at hzero
  exact absurd hzero (by decide)

/-- Lines that count. -/
def lines (count : Nat) : List Access := List.replicate count (.hblank true false)

theorem board_running (h : c.board = some (.mmc3 s)) (hreload : s.reload = false) (count : Nat)
    (hcount : count ≤ s.counter) :
    ((lines count).foldl access c).board = some (.mmc3 { s with counter := s.counter - count }) := by
  induction count generalizing c s with
  | zero => simpa [lines] using h
  | succ count ih =>
    have hnext : (c.access (.hblank true false)).board =
        some (.mmc3 { s with counter := s.counter - 1 }) := by
      rw [access_hblank h, s.hblank_running rfl (by omega), ← hreload]
    rw [lines, List.replicate_succ, List.foldl_cons]
    refine (ih hnext hreload (by simp only; omega)).trans ?_
    simp only
    rw [show s.counter - 1 - count = s.counter - (count + 1 : Nat) by omega]

theorem board_expired (h : c.board = some (.mmc3 s)) (hcounter : s.counter < 0) (count : Nat) :
    ((lines count).foldl access c).board = some (.mmc3 s) := by
  induction count generalizing c with
  | zero => exact h
  | succ count ih =>
    refine ih ?_
    rw [access_hblank h, s.hblank_expired _ hcounter]

theorem inRom_lines (count : Nat) : ∀ a ∈ lines count, a.InRom := by
  intro a ha
  obtain ⟨-, rfl⟩ := List.mem_replicate.mp ha
  trivial

/-- Turning interrupts on does nothing else while no reload is due. -/
theorem board_enabled (h : c.board = some (.mmc3 s)) (hreload : s.reload = false) :
    (c.access (.write 0xE001 0)).board = some (.mmc3 { s with enabled := true }) := by
  rw [board_write h]
  obtain ⟨command, chrBase, prgSwap, counter, latch, enabled, reload⟩ := s
  obtain rfl := hreload
  rfl

/-- An expired counter never asks again, but one of 255 does after as many lines. -/
theorem Reloaded.counter (h : Reloaded c d s) (hagree : Agree c d) : 0 ≤ s.counter := by
  have hreload := h.reload hagree
  refine Classical.byContradiction fun hnegative => ?_
  have hback := Mmc3.counter_reloaded h.first.tuned
  rw [if_neg hnegative] at hback
  obtain ⟨-, hasks⟩ := hagree (.write 0xE001 0 :: lines 255)
    (List.forall_mem_cons.mpr ⟨by simp [Access.InRom], inRom_lines 255⟩)
  have hline := hasks (.hblank true false) trivial
  have hfirst := board_expired (board_enabled h.first.board hreload) (by simp only; omega) 255
  have hsettled : s.reloaded.reload = false := by rw [Mmc3.reloaded_eq]
  have hsecond := board_running (board_enabled h.second hsettled) hsettled 255 (by simp only; omega)
  rw [List.foldl_cons, List.foldl_cons, asks_hblank hfirst, asks_hblank hsecond, Mmc3.asks_line _ rfl,
    Mmc3.asks_line _ rfl] at hline
  have hrests : s.counter ≠ 0 := by omega
  simp [hback, hrests] at hline

/-- A command that clears the swap bit, where it is set. -/
theorem cpu_cleared (h : c.board = some (.mmc3 s)) (hswap : s.prgSwap ≠ 0) :
    (c.access (.write 0x8000 0)).cpu.ShowsAt c.rom.prg.size 12 c.secondLast := by
  have hport : (0x8000 : UInt16) &&& 0xE001 = 0x8000 := rfl
  have hswitched : s.switched c.view 0x8000 0 = some (0xC000, c.secondLast) := by
    simp [Mmc3.switched, hport, hswap, Mmc3.fixedAddress, secondLast, view, View.prg8]
  rw [access_write h, s.cpu_write, hswitched]
  exact PageTable.showsAt_mapPrg rfl (by omega) c.secondLast

/-- The same command, where it is clear. -/
theorem cpu_clear (h : c.board = some (.mmc3 s)) (hswap : s.prgSwap = 0) :
    (c.access (.write 0x8000 0)).cpu = c.cpu := by
  have hport : (0x8000 : UInt16) &&& 0xE001 = 0x8000 := rfl
  have hswitched : s.switched c.view 0x8000 0 = none := by simp [Mmc3.switched, hport, hswap]
  rw [access_write h, s.cpu_write, hswitched]

/-- A lost swap bit does not show only where the second-last bank is shown already. -/
theorem second_of_cleared {t : Mmc3} (hc : c.board = some (.mmc3 s)) (hd : d.board = some (.mmc3 t))
    (hset : s.prgSwap ≠ 0) (hlost : t.prgSwap = 0)
    (hbanks : SameBanks (c.access (.write 0x8000 0)) (d.access (.write 0x8000 0))) :
    d.cpu.ShowsAt c.rom.prg.size 12 c.secondLast := by
  have hshown := hbanks.showsAt (by omega) (by omega) (cpu_cleared hc hset)
  rwa [cpu_clear hd hlost] at hshown

/-- The bank register 6 switches the window at $C000 while the swap bit is set. -/
theorem cpu_switched (h : c.board = some (.mmc3 s)) (h6 : s.command &&& 7 = 6)
    (hset : s.command &&& 0x40 ≠ 0) (value : UInt8) :
    (c.access (.write 0x8001 value)).cpu.ShowsAt c.rom.prg.size 12 (bank value) := by
  have hport : (0x8001 : UInt16) &&& 0xE001 = 0x8001 := rfl
  have hswitched : s.switched c.view 0x8001 value = some (0xC000, bank value) := by
    simp [Mmc3.switched, hport, h6, hset, Mmc3.freeAddress]
  rw [access_write h, s.cpu_write, hswitched]
  exact PageTable.showsAt_mapPrg rfl (by omega) (bank value)

/-- A ROM has two banks of 8KB at least, so a register can select another one than a given bank. -/
theorem exists_other_bank {size n : Nat} (hn : 0 < n) (hsize : size = n * 0x4000) (b : Int) :
    ∃ value, wrapBank (bank value) (size / 0x2000) ≠ wrapBank b (size / 0x2000) := by
  have hcount : max (size / 0x2000) 1 = 2 * n := by omega
  have hzero : wrapBank (bank 0) (size / 0x2000) = 0 := by
    rw [show bank 0 = (0 : Nat) from rfl, wrapBank_natCast, Nat.zero_mod]
  have hone : wrapBank (bank 1) (size / 0x2000) = 1 := by
    rw [show bank 1 = (1 : Nat) from rfl, wrapBank_natCast, hcount, Nat.mod_eq_of_lt (by omega)]
  by_cases hb : wrapBank b (size / 0x2000) = 0
  · exact ⟨1, by omega⟩
  · exact ⟨0, by omega⟩

/-- The swap bit shows as soon as a command clears it, unless the second-last bank is there already. -/
theorem Reloaded.swap (h : Reloaded c d s) (hagree : Agree c d) {n : Nat} (hn : 0 < n)
    (hsize : c.rom.prg.size = n * 0x4000) :
    s.prgSwap = 0 ∨ s.command &&& 7 ≠ 6 ∧ c.cpu.ShowsAt c.rom.prg.size 12 c.secondLast := by
  refine or_iff_not_imp_left.mpr fun hset => ?_
  have hlost : s.reloaded.prgSwap = 0 := by rw [Mmc3.reloaded_eq]
  refine ⟨fun h6 => ?_, ?_⟩
  · -- whatever the register selects would have to be the second-last bank
    obtain ⟨value, hother⟩ := exists_other_bank hn hsize c.secondLast
    have hbanks := (hagree [.write 0x8001 value, .write 0x8000 0] (by simp [Access.InRom])).1
    have hshown := second_of_cleared (board_write h.first.board 0x8001 value)
      (board_write h.second 0x8001 value) (by rwa [s.prgSwap_write _ (by decide)])
      (by rwa [s.reloaded.prgSwap_write _ (by decide)]) hbanks
    have hselected := cpu_switched h.second (by rw [Mmc3.reloaded_eq]; exact h6)
      (by rw [Mmc3.reloaded_eq]; exact h.first.tuned.prgSwap ▸ hset) value
    rw [h.rom] at hselected
    rw [rom_access, secondLast, rom_access, ← secondLast] at hshown
    exact hother (hselected.unique hshown)
  · have hbanks := (hagree [.write 0x8000 0] (by simp [Access.InRom])).1
    exact h.banks.symm.showsAt (by omega) (by omega)
      (second_of_cleared h.first.board h.second hset hlost hbanks)

/-- When two circuits agree of which the second has taken a snapshot of the first over. -/
theorem Reloaded.agree_iff (h : Reloaded c d s) {n : Nat} (hn : 0 < n)
    (hsize : c.rom.prg.size = n * 0x4000) : Agree c d ↔ 0 ≤ s.counter ∧ s.reload = false ∧
      (s.prgSwap = 0 ∨ s.command &&& 7 ≠ 6 ∧ c.cpu.ShowsAt c.rom.prg.size 12 c.secondLast) := by
  constructor
  · intro hagree
    exact ⟨h.counter hagree, h.reload hagree, h.swap hagree hn hsize⟩
  · rintro ⟨hcounter, hreload, hswap⟩
    exact (h.inStep hcounter hreload hswap).agree

end Circuit

/-! ### The snapshot -/

namespace Snapshot

/-- A fresh MMC3 board takes over what the first one keeps. -/
theorem load_windowsBody {m : Machine} {s : Mmc3} (h : m.board = some (.mmc3 s)) :
    ({} : Mmc3).load (keptByte m) = s.reloaded :=
  Mmc3.load_congr {} fun _ hi => keptByte_eq h hi (Nat.lt_trans hi (by decide))

/-- Program banks within the ROM come back exactly. -/
theorem page_restored {m : Machine} {size : Nat} (hsize : ∃ n, 0 < n ∧ n < 256 ∧ size = n * 0x4000)
    (hbanks : ∀ k < 4, ∃ bank, m.cpu.pages.ShowsAt size (8 + 2 * k) bank) (t : PageTable) {w : Nat}
    (hlo : 8 ≤ w) (hhi : w < 16) :
    (restoreProgram t size (windowsBody m)).page w = m.cpu.pages.page w := by
  obtain ⟨n, hn, hn', rfl⟩ := hsize
  obtain ⟨k, i, hk, hi, rfl⟩ := exists_half hlo hhi
  obtain ⟨bank, hbank⟩ := hbanks k hk
  have hrange := wrapBank_lt bank (n * 0x4000 / 0x2000)
  have hfirst := hbank 0 (by omega)
  rw [page_restoreProgram t _ _ hk hi, hbank i hi, wordAt_program m hk, PageTable.prgBank]
  generalize wrapBank bank (n * 0x4000 / 0x2000) = b at hrange hfirst ⊢
  have haddr : (programAddress k).toNat / 0x1000 = 8 + 2 * k + 0 := by
    interval_cases k <;> rfl
  have hword : (UInt16.ofNat (b * 0x2000 / 0x2000)).toNat = b := by
    simp only [UInt16.toNat_ofNat']
    omega
  rw [haddr, hfirst]
  simp only [Nat.zero_mul, Nat.add_zero, hword, wrapBank_natCast]
  rw [Nat.mod_eq_of_lt hrange]

open Layout (Native)

/-- A fresh MMC3 machine that has taken over another one's blocks. -/
theorem reloaded_resumed {cart : Cartridge} (hw : cart.WellFormed) (hmapper : cart.mapper = 4)
    {m n : Machine} (hm : m.layout.Native cart) (hn : n.layout.Native cart) {s : Mmc3}
    (hs : m.circuit.HasMmc3 s) (hfresh : n.board = some (.mmc3 {})) :
    Circuit.Reloaded m.circuit (resumed m (restoreBase n (baseBody m))).circuit s := by
  have hmapped : cart.mapper ≠ 0 := by
    rw [hmapper]
    decide
  obtain ⟨hboard, hrom⟩ := board_back hm.toPlugged hn.toPlugged hmapped hfresh
  obtain ⟨-, hpatterns⟩ := windows_back hm hn hw
  refine ⟨hs, ?_, hrom, fun w hlo hhi => ?_, hpatterns⟩
  · rw [← load_windowsBody hs.board]
    exact hboard
  · have hnumber : m.cart.mapper ≠ 0 := by
      rwa [show m.cart.mapper = cart.mapper from congrArg (·.mapper) hm.rom]
    have hprg : (restoreBase n (baseBody m)).cart.prg = m.cart.prg :=
      congrArg (·.prg) (rom_restoreBase hm.toPlugged hn.toPlugged)
    have hprgSize : m.cart.prg.size = cart.prg.size := hm.prgSize
    generalize restoreBase n (baseBody m) = k at hprg ⊢
    rw [resumed, if_neg hnumber]
    show (restoreProgram k.cpu.pages k.cart.prg.size (windowsBody m)).page w = _
    rw [hprg]
    exact page_restored (hprgSize ▸ hw.prg) hs.shown.banks _ hlo hhi

/-- A fresh machine takes over the snapshot of another one with the same MMC3 cartridge. -/
theorem restore_mmc3 {cart : Cartridge} (hw : cart.WellFormed) (hmapper : cart.mapper = 4)
    {m n : Machine} (hm : m.layout.Native cart) (hn : n.layout.Native cart) {s : Mmc3}
    (hs : m.circuit.HasMmc3 s) (hfresh : n.board = some (.mmc3 {})) :
    ∃ k, n.restore m.save = .ok k ∧ Circuit.Reloaded m.circuit k.circuit s := by
  obtain ⟨start, remark, hlayout, hboard, hrestore⟩ := restore_resumed hm hn
  exact ⟨_, hrestore, reloaded_resumed hw hmapper hm (hlayout.symm ▸ hn) hs (hboard.trans hfresh)⟩

end Snapshot

/-! ### Machines -/

namespace Machine

variable {m : Machine} {s : Mmc3}

/-- Accesses in a row to an MMC3 board. -/
theorem circuit_run (h : m.board = some (.mmc3 s)) (later : List Access) :
    (later.foldl access m).circuit = later.foldl Circuit.access m.circuit ∧
      ∃ s', (later.foldl access m).board = some (.mmc3 s') := by
  induction later generalizing m s with
  | nil => exact ⟨rfl, s, h⟩
  | cons a later ih =>
    have hcircuit := circuit_access h a
    obtain ⟨s', hs'⟩ := Circuit.mmc3_access (c := m.circuit) h a
    rw [← hcircuit] at hs'
    rw [List.foldl_cons, List.foldl_cons, ← hcircuit]
    exact ih hs'

/-- Machines agree as their circuits do. -/
theorem agree_circuit {k : Machine} {t : Mmc3} (hm : m.board = some (.mmc3 s))
    (hk : k.board = some (.mmc3 t)) : m.Agree k ↔ m.circuit.Agree k.circuit := by
  refine forall_congr' fun later => imp_congr_right fun _ => ?_
  obtain ⟨hm', s', hs'⟩ := circuit_run hm later
  obtain ⟨hk', t', ht'⟩ := circuit_run hk later
  rw [hm', hk']
  refine and_congr_right fun _ => forall_congr' fun a => imp_congr_right fun _ => ?_
  rw [asks_circuit hs', asks_circuit ht', hm', hk']

/-- On the bus all of ROM space is the board's, for no sound chip comes with it. -/
theorem write_mmc3 {cart : Cartridge} (hm : m.layout.Plugged cart) (hmapper : cart.mapper = 4)
    (h : m.board = some (.mmc3 s)) {address : UInt16} (ha : 0x8000 ≤ address) (value : UInt8) :
    m.write address value = m.access (.write address value) :=
  m.write_rom hm (by rw [hmapper]; rfl) h rfl ha value

/-- When snapshots of the MMC3 resume exactly. A fresh machine always accepts the snapshot, and shows the
same banks. It goes on showing them, and asks for the same interrupts, whatever is written and however lines
end, exactly if the counter of the first machine had not expired, no reload was due, and its swap bit
was clear, or set where that does not show. -/
theorem mmc3_resumes_iff {bytes : Array UInt8} {name : String} {cart : Cartridge}
    (hparse : Image.parse bytes name = .ok cart) (hmapper : cart.mapper = 4) (m₀ n₀ : Machine)
    {events : List Event} (hevents : ∀ e ∈ events, e.isNative = true) :
    let m := events.foldl after (m₀.insert cart).2
    let second : Int := (cart.prg.size / 0x2000 : Nat) - 2
    ∃ s k, m.board = some (.mmc3 s) ∧ (n₀.insert cart).2.restore m.save = .ok k ∧
      m.circuit.SameBanks k.circuit ∧
      (m.Agree k ↔ 0 ≤ s.counter ∧ s.reload = false ∧
        (s.prgSwap = 0 ∨ s.command &&& 7 ≠ 6 ∧ m.cpu.pages.ShowsAt cart.prg.size 12 second)) := by
  intro m second
  have hw := Image.parse_wellFormed hparse
  obtain ⟨n, hn, -, hsize⟩ := hw.prg
  have hmnative : m.layout.Native cart := run_native hw (insert_native hw m₀) events hevents
  obtain ⟨s, hs⟩ := hasMmc3_run hw hmapper m₀ hevents
  obtain ⟨hfresh, -⟩ := hasMmc3_insert hw hmapper n₀
  obtain ⟨k, hrestore, hreloaded⟩ :=
    Snapshot.restore_mmc3 hw hmapper hmnative (insert_native hw n₀) hs hfresh.board
  have hprg : m.circuit.rom.prg.size = cart.prg.size := hmnative.prgSize
  refine ⟨s, k, hs.board, hrestore, hreloaded.banks, ?_⟩
  rw [agree_circuit hs.board hreloaded.second, hreloaded.agree_iff hn (hprg.trans hsize),
    Circuit.secondLast, hprg]
  rfl

/-- The snapshot of a machine whose counter has just been told to reload does not resume. -/
theorem mmc3_forgets_reload : ∃ cart, Image.parse (Image.blank 0x40) "" = .ok cart ∧ cart.mapper = 4 ∧
    let m := ((default : Machine).insert cart).2.write 0xC001 0
    ∃ k, ((default : Machine).insert cart).2.restore m.save = .ok k ∧ ¬ m.Agree k := by
  obtain ⟨cart, hparse, hmapper⟩ := @Image.parse_blank 0x40 (by decide) (by decide)
  have hw := Image.parse_wellFormed hparse
  obtain ⟨s, k, hs, hrestore, -, hagree⟩ :=
    @mmc3_resumes_iff _ _ _ hparse hmapper default default [.write 0xC001 0] (by decide)
  refine ⟨cart, hparse, hmapper, k, hrestore, fun h => ?_⟩
  have hreload := (hagree.mp h).2.1
  have hfresh := (hasMmc3_insert hw hmapper default).1.board
  -- on the bus the write is an access, which leaves a reload due
  have hwrite := write_mmc3 (insert_native hw default).toPlugged hmapper hfresh
    (by decide : (0x8000 : UInt16) ≤ 0xC001) 0
  have hcircuit := circuit_access hfresh (.write 0xC001 0)
  rw [← hwrite] at hcircuit
  have hboard := (congrArg Circuit.board hcircuit).trans (Circuit.board_write hfresh 0xC001 0)
  have hregisters := hs.symm.trans hboard
  rw [Option.some.injEq, Board.mmc3.injEq] at hregisters
  have hdue : s.reload = true := by
    rw [hregisters]
    rfl
  exact absurd (hdue.symm.trans hreload) (by decide)

end Machine

end Famicom
