import Famicom.Proofs.Mmc3Windows

/-!
Two MMC3 boards side by side, one of them with registers that a snapshot brought back. They stay in step,
whatever is written and however lines end, if all registers are the same, or if only the swap bit was
lost where it does not show (`Circuit.Pending`): the next command either carries the swap out
again, or undoes one that was never there, and both leave the same windows behind.

    first     swap bit set      ──command──▶ same registers, same windows
    second    swap bit clear    ──command──▶ same registers, same windows
-/

namespace Famicom

/-- An access to the registers of a board, or the end of a line. -/
inductive Access where
  | write (address : UInt16) (value : UInt8)
  | hblank (rendering vblank : Bool)
  deriving DecidableEq, Repr

namespace Access

/-- What the board hears. -/
def cue (view : View) : Access → Cue
  | .write address value => .write view address value
  | .hblank rendering vblank => .hblank { view with rendering } vblank

/-- Writes go to the address space of the ROM. -/
def InRom : Access → Prop
  | .write address _ => 0x8000 ≤ address
  | .hblank _ _ => True

end Access

namespace Machine

/-- The machine after an access to its board. -/
def access (m : Machine) (a : Access) : Machine := m.withBoard (·.answer (a.cue m.view))

/-- The board answers an access with an interrupt. -/
def asks (m : Machine) (a : Access) : Bool :=
  m.board.any fun b => (b.answer (a.cue m.view)).2.contains .irq

end Machine

/-- The same program banks and the same patterns are shown. -/
def Circuit.SameBanks (c d : Circuit) : Prop :=
  (∀ w, 8 ≤ w → w < 16 → d.cpu.page w = c.cpu.page w) ∧ ∀ w < 8, d.ppu.page w = c.ppu.page w

/-- After any accesses two machines show the same banks, and the same accesses are answered with an
interrupt. -/
def Machine.Agree (m k : Machine) : Prop := ∀ later : List Access, (∀ a ∈ later, a.InRom) →
  (later.foldl access m).circuit.SameBanks (later.foldl access k).circuit ∧
    ∀ a, a.InRom → (later.foldl access k).asks a = (later.foldl access m).asks a

namespace Circuit

/-- What a board can see of the ROM. -/
def view (c : Circuit) : View := { prgSize := c.rom.prg.size, fourScreen := c.rom.fourScreen }

/-- The circuit after an access to its board. -/
def access (c : Circuit) (a : Access) : Circuit := c.hear (a.cue c.view)

/-- The board answers an access with an interrupt. -/
def asks (c : Circuit) (a : Access) : Bool :=
  c.board.any fun b => (b.answer (a.cue c.view)).2.contains .irq

variable {c d : Circuit}

/-! ### The same banks -/

theorem SameBanks.symm (h : SameBanks c d) : SameBanks d c :=
  ⟨fun w hlo hhi => (h.1 w hlo hhi).symm, fun w hw => (h.2 w hw).symm⟩

theorem SameBanks.trans {e : Circuit} (h : SameBanks c d) (h' : SameBanks d e) : SameBanks c e :=
  ⟨fun w hlo hhi => (h'.1 w hlo hhi).trans (h.1 w hlo hhi), fun w hw => (h'.2 w hw).trans (h.2 w hw)⟩

theorem SameBanks.showsAt (h : SameBanks c d) {size w : Nat} {bank : Int} (hlo : 8 ≤ w) (hhi : w < 15)
    (hc : c.cpu.ShowsAt size w bank) : d.cpu.ShowsAt size w bank := by
  intro i hi
  rw [h.1 (w + i) (by omega) (by omega)]
  exact hc i hi

/-- Wishes show the same in both. -/
theorem SameBanks.obeyAll (h : SameBanks c d) (hrom : d.rom = c.rom) (signals : List Signal) :
    SameBanks (signals.foldl Circuit.obey c) (signals.foldl Circuit.obey d) :=
  ⟨fun w hlo hhi => page_obeyAll hrom signals hhi (h.1 w hlo hhi),
    fun w hw => picturePage_obeyAll hrom signals (by omega) (h.2 w hw)⟩

/-- Whatever the boards are. -/
theorem SameBanks.answered (h : SameBanks c d) (hrom : d.rom = c.rom) (b b' : Option Board)
    (signals : List Signal) : SameBanks (signals.foldl Circuit.obey { c with board := b })
      (signals.foldl Circuit.obey { d with board := b' }) :=
  @SameBanks.obeyAll { c with board := b } { d with board := b' } h hrom signals

end Circuit

/-- No write is answered with an interrupt. -/
theorem Board.write_asks (b : Board) (view : View) (address : UInt16) (value : UInt8) :
    (b.write view address value).2.contains .irq = false := by
  have hfits := b.write_fits view address value
  rw [List.contains_eq_mem, decide_eq_false_iff_not]
  exact fun hirq => hfits _ hirq

/-! ### The MMC3's part -/

namespace Mmc3

/-- The registers with the swap bit forgotten. -/
def unswapped (s : Mmc3) : Mmc3 := { s with prgSwap := 0 }

theorem settle_unswapped (s : Mmc3) : s.unswapped.settle = s.settle.unswapped := by
  unfold settle
  split
  case isTrue h => exact (if_pos h).symm ▸ rfl
  case isFalse h => exact (if_neg h).symm ▸ rfl

/-- Only commands look at the swap bit. -/
theorem write_unswapped (s : Mmc3) (view : View) {address : UInt16} (h : address &&& 0xE001 ≠ 0x8000)
    (value : UInt8) : s.unswapped.write view address value =
      ((s.write view address value).1.unswapped, (s.write view address value).2) := by
  simp only [write_eq, writeRegister, if_neg h, ← settle_unswapped]
  split_ifs <;> rfl

/-- A command brings it back. -/
theorem command_unswapped (s : Mmc3) (view : View) {address : UInt16} (h : address &&& 0xE001 = 0x8000)
    (value : UInt8) : (s.unswapped.write view address value).1 = (s.write view address value).1 := by
  have hregisters : ∀ r : Mmc3, (r.setCommand view value).1 =
      { r with command := value, chrBase := chrBaseOf value, prgSwap := value &&& 0x40 } := by
    intro r
    simp only [setCommand]
    split
    case isTrue hsame => rw [← hsame]
    case isFalse => rfl
  simp only [write_eq, writeRegister, if_pos h, hregisters]
  rfl

theorem prgSwap_write (s : Mmc3) (view : View) {address : UInt16} (h : address &&& 0xE001 ≠ 0x8000)
    (value : UInt8) : (s.write view address value).1.prgSwap = s.prgSwap := by
  rw [write_eq, (settle_banking _).2]
  simp only [writeRegister, if_neg h]
  split_ifs <;> rfl

theorem hblank_unswapped (s : Mmc3) (view : View) (vblank : Bool) : s.unswapped.hblank view vblank =
    ((s.hblank view vblank).1.unswapped, (s.hblank view vblank).2) := by
  by_cases hrests : (vblank || !view.rendering || decide (s.counter < 0)) = true
  · simp only [hblank, unswapped, if_pos hrests]
    exact if_pos hrests
  · by_cases hends : (decide (s.counter - 1 < 0) && s.enabled) = true
    · simp only [hblank, unswapped, if_neg hrests, if_pos hends]
      exact (if_neg hrests).trans (if_pos hends)
    · simp only [hblank, unswapped, if_neg hrests, if_neg hends]
      exact (if_neg hrests).trans (if_neg hends)

/-- A line that counts asks for an interrupt when the counter has come to its end. -/
theorem asks_line (s : Mmc3) {view : View} (hview : view.rendering = true) :
    (s.hblank view false).2.contains .irq = decide (s.counter = 0 ∧ s.enabled = true) := by
  simp only [hblank, hview]
  by_cases hrests : s.counter < 0
  · have hzero : s.counter ≠ 0 := by omega
    simp [hrests, hzero]
  · by_cases hzero : s.counter = 0
    · cases henabled : s.enabled <;> simp [hzero]
    · have hends : ¬ s.counter - 1 < 0 := by omega
      simp [hrests, hzero, hends]

/-- A line that counts down. -/
theorem hblank_running (s : Mmc3) {view : View} (hview : view.rendering = true)
    (hcounter : 0 < s.counter) :
    (s.hblank view false).1 = { s with reload := false, counter := s.counter - 1 } := by
  have hruns : ¬ s.counter < 0 := by omega
  have hgoes : ¬ s.counter - 1 < 0 := by omega
  simp [hblank, hview, hruns, hgoes]

/-- Once expired, the counter rests. -/
theorem hblank_expired (s : Mmc3) (view : View) (hcounter : s.counter < 0) :
    (s.hblank view false).1 = s := by
  simp [hblank, hcounter]

/-- The MMC3 sees no more of a console than its ROM and whether something is shown. -/
theorem answer_congr (s : Mmc3) {v v' : View} (hsize : v.prgSize = v'.prgSize)
    (hfour : v.fourScreen = v'.fourScreen) (a : Access) :
    (Board.mmc3 s).answer (a.cue v) = (Board.mmc3 s).answer (a.cue v') := by
  cases a with
  | write address value =>
    simp only [Access.cue, Board.answer, Board.write, Mmc3.write, writeRegister, setCommand, View.prg8,
      hsize, hfour]
  | hblank rendering vblank => simp only [Access.cue, Board.answer, Board.hblank, Mmc3.hblank]

end Mmc3

namespace Machine

variable {m : Machine} {s : Mmc3}

/-- An access to an MMC3 board is one to its circuit. -/
theorem circuit_access (h : m.board = some (.mmc3 s)) (a : Access) :
    (m.access a).circuit = m.circuit.access a := by
  have hanswer := @Mmc3.answer_congr s m.view m.circuit.view rfl rfl a
  rw [access, circuit_withBoard, Circuit.access, Circuit.hear, Circuit.act_some (c := m.circuit) h,
    Circuit.act_some (c := m.circuit) h, hanswer]

theorem asks_circuit (h : m.board = some (.mmc3 s)) (a : Access) : m.asks a = m.circuit.asks a := by
  have hanswer := @Mmc3.answer_congr s m.view m.circuit.view rfl rfl a
  have hboard : m.circuit.board = some (.mmc3 s) := h
  rw [asks, Circuit.asks, h, hboard, Option.any_some, Option.any_some, hanswer]

end Machine

namespace Circuit

variable {c d : Circuit} {s : Mmc3}

theorem rom_access (c : Circuit) (a : Access) : (c.access a).rom = c.rom := c.rom_act _

/-- What an access comes to: the board's next registers, and its wishes carried out. -/
theorem access_eq (h : c.board = some (.mmc3 s)) (a : Access) :
    c.access a = ((Board.mmc3 s).answer (a.cue c.view)).2.foldl obey
      { c with board := some ((Board.mmc3 s).answer (a.cue c.view)).1 } :=
  act_some h _

theorem asks_eq (h : c.board = some (.mmc3 s)) (a : Access) :
    c.asks a = ((Board.mmc3 s).answer (a.cue c.view)).2.contains .irq := by
  rw [asks, h, Option.any_some]

/-- Boards with the same registers give the same answers. -/
theorem SameBanks.access (h : SameBanks c d) (hrom : d.rom = c.rom) (hc : c.board = some (.mmc3 s))
    (hd : d.board = some (.mmc3 s)) (a : Access) :
    SameBanks (c.access a) (d.access a) ∧ (d.access a).board = (c.access a).board ∧
      d.asks a = c.asks a := by
  have hview : d.view = c.view := by rw [Circuit.view, Circuit.view, hrom]
  rw [access_eq hc, access_eq hd, asks_eq hc, asks_eq hd, hview]
  generalize (Board.mmc3 s).answer (a.cue c.view) = r
  exact ⟨h.answered hrom _ _ r.2, by rw [board_obeyAll, board_obeyAll], rfl⟩

theorem access_write (h : c.board = some (.mmc3 s)) (address : UInt16) (value : UInt8) :
    c.access (.write address value) = (s.write c.view address value).2.foldl obey
      { c with board := some (.mmc3 (s.write c.view address value).1) } :=
  access_eq h (.write address value)

theorem access_hblank (h : c.board = some (.mmc3 s)) (rendering vblank : Bool) :
    c.access (.hblank rendering vblank) =
      { c with board := some (.mmc3 (s.hblank { c.view with rendering } vblank).1) } :=
  (access_eq h (.hblank rendering vblank)).trans
    (obey_irqs _ _ ((Board.mmc3 s).hblank_irq { c.view with rendering } vblank))

theorem mmc3_access (h : c.board = some (.mmc3 s)) (a : Access) :
    ∃ s', (c.access a).board = some (.mmc3 s') := by
  cases a with
  | write address value => exact ⟨_, by rw [access_write h, board_obeyAll]⟩
  | hblank rendering vblank => exact ⟨_, by rw [access_hblank h]⟩

theorem asks_write (h : c.board = some (.mmc3 s)) (address : UInt16) (value : UInt8) :
    c.asks (.write address value) = false :=
  (asks_eq h (.write address value)).trans ((Board.mmc3 s).write_asks c.view address value)

theorem asks_hblank (h : c.board = some (.mmc3 s)) (rendering vblank : Bool) :
    c.asks (.hblank rendering vblank) = (s.hblank { c.view with rendering } vblank).2.contains .irq :=
  asks_eq h (.hblank rendering vblank)

/-! ### In step -/

/-- The number of the second-last bank. -/
def secondLast (c : Circuit) : Int := (c.rom.prg.size / 0x2000 : Nat) - 2

/-- The swap bit was lost, but the second-last bank is shown wherever the bit may say, and the current
command cannot switch it away. -/
structure Pending (c d : Circuit) (s : Mmc3) : Prop where
  first : c.board = some (.mmc3 s)
  second : d.board = some (.mmc3 s.unswapped)
  quiet : s.command &&& 7 ≠ 6
  low : c.cpu.ShowsAt c.rom.prg.size 8 c.secondLast
  high : c.cpu.ShowsAt c.rom.prg.size 12 c.secondLast

/-- The same ROM, the same banks, and registers that are the same or will be. -/
structure InStep (c d : Circuit) : Prop where
  rom : d.rom = c.rom
  banks : SameBanks c d
  registers : (∃ s, c.board = some (.mmc3 s) ∧ d.board = some (.mmc3 s)) ∨ ∃ s, Pending c d s

/-- A command moves nothing that is where both commands want it. -/
theorem still_command (hlow : c.cpu.ShowsAt c.rom.prg.size 8 c.secondLast)
    (hhigh : c.cpu.ShowsAt c.rom.prg.size 12 c.secondLast) (s : Mmc3) {address : UInt16}
    (h : address &&& 0xE001 = 0x8000) (value : UInt8) :
    SameBanks c ((s.write c.view address value).2.foldl obey c) := by
  constructor
  · intro w hlo hhi
    rw [s.cpu_write, Mmc3.switched]
    simp only [if_pos h]
    by_cases hsame : s.prgSwap = value &&& 0x40
    · rw [if_pos hsame]
    · rw [if_neg hsame]
      have ha := Mmc3.fixedAddress_eq value
      rcases Mmc3.fixedWindow_cases value with hfixed | hfixed <;> rw [hfixed] at ha
      · exact hhigh.page_mapPrg ha (by omega) hhi
      · exact hlow.page_mapPrg ha (by omega) hhi
  · intro w hw
    simp only [Mmc3.write_eq, Mmc3.writeRegister, if_pos h, Mmc3.setCommand]
    split <;> rfl

theorem still_access (hlow : c.cpu.ShowsAt c.rom.prg.size 8 c.secondLast)
    (hhigh : c.cpu.ShowsAt c.rom.prg.size 12 c.secondLast) (hboard : c.board = some (.mmc3 s))
    {address : UInt16} (h : address &&& 0xE001 = 0x8000) (value : UInt8) :
    SameBanks c (c.access (.write address value)) := by
  rw [access_write hboard]
  let e : Circuit := { c with board := some (.mmc3 (s.write c.view address value).1) }
  exact still_command (c := e) hlow hhigh s h value

section
variable (hrom : d.rom = c.rom) (hbanks : SameBanks c d)
include hrom

theorem view_congr : d.view = c.view := by rw [Circuit.view, Circuit.view, hrom]

include hbanks

/-- What a command does while the swap bit is lost: it brings the registers together again. -/
theorem Pending.command (hp : Pending c d s) {address : UInt16} (h : address &&& 0xE001 = 0x8000)
    (value : UInt8) : InStep (c.access (.write address value)) (d.access (.write address value)) := by
  have hsecond : d.secondLast = c.secondLast := by rw [secondLast, secondLast, hrom]
  have hlow := hbanks.showsAt (by omega) (by omega) hp.low
  have hhigh := hbanks.showsAt (by omega) (by omega) hp.high
  rw [← hsecond, ← hrom] at hlow hhigh
  have hc := still_access hp.low hp.high hp.first h value
  have hd := still_access hlow hhigh hp.second h value
  refine ⟨by rw [rom_access, rom_access, hrom], hc.symm.trans (hbanks.trans hd),
    Or.inl ⟨(s.write c.view address value).1, ?_, ?_⟩⟩
  · rw [access_write hp.first, board_obeyAll]
  · rw [access_write hp.second, board_obeyAll, s.command_unswapped _ h, view_congr hrom]

/-- Any other write does the same in both, and the swap bit stays lost. -/
theorem Pending.write (hp : Pending c d s) {address : UInt16} (h : address &&& 0xE001 ≠ 0x8000)
    (value : UInt8) : InStep (c.access (.write address value)) (d.access (.write address value)) := by
  have hcommand : (s.write c.view address value).1.command = s.command := by
    rw [s.command_write, if_neg h]
  have hcpu : ∀ w, (w = 8 ∨ w = 12) → c.cpu.ShowsAt c.rom.prg.size w c.secondLast →
      (c.access (.write address value)).cpu.ShowsAt c.rom.prg.size w c.secondLast := by
    intro w hw hshows
    rw [access_write hp.first, s.cpu_write, Mmc3.switched]
    simp only [if_neg h, if_neg hp.quiet]
    split_ifs
    · exact hshows.mapPrg (v := 10) rfl (by omega) (by omega) _
    · exact hshows
    · exact hshows
  have hrom' : (c.access (.write address value)).rom = c.rom := c.rom_access _
  have hsecond : (c.access (.write address value)).secondLast = c.secondLast := by
    rw [secondLast, secondLast, hrom']
  refine ⟨by rw [rom_access, rom_access, hrom], ?_, Or.inr ⟨(s.write c.view address value).1, ?_⟩⟩
  · rw [access_write hp.first, access_write hp.second, s.write_unswapped _ h, view_congr hrom]
    exact hbanks.answered hrom _ _ _
  · refine ⟨?_, ?_, hcommand ▸ hp.quiet, ?_, ?_⟩
    · rw [access_write hp.first, board_obeyAll]
    · rw [access_write hp.second, board_obeyAll, s.write_unswapped _ h, view_congr hrom]
    · rw [hrom', hsecond]
      exact hcpu 8 (Or.inl rfl) hp.low
    · rw [hrom', hsecond]
      exact hcpu 12 (Or.inr rfl) hp.high

/-- The end of a line does not look at the swap bit. -/
theorem Pending.hblank (hp : Pending c d s) (rendering vblank : Bool) :
    InStep (c.access (.hblank rendering vblank)) (d.access (.hblank rendering vblank)) ∧
      d.asks (.hblank rendering vblank) = c.asks (.hblank rendering vblank) := by
  have hlost := s.hblank_unswapped { c.view with rendering } vblank
  have hcommand := s.command_hblank { c.view with rendering } vblank
  rw [asks_hblank hp.first, asks_hblank hp.second, access_hblank hp.first, access_hblank hp.second,
    view_congr hrom, hlost]
  exact ⟨⟨hrom, hbanks, Or.inr ⟨_, rfl, rfl, hcommand ▸ hp.quiet, hp.low, hp.high⟩⟩, rfl⟩

end

/-- Every access keeps two circuits in step, and gets the same answer from both. -/
theorem InStep.access (h : InStep c d) (a : Access) :
    InStep (c.access a) (d.access a) ∧ d.asks a = c.asks a := by
  rcases h.registers with ⟨s, hc, hd⟩ | ⟨s, hp⟩
  · obtain ⟨hbanks, hboard, hasks⟩ := h.banks.access h.rom hc hd a
    obtain ⟨s', hs'⟩ := mmc3_access hc a
    exact ⟨⟨by rw [rom_access, rom_access, h.rom], hbanks, Or.inl ⟨s', hs', hboard.trans hs'⟩⟩, hasks⟩
  · cases a with
    | write address value =>
      refine ⟨?_, by rw [asks_write hp.first, asks_write hp.second]⟩
      by_cases hcommand : address &&& 0xE001 = 0x8000
      · exact hp.command h.rom h.banks hcommand value
      · exact hp.write h.rom h.banks hcommand value
    | hblank rendering vblank => exact hp.hblank h.rom h.banks rendering vblank

/-- So do accesses in a row. -/
theorem InStep.run (h : InStep c d) (later : List Access) :
    InStep (later.foldl Circuit.access c) (later.foldl Circuit.access d) := by
  induction later generalizing c d with
  | nil => exact h
  | cons a later ih => exact ih (h.access a).1

end Circuit

end Famicom
