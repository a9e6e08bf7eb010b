import Famicom.Proofs.Windows
import Mathlib.Tactic.SplitIfs

/-!
What boards ask for. A write, a strobe or a reset only moves windows, each bank onto windows that can
show it (`Signal.Fits`); the end of a line only interrupts. A board never turns into another one: its
mapper number stays.

    write, strobe, init   ─▶ prg, chr, mirror, log; nametable on board 19 only; nothing on board 0
    hblank                ─▶ irq only
-/

namespace Famicom

/-- A request that a board with this mapper number may make when it is written or reset. -/
def Signal.Fits (number : UInt8) : Signal → Prop
  | .prg kb address _ => number ≠ 0 ∧ FitsProgram kb address
  | .chr kb address _ => number ≠ 0 ∧ FitsPattern kb address
  | .mirror _ _ _ _ => number ≠ 0
  | .nametable _ _ => number = 19
  | .irq => False
  | .log _ => True

/-- Requests that all fit. -/
def AllFit (number : UInt8) (signals : List Signal) : Prop := ∀ s ∈ signals, s.Fits number

section
variable {number : UInt8}

@[simp] theorem allFit_nil : AllFit number [] := fun _ h => by simp at h

@[simp] theorem allFit_cons {s : Signal} {l : List Signal} :
    AllFit number (s :: l) ↔ s.Fits number ∧ AllFit number l := List.forall_mem_cons

@[simp] theorem allFit_append {l k : List Signal} :
    AllFit number (l ++ k) ↔ AllFit number l ∧ AllFit number k := List.forall_mem_append

@[simp] theorem fits_prg {kb : Nat} {address : UInt16} {bank : Int} :
    (Signal.prg kb address bank).Fits number ↔ number ≠ 0 ∧ FitsProgram kb address := Iff.rfl

@[simp] theorem fits_chr {kb : Nat} {address : UInt16} {bank : Int} :
    (Signal.chr kb address bank).Fits number ↔ number ≠ 0 ∧ FitsPattern kb address := Iff.rfl

@[simp] theorem fits_mirror {a b c d : Nat} :
    (Signal.mirror a b c d).Fits number ↔ number ≠ 0 := Iff.rfl

@[simp] theorem fits_log {message : String} : (Signal.log message).Fits number := trivial

@[simp] theorem fits_single {table : Nat} : (Signal.single table).Fits number ↔ number ≠ 0 := Iff.rfl

@[simp] theorem fits_horizontal : Signal.horizontal.Fits number ↔ number ≠ 0 := Iff.rfl

@[simp] theorem fits_vertical : Signal.vertical.Fits number ↔ number ≠ 0 := Iff.rfl

@[simp] theorem fits_fourScreen : Signal.fourScreen.Fits number ↔ number ≠ 0 := Iff.rfl

@[simp] theorem fits_horizontalIf {bit : Bool} :
    (Signal.horizontalIf bit).Fits number ↔ number ≠ 0 := by
  cases bit <;> exact Iff.rfl

@[simp] theorem fits_vrcWiring {value : UInt8} : (Signal.vrcWiring value).Fits number ↔ number ≠ 0 := by
  unfold Signal.vrcWiring
  split <;> exact Iff.rfl

/-- A single 1KB bank fits at every address. -/
@[simp] theorem fitsPattern_one (address : UInt16) : FitsPattern 1 address := by
  unfold FitsPattern
  omega

end

/-! ### Writes -/

theorem LatchBoard.writeContra_fits (number : UInt8) (h : number ≠ 0) (address : UInt16)
    (value : UInt8) :
    AllFit number (writeContra address value) := by
  simp only [writeContra]
  split_ifs <;> simp [h, FitsProgram]

theorem LatchBoard.writeTaito_fits (number : UInt8) (h : number ≠ 0) (address : UInt16)
    (value : UInt8) :
    AllFit number (writeTaito address value) := by
  simp only [writeTaito]
  split_ifs <;> simp [h, FitsProgram, FitsPattern]
  omega

theorem LatchBoard.writeBootleg31_fits (number : UInt8) (h : number ≠ 0) (address : UInt16) :
    AllFit number (writeBootleg31 address) := by
  simp only [writeBootleg31]
  split_ifs <;> simp [h, FitsProgram, FitsPattern]

theorem LatchBoard.write_fits (kind : LatchBoard) (view : View) (address : UInt16) (value : UInt8) :
    AllFit kind.number (kind.write view address value) := by
  cases kind <;> simp only [LatchBoard.write]
  case contra100 => exact writeContra_fits _ (by decide) address value
  case taito => exact writeTaito_fits _ (by decide) address value
  case bootleg31 => exact writeBootleg31_fits _ (by decide) address
  all_goals (try split_ifs) <;> simp [LatchBoard.number, FitsProgram, FitsPattern]

theorem Mmc1.write_fits (s : Mmc1) (view : View) (address : UInt16) (value : UInt8) :
    AllFit 1 (s.write view address value).2 := by
  simp only [Mmc1.write, Mmc1.commit]
  split_ifs <;> simp [FitsProgram, FitsPattern]

theorem Mmc2.write_fits (s : Mmc2) (address : UInt16) (value : UInt8) :
    AllFit 9 (s.write address value).2 := by
  simp only [Mmc2.write]
  split_ifs <;> simp [FitsProgram, FitsPattern]

theorem Mmc3.bankSignals_fits (s : Mmc3) (value : UInt8) : AllFit 4 (s.bankSignals value) := by
  simp only [Mmc3.bankSignals]
  split <;> simp [FitsProgram]
  split_ifs <;> simp

theorem Mmc3.write_fits (s : Mmc3) (view : View) (address : UInt16) (value : UInt8) :
    AllFit 4 (s.write view address value).2 := by
  simp only [Mmc3.write, Mmc3.writeRegister, Mmc3.setCommand]
  split_ifs <;> simp [FitsProgram, Mmc3.bankSignals_fits]

theorem Mmc5.write_fits (s : Mmc5) (address : UInt16) (value : UInt8) :
    AllFit 5 (s.write address value).2 := by
  unfold Mmc5.write
  split_ifs <;> simp [FitsProgram]

theorem Rambo1.bankSignals_fits (s : Rambo1) (value : UInt8) : AllFit 64 (s.bankSignals value) := by
  simp only [Rambo1.bankSignals]
  split <;> (try split_ifs) <;> simp [FitsProgram]

theorem Rambo1.write_fits (s : Rambo1) (address : UInt16) (value : UInt8) :
    AllFit 64 (s.write address value).2 := by
  simp only [Rambo1.write, Rambo1.writeRegister]
  split_ifs <;> simp [Rambo1.bankSignals_fits]

theorem Vrc1.write_fits (s : Vrc1) (address : UInt16) (value : UInt8) :
    AllFit 75 (s.write address value).2 := by
  unfold Vrc1.write
  split <;> simp [Vrc1.showLow, Vrc1.showHigh, FitsProgram, FitsPattern]

theorem Vrc3.write_fits (s : Vrc3) (address : UInt16) (value : UInt8) :
    AllFit 73 (s.write address value).2 := by
  simp only [Vrc3.write]
  split <;> simp [FitsProgram]

theorem Vrc4.number_ne_zero (s : Vrc4) : s.number ≠ 0 := by
  unfold Vrc4.number
  split <;> decide

theorem Vrc4.write_fits (s : Vrc4) (address : UInt16) (value : UInt8) :
    AllFit s.number (s.write address value).2 := by
  have hn := s.number_ne_zero
  have hchr : ∀ r, AllFit s.number (s.writeChr? r value).2 := by
    intro r
    cases r <;> simp [Vrc4.writeChr?, Vrc4.writeChr, hn]
  have h4 : AllFit s.number (s.write4 address value).2 := by
    unfold Vrc4.write4
    split_ifs
    · exact hchr _
    · split <;> simp [hn, FitsProgram]
    · split <;> simp [hn, FitsProgram]
  unfold Vrc4.write
  split
  · simp only [Vrc4.write22]
    split_ifs <;> (try split) <;> simp [hn, FitsProgram]
  · unfold Vrc4.write23
    split_ifs
    · exact hchr _
    · split <;> simp [hn, FitsProgram]
  · exact h4

theorem Vrc4.write_wiring (s : Vrc4) (address : UInt16) (value : UInt8) :
    (s.write address value).1.wiring = s.wiring := by
  have hchr : ∀ r, (s.writeChr? r value).1.wiring = s.wiring := by
    intro r
    rcases r with - | ⟨window, high⟩
    · rfl
    · cases high <;> rfl
  unfold Vrc4.write
  split
  · simp only [Vrc4.write22]
    split_ifs <;> (try split) <;> rfl
  · unfold Vrc4.write23
    split_ifs
    · exact hchr _
    · split <;> rfl
  · unfold Vrc4.write4
    split
    · exact hchr _
    · split <;> rfl

theorem Vrc6.write_fits (s : Vrc6) (address : UInt16) (value : UInt8) :
    AllFit 24 (s.write address value).2 := by
  simp only [Vrc6.write]
  split_ifs <;> (try split) <;> simp [FitsProgram]

theorem Vrc7.write_fits (s : Vrc7) (address : UInt16) (value : UInt8) :
    AllFit 85 (s.write address value).2 := by
  simp only [Vrc7.write]
  split <;> (try split_ifs) <;> simp [FitsProgram]

theorem Fcg.write_fits (s : Fcg) (address : UInt16) (value : UInt8) :
    AllFit 16 (s.write address value).2 := by
  simp only [Fcg.write]
  split_ifs
  · simp
  · split <;> (try split) <;> simp [FitsProgram]

/-- The four 8KB windows of the program ROM. -/
theorem fitsProgram_window {n : Nat} (hn : n < 4) :
    FitsProgram 8 (UInt16.ofNat (0x8000 + n * 0x2000)) := by
  rcases (by omega : n = 0 ∨ n = 1 ∨ n = 2 ∨ n = 3) with rfl | rfl | rfl | rfl <;> decide

theorem Ss8806.writePrg_fits (s : Ss8806) {window : Nat} (hw : window < 4) (high : Bool)
    (value : UInt8) :
    AllFit 18 (s.writePrg window high value).2 := by
  simp only [Ss8806.writePrg, allFit_cons, fits_prg, allFit_nil, and_true]
  exact ⟨by decide, fitsProgram_window hw⟩

theorem Ss8806.writeChr_fits (s : Ss8806) (window : Nat) (high : Bool) (value : UInt8) :
    AllFit 18 (s.writeChr window high value).2 := by
  simp [Ss8806.writeChr]

theorem Ss8806.write_fits (s : Ss8806) (address : UInt16) (value : UInt8) :
    AllFit 18 (s.write address value).2 := by
  have hpair : ((address >>> 1) &&& 1).toNat < 4 := by
    rw [UInt16.toNat_and]
    exact Nat.lt_of_le_of_lt Nat.and_le_right (by decide)
  simp only [Ss8806.write]
  split
  · split_ifs
    · exact s.writePrg_fits hpair _ _
    · simp
  · split_ifs
    · exact s.writePrg_fits (by decide) _ _
    · simp
  · split_ifs <;> simp
  · split
    · simp
    · simp
    · split <;> simp
    · simp
  · split_ifs
    · exact s.writeChr_fits _ _ _
    · simp

theorem Namco163.write_fits (s : Namco163) (address : UInt16) (value : UInt8) :
    AllFit 19 (s.write address value).2 := by
  simp only [Namco163.write]
  split_ifs
  · simp
  · simp [Signal.Fits]
  · split <;> simp [FitsProgram]

theorem IremG101.write_fits (s : IremG101) (address : UInt16) (value : UInt8) :
    AllFit 32 (s.write address value).2 := by
  unfold IremG101.write
  split <;> (try split_ifs) <;> simp [FitsProgram]

theorem IremH3001.write_fits (s : IremH3001) (address : UInt16) (value : UInt8) :
    AllFit 65 (s.write address value).2 := by
  simp only [IremH3001.write]
  split <;> (try split) <;> simp [FitsProgram]

theorem Caltron.write_fits (s : Caltron) (address : UInt16) (value : UInt8) :
    AllFit 41 (s.write address value).2 := by
  unfold Caltron.write
  split_ifs <;> simp [Caltron.showChr, FitsProgram, FitsPattern]

theorem Pelican.write_fits (s : Pelican) (address : UInt16) (value : UInt8) :
    AllFit 46 (s.write address value).2 := by
  unfold Pelican.write
  simp [Pelican.showBanks, FitsProgram, FitsPattern]

theorem Board40.write_fits (s : Board40) (address : UInt16) (value : UInt8) :
    AllFit 40 (s.write address value).2 := by
  unfold Board40.write
  split <;> simp [FitsProgram]

theorem Board42.write_fits (s : Board42) (address : UInt16) (value : UInt8) :
    AllFit 42 (s.write address value).2 := by
  unfold Board42.write
  split <;> simp [FitsProgram]

theorem Board50.write_fits (s : Board50) (address : UInt16) (value : UInt8) :
    AllFit 50 (s.write address value).2 := by
  unfold Board50.write
  split_ifs <;> simp [FitsProgram]

theorem Aladdin.write_fits (s : Aladdin) (address : UInt16) (value : UInt8) :
    AllFit 160 (s.write address value).2 := by
  have hwindow : (address &&& 3).toNat < 4 := by
    rw [UInt16.toNat_and]
    exact Nat.lt_of_le_of_lt Nat.and_le_right (by decide)
  have hprg : FitsProgram 8 (0x8000 + 0x2000 * (address &&& 3)) := by
    rw [← UInt16.ofNat_toNat (x := address &&& 3)]
    generalize (address &&& 3).toNat = n at hwindow
    rcases (by omega : n = 0 ∨ n = 1 ∨ n = 2 ∨ n = 3) with rfl | rfl | rfl | rfl <;> decide
  unfold Aladdin.write
  split_ifs <;> simp [hprg]

/-! ### The end of a line -/

theorem VrcCounter.tick_irq (c : VrcCounter) : ∀ x ∈ c.tick.2, x = Signal.irq := by
  unfold VrcCounter.tick
  split_ifs <;> simp

theorem CycleTimer.tick_irq (c : CycleTimer) (due : UInt32 → Bool) :
    ∀ x ∈ (c.tick due).2, x = Signal.irq := by
  unfold CycleTimer.tick
  split
  · simp
  · simp only
    split <;> simp

/-- At the end of a line a board at most interrupts. -/
theorem Board.hblank_irq (b : Board) (view : View) (vblank : Bool) :
    ∀ x ∈ (b.hblank view vblank).2, x = Signal.irq := by
  cases b with
  | mmc3 s => simp only [Board.hblank, Board.lift, Mmc3.hblank]; split_ifs <;> simp
  | mmc5 s => simp only [Board.hblank, Board.lift, Mmc5.hblank]; split_ifs <;> simp
  | rambo1 s => simp only [Board.hblank, Board.lift, Rambo1.hblank]; split_ifs <;> simp
  | vrc3 s => simp only [Board.hblank, Board.lift, Vrc3.hblank]; split_ifs <;> simp
  | vrc4 s =>
    simp only [Board.hblank, Board.lift, Vrc4.hblank]
    split
    · simp
    · exact s.line.tick_irq
  | vrc6 s => exact s.line.tick_irq
  | vrc7 s => simp only [Board.hblank, Board.lift, Vrc7.hblank]; split_ifs <;> simp
  | fcg s => simp only [Board.hblank, Board.lift, Fcg.hblank]; split_ifs <;> simp
  | board40 s => simp only [Board.hblank, Board.lift, Board40.hblank]; split_ifs <;> simp
  | board42 s => exact s.timer.tick_irq (0x6000 ≤ ·)
  | board50 s => exact s.timer.tick_irq (· &&& 0x1000 != 0)
  | aladdin s => simp only [Board.hblank, Board.lift, Aladdin.hblank]; split_ifs <;> simp
  | _ => simp [Board.hblank]

/-! ### All boards -/

namespace Board

/-- What a board asks for when it is written fits. -/
theorem write_fits (b : Board) (view : View) (address : UInt16) (value : UInt8) :
    AllFit b.number (b.write view address value).2 := by
  cases b with
  | latch kind => exact kind.write_fits view address value
  | mmc1 s => exact s.write_fits view address value
  | mmc2 s => exact s.write_fits address value
  | mmc3 s => exact s.write_fits view address value
  | mmc5 s => exact s.write_fits address value
  | rambo1 s => exact s.write_fits address value
  | vrc1 s => exact s.write_fits address value
  | vrc3 s => exact s.write_fits address value
  | vrc4 s => exact s.write_fits address value
  | vrc6 s => exact s.write_fits address value
  | vrc7 s => exact s.write_fits address value
  | fcg s => exact s.write_fits address value
  | ss8806 s => exact s.write_fits address value
  | namco163 s => exact s.write_fits address value
  | iremG101 s => exact s.write_fits address value
  | iremH3001 s => exact s.write_fits address value
  | caltron s => exact s.write_fits address value
  | pelican s => exact s.write_fits address value
  | board40 s => exact s.write_fits address value
  | board42 s => exact s.write_fits address value
  | board50 s => exact s.write_fits address value
  | aladdin s => exact s.write_fits address value

/-- What a board asks for at power-on fits. -/
theorem init_fits (b : Board) (view : View) : AllFit b.number (b.init view).2 := by
  cases b with
  | latch kind =>
    show AllFit kind.number kind.init
    cases kind <;> simp [LatchBoard.init, LatchBoard.number, FitsProgram, FitsPattern]
  | mmc1 s =>
    have hw := Mmc1.write_fits { target := s.target } view 0x8000 0x80
    simp only [init, lift, number, Mmc1.init, allFit_append]
    refine ⟨?_, hw⟩
    split_ifs <;> simp [FitsProgram]
  | mmc2 s => simp [init, lift, number, Mmc2.init, FitsProgram]
  | mmc5 s => simp [init, lift, number, Mmc5.init, FitsProgram]
  | rambo1 s => simp [init, lift, number, Rambo1.init, FitsProgram]
  | vrc7 s => simp [init, lift, number, Vrc7.init, FitsProgram, FitsPattern]
  | fcg s => simp [init, lift, number, Fcg.init, FitsProgram]
  | caltron s => simp [init, lift, number, Caltron.init, Caltron.showChr, FitsProgram, FitsPattern]
  | pelican s => simp [init, lift, number, Pelican.init, Pelican.showBanks, FitsProgram, FitsPattern]
  | board40 s => simp [init, lift, number, Board40.init, FitsProgram]
  | board42 s => simp [init, lift, number, Board42.init, FitsProgram]
  | board50 s => simp [init, lift, number, Board50.init, FitsProgram]
  | _ => simp [init]

/-- What a board asks for at the strobe fits. -/
theorem strobe_fits (b : Board) (value : UInt8) : AllFit b.number (b.strobe value) := by
  cases b with
  | latch kind =>
    cases kind <;> simp [strobe, LatchBoard.strobe, number, LatchBoard.number, FitsPattern]
  | _ => simp [strobe]

/-- A write never makes another board of a board. -/
theorem write_number (b : Board) (view : View) (address : UInt16) (value : UInt8) :
    (b.write view address value).1.number = b.number := by
  cases b <;> try rfl
  case vrc4 s => simp only [write, lift, number, Vrc4.number, s.write_wiring]

theorem init_number (b : Board) (view : View) : (b.init view).1.number = b.number := by
  cases b <;> try rfl
  case vrc4 s =>
    show s.init.number = s.number
    unfold Vrc4.init
    split <;> rfl

theorem hblank_number (b : Board) (view : View) (vblank : Bool) :
    (b.hblank view vblank).1.number = b.number := by
  cases b <;> try rfl
  case vrc4 s =>
    show s.hblank.1.number = s.number
    unfold Vrc4.hblank
    split <;> rfl

theorem load_number (b : Board) (bytes : Nat → UInt8) : (b.load bytes).number = b.number := by
  cases b <;> try rfl
  case vrc4 s =>
    show (s.load bytes).number = s.number
    unfold Vrc4.load
    split <;> rfl

/-- Only a board whose number is not 0 chooses a bank by a tile. -/
theorem drawn_number (b : Board) (base : UInt16) (tile : UInt8) :
    (b.drawn base tile).1.number = b.number ∧ ((b.drawn base tile).2 ≠ none → b.number ≠ 0) := by
  cases b with
  | mmc2 s => exact ⟨rfl, fun _ => show (9 : UInt8) ≠ 0 by decide⟩
  | _ => exact ⟨rfl, fun h => absurd rfl h⟩

/-- A fresh board has the number that it was asked for by. -/
theorem number_ofNumber? {number : UInt8} {b : Board} (h : ofNumber? number = some b) :
    b.number = number := by
  unfold ofNumber? at h
  split at h <;> cases h <;> (apply UInt8.toNat.inj; symm; assumption)

end Board

end Famicom
