import Famicom.Proofs.Circuit

/-!
What is left of a board's past when it starts over. A board always wishes the same at power-on, whatever its
registers hold, and most boards clear all of them. Those that do not:

    18                    nybbles of its banks and of its period
    21, 23, 25, 32, 75    bank nybbles, swap bits, top bits of banks
    25                    the line counter too, on purpose
    1, 22                 registers that no answer depends on

Two views of a board say what an answer does depend on: `essence` for all wishes, `clockwork` for interrupts.
-/

namespace Famicom

namespace Board

/-- The board with its registers as they are when it is new. -/
def renewed : Board → Board
  | .latch kind => .latch kind
  | .mmc1 _ => .mmc1 {}
  | .mmc2 _ => .mmc2 {}
  | .mmc3 _ => .mmc3 {}
  | .mmc5 _ => .mmc5 {}
  | .rambo1 _ => .rambo1 {}
  | .vrc1 _ => .vrc1 {}
  | .vrc3 _ => .vrc3 {}
  | .vrc4 s => .vrc4 { wiring := s.wiring }
  | .vrc6 _ => .vrc6 {}
  | .vrc7 _ => .vrc7 {}
  | .fcg _ => .fcg {}
  | .ss8806 _ => .ss8806 {}
  | .namco163 _ => .namco163 {}
  | .iremG101 _ => .iremG101 {}
  | .iremH3001 _ => .iremH3001 {}
  | .caltron _ => .caltron {}
  | .pelican _ => .pelican {}
  | .board40 _ => .board40 {}
  | .board42 _ => .board42 {}
  | .board50 _ => .board50 {}
  | .aladdin _ => .aladdin {}

theorem number_renewed (b : Board) : b.renewed.number = b.number := by
  cases b <;> rfl

/-- The number tells which board it is. -/
theorem ofNumber?_number (b : Board) : ofNumber? b.number = some b.renewed := by
  cases b with
  | latch kind => cases kind <;> rfl
  | vrc4 s =>
    obtain ⟨wiring⟩ := s
    cases wiring <;> rfl
  | _ => rfl

theorem renewed_of_number {b : Board} (b' : Board) (h : b.number = b'.number) : b.renewed = b'.renewed := by
  have hsome : some b.renewed = some b'.renewed := by rw [← ofNumber?_number, ← ofNumber?_number, h]
  exact Option.some.inj hsome

theorem mmc3_of_number {b : Board} (h : b.number = 4) : ∃ s, b = .mmc3 s := by
  have hkind := renewed_of_number (.mmc3 {}) h
  cases b with
  | mmc3 s => exact ⟨s, rfl⟩
  | _ => cases hkind

theorem mmc5_of_number {b : Board} (h : b.number = 5) : ∃ s, b = .mmc5 s := by
  have hkind := renewed_of_number (.mmc5 {}) h
  cases b with
  | mmc5 s => exact ⟨s, rfl⟩
  | _ => cases hkind

theorem rambo1_of_number {b : Board} (h : b.number = 64) : ∃ s, b = .rambo1 s := by
  have hkind := renewed_of_number (.rambo1 {}) h
  cases b with
  | rambo1 s => exact ⟨s, rfl⟩
  | _ => cases hkind

/-- No answer makes another board of a board. -/
theorem renewed_answer (b : Board) (cue : Cue) : (b.answer cue).1.renewed = b.renewed := by
  cases b with
  | vrc4 s =>
    cases cue with
    | write view address value => simp only [answer, write, lift, renewed, s.write_wiring]
    | hblank view vblank =>
      simp only [answer, hblank, lift, renewed, Vrc4.hblank]
      split <;> rfl
    | strobe value => rfl
    | drawn base tile => rfl
  | _ => cases cue <;> rfl

/-- Nor does a power-on. -/
theorem renewed_init (b : Board) (view : View) : (b.init view).1.renewed = b.renewed := by
  cases b with
  | vrc4 s =>
    simp only [init, renewed, Vrc4.init]
    split <;> rfl
  | _ => rfl

/-- What a board wishes at power-on does not depend on its registers. -/
theorem init_wishes (b : Board) (view : View) : (b.init view).2 = (b.renewed.init view).2 := by
  cases b <;> rfl

/-- Nor on more of the console than its ROM. -/
theorem init_congr (b : Board) {rom : Cartridge} {view view' : View} (h : view.Of rom) (h' : view'.Of rom) :
    b.init view = b.init view' := by
  have hsize : view.prgSize = view'.prgSize := h.prgSize.trans h'.prgSize.symm
  cases b with
  | mmc1 s =>
    simp only [init, Mmc1.init, View.prg16, hsize]
    rfl
  | mmc2 s => simp only [init, Mmc2.init, View.prg8, hsize]
  | _ => rfl

end Board

/-! ### What wishes depend on -/

/-- Where the MMC1 took its last bit is forgotten while it holds none. -/
def Mmc1.essence (s : Mmc1) : Mmc1 := if s.latch = 0 ∧ s.count = 0 then { s with target := 0 } else s

theorem Mmc1.write_essence (s : Mmc1) (view : View) (address : UInt16) (value : UInt8) :
    (s.write view address value).2 = (s.essence.write view address value).2 ∧
      (s.write view address value).1.essence = (s.essence.write view address value).1.essence := by
  by_cases hidle : s.latch = 0 ∧ s.count = 0
  · obtain ⟨hlatch, hcount⟩ := hidle
    -- with nothing to discard the next bit is taken all the same
    have htaken : ∀ t r, (if t = r then { s with target := t } else
        { ({ s with target := t } : Mmc1).discard with target := r }) = { s with target := r } := by
      intro t r
      split
      case isTrue h => rw [h]
      case isFalse => simp only [discard, hlatch, hcount]
    have hstate := htaken s.target (register address)
    have hessence : s.essence = { s with target := 0 } := if_pos ⟨hlatch, hcount⟩
    rw [hessence]
    by_cases hreset : (value &&& 0x80 != 0) = true
    · simp only [write, if_pos hreset, discard, essence, and_self, if_true]
    · simp only [write, if_neg hreset, hstate, htaken 0 (register address), and_self]
  · have hessence : s.essence = s := if_neg hidle
    rw [hessence]
    exact ⟨rfl, rfl⟩

/-- Board 22 remembers nothing of what is written. -/
theorem Vrc4.write_board22 (s : Vrc4) (h : s.wiring = .board22) (address : UInt16) (value : UInt8) :
    (s.write address value).1 = s ∧
      (s.write address value).2 = (write22 { wiring := .board22 } address value).2 := by
  simp only [write, h, write22]
  split_ifs
  · exact ⟨rfl, rfl⟩
  · exact ⟨rfl, rfl⟩
  · split <;> exact ⟨rfl, rfl⟩
  · exact ⟨rfl, rfl⟩
  · exact ⟨rfl, rfl⟩

namespace Board

/-- A board without the registers that no answer depends on: those of the MMC1 above, and whatever board 22 was
made with. -/
def essence : Board → Board
  | .mmc1 s => .mmc1 s.essence
  | .vrc4 s => .vrc4 (if s.wiring = .board22 then { wiring := .board22 } else s)
  | b => b

/-- Boards with the same essence answer alike, and keep the same essence. -/
theorem answer_essence (b : Board) (cue : Cue) :
    (b.answer cue).2 = (b.essence.answer cue).2 ∧
      (b.answer cue).1.essence = (b.essence.answer cue).1.essence := by
  cases b with
  | mmc1 s =>
    cases cue with
    | write view address value =>
      obtain ⟨hwishes, hstate⟩ := s.write_essence view address value
      exact ⟨hwishes, congrArg Board.mmc1 hstate⟩
    | _ =>
      have htwice : s.essence.essence = s.essence := by
        unfold Mmc1.essence
        split_ifs <;> simp_all
      exact ⟨rfl, congrArg Board.mmc1 htwice.symm⟩
  | vrc4 s =>
    by_cases h22 : s.wiring = .board22
    · have hessence : (Board.vrc4 s).essence = .vrc4 { wiring := .board22 } :=
        congrArg Board.vrc4 (if_pos h22)
      rw [hessence]
      cases cue with
      | write view address value =>
        obtain ⟨hstill, hwishes⟩ := s.write_board22 h22 address value
        obtain ⟨hstill', hwishes'⟩ := Vrc4.write_board22 { wiring := .board22 } rfl address value
        simp only [answer, write, lift, hstill, hstill', hwishes, hwishes', hessence]
        exact ⟨trivial, rfl⟩
      | hblank view vblank =>
        simp only [answer, hblank, lift, Vrc4.hblank, h22, hessence]
        exact ⟨trivial, rfl⟩
      | strobe value => exact ⟨rfl, hessence⟩
      | drawn base tile => exact ⟨rfl, hessence⟩
    · have hessence : (Board.vrc4 s).essence = .vrc4 s := congrArg Board.vrc4 (if_neg h22)
      rw [hessence]
      exact ⟨rfl, rfl⟩
  | _ => exact ⟨rfl, rfl⟩

/-- Boards that clear all registers that answers depend on when they start over. -/
def StartsOver (number : UInt8) : Prop := number ∉ [18, 21, 23, 25, 32, 75]

instance (number : UInt8) : Decidable (StartsOver number) := by
  unfold StartsOver
  infer_instance

theorem essence_init {b : Board} (h : StartsOver b.number) (view : View) :
    (b.init view).1.essence = (b.renewed.init view).1.essence := by
  cases b with
  | vrc4 s =>
    obtain ⟨wiring, swapped, low, high, line⟩ := s
    cases wiring with
    | board22 => rfl
    | board21 => exact absurd (show StartsOver 21 from h) (by decide)
    | board23 => exact absurd (show StartsOver 23 from h) (by decide)
    | board25 => exact absurd (show StartsOver 25 from h) (by decide)
  | vrc1 s => exact absurd (show StartsOver 75 from h) (by decide)
  | ss8806 s => exact absurd (show StartsOver 18 from h) (by decide)
  | iremG101 s => exact absurd (show StartsOver 32 from h) (by decide)
  | _ => rfl

/-! ### What interrupts depend on -/

end Board

/-- The wiring and the line counter. -/
def Vrc4.clockwork (s : Vrc4) : Vrc4 := { wiring := s.wiring, line := s.line }

theorem Vrc4.clockwork_writeChr? (s : Vrc4) (register : Option ChrRegister) (value : UInt8) :
    (s.writeChr? register value).1.clockwork = s.clockwork := by
  cases register with
  | none => rfl
  | some p =>
    simp only [writeChr?, writeChr]
    split <;> rfl

theorem Vrc4.clockwork_write4 (s : Vrc4) (address : UInt16) (value : UInt8) :
    (s.write4 address value).1.clockwork = (s.clockwork.write4 address value).1.clockwork := by
  unfold write4
  split
  · rw [clockwork_writeChr?, clockwork_writeChr?]
    rfl
  · split <;> rfl

theorem Vrc4.clockwork_write23 (s : Vrc4) (address : UInt16) (value : UInt8) :
    (s.write23 address value).1.clockwork = (s.clockwork.write23 address value).1.clockwork := by
  unfold write23
  split
  · rw [clockwork_writeChr?, clockwork_writeChr?]
    rfl
  · split <;> rfl

theorem Vrc4.clockwork_write (s : Vrc4) (address : UInt16) (value : UInt8) :
    (s.write address value).1.clockwork = (s.clockwork.write address value).1.clockwork := by
  obtain ⟨wiring, swapped, low, high, line⟩ := s
  cases wiring with
  | board22 =>
    rw [(Vrc4.write_board22 _ rfl address value).1, (Vrc4.write_board22 (clockwork _) rfl address value).1]
    rfl
  | board23 => exact clockwork_write23 _ address value
  | board21 | board25 => exact clockwork_write4 _ address value

namespace Board

/-- A board without the registers that no interrupt depends on. -/
def clockwork : Board → Board
  | .mmc1 _ => .mmc1 {}
  | .vrc1 _ => .vrc1 {}
  | .vrc4 s => .vrc4 s.clockwork
  | .ss8806 _ => .ss8806 {}
  | .iremG101 _ => .iremG101 {}
  | b => b

/-- The board answers a cue with an interrupt. -/
def interrupts (b : Board) (cue : Cue) : Bool := (b.answer cue).2.contains .irq

/-- A write never interrupts. -/
theorem interrupts_write (b : Board) (view : View) (address : UInt16) (value : UInt8) :
    b.interrupts (.write view address value) = false := by
  have hfits := b.write_fits view address value
  rw [interrupts, ← Bool.not_eq_true, List.contains_iff_mem]
  exact fun hirq => hfits .irq hirq

theorem answer_clockwork (b : Board) (cue : Cue) :
    b.interrupts cue = b.clockwork.interrupts cue ∧
      (b.answer cue).1.clockwork = (b.clockwork.answer cue).1.clockwork := by
  cases b with
  | vrc4 s =>
    cases cue with
    | write view address value =>
      refine ⟨by rw [interrupts_write, interrupts_write], ?_⟩
      exact congrArg Board.vrc4 (s.clockwork_write address value)
    | hblank view vblank =>
      obtain ⟨wiring, swapped, low, high, line⟩ := s
      cases wiring <;> exact ⟨rfl, rfl⟩
    | strobe value => exact ⟨rfl, rfl⟩
    | drawn base tile => exact ⟨rfl, rfl⟩
  | mmc1 s | vrc1 s | ss8806 s | iremG101 s =>
    cases cue with
    | write view address value => exact ⟨by rw [interrupts_write, interrupts_write], rfl⟩
    | _ => exact ⟨rfl, rfl⟩
  | _ => exact ⟨rfl, rfl⟩

/-- Only board 25 keeps its line counter when it starts over. -/
theorem clockwork_init {b : Board} (h : b.number ≠ 25) (view : View) :
    (b.init view).1.clockwork = (b.renewed.init view).1.clockwork := by
  cases b with
  | vrc4 s =>
    obtain ⟨wiring, swapped, low, high, line⟩ := s
    cases wiring with
    | board25 => exact absurd rfl h
    | board21 | board22 | board23 => rfl
  | _ => rfl

end Board

end Famicom
