import Famicom.Proofs.Bitfields
import Famicom.Proofs.LineCounters

/-!
The line counter of the VRC boards. All of them have the same one, behind ports at other addresses:

    boards    latch, or its nybbles low | high     control               acknowledge
    21, 25    $F000 | $F002 $F040                  $F001 $F004 $F080     $F003 $F006 $F0C0
    23        $F000 | $F004                        $F008                 $F00C
    24        $F000                                $F001                 $F002
    85        $E010, with line 3 or 4 up           $F000                 $F010, with line 3 or 4 up

Set going from a latch of L the counter runs through L, L + 1, …, 255 and is carried over at the end of line
number 256 - L. There it interrupts and starts over, and whether it stays on is up to the control, but for
board 85, where it always does. So where the counter stands is a closed form of the number of lines
(`VrcCounter.Ran`), and nothing but the counter's own ports gets in its way.
-/

namespace Famicom

/-- A port of the line counter. -/
inductive VrcPort where
  | latch | low | high | control | acknowledge
  deriving DecidableEq, Repr

namespace VrcPort

/-- The ports of boards 21 and 25. -/
def at4 (address : UInt16) : Option VrcPort :=
  match address.toNat with
  | 0xF000 => some .low
  | 0xF002 | 0xF040 => some .high
  | 0xF004 | 0xF001 | 0xF080 => some .control
  | 0xF006 | 0xF003 | 0xF0C0 => some .acknowledge
  | _ => none

/-- The ports of board 23. -/
def at2 (address : UInt16) : Option VrcPort :=
  match address.toNat with
  | 0xF000 => some .low
  | 0xF004 => some .high
  | 0xF008 => some .control
  | 0xF00C => some .acknowledge
  | _ => none

/-- The ports of board 24, which looks at six of the address lines only. -/
def at6 (address : UInt16) : Option VrcPort :=
  match (address &&& 0xF003).toNat with
  | 0xF000 => some .latch
  | 0xF001 => some .control
  | 0xF002 => some .acknowledge
  | _ => none

/-- The ports of board 85. -/
def at7 (address : UInt16) : Option VrcPort :=
  match (address >>> 12).toNat with
  | 0xE => if Vrc7.odd address then some .latch else none
  | 0xF => some (if Vrc7.odd address then .acknowledge else .control)
  | _ => none

/-- The port at an address of a board. -/
def at? (number : UInt8) (address : UInt16) : Option VrcPort :=
  match number.toNat with
  | 21 | 25 => at4 address
  | 23 => at2 address
  | 24 => at6 address
  | 85 => at7 address
  | _ => none

/-- What a write to a port leaves in the latch. -/
def latched (latch value : UInt8) : VrcPort → UInt8
  | .latch => value
  | .low => latch / 16 * 16 + value % 16
  | .high => value % 16 * 16 + latch % 16
  | .control | .acknowledge => latch

end VrcPort

namespace Access

/-- What an access to the board leaves in the latch of its line counter. -/
def latched (number : UInt8) (latch : UInt8) : Access → UInt8
  | .write address value => ((VrcPort.at? number address).map (VrcPort.latched latch value)).getD latch
  | .hblank _ _ => latch

/-- Anything but a write to a port of the line counter. -/
def Quiet (number : UInt8) : Access → Prop
  | .write address _ => VrcPort.at? number address = none
  | .hblank _ _ => True

/-- How many lines end. -/
def lines : List Access → Nat
  | [] => 0
  | .write _ _ :: later => lines later
  | .hblank _ _ :: later => lines later + 1

end Access

/-! ### Writes -/

namespace VrcCounter

variable (c : VrcCounter) (value : UInt8)

/-- What a write to a port does to the counter. A control that does not enable it reloads it all the same, but
on boards 24 and 85. -/
def written (c : VrcCounter) (number value : UInt8) : VrcPort → VrcCounter
  | .latch => { c with latch := value }
  | .low => c.setLow value
  | .high => c.setHigh value
  | .control => if number = 24 ∨ number = 85 then c.control value else c.start value
  | .acknowledge => c.acknowledge

theorem latch_setLow : (c.setLow value).latch = c.latch / 16 * 16 + value % 16 := by
  have hlatch := c.latch.toNat_lt
  have hhigh : c.latch.toNat &&& 0xF0 = c.latch.toNat / 2 ^ 4 % 2 ^ 4 * 2 ^ 4 := and_field _ 4 4
  have hlow : value.toNat &&& 0x0F = value.toNat % 2 ^ 4 := Nat.and_two_pow_sub_one_eq_mod _ 4
  have hsum : c.latch.toNat / 2 ^ 4 % 2 ^ 4 * 2 ^ 4 ||| value.toNat % 2 ^ 4 =
      2 ^ 4 * (c.latch.toNat / 2 ^ 4 % 2 ^ 4) + value.toNat % 2 ^ 4 := by
    rw [Nat.mul_comm, Nat.two_pow_add_eq_or_of_lt (Nat.mod_lt _ (by decide))]
  apply UInt8.toNat_inj.mp
  simp only [setLow, UInt8.toNat_or, UInt8.toNat_and, UInt8.toNat_add, UInt8.toNat_mul, UInt8.toNat_div,
    UInt8.toNat_mod, UInt8.reduceToNat, hhigh, hlow, hsum]
  omega

theorem latch_setHigh : (c.setHigh value).latch = value % 16 * 16 + c.latch % 16 := by
  have hlow : c.latch.toNat &&& 0x0F = c.latch.toNat % 2 ^ 4 := Nat.and_two_pow_sub_one_eq_mod _ 4
  have hhigh : value.toNat <<< 4 % 2 ^ 8 = 2 ^ 4 * (value.toNat % 2 ^ 4) := by
    rw [Nat.shiftLeft_eq]
    omega
  have hsum : 2 ^ 4 * (value.toNat % 2 ^ 4) ||| c.latch.toNat % 2 ^ 4 =
      2 ^ 4 * (value.toNat % 2 ^ 4) + c.latch.toNat % 2 ^ 4 :=
    (Nat.two_pow_add_eq_or_of_lt (Nat.mod_lt _ (by decide)) _).symm
  apply UInt8.toNat_inj.mp
  simp only [setHigh, UInt8.toNat_or, UInt8.toNat_and, UInt8.toNat_shiftLeft, UInt8.toNat_add, UInt8.toNat_mul,
    UInt8.toNat_mod, UInt8.reduceToNat, Nat.reduceMod, hhigh, hlow, hsum]
  omega

theorem latch_written (number : UInt8) (port : VrcPort) :
    (c.written number value port).latch = port.latched c.latch value := by
  cases port with
  | latch => rfl
  | low => exact c.latch_setLow value
  | high => exact c.latch_setHigh value
  | control =>
    simp only [written, control, start, VrcPort.latched]
    split_ifs <;> rfl
  | acknowledge => rfl

/-- Enabled, the counter starts from the latch on every board. -/
theorem written_control (number : UInt8) (h : value &&& 2 ≠ 0) : c.written number value .control =
    { c with enabled := true, keep := value &&& 1 != 0, counter := c.latch.toNat } := by
  have hon : (value &&& 2 != 0) = true := bne_iff_ne.mpr h
  simp only [written, control, start, hon, if_true, ite_self]

end VrcCounter

namespace Vrc4

variable (s : Vrc4) (address : UInt16) (value : UInt8)

theorem line_writeChr? (register : Option ChrRegister) : (s.writeChr? register value).1.line = s.line := by
  show (s.writeChr? register value).1.clockwork.line = s.clockwork.line
  rw [clockwork_writeChr?]

theorem at4_of_le (h : address ≤ 0xEFFF) : VrcPort.at4 address = none := by
  have hle : address.toNat ≤ 0xEFFF := UInt16.le_iff_toNat_le.mp h
  unfold VrcPort.at4
  split <;> first | rfl | omega

theorem at2_of_le (h : address ≤ 0xEFFF) : VrcPort.at2 address = none := by
  have hle : address.toNat ≤ 0xEFFF := UInt16.le_iff_toNat_le.mp h
  unfold VrcPort.at2
  split <;> first | rfl | omega

theorem line_write4 (number : UInt8) (h24 : number ≠ 24) (h85 : number ≠ 85) :
    (s.write4 address value).1.line = (VrcPort.at4 address).elim s.line (s.line.written number value) := by
  unfold write4
  split
  case isTrue hchr =>
    have hle : address ≤ 0xEFFF := by simp_all
    rw [line_writeChr?, at4_of_le address hle, Option.elim_none]
  case isFalse =>
    unfold VrcPort.at4
    split <;> simp_all [VrcCounter.written]

theorem line_write23 : (s.write23 address value).1.line =
    (VrcPort.at2 address).elim s.line (s.line.written 23 value) := by
  unfold write23
  split
  case isTrue hchr =>
    have hle : address ≤ 0xEFFF := by simp_all
    rw [line_writeChr?, at2_of_le address hle, Option.elim_none]
  case isFalse =>
    unfold VrcPort.at2
    split <;> simp_all [VrcCounter.written]

theorem line_write (h : s.wiring ≠ .board22) : (s.write address value).1.line =
    (VrcPort.at? s.number address).elim s.line (s.line.written s.number value) := by
  obtain ⟨wiring, swapped, low, high, line⟩ := s
  cases wiring with
  | board21 => exact line_write4 _ address value 21 (by decide) (by decide)
  | board22 => exact absurd rfl h
  | board23 => exact line_write23 _ address value
  | board25 => exact line_write4 _ address value 25 (by decide) (by decide)

theorem line_hblank (h : s.wiring ≠ .board22) :
    s.hblank = ({ s with line := s.line.tick.1 }, s.line.tick.2) := by
  unfold hblank
  split
  case h_1 h22 => exact absurd h22 h
  case h_2 => rfl

end Vrc4

theorem Vrc6.line_write (s : Vrc6) (address : UInt16) (value : UInt8) : (s.write address value).1.line =
    (VrcPort.at6 address).elim s.line (s.line.written 24 value) := by
  simp only [write, VrcPort.at6]
  generalize address &&& 0xF003 = register
  by_cases hlow : (0xD000 ≤ register && register ≤ 0xD003) = true
  · rw [if_pos hlow]
    split <;> simp_all [UInt16.le_iff_toNat_le]
  rw [if_neg hlow]
  by_cases hhigh : (0xE000 ≤ register && register ≤ 0xE003) = true
  · rw [if_pos hhigh]
    split <;> simp_all [UInt16.le_iff_toNat_le]
  rw [if_neg hhigh]
  split <;> simp_all [VrcCounter.written]

theorem Vrc7.line_write (s : Vrc7) (address : UInt16) (value : UInt8) : (s.write address value).1.line =
    (VrcPort.at7 address).elim s.line (s.line.written 85 value) := by
  simp only [write, VrcPort.at7]
  generalize (address >>> 12).toNat = block
  by_cases hlatch : block = 0xE
  · subst hlatch
    cases odd address <;> rfl
  by_cases hcontrol : block = 0xF
  · subst hcontrol
    cases odd address <;> rfl
  split <;> simp_all

/-! ### Lines -/

namespace VrcCounter

/-- The end of a line on a board. -/
def lineEnd (c : VrcCounter) (number : UInt8) : VrcCounter × List Signal :=
  if number = 85 then ((Vrc7.hblank ⟨c⟩).1.line, (Vrc7.hblank ⟨c⟩).2) else c.tick

theorem latch_lineEnd (c : VrcCounter) (number : UInt8) : (c.lineEnd number).1.latch = c.latch := by
  simp only [lineEnd, tick, Vrc7.hblank]
  split_ifs <;> rfl

/-- How many lines the counter takes from a latch to the carry. -/
def period (limit : UInt8) : Nat := 256 - limit.toNat

/-- As many lines after it was set going from a latch, once or again and again. -/
structure Ran (c : VrcCounter) (limit : UInt8) (again : Bool) (lines : Nat) : Prop where
  latch : c.latch = limit
  enabled : c.enabled = true ↔ again = true ∨ lines < period limit
  counter : c.counter = limit.toNat + if c.enabled then lines % period limit else 0

/-- The line with this number is answered with an interrupt. -/
def Due (limit : UInt8) (again : Bool) (line : Nat) : Prop :=
  period limit ∣ line ∧ (again = true ∨ line = period limit)

variable {c : VrcCounter} {limit : UInt8} {again : Bool} {n : Nat}

theorem add_period (limit : UInt8) : limit.toNat + period limit = 256 := by
  have hlimit := limit.toNat_lt
  unfold period
  omega

theorem mod_period_lt (limit : UInt8) (n : Nat) : n % period limit < period limit := by
  have hlimit := limit.toNat_lt
  exact Nat.mod_lt n (Nat.sub_pos_of_lt hlimit)

theorem Ran.counter_le (h : c.Ran limit again n) : c.counter ≤ 255 := by
  have hsum := add_period limit
  have hmod := mod_period_lt limit n
  rw [h.counter]
  split <;> omega

theorem ran_start (hlatch : c.latch = limit) (hon : c.enabled = true) (hcounter : c.counter = limit.toNat) :
    c.Ran limit again 0 := by
  have hpositive : 0 < period limit := mod_period_lt limit 0 |>.pos
  exact ⟨hlatch, by simp [hon, hpositive], by rw [hcounter, if_pos hon, Nat.zero_mod, Nat.add_zero]⟩

/-- Switched off, it stays where it is. -/
theorem Ran.rest (h : c.Ran limit again n) (hoff : c.enabled = false) :
    c.Ran limit again (n + 1) ∧ ¬ Due limit again (n + 1) := by
  have hcounter := h.counter
  rw [hoff] at hcounter
  obtain ⟨honce, hpast⟩ := not_or.mp (mt h.enabled.mpr (by rw [hoff]; exact Bool.false_ne_true))
  refine ⟨⟨h.latch, ?_, by rw [hoff, hcounter]; rfl⟩, ?_⟩
  · rw [hoff]
    exact iff_of_false Bool.false_ne_true (not_or.mpr ⟨honce, by omega⟩)
  · rintro ⟨-, hagain | hlast⟩
    · exact honce hagain
    · omega

/-- Before 255 it counts. -/
theorem Ran.more (h : c.Ran limit again n) (hon : c.enabled = true) (hroom : c.counter + 1 ≠ 256) :
    ({ c with counter := c.counter + 1 } : VrcCounter).Ran limit again (n + 1) ∧ ¬ Due limit again (n + 1) := by
  have hsum := add_period limit
  have hmod := mod_period_lt limit n
  have hcounter := h.counter
  rw [if_pos hon] at hcounter
  have hnext : (n + 1) % period limit = n % period limit + 1 := by
    rw [← Nat.mod_add_mod, Nat.mod_eq_of_lt (by omega)]
  have hdue : ¬ period limit ∣ n + 1 := by
    rw [Nat.dvd_iff_mod_eq_zero, hnext]
    exact Nat.succ_ne_zero _
  refine ⟨⟨h.latch, iff_of_true hon ?_, ?_⟩, fun hd => hdue hd.1⟩
  · refine (h.enabled.mp hon).imp_right fun hlt => ?_
    have hne : n + 1 ≠ period limit := fun heq => hdue (heq ▸ dvd_rfl)
    omega
  · show c.counter + 1 = limit.toNat + if c.enabled then (n + 1) % period limit else 0
    rw [if_pos hon, hnext, hcounter, Nat.add_assoc]

/-- At 255 it is carried over. -/
theorem Ran.over (h : c.Ran limit again n) (hon : c.enabled = true) (hlast : c.counter + 1 = 256) :
    ({ c with counter := c.latch.toNat, enabled := again } : VrcCounter).Ran limit again (n + 1) ∧
      Due limit again (n + 1) := by
  have hsum := add_period limit
  have hcounter := h.counter
  rw [if_pos hon] at hcounter
  have hnext : (n + 1) % period limit = 0 := by
    rw [← Nat.mod_add_mod, show n % period limit + 1 = period limit by omega, Nat.mod_self]
  have hdue : period limit ∣ n + 1 := Nat.dvd_of_mod_eq_zero hnext
  have hle : period limit ≤ n + 1 := Nat.le_of_dvd (Nat.succ_pos n) hdue
  refine ⟨⟨h.latch, ?_, ?_⟩, hdue, (h.enabled.mp hon).imp_right fun hlt => by omega⟩
  · exact ⟨Or.inl, fun hor => hor.resolve_right (by omega)⟩
  · show c.latch.toNat = limit.toNat + if again then (n + 1) % period limit else 0
    rw [hnext, ite_self, Nat.add_zero, h.latch]

section
variable (number : UInt8)

theorem lineEnd_off (hoff : c.enabled = false) : c.lineEnd number = (c, []) := by
  simp only [lineEnd, tick, Vrc7.hblank, hoff, Bool.not_false, if_true, ite_self]

theorem lineEnd_more (hon : c.enabled = true) (hroom : c.counter < 255) :
    c.lineEnd number = ({ c with counter := c.counter + 1 }, []) := by
  have hnot : ¬ c.counter + 1 > 255 := by omega
  have hne : c.counter + 1 ≠ 256 := by omega
  simp only [lineEnd, tick, Vrc7.hblank, hon, Bool.not_true, if_false, hnot, hne, ite_self, Bool.false_eq_true]

theorem lineEnd_over (hon : c.enabled = true) (hlast : c.counter = 255) : c.lineEnd number =
    ({ c with counter := c.latch.toNat, enabled := c.keep || number == 85 }, [.irq]) := by
  by_cases h85 : number = 85
  · subst h85
    simp [lineEnd, Vrc7.hblank, hon, hlast]
  · simp [lineEnd, tick, hon, hlast, h85]

end

/-- A line more, with an interrupt if one is due. -/
theorem Ran.lineEnd {number : UInt8} (h : c.Ran limit (c.keep || number == 85) n) :
    (c.lineEnd number).1.Ran limit (c.keep || number == 85) (n + 1) ∧ (c.lineEnd number).1.keep = c.keep ∧
      ((c.lineEnd number).2.contains .irq = true ↔ Due limit (c.keep || number == 85) (n + 1)) := by
  have hle := h.counter_le
  cases hon : c.enabled with
  | false =>
    obtain ⟨hran, hdue⟩ := h.rest hon
    rw [lineEnd_off number hon]
    exact ⟨hran, rfl, iff_of_false Bool.false_ne_true hdue⟩
  | true =>
    rcases Nat.lt_or_ge c.counter 255 with hroom | hlast
    · obtain ⟨hran, hdue⟩ := h.more hon (by omega)
      rw [lineEnd_more number hon hroom]
      exact ⟨hran, rfl, iff_of_false Bool.false_ne_true hdue⟩
    · obtain ⟨hran, hdue⟩ := h.over hon (by omega)
      rw [lineEnd_over number hon (Nat.le_antisymm hle hlast)]
      exact ⟨hran, rfl, iff_of_true rfl hdue⟩

end VrcCounter

/-- The line counter of a VRC board. -/
def Board.vrcCounter : Board → Option VrcCounter
  | .vrc4 s => if s.wiring = .board22 then none else some s.line
  | .vrc6 s => some s.line
  | .vrc7 s => some s.line
  | _ => none

namespace Board

variable {b : Board} {c : VrcCounter}

theorem vrcCounter_vrc4 {s : Vrc4} : (vrc4 s).vrcCounter = some c ↔ s.wiring ≠ .board22 ∧ s.line = c := by
  by_cases h : s.wiring = .board22 <;> simp [vrcCounter, h]

theorem exists_vrcCounter (h : b.number ∈ [21, 23, 24, 25, 85]) : ∃ c, b.vrcCounter = some c := by
  cases b with
  | vrc4 s =>
    refine ⟨s.line, vrcCounter_vrc4.mpr ⟨fun h22 => ?_, rfl⟩⟩
    simp [number, Vrc4.number, h22] at h
  | vrc6 s => exact ⟨s.line, rfl⟩
  | vrc7 s => exact ⟨s.line, rfl⟩
  | latch kind => cases kind <;> simp [number, LatchBoard.number] at h
  | _ => simp [number] at h

/-- A write to a port does the same on all boards, and any other leaves the counter alone. -/
theorem vrcCounter_write (h : b.vrcCounter = some c) (view : View) (address : UInt16) (value : UInt8) :
    (b.write view address value).1.vrcCounter =
      some ((VrcPort.at? b.number address).elim c (c.written b.number value)) := by
  cases b with
  | vrc4 s =>
    obtain ⟨hcounts, rfl⟩ := vrcCounter_vrc4.mp h
    exact vrcCounter_vrc4.mpr ⟨by rwa [s.write_wiring], s.line_write address value hcounts⟩
  | vrc6 s =>
    obtain rfl : s.line = c := Option.some.inj h
    exact congrArg some (s.line_write address value)
  | vrc7 s =>
    obtain rfl : s.line = c := Option.some.inj h
    exact congrArg some (s.line_write address value)
  | _ => exact absurd h.symm (Option.some_ne_none c)

theorem vrcCounter_hblank (h : b.vrcCounter = some c) (view : View) (vblank : Bool) :
    (b.hblank view vblank).1.vrcCounter = some (c.lineEnd b.number).1 ∧
      (b.hblank view vblank).2 = (c.lineEnd b.number).2 := by
  cases b with
  | vrc4 s =>
    obtain ⟨hcounts, rfl⟩ := vrcCounter_vrc4.mp h
    have h85 : s.number ≠ 85 := by
      unfold Vrc4.number
      split <;> decide
    have hend : s.line.lineEnd (vrc4 s).number = s.line.tick := if_neg h85
    simp only [hblank, lift, s.line_hblank hcounts, hend, vrcCounter, if_neg hcounts, and_self]
  | vrc6 s =>
    obtain rfl : s.line = c := Option.some.inj h
    exact ⟨rfl, rfl⟩
  | vrc7 s =>
    obtain rfl : s.line = c := Option.some.inj h
    exact ⟨rfl, rfl⟩
  | _ => exact absurd h.symm (Option.some_ne_none c)

/-- Set going from a latch with the control's word on staying on, the board's counter as many lines later. -/
def Ran (b : Board) (limit : UInt8) (wait : Bool) (lines : Nat) : Prop :=
  ∃ c, b.vrcCounter = some c ∧ c.keep = wait ∧ c.Ran limit (wait || b.number == 85) lines

variable {limit : UInt8} {wait : Bool} {n : Nat} (view : View)

/-- Interrupts come when they are due. -/
theorem Ran.asks (h : b.Ran limit wait n) (a : Access) : (b.answer (a.cue view)).2.contains .irq = true ↔
    a.IsLine ∧ VrcCounter.Due limit (wait || b.number == 85) (n + 1) := by
  cases a with
  | write address value =>
    exact iff_of_false (by rw [Access.cue, answer, b.write_asks]; exact Bool.false_ne_true) (·.1)
  | hblank rendering vblank =>
    obtain ⟨c, hc, rfl, hran⟩ := h
    rw [Access.cue, answer, (vrcCounter_hblank hc _ vblank).2, hran.lineEnd.2.2]
    exact ⟨fun hdue => ⟨trivial, hdue⟩, And.right⟩

/-- Lines are counted, and nothing else touches the counter. -/
theorem Ran.next (h : b.Ran limit wait n) {a : Access} (ha : a.Quiet b.number) :
    (b.answer (a.cue view)).1.Ran limit wait (n + Access.lines [a]) := by
  obtain ⟨c, hc, rfl, hran⟩ := h
  cases a with
  | write address value =>
    have hkept := vrcCounter_write hc view address value
    rw [show VrcPort.at? b.number address = none from ha, Option.elim_none] at hkept
    exact ⟨c, hkept, rfl, by rwa [b.answer_number view]⟩
  | hblank rendering vblank =>
    obtain ⟨hnext, hkeep, -⟩ := hran.lineEnd
    exact ⟨_, (vrcCounter_hblank hc _ vblank).1, hkeep, by rwa [b.answer_number view]⟩

end Board

/-! ### Machines -/

namespace Access

theorem lines_cons (a : Access) (later : List Access) : lines (a :: later) = lines [a] + lines later := by
  cases a with
  | write address value => exact (Nat.zero_add _).symm
  | hblank rendering vblank => exact Nat.add_comm _ _

theorem latched_nybbles (latch limit : UInt8) :
    (limit >>> 4) % 16 * 16 + (latch / 16 * 16 + limit % 16) % 16 = limit := by
  have hlatch := latch.toNat_lt
  have hlimit := limit.toNat_lt
  apply UInt8.toNat_inj.mp
  simp only [UInt8.toNat_add, UInt8.toNat_mul, UInt8.toNat_div, UInt8.toNat_mod, UInt8.toNat_shiftRight,
    Nat.shiftRight_eq_div_pow, UInt8.reduceToNat, Nat.reduceMod, Nat.reducePow]
  omega

/-- Every latch can be written, in two nybbles where the board has it so. -/
theorem exists_latching {number : UInt8} (h : number ∈ [21, 23, 24, 25, 85]) (limit latch : UInt8) :
    ∃ setup : List Access, (∀ a ∈ setup, a.InRom) ∧ setup.foldl (latched number) latch = limit := by
  have hone : ∀ {a : UInt16} (v : UInt8), 0x8000 ≤ a → ∀ x ∈ [write a v], x.InRom :=
    fun _ ha => List.forall_mem_singleton.mpr ha
  have htwo : ∀ {a a' : UInt16} (v v' : UInt8), 0x8000 ≤ a → 0x8000 ≤ a' →
      ∀ x ∈ [write a v, write a' v'], x.InRom :=
    fun _ v' ha ha' => List.forall_mem_cons.mpr ⟨ha, hone v' ha'⟩
  simp only [List.mem_cons, List.not_mem_nil, or_false] at h
  rcases h with rfl | rfl | rfl | rfl | rfl
  · exact ⟨[write 0xF000 limit, write 0xF002 (limit >>> 4)], htwo _ _ (by decide) (by decide),
      latched_nybbles latch limit⟩
  · exact ⟨[write 0xF000 limit, write 0xF004 (limit >>> 4)], htwo _ _ (by decide) (by decide),
      latched_nybbles latch limit⟩
  · exact ⟨[write 0xF000 limit], hone _ (by decide), rfl⟩
  · exact ⟨[write 0xF000 limit, write 0xF002 (limit >>> 4)], htwo _ _ (by decide) (by decide),
      latched_nybbles latch limit⟩
  · exact ⟨[write 0xE010 limit], hone _ (by decide), rfl⟩

end Access

namespace Machine

variable {m : Machine} {number limit : UInt8} {wait : Bool} {n : Nat}

/-- The machine has a board with this number, and its counter has run as far. -/
def Ran (m : Machine) (number limit : UInt8) (wait : Bool) (lines : Nat) : Prop :=
  ∃ b, m.board = some b ∧ b.number = number ∧ b.Ran limit wait lines

theorem Ran.asks (h : m.Ran number limit wait n) (a : Access) : m.asks a = true ↔
    a.IsLine ∧ VrcCounter.Due limit (wait || number == 85) (n + 1) := by
  obtain ⟨b, hboard, rfl, hb⟩ := h
  rw [Machine.asks, hboard, Option.any_some]
  exact hb.asks m.view a

theorem Ran.run (h : m.Ran number limit wait n) {later : List Access} (hlater : ∀ a ∈ later, a.Quiet number) :
    (later.foldl Machine.access m).Ran number limit wait (n + Access.lines later) := by
  induction later generalizing m n with
  | nil => exact h
  | cons a later ih =>
    obtain ⟨ha, hrest⟩ := List.forall_mem_cons.mp hlater
    obtain ⟨b, hboard, rfl, hb⟩ := h
    rw [Access.lines_cons, ← Nat.add_assoc]
    exact ih ⟨_, board_access hboard a, b.answer_number _ a, hb.next _ ha⟩ hrest

/-- What is written to the latch, the board keeps. -/
theorem latch_run {b : Board} {c : VrcCounter} (hboard : m.board = some b) (hc : b.vrcCounter = some c)
    (setup : List Access) : ∃ b' c', (setup.foldl access m).board = some b' ∧ b'.number = b.number ∧
      b'.vrcCounter = some c' ∧ c'.latch = setup.foldl (Access.latched b.number) c.latch := by
  induction setup generalizing m b c with
  | nil => exact ⟨b, c, hboard, rfl, hc, rfl⟩
  | cons a setup ih =>
    obtain ⟨c', hc', hlatch⟩ : ∃ c', (b.answer (a.cue m.view)).1.vrcCounter = some c' ∧
        c'.latch = a.latched b.number c.latch := by
      cases a with
      | write address value =>
        refine ⟨_, Board.vrcCounter_write hc m.view address value, ?_⟩
        rw [Access.latched]
        cases VrcPort.at? b.number address with
        | none => rfl
        | some port => exact c.latch_written value b.number port
      | hblank rendering vblank =>
        exact ⟨_, (Board.vrcCounter_hblank hc _ vblank).1, c.latch_lineEnd b.number⟩
    have hnumber : (b.answer (a.cue m.view)).1.number = b.number := b.answer_number _ a
    obtain ⟨b', c'', hb', hnumber', hc'', hlatch'⟩ := ih (board_access hboard a) hc'
    refine ⟨b', c'', hb', hnumber'.trans hnumber, hc'', ?_⟩
    rw [hlatch', hnumber, hlatch, List.foldl_cons]

/-- A control that enables the counter sets it going from the latch. -/
theorem ran_control {b : Board} {c : VrcCounter} (hboard : m.board = some b) (hc : b.vrcCounter = some c)
    {address : UInt16} {value : UInt8} (haddress : VrcPort.at? b.number address = some .control)
    (hon : value &&& 2 ≠ 0) :
    (m.access (.write address value)).Ran b.number c.latch (value &&& 1 != 0) 0 := by
  have hwritten := Board.vrcCounter_write hc m.view address value
  rw [haddress, Option.elim_some, c.written_control value _ hon] at hwritten
  exact ⟨_, board_access hboard _, b.answer_number _ _, _, hwritten, rfl, VrcCounter.ran_start rfl rfl rfl⟩

/-- The line counters of the VRC boards are periodic. Whatever has been written before, the latch holds what its
ports make of it, and every latch can be written. Set going from a latch of L, the counter stays below 256 and
sends an interrupt at the end of every line whose number is a multiple of 256 - L, as long as nobody writes to
its ports: once only, if the control did not tell it to stay on and the board is not 85. -/
theorem vrc_interrupts_periodic {b : Board} (hboard : m.board = some b)
    (hnumber : b.number ∈ [21, 23, 24, 25, 85]) :
    (∀ limit latch : UInt8, ∃ setup : List Access, (∀ a ∈ setup, a.InRom) ∧
      setup.foldl (Access.latched b.number) latch = limit) ∧
    ∃ c, b.vrcCounter = some c ∧ ∀ (setup : List Access) (address : UInt16) (value : UInt8),
      VrcPort.at? b.number address = some .control → value &&& 2 ≠ 0 →
      let limit := setup.foldl (Access.latched b.number) c.latch
      let start := (setup.foldl access m).access (.write address value)
      ∀ pre : List Access, (∀ a ∈ pre, a.Quiet b.number) →
        let line := Access.lines pre + 1
        (∃ c', (pre.foldl access start).board.bind Board.vrcCounter = some c' ∧ c'.counter ≤ 255) ∧
        ∀ a, (pre.foldl access start).asks a = true ↔ a.IsLine ∧ 256 - limit.toNat ∣ line ∧
          (value &&& 1 ≠ 0 ∨ line = 256 - limit.toNat ∨ b.number = 85) := by
  refine ⟨Access.exists_latching hnumber, ?_⟩
  obtain ⟨c, hc⟩ := Board.exists_vrcCounter hnumber
  refine ⟨c, hc, fun setup address value haddress hon => ?_⟩
  intro limit start pre hpre line
  obtain ⟨b', c', hboard', hnumber', hc', hlatch⟩ := latch_run hboard hc setup
  rw [← hnumber'] at haddress
  have hstart := ran_control hboard' hc' haddress hon
  rw [hnumber', hlatch] at hstart
  have hran := hstart.run hpre
  rw [Nat.zero_add] at hran
  refine ⟨?_, fun a => ?_⟩
  · obtain ⟨b'', hb'', -, c'', hc'', -, hran''⟩ := hran
    exact ⟨c'', by rw [hb'', Option.bind_some, hc''], hran''.counter_le⟩
  · rw [hran.asks, VrcCounter.Due, VrcCounter.period, Bool.or_eq_true, bne_iff_ne, beq_iff_eq, or_assoc,
      or_comm (a := b.number = 85)]

/-- A latch of FE, so a period of two. Board 21 told to do it once asks at the second line and no more, and
board 85, told the same, at every second line. -/
theorem vrc_interrupts_periodic_of_two :
    let line : Access := .hblank false true
    let board21 : Machine := ([.write 0xF000 0xE, .write 0xF002 0xF, .write 0xF004 2] : List Access).foldl access
      { (default : Machine) with board := some (.vrc4 { wiring := .board21 }) }
    let board85 : Machine := ([.write 0xE010 0xFE, .write 0xF000 2] : List Access).foldl access
      { (default : Machine) with board := some (.vrc7 {}) }
    board21.asks line = false ∧ (board21.access line).asks line = true ∧
    ([line, line, line].foldl access board21).asks line = false ∧
    (board85.access line).asks line = true ∧ ([line, line, line].foldl access board85).asks line = true := by
  intro line board21 board85
  obtain ⟨-, c21, hc21, hruns21⟩ := vrc_interrupts_periodic
    (m := { (default : Machine) with board := some (.vrc4 { wiring := .board21 }) }) rfl (by decide)
  obtain ⟨-, c85, hc85, hruns85⟩ := vrc_interrupts_periodic
    (m := { (default : Machine) with board := some (.vrc7 {}) }) rfl (by decide)
  obtain rfl : ({} : VrcCounter) = c21 := Option.some.inj hc21
  obtain rfl : ({} : VrcCounter) = c85 := Option.some.inj hc85
  have hasks21 := hruns21 [.write 0xF000 0xE, .write 0xF002 0xF] 0xF004 2 rfl (by decide)
  have hasks85 := hruns85 [.write 0xE010 0xFE] 0xF000 2 rfl (by decide)
  have hquiet : ∀ n number, ∀ a ∈ List.replicate n line, a.Quiet number := fun n number a ha => by
    rw [List.eq_of_mem_replicate ha]
    trivial
  refine ⟨?_, (hasks21 [line] (hquiet 1 21)).2 line |>.mpr ⟨trivial, by decide⟩, ?_,
    (hasks85 [line] (hquiet 1 85)).2 line |>.mpr ⟨trivial, by decide⟩,
    (hasks85 [line, line, line] (hquiet 3 85)).2 line |>.mpr ⟨trivial, by decide⟩⟩
  · have hearly := (hasks21 [] (hquiet 0 21)).2 line
    exact Bool.eq_false_of_not_eq_true fun h => absurd (hearly.mp h).2 (by decide)
  · have hlate := (hasks21 [line, line, line] (hquiet 3 21)).2 line
    exact Bool.eq_false_of_not_eq_true fun h => absurd (hlate.mp h).2 (by decide)

end Machine

end Famicom
