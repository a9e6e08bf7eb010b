import Famicom.Proofs.SamplePlayback
import Famicom.Proofs.SoundReplay

/-!
What the voices latch. Delays and periods are worked out when a register is written and are used from then on; before
the first write they are zero, and when the rates change they are out of date. A unit writes all its registers when it
is made and whenever its rates change, so in the end a latch always holds what the registers and the rates say now.

    latch                       register            from
    delay of an envelope        control             rates
    delay of a sweep            sweep               rates
    period of noise, samples    mode, control       table
    period of triangle, VRC6    timer               timer plus one
    rates of a chip             none, its reset     rates
-/

namespace Famicom

theorem Envelope.delay_advance (e : Envelope) (hold : Bool) : (e.advance hold).delay = e.delay :=
  loop_keeps (P := fun f : Envelope => f.delay = e.delay) rfl fun _ h => h

/-! ### Voices -/

namespace Pulse

/-- The delays are those of the registers and the rates. -/
structure Latched (p : Pulse) (t : Timing) : Prop where
  envelope : p.envelope.delay = t.delay (volumeCode p.control)
  sweep : p.sweepDelay = t.delay (p.sweep.toNat / 16 % 8)

variable {p : Pulse} {t : Timing}

theorem Latched.advanceSweep (h : p.Latched t) (extra : Int) : (p.advanceSweep extra).Latched t := by
  unfold Pulse.advanceSweep
  split
  · exact h
  · exact loop_keeps (P := fun q : Pulse => q.Latched t) ⟨h.envelope, h.sweep⟩ fun q hq => ⟨hq.envelope, hq.sweep⟩

theorem Latched.run (h : p.Latched t) (steps : Nat) : (p.run steps).Latched t := by
  unfold Pulse.run
  split
  · exact h
  · exact ⟨h.envelope, h.sweep⟩

theorem Latched.sample (h : p.Latched t) (pace : Pace) (extra : Int) (cycles : Float32) :
    (p.sample pace extra cycles).2.Latched t := by
  have hcounted : Latched { p with
      level := fade p.level
      length := countDown (isHeld p.control) p.length
      envelope := p.envelope.advance (isHeld p.control) } t :=
    ⟨(p.envelope.delay_advance _).trans h.envelope, h.sweep⟩
  simp only [Pulse.sample]
  split
  · exact ⟨h.envelope, h.sweep⟩
  · split
    · exact hcounted
    · have hswept := hcounted.advanceSweep extra
      generalize Pulse.advanceSweep _ extra = q at hswept ⊢
      have hopened : ∀ oscillator, Latched { q with oscillator } t := fun _ => ⟨hswept.envelope, hswept.sweep⟩
      exact (hopened _).run _

theorem latched_rewritten (p : Pulse) (control sweep low high : UInt8) (on : Bool) (t : Timing) :
    (p.rewritten control sweep low high on t).Latched t := ⟨rfl, rfl⟩

end Pulse

namespace Noise

/-- Delay and period are those of the registers and the rates. -/
structure Latched (w : Noise) (t : Timing) : Prop where
  envelope : w.envelope.delay = t.delay (volumeCode w.control)
  period : w.period = periodOf noisePeriods w.mode

variable {w : Noise} {t : Timing}

theorem Latched.writeMode (h : w.Latched t) (value : UInt8) : (w.writeMode value).Latched t := by
  obtain ⟨hcontrol, hmode, -⟩ := w.writeMode_keeps value
  obtain ⟨hperiod, -, henvelope⟩ := w.writeMode_latches value
  exact ⟨by rw [henvelope, hcontrol]; exact h.envelope, by simp only [hperiod, hmode]⟩

theorem Latched.run (h : w.Latched t) (steps : Nat) : (w.run steps).Latched t := by
  unfold Noise.run
  split
  · exact h
  · exact ⟨h.envelope, h.period⟩

theorem Latched.sample (h : w.Latched t) (pace : Pace) (cycles : Float32) : (w.sample pace cycles).2.Latched t := by
  simp only [Noise.sample]
  split
  · exact ⟨h.envelope, h.period⟩
  · generalize pace _ _ _ _ = r
    have hopened : Latched { w with
        level := fade w.level
        length := countDown (isHeld w.control) w.length
        envelope := w.envelope.advance (isHeld w.control)
        oscillator := r.2 } t := ⟨(w.envelope.delay_advance _).trans h.envelope, h.period⟩
    exact hopened.run _

theorem latched_rewritten (w : Noise) (control mode length : UInt8) (on : Bool) (t : Timing) :
    (w.rewritten control mode length on t).Latched t := by
  obtain ⟨hcontrol, hmode, -⟩ := (w.writeControl control t).writeMode_keeps mode
  obtain ⟨hperiod, -, henvelope⟩ := (w.writeControl control t).writeMode_latches mode
  unfold rewritten
  generalize (w.writeControl control t).writeMode mode = v at hcontrol hmode hperiod henvelope ⊢
  refine ⟨?_, ?_⟩
  · show v.envelope.delay = t.delay (volumeCode v.control)
    rw [henvelope, hcontrol]
    rfl
  · show v.period = periodOf noisePeriods v.mode
    simp only [hperiod, hmode]

end Noise

namespace Triangle

/-- The period is that of the timer. -/
def Latched (w : Triangle) : Prop := w.period = w.timer

variable {w : Triangle}

theorem Latched.setEnabled (h : w.Latched) (enabled : Bool) : (w.setEnabled enabled).Latched := by
  unfold Triangle.setEnabled
  split <;> exact h

theorem Latched.count (h : w.Latched) : w.count.Latched := by
  unfold Triangle.count
  split
  · exact h
  · split <;> exact h

theorem Latched.moves (h : w.Latched) (n : Nat) : (Nat.repeat Triangle.move n w).Latched := by
  induction n with
  | zero => exact h
  | succ n ih => exact ih

theorem Latched.sample (h : w.Latched) (pace : Pace) (cycles : Float32) : (w.sample pace cycles).2.Latched := by
  have hfaded : Latched { w with level := fade w.level } := h
  simp only [Triangle.sample]
  split
  · exact h
  · have hcounted := hfaded.count
    split
    · exact hcounted
    · generalize Triangle.count _ = u at hcounted ⊢
      have hopened : ∀ oscillator, Latched { u with oscillator } := fun _ => hcounted
      exact (hopened _).moves _

theorem latched_rewritten (w : Triangle) (linear low high : UInt8) (on : Bool) (t : Timing) :
    (w.rewritten linear low high on t).Latched := by
  have hwritten : (((w.writeLinear linear t).writeTimerLow low).writeTimerHigh high t).Latched := rfl
  exact hwritten.setEnabled on

end Triangle

namespace SampleVoice

/-- The period is that of the control register. -/
def Latched (v : SampleVoice) : Prop := v.period = periodOf samplePeriods v.control

variable {v : SampleVoice}

theorem Latched.congr {v' : SampleVoice} (h : v.Latched) (hperiod : v'.period = v.period)
    (hcontrol : v'.control = v.control) : v'.Latched := by
  unfold Latched
  simp only [hperiod, hcontrol]
  exact h

theorem Latched.setEnabled (h : v.Latched) (enabled : Bool) : (v.setEnabled enabled).Latched := by
  simp only [SampleVoice.setEnabled, restart]
  split_ifs <;> exact h

theorem Latched.delta (h : v.Latched) (up : Bool) : (v.delta up).Latched := by
  unfold SampleVoice.delta
  split_ifs <;> exact h

theorem Latched.play (h : v.Latched) (cpu : Cpu) (cart : Cartridge) : (v.play cpu cart).1.Latched := by
  have hfetched : (if v.remaining % 8 = 0 then v.fetch cpu cart else (v, cpu)).1.Latched := by
    split <;> exact h
  unfold SampleVoice.play
  generalize (if v.remaining % 8 = 0 then v.fetch cpu cart else (v, cpu)) = r at hfetched ⊢
  obtain ⟨v', cpu'⟩ := r
  have hrestart : v'.restart.Latched := hfetched
  have hnext : Latched { v' with remaining := v'.remaining - 1 } := hfetched
  simp only
  split_ifs
  · exact hrestart.delta _
  · exact hfetched
  · exact hfetched
  · exact hnext.delta _

theorem Latched.playMany (h : v.Latched) (cpu : Cpu) (cart : Cartridge) (n : Nat) :
    (v.playMany cpu cart n).1.Latched := by
  induction n generalizing v cpu with
  | zero => exact h
  | succ n ih => exact ih (h.play cpu cart) _

theorem Latched.sample (h : v.Latched) (pace : Pace) (cycles : Float32) (cpu : Cpu) (cart : Cartridge) :
    (v.sample pace cycles cpu cart).2.1.Latched := by
  simp only [SampleVoice.sample]
  split
  · exact h
  · generalize pace _ _ _ _ = r
    exact Latched.playMany (v := { v with level := fade v.level, oscillator := r.2 }) h cpu cart r.1

theorem latched_rewritten (v : SampleVoice) (control level address length : UInt8) (on : Bool) :
    (v.rewritten control level address length on).Latched := by
  have hwritten : ((((v.writeControl control).writeLevel level).writeAddress address).writeLength length).Latched :=
    rfl
  exact hwritten.setEnabled on

end SampleVoice

/-! ### Chips on the cartridge -/

namespace Mmc5Pulse

/-- The delay is that of the control register and the rates. -/
def Latched (p : Mmc5Pulse) (t : Timing) : Prop := p.envelope.delay = t.delay (volumeCode p.control)

variable {p : Mmc5Pulse} {t : Timing}

theorem latched_writeControl (p : Mmc5Pulse) (value : UInt8) (t : Timing) : (p.writeControl value t).Latched t := rfl

theorem Latched.writeTimerLow (h : p.Latched t) (value : UInt8) : (p.writeTimerLow value).Latched t := by
  simp only [Mmc5Pulse.writeTimerLow]
  split <;> exact h

theorem Latched.writeTimerHigh (h : p.Latched t) (value : UInt8) : (p.writeTimerHigh value t).Latched t := by
  simp only [Mmc5Pulse.writeTimerHigh]
  split <;> exact h

theorem Latched.run (h : p.Latched t) (steps : Nat) : (p.run steps).Latched t := by
  unfold Mmc5Pulse.run
  split <;> exact h

theorem Latched.sample (h : p.Latched t) (pace : Pace) (cycles : Float32) : (p.sample pace cycles).2.Latched t := by
  have hcounted : Latched { p with
      level := fade p.level
      length := countDown (isHeld p.control) p.length
      envelope := p.envelope.advance (isHeld p.control) } t := (p.envelope.delay_advance _).trans h
  simp only [Mmc5Pulse.sample]
  split
  · exact h
  · split
    · exact hcounted
    · have hopened : ∀ oscillator, Latched { p with
          level := fade p.level
          length := countDown (isHeld p.control) p.length
          envelope := p.envelope.advance (isHeld p.control)
          oscillator } t := fun _ => hcounted
      exact (hopened _).run _

end Mmc5Pulse

/-- The period is that of the timer. -/
def Vrc6Registers.Latched (r : Vrc6Registers) : Prop := r.period = r.timer

theorem Vrc6Registers.Latched.write {r : Vrc6Registers} (h : r.Latched) (index : UInt16) (value : UInt8) :
    (r.write index value).Latched := by
  unfold Vrc6Registers.write
  split
  · exact h
  · exact rfl
  · exact rfl
  · exact h

theorem Vrc6Saw.registers_moves (w : Vrc6Saw) (n : Nat) : (Nat.repeat move n w).registers = w.registers := by
  have hmove (w : Vrc6Saw) : w.move.registers = w.registers := by
    unfold move
    split <;> rfl
  induction n with
  | zero => rfl
  | succ n ih => exact (hmove _).trans ih

namespace Expansion

/-- The chip has the rates, and its latches are those of the registers. -/
def Latched (t : Timing) : Expansion → Prop
  | .mmc5 s => s.timing = t ∧ s.first.Latched t ∧ s.second.Latched t
  | .vrc6 s =>
    s.cycles = t.cycleRate ∧ s.first.registers.Latched ∧ s.second.registers.Latched ∧ s.saw.registers.Latched
  | .fds _ | .vrc7 _ => True

variable {e : Expansion} {t : Timing}

theorem latched_mmc5_write {s : Mmc5Sound} (h : (mmc5 s).Latched t) (address : UInt16) (value : UInt8) :
    (mmc5 (s.write address value)).Latched t := by
  obtain ⟨rfl, h1, h2⟩ := h
  unfold Mmc5Sound.write
  split
  case h_1 => exact ⟨rfl, s.first.latched_writeControl value s.timing, h2⟩
  case h_2 => exact ⟨rfl, h1, s.second.latched_writeControl value s.timing⟩
  case h_3 => exact ⟨rfl, h1.writeTimerLow value, h2⟩
  case h_4 => exact ⟨rfl, h1, h2.writeTimerLow value⟩
  case h_5 => exact ⟨rfl, h1.writeTimerHigh value, h2⟩
  case h_6 => exact ⟨rfl, h1, h2.writeTimerHigh value⟩
  all_goals exact ⟨rfl, h1, h2⟩

theorem latched_vrc6_write {s : Vrc6Sound} (h : (vrc6 s).Latched t) (address : UInt16) (value : UInt8) :
    (vrc6 (s.write address value)).Latched t := by
  obtain ⟨hcycles, h1, h2, h3⟩ := h
  simp only [Vrc6Sound.write]
  split
  · exact ⟨hcycles, h1.write _ _, h2, h3⟩
  · exact ⟨hcycles, h1, h2.write _ _, h3⟩
  · exact ⟨hcycles, h1, h2, h3.write _ _⟩
  · exact ⟨hcycles, h1, h2, h3⟩

theorem Latched.write (h : e.Latched t) (address : UInt16) (value : UInt8) : (e.write address value).Latched t := by
  cases e with
  | mmc5 s => exact latched_mmc5_write h address value
  | vrc6 s => exact latched_vrc6_write h address value
  | fds | vrc7 => trivial

/-- A reset latches everything anew, whatever was latched before. -/
theorem latched_reset (e : Expansion) (t : Timing) : (e.reset t).Latched t := by
  cases e with
  | mmc5 s =>
    have hfirst : (s.reset t).first = ((s.first.writeControl 0 t).writeTimerLow 0).writeTimerHigh 0 t := rfl
    have hsecond : (s.reset t).second = ((s.second.writeControl 0 t).writeTimerLow 0).writeTimerHigh 0 t := rfl
    refine ⟨rfl, ?_, ?_⟩
    · rw [hfirst]
      exact ((s.first.latched_writeControl 0 t).writeTimerLow 0).writeTimerHigh 0
    · rw [hsecond]
      exact ((s.second.latched_writeControl 0 t).writeTimerLow 0).writeTimerHigh 0
  | vrc6 s => exact ⟨rfl, rfl, rfl, rfl⟩
  | fds | vrc7 => trivial

theorem Latched.sample (h : e.Latched t) (paces : ChipPaces) : (e.sample paces).2.Latched t := by
  cases e with
  | mmc5 s => exact ⟨h.1, h.2.1.sample _ _, h.2.2.sample _ _⟩
  | vrc6 s =>
    obtain ⟨hcycles, h1, h2, h3⟩ := h
    refine ⟨hcycles, h1, h2, ?_⟩
    show Vrc6Registers.Latched (Nat.repeat Vrc6Saw.move _ _).registers
    rw [Vrc6Saw.registers_moves]
    exact h3
  | fds | vrc7 => trivial

end Expansion

/-! ### The unit -/

namespace Sound

/-- All latches of a unit hold what registers and rates say. -/
structure Latched (s : Sound) : Prop where
  pulse1 : s.pulse1.Latched s.timing
  pulse2 : s.pulse2.Latched s.timing
  triangle : s.triangle.Latched
  noise : s.noise.Latched s.timing
  sample : s.sample.Latched
  chip : ∀ e, s.expansion = some e → e.Latched s.timing

variable {s : Sound}

theorem Latched.write (h : s.Latched) (address : UInt16) (value : UInt8) : (s.write address value).Latched := by
  obtain ⟨h1, h2, h3, h4, h5, h6⟩ := h
  unfold Sound.write
  split
  case h_1 => exact ⟨⟨rfl, h1.sweep⟩, h2, h3, h4, h5, h6⟩
  case h_2 => exact ⟨⟨h1.envelope, rfl⟩, h2, h3, h4, h5, h6⟩
  case h_3 | h_4 => exact ⟨⟨h1.envelope, h1.sweep⟩, h2, h3, h4, h5, h6⟩
  case h_5 => exact ⟨h1, ⟨rfl, h2.sweep⟩, h3, h4, h5, h6⟩
  case h_6 => exact ⟨h1, ⟨h2.envelope, rfl⟩, h3, h4, h5, h6⟩
  case h_7 | h_8 => exact ⟨h1, ⟨h2.envelope, h2.sweep⟩, h3, h4, h5, h6⟩
  case h_10 | h_11 => exact ⟨h1, h2, rfl, h4, h5, h6⟩
  case h_12 => exact ⟨h1, h2, h3, ⟨rfl, h4.period⟩, h5, h6⟩
  case h_13 => exact ⟨h1, h2, h3, h4.writeMode value, h5, h6⟩
  case h_14 => exact ⟨h1, h2, h3, ⟨h4.envelope, h4.period⟩, h5, h6⟩
  case h_15 => exact ⟨h1, h2, h3, h4, rfl, h6⟩
  case h_19 =>
    exact ⟨⟨h1.envelope, h1.sweep⟩, ⟨h2.envelope, h2.sweep⟩, h3.setEnabled _, ⟨h4.envelope, h4.period⟩,
      h5.setEnabled _, h6⟩
  all_goals exact ⟨h1, h2, h3, h4, h5, h6⟩

/-- Writing all registers latches everything anew, whatever was latched before. -/
theorem latched_writeAll (hchip : ∀ e, s.expansion = some e → e.Latched s.timing) (value : Nat → UInt8) :
    (s.writeAll value).Latched := by
  rw [writeAll_eq]
  exact ⟨s.pulse1.latched_rewritten _ _ _ _ _ _, s.pulse2.latched_rewritten _ _ _ _ _ _,
    s.triangle.latched_rewritten _ _ _ _ _, s.noise.latched_rewritten _ _ _ _ _,
    s.sample.latched_rewritten _ _ _ _ _, hchip⟩

theorem latched_reset (s : Sound) : s.reset.Latched := by
  have hreset : s.reset = { s.writeAll (fun _ => 0) with expansion := s.expansion.map (·.reset s.timing) } := by
    unfold reset
    rw [writeAll_eq]
  have hbare : Latched ({ s with expansion := none }.writeAll fun _ => 0) :=
    latched_writeAll (fun e he => by cases he) _
  rw [hreset]
  rw [writeAll_eq] at hbare ⊢
  obtain ⟨h1, h2, h3, h4, h5, -⟩ := hbare
  refine ⟨h1, h2, h3, h4, h5, fun e he => ?_⟩
  obtain ⟨e', -, rfl⟩ := Option.map_eq_some_iff.mp he
  exact e'.latched_reset _

theorem Latched.setChip (h : s.Latched) (chip : Option SoundChip) : (s.setChip chip).Latched := by
  obtain ⟨h1, h2, h3, h4, h5, -⟩ := h
  refine ⟨h1, h2, h3, h4, h5, fun e he => ?_⟩
  obtain ⟨c, -, rfl⟩ := Option.map_eq_some_iff.mp he
  exact Expansion.latched_reset _ s.timing

theorem Latched.mapChip (h : s.Latched) {f : Expansion → Expansion}
    (hf : ∀ e, e.Latched s.timing → (f e).Latched s.timing) :
    Latched { s with expansion := s.expansion.map f } := by
  obtain ⟨h1, h2, h3, h4, h5, h6⟩ := h
  refine ⟨h1, h2, h3, h4, h5, fun e he => ?_⟩
  obtain ⟨e', he', rfl⟩ := Option.map_eq_some_iff.mp he
  exact hf e' (h6 e' he')

theorem Latched.mix (h : s.Latched) (paces : Paces) (cpu : Cpu) (cart : Cartridge) :
    (s.mix paces cpu cart).2.1.Latched := by
  obtain ⟨h1, h2, h3, h4, h5, h6⟩ := h
  refine ⟨?_, ?_, ?_, ?_, ?_, fun e he => ?_⟩
  · exact mixed_keeps (P := fun r : Int × Pulse => r.2.Latched s.timing) _ (h1.sample _ _ _) h1
  · exact mixed_keeps (P := fun r : Int × Pulse => r.2.Latched s.timing) _ (h2.sample _ _ _) h2
  · exact mixed_keeps (P := fun r : Int × Triangle => r.2.Latched) _ (h3.sample _ _) h3
  · exact mixed_keeps (P := fun r : Int × Noise => r.2.Latched s.timing) _ (h4.sample _ _) h4
  · exact mixed_keeps (P := fun r : Int × SampleVoice × Cpu => r.2.1.Latched) _ (h5.sample _ _ _ _) h5
  · rcases s.chip_mix paces cpu cart he with he | ⟨e', he', rfl⟩
    · exact h6 e he
    · exact (h6 e' he').sample _

theorem Latched.next (h : s.Latched) (paces : Paces) (cpu : Cpu) (cart : Cartridge) :
    (s.next paces cpu cart).2.1.Latched := by
  obtain ⟨h1, h2, h3, h4, h5, h6⟩ := h.mix paces cpu cart
  obtain ⟨previous, hnext⟩ := s.next_mix paces cpu cart
  rw [hnext]
  exact ⟨h1, h2, h3, h4, h5, h6⟩

theorem Latched.after (h : s.Latched) (e : Event) : (s.after e).Latched := by
  cases e with
  | write address value => exact h.write address value
  | reset => exact s.latched_reset
  | setRates sampleRate refreshRate => exact latched_reset _
  | setFilter | chooseVoices | setVoices =>
    obtain ⟨h1, h2, h3, h4, h5, h6⟩ := h
    exact ⟨h1, h2, h3, h4, h5, h6⟩
  | setChip chip => exact h.setChip chip
  | writeChip address value => exact h.mapChip fun e he => he.write address value
  | load image => exact latched_writeAll h.chip image
  | sample paces cpu cart => exact h.next paces cpu cart

theorem Latched.run (h : s.Latched) (events : List Event) : (s.run events).Latched := by
  induction events generalizing s with
  | nil => exact h
  | cons e events ih => exact ih (h.after e)

theorem latched_ofRates (sampleRate refreshRate : UInt32) : (ofRates sampleRate refreshRate).Latched :=
  latched_reset _

end Sound

end Famicom
