import Famicom.Proofs.SoundUnit

/-!
Writing all registers of the sound unit twice. The second time every write finds what the first one left.

    write                     the first time                     again
    period, lengths, waves    set                                set to the same
    level of the samples      jumps by the difference            the difference is zero
    short noise               drawn, if it is entered            it is on already
    switch of the samples     starts one, unless one is playing  one is playing
-/

namespace Famicom

/-! ### The voices -/

/-- A pulse voice after its registers and its switch were written. -/
def Pulse.rewritten (p : Pulse) (control sweep low high : UInt8) (on : Bool) (t : Timing) : Pulse :=
  ((((p.writeControl control t).writeSweep sweep t).writeTimerLow low).writeTimerHigh high t).setEnabled on

/-- The triangle voice after its registers and its switch were written. -/
def Triangle.rewritten (w : Triangle) (linear low high : UInt8) (on : Bool) (t : Timing) : Triangle :=
  (((w.writeLinear linear t).writeTimerLow low).writeTimerHigh high t).setEnabled on

/-- The noise voice after its registers and its switch were written. -/
def Noise.rewritten (w : Noise) (control mode length : UInt8) (on : Bool) (t : Timing) : Noise :=
  (((w.writeControl control t).writeMode mode).writeLength length t).setEnabled on

/-- The sample voice after its registers and its switch were written. -/
def SampleVoice.rewritten (v : SampleVoice) (control level address length : UInt8) (on : Bool) :
    SampleVoice :=
  ((((v.writeControl control).writeLevel level).writeAddress address).writeLength length).setEnabled on

theorem Pulse.rewritten_again (p : Pulse) (control sweep low high : UInt8) (on : Bool) (t : Timing) :
    (p.rewritten control sweep low high on t).rewritten control sweep low high on t =
      p.rewritten control sweep low high on t := by
  have hperiod : ∀ period : Int, (high.toNat % 8 * 256 + (period / 256 * 256 + low.toNat) % 256 : Int) =
      high.toNat % 8 * 256 + low.toNat % 256 := by omega
  simp only [rewritten, writeControl, writeSweep, writeTimerLow, writeTimerHigh, setEnabled, Envelope.restart,
    hperiod]

theorem Triangle.rewritten_again (w : Triangle) (linear low high : UInt8) (on : Bool) (t : Timing) :
    (w.rewritten linear low high on t).rewritten linear low high on t = w.rewritten linear low high on t := by
  cases on <;> rfl

theorem Noise.writeControl_same {w : Noise} {t : Timing}
    (hdelay : w.envelope.delay = t.delay (volumeCode w.control)) : w.writeControl w.control t = w := by
  rw [writeControl, ← hdelay]

/-- The noise is drawn when the short mode is entered; the second time it is on already. -/
theorem Noise.writeMode_same {w : Noise} (hperiod : w.period = periodOf noisePeriods w.mode) :
    w.writeMode w.mode = w := by
  have hshort : (w.mode &&& 0x80 != 0 && !w.isShort) = false := by rw [isShort, Bool.and_not_self]
  rw [writeMode, hshort]
  simp only [← hperiod]
  rfl

theorem Noise.rewritten_again (w : Noise) (control mode length : UInt8) (on : Bool) (t : Timing) :
    (w.rewritten control mode length on t).rewritten control mode length on t =
      w.rewritten control mode length on t := by
  obtain ⟨hcontrol, hmode, -⟩ := (w.writeControl control t).writeMode_keeps mode
  obtain ⟨hperiod, -, henvelope⟩ := (w.writeControl control t).writeMode_latches mode
  unfold rewritten
  generalize (w.writeControl control t).writeMode mode = v at hcontrol hmode hperiod henvelope ⊢
  have hsame : (((v.writeLength length t).setEnabled on).writeControl control t).writeMode mode =
      (v.writeLength length t).setEnabled on := by
    subst hmode
    have hdelay : v.envelope.delay = t.delay (volumeCode v.control) := by
      rw [henvelope, hcontrol]
      rfl
    have hkept : ((v.writeLength length t).setEnabled on).writeControl control t =
        (v.writeLength length t).setEnabled on := by
      rw [show control = v.control from hcontrol.symm]
      exact writeControl_same hdelay
    rw [hkept]
    exact writeMode_same hperiod
  rw [hsame]
  cases on <;> rfl

/-- The level jumps by the difference, which the second time is zero; a sample that has been started is not
started again. -/
theorem SampleVoice.rewritten_again (v : SampleVoice) (control level address length : UInt8) (on : Bool) :
    (v.rewritten control level address length on).rewritten control level address length on =
      v.rewritten control level address length on := by
  cases on with
  | false =>
    simp [rewritten, writeControl, writeLevel, writeAddress, writeLength, setEnabled]
  | true =>
    by_cases hplays : v.remaining = 0
    · simp [rewritten, writeControl, writeLevel, writeAddress, writeLength, setEnabled, restart, hplays, bits]
    · simp [rewritten, writeControl, writeLevel, writeAddress, writeLength, setEnabled, hplays]

/-! ### The unit -/

namespace Sound

section
variable (s : Sound) (value : Nat → UInt8)

/-- Writes some of the registers. -/
def writeSome (ns : List Nat) : Sound :=
  ns.foldl (fun s n => s.write (0x4000 + UInt16.ofNat n) (value n)) s

theorem writeSome_pulse1 : s.writeSome value [0x00, 0x01, 0x02, 0x03] =
    { s with pulse1 := (((s.pulse1.writeControl (value 0x00) s.timing).writeSweep (value 0x01) s.timing).writeTimerLow
      (value 0x02)).writeTimerHigh (value 0x03) s.timing } := rfl

theorem writeSome_pulse2 : s.writeSome value [0x04, 0x05, 0x06, 0x07] =
    { s with pulse2 := (((s.pulse2.writeControl (value 0x04) s.timing).writeSweep (value 0x05) s.timing).writeTimerLow
      (value 0x06)).writeTimerHigh (value 0x07) s.timing } := rfl

theorem writeSome_triangle : s.writeSome value [0x08, 0x09, 0x0A, 0x0B] =
    { s with triangle := ((s.triangle.writeLinear (value 0x08) s.timing).writeTimerLow
      (value 0x0A)).writeTimerHigh (value 0x0B) s.timing } := rfl

theorem writeSome_noise : s.writeSome value [0x0C, 0x0D, 0x0E, 0x0F] =
    { s with noise := ((s.noise.writeControl (value 0x0C) s.timing).writeMode
      (value 0x0E)).writeLength (value 0x0F) s.timing } := rfl

theorem writeSome_sample : s.writeSome value [0x10, 0x11, 0x12, 0x13] =
    { s with sample := (((s.sample.writeControl (value 0x10)).writeLevel (value 0x11)).writeAddress
      (value 0x12)).writeLength (value 0x13) } := rfl

/-- Writing all registers writes each voice's. -/
theorem writeAll_eq : s.writeAll value =
    { s with
      pulse1 := s.pulse1.rewritten (value 0x00) (value 0x01) (value 0x02) (value 0x03)
        (value 0x15 &&& 0x01 != 0) s.timing
      pulse2 := s.pulse2.rewritten (value 0x04) (value 0x05) (value 0x06) (value 0x07)
        (value 0x15 &&& 0x02 != 0) s.timing
      triangle := s.triangle.rewritten (value 0x08) (value 0x0A) (value 0x0B)
        (value 0x15 &&& 0x04 != 0) s.timing
      noise := s.noise.rewritten (value 0x0C) (value 0x0E) (value 0x0F) (value 0x15 &&& 0x08 != 0) s.timing
      sample := s.sample.rewritten (value 0x10) (value 0x11) (value 0x12) (value 0x13)
        (value 0x15 &&& 0x10 != 0)
      switches := value 0x15 } := by
  have hvoices : s.writeAll value = (((((s.writeSome value [0x00, 0x01, 0x02, 0x03]).writeSome value
      [0x04, 0x05, 0x06, 0x07]).writeSome value [0x08, 0x09, 0x0A, 0x0B]).writeSome value
      [0x0C, 0x0D, 0x0E, 0x0F]).writeSome value [0x10, 0x11, 0x12, 0x13]).writeSwitches (value 0x15) := by
    simp only [writeSome, ← List.foldl_append]
    rfl
  rw [hvoices, writeSome_pulse1, writeSome_pulse2, writeSome_triangle, writeSome_noise, writeSome_sample]
  rfl

end

theorem writeAll_again (s : Sound) (value : Nat → UInt8) :
    (s.writeAll value).writeAll value = s.writeAll value := by
  simp only [writeAll_eq, Pulse.rewritten_again, Triangle.rewritten_again, Noise.rewritten_again,
    SampleVoice.rewritten_again]

end Sound

end Famicom
