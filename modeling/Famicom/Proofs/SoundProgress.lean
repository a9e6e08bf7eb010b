import Famicom.Proofs.SoundLatches

/-!
No loop of a sample hangs. Envelopes and sweeps let a phase fall and add their delay to it until it is not negative
any more, waves pay periods into a debt. What is added is what was latched, and that is positive, whatever has been
written, as long as a frame has a sample and the longest note fits into a word.

    phase      falls by   delay             laps at most
    envelope   4          1 to 16 frames    4
    sweep      2          1 to 8 frames     2

Two laps are also all that a period stands: the shortest that is heard, bent down by the half and one more, goes from
8 to 3 and to 1.
-/

namespace Famicom

/-! ### Times -/

namespace Timing

/-- A frame has a sample, and the longest note fits into a word. -/
def Fits (t : Timing) : Prop := 1 ≤ t.samples ∧ 127 * t.samples < 0x80000000

instance (t : Timing) : Decidable t.Fits := inferInstanceAs (Decidable (_ ∧ _))

theorem wrap_eq {x : Int} (hlow : 0 ≤ x) (hhigh : x < 0x80000000) : wrap x = x :=
  Int.bmod_eq_of_le_mul_two (by omega) (by omega)

theorem noteFrames_within : ∀ code : Fin 32, 1 ≤ noteFrames.get code ∧ noteFrames.get code ≤ 127 := by decide

variable {t : Timing} (h : t.Fits)
include h

theorem Fits.delay_eq {code : Nat} (hcode : code < 16) : t.delay code = t.samples * (code + 1) := by
  obtain ⟨hlow, hhigh⟩ := h
  have hpos : 0 ≤ t.samples * ((code + 1 : Nat) : Int) := Int.mul_nonneg (by omega) (by omega)
  have hmost : t.samples * ((code + 1 : Nat) : Int) ≤ t.samples * 16 :=
    Int.mul_le_mul_of_nonneg_left (by omega) (by omega)
  exact wrap_eq hpos (by omega)

/-- Every delay of an envelope or a sweep moves it on. -/
theorem Fits.delay_pos {code : Nat} (hcode : code < 16) : 1 ≤ t.delay code := by
  have hlow := h.1
  rw [h.delay_eq hcode]
  exact Int.mul_pos (by omega) (by omega)

theorem Fits.noteLength_eq (code : Nat) : t.noteLength code = noteFrames.get (Fin.ofNat 32 code) * t.samples := by
  obtain ⟨hlow, hhigh⟩ := h
  obtain ⟨hshort, hlong⟩ := noteFrames_within (Fin.ofNat 32 code)
  have hpos : 0 ≤ noteFrames.get (Fin.ofNat 32 code) * t.samples := Int.mul_nonneg (by omega) (by omega)
  have hmost : noteFrames.get (Fin.ofNat 32 code) * t.samples ≤ 127 * t.samples :=
    Int.mul_le_mul_of_nonneg_right hlong (by omega)
  exact wrap_eq hpos (hmost.trans_lt hhigh)

theorem Fits.lengthOf_pos (register : UInt8) : 1 ≤ t.lengthOf register := by
  have hlow := h.1
  obtain ⟨hshort, -⟩ := noteFrames_within (Fin.ofNat 32 (register.toNat / 8))
  rw [lengthOf, h.noteLength_eq]
  exact Int.mul_pos (by omega) (by omega)

theorem Fits.linearLength_nonneg (code : Nat) : 0 ≤ t.linearLength code := by
  have hlow := h.1
  have hquarter : 0 ≤ Int.tdiv (code * t.samples) 4 :=
    Int.tdiv_nonneg (Int.mul_nonneg (by omega) (by omega)) (by decide)
  unfold linearLength
  omega

end Timing

/-! ### Phases -/

/-- A loop that raises a phase until it is not negative any more ends: each step raises it by one at least. -/
theorem loop_recovers {α : Type} {l : Loop α} (phase delay : α → Int)
    (hgoing : ∀ a, l.going a = decide (phase a < 0)) (hphase : ∀ a, phase (l.step a) = phase a + delay a)
    (hdelay : ∀ a, delay (l.step a) = delay a) {a : α} (hmoves : 1 ≤ delay a) {bound : Nat}
    (hlow : -bound ≤ phase a) :
    ∃ n ≤ bound, l.run a = some (l.step^[n] a) ∧ 0 ≤ phase (l.step^[n] a) := by
  induction bound generalizing a with
  | zero =>
    have hover : ¬ l.going a = true := by rw [hgoing, decide_eq_true_eq]; omega
    refine ⟨0, Nat.le_refl 0, ?_, by show 0 ≤ phase a; omega⟩
    rw [Loop.run, if_neg hover]
    rfl
  | succ bound ih =>
    rw [Loop.run]
    by_cases hfell : phase a < 0
    · obtain ⟨n, hn, hloop, hsettled⟩ := @ih (l.step a) (by rw [hdelay]; exact hmoves) (by rw [hphase]; omega)
      rw [if_pos (by rw [hgoing, decide_eq_true hfell])]
      exact ⟨n + 1, Nat.succ_le_succ hn, hloop, hsettled⟩
    · rw [if_neg (by rw [hgoing, decide_eq_true_eq]; exact hfell)]
      exact ⟨0, Nat.zero_le _, rfl, Int.not_lt.mp hfell⟩

namespace Envelope

/-- What is asked of an envelope when its next sample is made: its laps end, and there are four at most. -/
structure Progresses (e : Envelope) : Prop where
  phase : 0 ≤ e.phase
  delay : 1 ≤ e.delay
  laps : ∀ hold, ∃ n ≤ 4, e.fall.laps hold = some ((·.lap hold)^[n] e.fall)

variable {e : Envelope}

theorem laps_recover (hphase : 0 ≤ e.phase) (hdelay : 1 ≤ e.delay) (hold : Bool) :
    ∃ n ≤ 4, e.fall.laps hold = some ((·.lap hold)^[n] e.fall) ∧ 0 ≤ ((·.lap hold)^[n] e.fall).phase := by
  have hlow : -((4 : Nat) : Int) ≤ e.fall.phase := by
    show _ ≤ e.phase - 4
    omega
  have hmoves : 1 ≤ e.fall.delay := hdelay
  have hraises (f : Envelope) : (f.lap hold).phase = f.phase + f.delay := rfl
  exact loop_recovers Envelope.phase Envelope.delay (fun _ => rfl) hraises (fun _ => rfl) hmoves hlow

theorem phase_advance (hphase : 0 ≤ e.phase) (hdelay : 1 ≤ e.delay) (hold : Bool) : 0 ≤ (e.advance hold).phase := by
  obtain ⟨n, -, hlaps, hsettled⟩ := laps_recover hphase hdelay hold
  rw [advance, hlaps]
  exact hsettled

theorem progresses (hphase : 0 ≤ e.phase) (hdelay : 1 ≤ e.delay) : e.Progresses where
  phase := hphase
  delay := hdelay
  laps hold := by
    obtain ⟨n, hn, hlaps, -⟩ := laps_recover hphase hdelay hold
    exact ⟨n, hn, hlaps⟩

end Envelope

/-- Neither what is left of a note nor the phase of its envelope is negative. -/
structure Unspent (length : Int) (e : Envelope) : Prop where
  length : 0 ≤ length
  phase : 0 ≤ e.phase

namespace Unspent

variable {length : Int} {e : Envelope} (h : Unspent length e)
include h

theorem restart {length' : Int} (hlength : 0 ≤ length') : Unspent length' e.restart := ⟨hlength, h.phase⟩

theorem switched (enabled : Bool) : Unspent (if enabled then length else 0) e := by
  refine ⟨?_, h.phase⟩
  cases enabled with
  | false => exact Int.le_refl 0
  | true => exact h.length

theorem advance (hdelay : 1 ≤ e.delay) (hsounds : length ≠ 0) (held : Bool) :
    Unspent (countDown held length) (e.advance held) := by
  have hlength := h.length
  refine ⟨?_, Envelope.phase_advance h.phase hdelay held⟩
  unfold countDown
  split <;> omega

end Unspent

/-- A period is paid exactly where the cycles of a sample leave a debt; only then the mean of its steps is taken. -/
theorem Oscillator.advance_pos_iff (o : Oscillator) (cycles : Float32) (period : Nat) :
    1 ≤ (o.advance cycles period none).1 ↔ o.credit - cycles < 0 := by
  unfold advance payments
  dsimp only
  rw [settle]
  split
  case isTrue hdebt => exact iff_of_true (Nat.succ_pos _) hdebt
  case isFalse hpaid => exact iff_of_false (Nat.not_succ_le_zero 0) hpaid

/-! ### Pulses and noise -/

/-- A voice that sounds has something left of its note. -/
theorem length_ne_zero {enabled : Bool} {length : Int} (hsounding : ¬ (!(enabled && length != 0)) = true) :
    length ≠ 0 := by
  simp only [Bool.not_eq_true', Bool.not_eq_false, Bool.and_eq_true, bne_iff_ne] at hsounding
  exact hsounding.2

theorem volumeCode_lt (control : UInt8) : volumeCode control < 16 := Nat.mod_lt _ (by decide)

/-- A delay that was latched from the control register moves its envelope on. -/
theorem Timing.Fits.latched_pos {t : Timing} (ht : t.Fits) {control : UInt8} {delay : Int}
    (hdelay : delay = t.delay (volumeCode control)) : 1 ≤ delay := by
  rw [hdelay]
  exact ht.delay_pos (volumeCode_lt control)

namespace Pulse

/-- Nothing that a pulse counts is negative. -/
structure Steady (p : Pulse) : Prop where
  note : Unspent p.length p.envelope
  sweep : 0 ≤ p.sweepPhase

/-- What is asked of a pulse when its next sample is made; the wave's loop adds the period and one. -/
structure Progresses (p : Pulse) (extra : Int) : Prop where
  length : 0 ≤ p.length
  envelope : p.envelope.Progresses
  phase : 0 ≤ p.sweepPhase
  delay : 1 ≤ p.sweepDelay
  laps : ∃ n ≤ 4, p.fallSweep.lapsSweep extra = some ((·.lapSweep extra)^[n] p.fallSweep)
  period : p.isMuted = false → 1 ≤ (p.advanceSweep extra).period

variable {p : Pulse} {t : Timing}

theorem Steady.congr {p' : Pulse} (h : p.Steady) (hlength : p'.length = p.length)
    (henvelope : p'.envelope = p.envelope) (hsweep : p'.sweepPhase = p.sweepPhase) : p'.Steady :=
  ⟨by rw [hlength, henvelope]; exact h.note, by rw [hsweep]; exact h.sweep⟩

theorem Steady.run (h : p.Steady) (steps : Nat) : (p.run steps).Steady := by
  unfold Pulse.run
  split
  · exact h
  · exact h.congr rfl rfl rfl

theorem Latched.delay_pos (hl : p.Latched t) (ht : t.Fits) : 1 ≤ p.sweepDelay := by
  rw [hl.sweep]
  exact ht.delay_pos (by omega)

theorem laps_recover (hphase : 0 ≤ p.sweepPhase) (hdelay : 1 ≤ p.sweepDelay) (extra : Int) :
    ∃ n ≤ 2, p.fallSweep.lapsSweep extra = some ((·.lapSweep extra)^[n] p.fallSweep) ∧
      0 ≤ ((·.lapSweep extra)^[n] p.fallSweep).sweepPhase := by
  have hlow : -((2 : Nat) : Int) ≤ p.fallSweep.sweepPhase := by
    show _ ≤ p.sweepPhase - 2
    omega
  have hmoves : 1 ≤ p.fallSweep.sweepDelay := hdelay
  have hraises (q : Pulse) : (q.lapSweep extra).sweepPhase = q.sweepPhase + q.sweepDelay := rfl
  exact loop_recovers Pulse.sweepPhase Pulse.sweepDelay (fun _ => rfl) hraises (fun _ => rfl) hmoves hlow

theorem Steady.advanceSweep (h : p.Steady) (hl : p.Latched t) (ht : t.Fits) (extra : Int) :
    (p.advanceSweep extra).Steady := by
  have hnote : Unspent (p.advanceSweep extra).length (p.advanceSweep extra).envelope := by
    unfold Pulse.advanceSweep
    split
    · exact h.note
    · exact loop_keeps (P := fun q : Pulse => Unspent q.length q.envelope) h.note fun _ hq => hq
  refine ⟨hnote, ?_⟩
  unfold Pulse.advanceSweep
  split
  · exact h.sweep
  · obtain ⟨n, -, hlaps, hsettled⟩ := laps_recover h.sweep (hl.delay_pos ht) extra
    rw [hlaps]
    exact hsettled

theorem Steady.sample (h : p.Steady) (hl : p.Latched t) (ht : t.Fits) (pace : Pace) (extra : Int)
    (cycles : Float32) : (p.sample pace extra cycles).2.Steady := by
  simp only [Pulse.sample]
  split
  case isTrue => exact h.congr rfl rfl rfl
  case isFalse hsounding =>
    have hlength : p.length ≠ 0 := length_ne_zero hsounding
    have hnote := h.note.advance (ht.latched_pos hl.envelope) hlength (isHeld p.control)
    have hcounted : Steady { p with
      level := fade p.level
      length := countDown (isHeld p.control) p.length
      envelope := p.envelope.advance (isHeld p.control) } := ⟨hnote, h.sweep⟩
    have hlatched : Latched { p with
      level := fade p.level
      length := countDown (isHeld p.control) p.length
      envelope := p.envelope.advance (isHeld p.control) } t :=
        ⟨(p.envelope.delay_advance _).trans hl.envelope, hl.sweep⟩
    split
    · exact hcounted
    · have hswept := hcounted.advanceSweep hlatched ht extra
      generalize Pulse.advanceSweep _ extra = q at hswept ⊢
      have hopened : ∀ oscillator, Steady { q with oscillator } := fun _ => hswept.congr rfl rfl rfl
      exact (hopened _).run _

/-- A bend takes away at most half of the period and one cycle. -/
theorem bend_ge (p : Pulse) {extra : Int} (hshift : p.sweepShift ≠ 0) (hextra : extra ≤ 1)
    (hperiod : 0 ≤ p.period) : p.period - p.period / 2 - 1 ≤ (p.bend extra).period := by
  obtain ⟨period, hnat⟩ := Int.eq_ofNat_of_zero_le hperiod
  have hdelta : p.period >>> p.sweepShift ≤ p.period / 2 := by
    have hpower : 2 ^ 1 ≤ 2 ^ p.sweepShift := Nat.pow_le_pow_right (by decide) (Nat.pos_of_ne_zero hshift)
    rw [hnat, Int.shiftRight_eq_div_pow]
    have hless : period / 2 ^ p.sweepShift ≤ period / 2 := Nat.div_le_div_left hpower (by decide)
    exact_mod_cast hless
  have hnonneg : 0 ≤ p.period >>> p.sweepShift := by
    rw [Int.shiftRight_eq_div_pow]
    exact Int.ediv_nonneg hperiod (by positivity)
  unfold bend
  dsimp only
  split <;> omega

theorem period_laps {extra : Int} {n : Nat} (hn : n ≤ 2) (hshift : p.sweepShift ≠ 0) (hextra : extra ≤ 1)
    (hlowest : 8 ≤ p.period) : 1 ≤ ((·.lapSweep extra)^[n] p).period := by
  have hfirst := p.bend_ge hshift hextra (by omega)
  match n, hn with
  | 0, _ => exact (by decide : (1 : Int) ≤ 8).trans hlowest
  | 1, _ =>
    show 1 ≤ (p.bend extra).period
    omega
  | 2, _ =>
    have hsecond := (p.lapSweep extra).bend_ge hshift hextra (by show 0 ≤ (p.bend extra).period; omega)
    have hbent : (p.lapSweep extra).period = (p.bend extra).period := rfl
    show 1 ≤ ((p.lapSweep extra).bend extra).period
    omega

/-- A period that is heard stays positive in a sample: the sweep has two laps at most. -/
theorem Steady.period (h : p.Steady) (hl : p.Latched t) (ht : t.Fits) {extra : Int} (hextra : extra ≤ 1)
    (hheard : p.isMuted = false) : 1 ≤ (p.advanceSweep extra).period := by
  have hlowest : 8 ≤ p.period := by
    simp only [isMuted, Bool.or_eq_false_iff, decide_eq_false_iff_not] at hheard
    omega
  unfold Pulse.advanceSweep
  split
  case isTrue => exact (by decide : (1 : Int) ≤ 8).trans hlowest
  case isFalse hsweeps =>
    have hshift : p.sweepShift ≠ 0 := by
      simp only [sweeps, Bool.not_eq_true', Bool.not_eq_false, Bool.and_eq_true, bne_iff_ne] at hsweeps
      exact hsweeps.2
    obtain ⟨n, hn, hlaps, -⟩ := laps_recover h.sweep (hl.delay_pos ht) extra
    rw [hlaps]
    exact period_laps (p := p.fallSweep) hn hshift hextra hlowest

theorem Steady.progresses (h : p.Steady) (hl : p.Latched t) (ht : t.Fits) {extra : Int} (hextra : extra ≤ 1) :
    p.Progresses extra where
  length := h.note.length
  envelope := Envelope.progresses h.note.phase (ht.latched_pos hl.envelope)
  phase := h.sweep
  delay := hl.delay_pos ht
  laps := by
    obtain ⟨n, hn, hlaps, -⟩ := laps_recover h.sweep (hl.delay_pos ht) extra
    exact ⟨n, hn.trans (by decide), hlaps⟩
  period := h.period hl ht hextra

end Pulse

namespace Noise

/-- What is asked of the noise voice when its next sample is made. -/
structure Progresses (w : Noise) : Prop where
  length : 0 ≤ w.length
  envelope : w.envelope.Progresses
  period : 4 ≤ w.period

variable {w : Noise} {t : Timing}

theorem Latched.period_ge (hl : w.Latched t) : 4 ≤ w.period := by
  have hall : ∀ i : Fin 16, 4 ≤ noisePeriods[i] := by decide
  rw [hl.period]
  exact hall ⟨w.mode.toNat % 16, Nat.mod_lt _ (by decide)⟩

theorem unspent_run (h : Unspent w.length w.envelope) (steps : Nat) :
    Unspent (w.run steps).length (w.run steps).envelope := by
  unfold run
  split <;> exact h

theorem unspent_sample (h : Unspent w.length w.envelope) (hl : w.Latched t) (ht : t.Fits) (pace : Pace)
    (cycles : Float32) : Unspent (w.sample pace cycles).2.length (w.sample pace cycles).2.envelope := by
  simp only [sample]
  split
  case isTrue => exact h
  case isFalse hsounding =>
    have hlength : w.length ≠ 0 := length_ne_zero hsounding
    exact unspent_run (h.advance (ht.latched_pos hl.envelope) hlength _) _

theorem progresses (h : Unspent w.length w.envelope) (hl : w.Latched t) (ht : t.Fits) : w.Progresses where
  length := h.length
  envelope := Envelope.progresses h.phase (ht.latched_pos hl.envelope)
  period := hl.period_ge

end Noise

namespace Mmc5Pulse

/-- What is asked of a pulse of the MMC5 when its next sample is made. -/
structure Progresses (p : Mmc5Pulse) : Prop where
  length : 0 ≤ p.length
  envelope : p.envelope.Progresses

variable {p : Mmc5Pulse} {t : Timing}

theorem unspent_run (h : Unspent p.length p.envelope) (steps : Nat) :
    Unspent (p.run steps).length (p.run steps).envelope := by
  unfold run
  split <;> exact h

theorem unspent_sample (h : Unspent p.length p.envelope) (hl : p.Latched t) (ht : t.Fits) (pace : Pace)
    (cycles : Float32) : Unspent (p.sample pace cycles).2.length (p.sample pace cycles).2.envelope := by
  simp only [sample]
  split
  case isTrue => exact h
  case isFalse hsounding =>
    have hlength : p.length ≠ 0 := length_ne_zero hsounding
    have hnote := h.advance (ht.latched_pos hl) hlength (isHeld p.control)
    split
    · exact hnote
    · exact unspent_run hnote _

theorem unspent_writeTimerLow (h : Unspent p.length p.envelope) (value : UInt8) :
    Unspent (p.writeTimerLow value).length (p.writeTimerLow value).envelope := by
  simp only [writeTimerLow]
  split <;> exact h

theorem unspent_writeTimerHigh (h : Unspent p.length p.envelope) (ht : t.Fits) (value : UInt8) :
    Unspent (p.writeTimerHigh value t).length (p.writeTimerHigh value t).envelope := by
  simp only [writeTimerHigh]
  split
  · exact h.restart ((by decide : (0 : Int) ≤ 1).trans (ht.lengthOf_pos value))
  · exact h

theorem progresses (h : Unspent p.length p.envelope) (hl : p.Latched t) (ht : t.Fits) : p.Progresses where
  length := h.length
  envelope := Envelope.progresses h.phase (ht.latched_pos hl)

end Mmc5Pulse

/-! ### The triangle and samples -/

namespace Triangle

/-- Nothing that the triangle counts is negative. -/
structure Steady (w : Triangle) : Prop where
  length : 0 ≤ w.length
  linear : 0 ≤ w.linearLength
  latency : 0 ≤ w.latency

theorem latencyOf_nonneg (t : Timing) : 0 ≤ latencyOf t := by
  unfold latencyOf
  omega

variable {w : Triangle} {t : Timing}

theorem Steady.congr {w' : Triangle} (h : w.Steady) (hlength : w'.length = w.length)
    (hlinear : w'.linearLength = w.linearLength) (hlatency : w'.latency = w.latency) : w'.Steady :=
  ⟨by rw [hlength]; exact h.length, by rw [hlinear]; exact h.linear, by rw [hlatency]; exact h.latency⟩

theorem Steady.setEnabled (h : w.Steady) (enabled : Bool) : (w.setEnabled enabled).Steady := by
  unfold Triangle.setEnabled
  split
  · exact h.congr rfl rfl rfl
  · exact ⟨Int.le_refl 0, Int.le_refl 0, Int.le_refl 0⟩

theorem Steady.writeLinear (h : w.Steady) (ht : t.Fits) (value : UInt8) : (w.writeLinear value t).Steady := by
  refine ⟨h.length, ?_, h.latency⟩
  simp only [Triangle.writeLinear]
  split
  · exact ht.linearLength_nonneg _
  · exact h.linear

theorem steady_writeTimerHigh (w : Triangle) (ht : t.Fits) (value : UInt8) : (w.writeTimerHigh value t).Steady :=
  ⟨(by decide : (0 : Int) ≤ 1).trans (ht.lengthOf_pos value), ht.linearLength_nonneg _, latencyOf_nonneg t⟩

theorem Steady.count (h : w.Steady) : w.count.Steady := by
  obtain ⟨hlength, hlinear, hlatency⟩ := h
  unfold Triangle.count
  split
  · refine ⟨?_, ?_, hlatency⟩
    · dsimp only
      simp only [Bool.and_eq_true, bne_iff_ne]
      split <;> omega
    · dsimp only
      split <;> omega
  · split
    case isTrue hwaits =>
      simp only [Bool.and_eq_true, bne_iff_ne] at hwaits
      exact ⟨hlength, hlinear, by dsimp only; omega⟩
    case isFalse => exact ⟨hlength, hlinear, hlatency⟩

theorem Steady.moves (h : w.Steady) (n : Nat) : (Nat.repeat Triangle.move n w).Steady := by
  induction n with
  | zero => exact h
  | succ n ih => exact ih.congr rfl rfl rfl

theorem Steady.sample (h : w.Steady) (pace : Pace) (cycles : Float32) : (w.sample pace cycles).2.Steady := by
  have hfaded : Steady { w with level := fade w.level } := h.congr rfl rfl rfl
  simp only [Triangle.sample]
  split
  · exact h.congr rfl rfl rfl
  · split
    · exact hfaded.count
    · have hcounted := hfaded.count
      generalize Triangle.count _ = u at hcounted ⊢
      have hopened : ∀ oscillator, Steady { u with oscillator } := fun _ => hcounted.congr rfl rfl rfl
      exact (hopened _).moves _

end Triangle

namespace SampleVoice

theorem Latched.period_ge {v : SampleVoice} (hl : v.Latched) : 54 ≤ v.period := by
  have hall : ∀ i : Fin 16, 54 ≤ samplePeriods[i] := by decide
  rw [hl]
  exact hall ⟨v.control.toNat % 16, Nat.mod_lt _ (by decide)⟩

/-- A bit takes one of those that are left; where there are none any more, the sample starts over if it is to. -/
theorem remaining_play {v : SampleVoice} (hleft : v.remaining ≠ 0) (cpu : Cpu) (cart : Cartridge) :
    (v.play cpu cart).1.loops = v.loops ∧ (v.loops = true → (v.play cpu cart).1.remaining ≠ 0) ∧
      (v.loops = false → (v.play cpu cart).1.remaining = v.remaining - 1) := by
  have hdelta (u : SampleVoice) (up : Bool) :
      (u.delta up).loops = u.loops ∧ (u.delta up).remaining = u.remaining := by
    unfold delta
    split_ifs <;> exact ⟨rfl, rfl⟩
  obtain ⟨byte, cpu', hfetched, -⟩ := v.exists_fetched cpu cart
  have hloops : ∀ byte address, loops { v with byte, address } = v.loops := fun _ _ => rfl
  have hrequests : ∀ byte address, requests { v with byte, address, remaining := 0, enabled := false } =
      v.requests := fun _ _ => rfl
  unfold play
  simp only [hfetched, hloops, hrequests]
  by_cases hlast : v.remaining = 1
  · rw [if_pos hlast]
    cases hover : v.loops with
    | true =>
      rw [if_pos rfl]
      refine ⟨(hdelta _ _).1.trans hover, fun _ => ?_, fun hplain => absurd hplain (by decide)⟩
      rw [(hdelta _ _).2]
      exact (bits_pos _).ne'
    | false =>
      rw [if_neg (by decide), hlast]
      cases v.requests <;> exact ⟨hover, fun hset => absurd hset (by decide), fun _ => rfl⟩
  · rw [if_neg hlast]
    refine ⟨(hdelta _ _).1, fun _ => ?_, fun _ => (hdelta _ _).2⟩
    rw [(hdelta _ _).2]
    show v.remaining - 1 ≠ 0
    omega

/-- The count of bits never falls below zero. -/
theorem remaining_playMany {v : SampleVoice} {n : Nat} (hsome : v.remaining ≠ 0)
    (hleft : v.loops = false → n < v.remaining) (cpu : Cpu) (cart : Cartridge) :
    (v.playMany cpu cart n).1.remaining ≠ 0 := by
  induction n generalizing v cpu with
  | zero => exact hsome
  | succ n ih =>
    obtain ⟨hloops, hover, honce⟩ := remaining_play hsome cpu cart
    refine ih (v := (v.play cpu cart).1) ?_ (fun hplain => ?_) _
    · cases hset : v.loops with
      | true => exact hover hset
      | false =>
        have := hleft hset
        rw [honce hset]
        omega
    · have := hleft (hloops.symm.trans hplain)
      rw [honce (hloops.symm.trans hplain)]
      omega

/-- What is asked of the sample voice when its next sample is made: no bit is played when none is left. -/
structure Progresses (v : SampleVoice) : Prop where
  period : 54 ≤ v.period
  remaining : ∀ (pace : Pace) (cycles : Float32) (cpu : Cpu) (cart : Cartridge), pace.Limited →
    ∀ k < v.beats pace cycles, ((v.opened pace cycles).playMany cpu cart k).1.remaining ≠ 0

theorem Latched.progresses {v : SampleVoice} (hl : v.Latched) : v.Progresses where
  period := hl.period_ge
  remaining pace cycles cpu cart hlimited k hk := by
    have hsome : v.remaining ≠ 0 := by
      rintro hnone
      rw [beats, if_pos hnone] at hk
      exact absurd hk (Nat.not_lt_zero k)
    have hwithin : v.loops = false → k < v.remaining := fun honce => hk.trans_le (beats_le hlimited honce cycles)
    exact remaining_playMany (v := v.opened pace cycles) hsome hwithin cpu cart

end SampleVoice

/-! ### Chips on the cartridge -/

namespace Expansion

/-- Nothing that a chip counts is negative; only the MMC5 counts. -/
def Steady : Expansion → Prop
  | .mmc5 s => Unspent s.first.length s.first.envelope ∧ Unspent s.second.length s.second.envelope
  | _ => True

/-- What is asked of a chip when its next sample is made. -/
def Progresses : Expansion → Prop
  | .mmc5 s => s.first.Progresses ∧ s.second.Progresses
  | .vrc6 s => 1 ≤ s.first.registers.period ∧ 1 ≤ s.second.registers.period ∧ 2 ≤ s.saw.registers.period * 2
  | _ => True

theorem steady_mmc5_write {s : Mmc5Sound} (h : (mmc5 s).Steady) (ht : s.timing.Fits) (address : UInt16)
    (value : UInt8) : (mmc5 (s.write address value)).Steady := by
  obtain ⟨h1, h2⟩ := h
  unfold Mmc5Sound.write
  split
  case h_1 => exact ⟨⟨h1.length, h1.phase⟩, h2⟩
  case h_2 => exact ⟨h1, ⟨h2.length, h2.phase⟩⟩
  case h_3 => exact ⟨Mmc5Pulse.unspent_writeTimerLow h1 value, h2⟩
  case h_4 => exact ⟨h1, Mmc5Pulse.unspent_writeTimerLow h2 value⟩
  case h_5 => exact ⟨Mmc5Pulse.unspent_writeTimerHigh h1 ht value, h2⟩
  case h_6 => exact ⟨h1, Mmc5Pulse.unspent_writeTimerHigh h2 ht value⟩
  case h_9 => exact ⟨h1.switched _, h2.switched _⟩
  all_goals exact ⟨h1, h2⟩

theorem timing_mmc5_write (s : Mmc5Sound) (address : UInt16) (value : UInt8) :
    (s.write address value).timing = s.timing := by
  unfold Mmc5Sound.write
  split <;> rfl

theorem steady_mmc5_reset {s : Mmc5Sound} {t : Timing} (h : (mmc5 s).Steady) (ht : t.Fits) :
    (mmc5 (s.reset t)).Steady := by
  have hretimed : (mmc5 { s with timing := t }).Steady := h
  unfold Mmc5Sound.reset
  generalize hk : ({ s with timing := t } : Mmc5Sound) = k at hretimed ⊢
  have hfits : k.timing.Fits := by rwa [← hk]
  clear hk
  induction Mmc5Sound.clearedByReset generalizing k with
  | nil => exact hretimed
  | cons address addresses ih =>
    exact ih _ (steady_mmc5_write hretimed hfits address 0) (by rwa [timing_mmc5_write])

variable {e : Expansion} {t : Timing}

theorem Steady.write (h : e.Steady) (hl : e.Latched t) (ht : t.Fits) (address : UInt16) (value : UInt8) :
    (e.write address value).Steady := by
  cases e with
  | mmc5 s => exact steady_mmc5_write h (by rwa [hl.1]) address value
  | vrc6 | fds | vrc7 => trivial

theorem Steady.reset (h : e.Steady) (ht : t.Fits) : (e.reset t).Steady := by
  cases e with
  | mmc5 s => exact steady_mmc5_reset h ht
  | vrc6 | fds | vrc7 => trivial

theorem steady_ofChip (chip : SoundChip) (ht : t.Fits) : (ofChip chip t).Steady := by
  have hfresh : Unspent 0 {} := ⟨Int.le_refl 0, Int.le_refl 0⟩
  cases chip with
  | mmc5 => exact steady_mmc5_reset ⟨hfresh, hfresh⟩ ht
  | vrc6 | fds | vrc7 => trivial

theorem Steady.sample (h : e.Steady) (hl : e.Latched t) (ht : t.Fits) (paces : ChipPaces) :
    (e.sample paces).2.Steady := by
  cases e with
  | mmc5 s =>
    obtain ⟨-, hfirst, hsecond⟩ := hl
    exact ⟨Mmc5Pulse.unspent_sample h.1 hfirst ht _ _, Mmc5Pulse.unspent_sample h.2 hsecond ht _ _⟩
  | vrc6 | fds | vrc7 => trivial

theorem Steady.progresses (h : e.Steady) (hl : e.Latched t) (ht : t.Fits) : e.Progresses := by
  cases e with
  | mmc5 s => exact ⟨Mmc5Pulse.progresses h.1 hl.2.1 ht, Mmc5Pulse.progresses h.2 hl.2.2 ht⟩
  | vrc6 s =>
    have hperiod {r : Vrc6Registers} (hr : r.Latched) : 1 ≤ r.period := by
      rw [hr]
      exact Nat.succ_pos _
    obtain ⟨-, h1, h2, h3⟩ := hl
    exact ⟨hperiod h1, hperiod h2, Nat.mul_le_mul_right 2 (hperiod h3)⟩
  | fds | vrc7 => trivial

end Expansion

/-! ### The unit -/

namespace Sound

/-- A unit that fits its rates, and nothing that it counts is negative. -/
structure Steady (s : Sound) : Prop where
  timing : s.timing.Fits
  pulse1 : s.pulse1.Steady
  pulse2 : s.pulse2.Steady
  triangle : s.triangle.Steady
  noise : Unspent s.noise.length s.noise.envelope
  chip : ∀ e, s.expansion = some e → e.Steady

/-- The loops of the next sample come to an end, whatever they count. -/
structure Progresses (s : Sound) : Prop where
  pulse1 : s.pulse1.Progresses 1
  pulse2 : s.pulse2.Progresses 0
  triangle : s.triangle.Steady ∧ 1 ≤ s.triangle.period
  noise : s.noise.Progresses
  sample : s.sample.Progresses
  chip : ∀ e, s.expansion = some e → e.Progresses

/-- Rates are changed only to such as fit. -/
def Event.Fits : Event → Prop
  | .setRates sampleRate refreshRate => (Timing.ofRates sampleRate refreshRate).Fits
  | _ => True

variable {s : Sound}

theorem Steady.write (h : s.Steady) (address : UInt16) (value : UInt8) : (s.write address value).Steady := by
  obtain ⟨-, hmode⟩ := s.noise.writeMode_latches value
  obtain ⟨ht, h1, h2, h3, h4, h5⟩ := h
  have hlength : 0 ≤ s.timing.lengthOf value := (by decide : (0 : Int) ≤ 1).trans (ht.lengthOf_pos value)
  unfold Sound.write
  split
  case h_1 => exact ⟨ht, ⟨⟨h1.note.length, h1.note.phase⟩, h1.sweep⟩, h2, h3, h4, h5⟩
  case h_2 | h_3 => exact ⟨ht, h1.congr rfl rfl rfl, h2, h3, h4, h5⟩
  case h_4 => exact ⟨ht, ⟨h1.note.restart hlength, h1.sweep⟩, h2, h3, h4, h5⟩
  case h_5 => exact ⟨ht, h1, ⟨⟨h2.note.length, h2.note.phase⟩, h2.sweep⟩, h3, h4, h5⟩
  case h_6 | h_7 => exact ⟨ht, h1, h2.congr rfl rfl rfl, h3, h4, h5⟩
  case h_8 => exact ⟨ht, h1, ⟨h2.note.restart hlength, h2.sweep⟩, h3, h4, h5⟩
  case h_9 => exact ⟨ht, h1, h2, h3.writeLinear ht value, h4, h5⟩
  case h_10 => exact ⟨ht, h1, h2, h3.congr rfl rfl rfl, h4, h5⟩
  case h_11 => exact ⟨ht, h1, h2, s.triangle.steady_writeTimerHigh ht value, h4, h5⟩
  case h_12 => exact ⟨ht, h1, h2, h3, ⟨h4.length, h4.phase⟩, h5⟩
  case h_13 => exact ⟨ht, h1, h2, h3, by rw [hmode.1, hmode.2]; exact h4, h5⟩
  case h_14 => exact ⟨ht, h1, h2, h3, h4.restart hlength, h5⟩
  case h_19 =>
    exact ⟨ht, ⟨h1.note.switched _, h1.sweep⟩, ⟨h2.note.switched _, h2.sweep⟩, h3.setEnabled _, h4.switched _,
      h5⟩
  all_goals exact ⟨ht, h1, h2, h3, h4, h5⟩

theorem Steady.writeAll (h : s.Steady) (value : Nat → UInt8) : (s.writeAll value).Steady := by
  have hfold : ∀ (ns : List Nat) (s : Sound), s.Steady →
      (ns.foldl (fun s n => s.write (0x4000 + UInt16.ofNat n) (value n)) s).Steady := by
    intro ns
    induction ns with
    | nil => exact fun s h => h
    | cons n ns ih => exact fun s h => ih _ (h.write _ _)
  unfold Sound.writeAll
  exact (hfold _ s h).write _ _

theorem Steady.mapChip (h : s.Steady) {f : Expansion → Expansion} (hf : ∀ e, e.Steady → (f e).Steady) :
    Steady { s with expansion := s.expansion.map f } := by
  obtain ⟨ht, h1, h2, h3, h4, h5⟩ := h
  refine ⟨ht, h1, h2, h3, h4, fun e he => ?_⟩
  obtain ⟨e', he', rfl⟩ := Option.map_eq_some_iff.mp he
  exact hf e' (h5 e' he')

theorem Steady.reset (h : s.Steady) : s.reset.Steady :=
  (h.writeAll _).mapChip fun _ he => he.reset (h.writeAll _).timing

theorem Steady.setRates (h : s.Steady) {sampleRate refreshRate : UInt32}
    (ht : (Timing.ofRates sampleRate refreshRate).Fits) : (s.setRates sampleRate refreshRate).Steady := by
  obtain ⟨-, h1, h2, h3, h4, h5⟩ := h
  exact Steady.reset ⟨ht, h1, h2, h3, h4, h5⟩

theorem Steady.setChip (h : s.Steady) (chip : Option SoundChip) : (s.setChip chip).Steady := by
  obtain ⟨ht, h1, h2, h3, h4, -⟩ := h
  refine ⟨ht, h1, h2, h3, h4, fun e he => ?_⟩
  obtain ⟨c, -, rfl⟩ := Option.map_eq_some_iff.mp he
  exact Expansion.steady_ofChip c ht

theorem steady_ofRates {sampleRate refreshRate : UInt32} (ht : (Timing.ofRates sampleRate refreshRate).Fits) :
    (ofRates sampleRate refreshRate).Steady := by
  have hfresh : Unspent 0 {} := ⟨Int.le_refl 0, Int.le_refl 0⟩
  have hpulse : Pulse.Steady {} := ⟨hfresh, Int.le_refl 0⟩
  have htriangle : Triangle.Steady {} := ⟨Int.le_refl 0, Int.le_refl 0, Int.le_refl 0⟩
  exact Steady.reset ⟨ht, hpulse, hpulse, htriangle, hfresh, fun e he => by cases he⟩

theorem Steady.mix (h : s.Steady) (hl : s.Latched) (paces : Paces) (cpu : Cpu) (cart : Cartridge) :
    (s.mix paces cpu cart).2.1.Steady := by
  obtain ⟨ht, h1, h2, h3, h4, h5⟩ := h
  obtain ⟨l1, l2, -, l4, -, l6⟩ := hl
  refine ⟨ht, ?_, ?_, ?_, ?_, fun e he => ?_⟩
  · exact mixed_keeps (P := fun r : Int × Pulse => r.2.Steady) _ (h1.sample l1 ht _ _ _) h1
  · exact mixed_keeps (P := fun r : Int × Pulse => r.2.Steady) _ (h2.sample l2 ht _ _ _) h2
  · exact mixed_keeps (P := fun r : Int × Triangle => r.2.Steady) _ (h3.sample _ _) h3
  · exact mixed_keeps (P := fun r : Int × Noise => Unspent r.2.length r.2.envelope) _
      (Noise.unspent_sample h4 l4 ht _ _) h4
  · rcases s.chip_mix paces cpu cart he with he | ⟨e', he', rfl⟩
    · exact h5 e he
    · exact (h5 e' he').sample (l6 e' he') ht paces.chip

theorem Steady.next (h : s.Steady) (hl : s.Latched) (paces : Paces) (cpu : Cpu) (cart : Cartridge) :
    (s.next paces cpu cart).2.1.Steady := by
  obtain ⟨ht, h1, h2, h3, h4, h5⟩ := h.mix hl paces cpu cart
  obtain ⟨previous, hnext⟩ := s.next_mix paces cpu cart
  rw [hnext]
  exact ⟨ht, h1, h2, h3, h4, h5⟩

theorem Steady.after (h : s.Steady) (hl : s.Latched) {e : Event} (he : e.Fits) : (s.after e).Steady := by
  cases e with
  | write address value => exact h.write address value
  | reset => exact h.reset
  | setRates sampleRate refreshRate => exact h.setRates he
  | setFilter | chooseVoices | setVoices =>
    obtain ⟨ht, h1, h2, h3, h4, h5⟩ := h
    exact ⟨ht, h1, h2, h3, h4, h5⟩
  | setChip chip => exact h.setChip chip
  | writeChip address value =>
    obtain ⟨ht, h1, h2, h3, h4, h5⟩ := h
    refine ⟨ht, h1, h2, h3, h4, fun e he => ?_⟩
    obtain ⟨e', he', rfl⟩ := Option.map_eq_some_iff.mp he
    exact (h5 e' he').write (hl.chip e' he') ht address value
  | load image => exact h.writeAll image
  | sample paces cpu cart => exact h.next hl paces cpu cart

theorem Steady.run (h : s.Steady) (hl : s.Latched) {events : List Event} (hfits : ∀ e ∈ events, e.Fits) :
    (s.run events).Steady := by
  induction events generalizing s with
  | nil => exact h
  | cons e events ih =>
    exact ih (h.after hl (hfits e List.mem_cons_self)) (hl.after e) fun f hf => hfits f (List.mem_cons_of_mem e hf)

theorem Steady.progresses (h : s.Steady) (hl : s.Latched) : s.Progresses where
  pulse1 := h.pulse1.progresses hl.pulse1 h.timing (by decide)
  pulse2 := h.pulse2.progresses hl.pulse2 h.timing (by decide)
  triangle := ⟨h.triangle, by rw [hl.triangle]; exact Nat.succ_pos _⟩
  noise := Noise.progresses h.noise hl.noise h.timing
  sample := hl.sample.progresses
  chip e he := (h.chip e he).progresses (hl.chip e he) h.timing

/-- The loops of a sample come to an end, whatever has happened to the unit before, as long as its rates have fitted:
every latch holds what registers and rates say now, delays and periods are positive, phases and counters are not
negative, an envelope or a sweep takes four laps at most, and a mean is taken of one step at least. -/
theorem samples_progress {sampleRate refreshRate : UInt32} (hrates : (Timing.ofRates sampleRate refreshRate).Fits)
    {events : List Event} (hfits : ∀ e ∈ events, e.Fits) :
    let s := (ofRates sampleRate refreshRate).run events
    s.Latched ∧ s.Progresses ∧
      ∀ (o : Oscillator) cycles period, 1 ≤ (o.advance cycles period none).1 ↔ o.credit - cycles < 0 := by
  have hlatched := latched_ofRates sampleRate refreshRate
  have hsteady := (steady_ofRates hrates).run hlatched hfits
  intro s
  exact ⟨hlatched.run events, hsteady.progresses (hlatched.run events),
    fun o cycles period => o.advance_pos_iff cycles period⟩

/-- Other rates, and a pulse that sweeps. -/
theorem samples_progress_other_rates :
    let s := (ofRates 44100 60).run [.setRates 8000 50, .write 0x4001 0x89, .write 0x4003 0x0B]
    s.Latched ∧ s.Progresses ∧ ∀ (o : Oscillator) cycles period,
      1 ≤ (o.advance cycles period none).1 ↔ o.credit - cycles < 0 := by
  refine samples_progress (by decide) ?_
  simp only [List.forall_mem_cons]
  exact ⟨(by decide : (Timing.ofRates 8000 50).Fits), trivial, trivial, fun _ h => absurd h List.not_mem_nil⟩

end Sound

end Famicom
