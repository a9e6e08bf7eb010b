import Famicom.Proofs.SoundUnit

/-!
How loud the sound unit gets, whatever is written to it and however many steps its voices take.

    voice        level                           share of the mix
    pulse        −3840 … 3840                     3840, twice
    triangle     crest − 8192 … crest            10240
    noise        −3840 … 3840                     2880
    sample       256 · (dac − 127) … 256 · dac   24384
    cartridge    two pulses, 0 … 65280           72960

The levels of triangle and sample are running sums. Each is tied to where it has come from, the triangle's to the
step of its wave and the sample's to its seven-bit register, and fading only moves it towards zero, which both
intervals hold.
-/

namespace Famicom

/-! ### Fading and amplitudes -/

/-- Fading stays within an interval around zero. -/
theorem fade_within {lo hi level : Int} (hlo : lo ≤ 0) (hhi : 0 ≤ hi) (h : lo ≤ level ∧ level ≤ hi) :
    lo ≤ fade level ∧ fade level ≤ hi := by
  unfold fade
  omega

theorem fade_natAbs {level : Int} {bound : Nat} (h : level.natAbs ≤ bound) :
    (fade level).natAbs ≤ bound := by
  have hfade := @fade_within (-bound) bound level (by omega) (by omega) (by omega)
  omega

/-- The loudest amplitude of a voice. -/
def peak : Nat := 15 * 256

theorem amplitude_le (control : UInt8) (e : Envelope) : (amplitude control e).natAbs ≤ peak := by
  unfold amplitude volumeCode peak
  split <;> omega

/-- A sum of steps up and down is no larger than their number. -/
theorem foldl_steps_le (up : Nat → Prop) [DecidablePred up] (ks : List Nat) (sum : Int) :
    (ks.foldl (fun sum k => if up k then sum + 1 else sum - 1) sum).natAbs ≤ sum.natAbs + ks.length := by
  induction ks generalizing sum with
  | nil => simp
  | cons k ks ih =>
    rw [List.foldl_cons, List.length_cons]
    refine (ih _).trans ?_
    split <;> omega

/-- The mean of some steps is no louder than their amplitude. -/
theorem mean_le {amplitude swing : Int} {bound steps : Nat} (ha : amplitude.natAbs ≤ bound)
    (hs : swing.natAbs ≤ steps) (hpos : steps ≠ 0) :
    (Int.tdiv (amplitude * swing) steps).natAbs ≤ bound := by
  rw [Int.natAbs_tdiv, Int.natAbs_mul, Int.natAbs_natCast]
  calc amplitude.natAbs * swing.natAbs / steps
      ≤ bound * steps / steps := Nat.div_le_div_right (Nat.mul_le_mul ha hs)
    _ = bound := Nat.mul_div_cancel bound (Nat.pos_of_ne_zero hpos)

theorem swing_le (high start steps : Nat) : (swing high start steps).natAbs ≤ steps := by
  simpa [swing] using foldl_steps_le (fun i => (start + 1 + i) % 16 < high) (List.range steps) 0

/-! ### Pulses and noise -/

namespace Pulse

theorem level_advanceSweep (p : Pulse) (extra : Int) : (p.advanceSweep extra).level = p.level := by
  unfold advanceSweep
  split
  · rfl
  · exact loop_keeps (P := fun q : Pulse => q.level = p.level) rfl fun _ hq => hq

theorem level_run {p : Pulse} (h : p.level.natAbs ≤ peak) (steps : Nat) :
    (p.run steps).level.natAbs ≤ peak := by
  unfold run
  split
  case isTrue => exact h
  case isFalse hsteps => exact mean_le (amplitude_le _ _) (swing_le _ _ _) hsteps

theorem level_sample {p : Pulse} (h : p.level.natAbs ≤ peak) (pace : Pace) (extra : Int) (cycles : Float32) :
    (p.sample pace extra cycles).1.natAbs ≤ peak ∧ (p.sample pace extra cycles).2.level.natAbs ≤ peak := by
  have hfade := fade_natAbs h
  simp only [sample]
  split
  · simp
  · split
    · exact ⟨hfade, hfade⟩
    · have hrun : ∀ (q : Pulse) steps, q.level = fade p.level → (q.run steps).level.natAbs ≤ peak :=
        fun q steps hq => q.level_run (hq ▸ hfade) steps
      exact ⟨hrun _ _ (level_advanceSweep _ _), hrun _ _ (level_advanceSweep _ _)⟩

end Pulse

namespace Mmc5Pulse

theorem level_run {p : Mmc5Pulse} (h : p.level.natAbs ≤ peak) (steps : Nat) :
    (p.run steps).level.natAbs ≤ peak := by
  unfold run
  split
  case isTrue => exact h
  case isFalse hsteps => exact mean_le (amplitude_le _ _) (swing_le _ _ _) hsteps

theorem level_sample {p : Mmc5Pulse} (h : p.level.natAbs ≤ peak) (pace : Pace) (cycles : Float32) :
    (p.sample pace cycles).1.natAbs ≤ peak ∧ (p.sample pace cycles).2.level.natAbs ≤ peak := by
  have hfade := fade_natAbs h
  simp only [sample]
  split
  · simp
  · split
    · exact ⟨hfade, hfade⟩
    · exact ⟨level_run hfade _, level_run hfade _⟩

end Mmc5Pulse

namespace Noise

theorem swing_le (w : Noise) (steps : Nat) : (w.swing steps).natAbs ≤ steps := by
  simpa [swing] using
    foldl_steps_le (fun i => w.table.getD (w.positionAfter (i + 1)) false) (List.range steps) 0

theorem level_run {w : Noise} (h : w.level.natAbs ≤ peak) (steps : Nat) :
    (w.run steps).level.natAbs ≤ peak := by
  unfold run
  split
  case isTrue => exact h
  case isFalse hsteps => exact mean_le (amplitude_le _ _) (swing_le _ _) hsteps

theorem output_le {w : Noise} (h : w.level.natAbs ≤ peak) : w.output.natAbs ≤ 2880 := by
  unfold output
  unfold peak at h
  omega

theorem level_sample {w : Noise} (h : w.level.natAbs ≤ peak) (pace : Pace) (cycles : Float32) :
    (w.sample pace cycles).1.natAbs ≤ 2880 ∧ (w.sample pace cycles).2.level.natAbs ≤ peak := by
  have hfade := fade_natAbs h
  simp only [sample]
  split
  · simp
  · exact ⟨output_le (level_run hfade _), level_run hfade _⟩

end Noise

/-! ### The triangle -/

namespace Triangle

/-- The highest level that the wave can have at a step: 512 for every step up, and back again. -/
def crest (step : Nat) : Int := if step < 16 then 512 * (step + 1 : Nat) else 512 * (31 - step : Nat)

/-- The level lies within the height of one wave below the crest. -/
structure Rides (w : Triangle) : Prop where
  step : w.step < 32
  low : crest w.step - 8192 ≤ w.level
  high : w.level ≤ crest w.step

theorem crest_nonneg (step : Nat) : 0 ≤ crest step := by
  unfold crest
  split <;> omega

theorem crest_le (step : Nat) : crest step ≤ 8192 := by
  unfold crest
  split <;> omega

/-- From one step to the next the crest moves as the level does. -/
theorem crest_next {step : Nat} (h : step < 32) :
    crest ((step + 1) % 32) = if (step + 1) % 32 < 16 then crest step + 512 else crest step - 512 := by
  unfold crest
  rcases Nat.lt_or_ge step 31 with hlt | hge
  · rw [Nat.mod_eq_of_lt (by omega : step + 1 < 32)]
    split_ifs <;> omega
  · obtain rfl : step = 31 := by omega
    rfl

theorem Rides.move {w : Triangle} (h : w.Rides) : w.move.Rides := by
  obtain ⟨hstep, hlow, hhigh⟩ := h
  have hcrest := crest_next hstep
  refine ⟨Nat.mod_lt _ (by decide), ?_, ?_⟩ <;>
  · simp only [Triangle.move, stepSize]
    rw [hcrest]
    split <;> omega

theorem Rides.moves {w : Triangle} (h : w.Rides) (n : Nat) : (Nat.repeat Triangle.move n w).Rides := by
  induction n with
  | zero => exact h
  | succ n ih => exact ih.move

theorem Rides.faded {w : Triangle} (h : w.Rides) : Rides { w with level := fade w.level } := by
  have hnonneg := crest_nonneg w.step
  have hle := crest_le w.step
  obtain ⟨hlow, hhigh⟩ := fade_within (by omega) hnonneg ⟨h.low, h.high⟩
  exact ⟨h.step, hlow, hhigh⟩

theorem Rides.silent {w : Triangle} (h : w.Rides) : Rides { w with level := 0 } := by
  have hnonneg := crest_nonneg w.step
  have hle := crest_le w.step
  exact ⟨h.step, by show crest w.step - 8192 ≤ 0; omega, hnonneg⟩

theorem Rides.congr {w w' : Triangle} (h : w.Rides) (hstep : w'.step = w.step)
    (hlevel : w'.level = w.level) : w'.Rides := by
  obtain ⟨h1, h2, h3⟩ := h
  exact ⟨hstep ▸ h1, by rw [hstep, hlevel]; exact h2, by rw [hstep, hlevel]; exact h3⟩

theorem Rides.count {w : Triangle} (h : w.Rides) : w.count.Rides := by
  unfold Triangle.count
  split
  · exact h.congr rfl rfl
  · split
    · exact h.congr rfl rfl
    · exact h

theorem Rides.setEnabled {w : Triangle} (h : w.Rides) (enabled : Bool) : (w.setEnabled enabled).Rides := by
  unfold Triangle.setEnabled
  split <;> exact h.congr rfl rfl

theorem Rides.level_le {w : Triangle} (h : w.Rides) : w.level.natAbs ≤ 8192 := by
  have hnonneg := crest_nonneg w.step
  have hle := crest_le w.step
  have hlow := h.low
  have hhigh := h.high
  omega

theorem Rides.output_le {w : Triangle} (h : w.Rides) : w.output.natAbs ≤ 10240 := by
  have hlevel := h.level_le
  unfold output
  omega

theorem Rides.sample {w : Triangle} (h : w.Rides) (pace : Pace) (cycles : Float32) :
    (w.sample pace cycles).1.natAbs ≤ 10240 ∧ (w.sample pace cycles).2.Rides := by
  simp only [Triangle.sample]
  split
  · exact ⟨by simp, h.faded.silent⟩
  · have hcount := h.faded.count
    split
    · exact ⟨hcount.output_le, hcount⟩
    · generalize Triangle.count _ = u at hcount ⊢
      generalize pace _ _ _ _ = r
      have hopened : Triangle.Rides { u with oscillator := r.2 } := hcount.congr rfl rfl
      have hmoved := hopened.moves r.1
      exact ⟨hmoved.output_le, hmoved⟩

end Triangle

/-! ### Samples -/

namespace SampleVoice

/-- The level lies within the range that the register can still fall through or rise by. -/
structure Traces (v : SampleVoice) : Prop where
  dac : v.dac.toNat ≤ 127
  low : 256 * (v.dac.toNat : Int) - 32512 ≤ v.level
  high : v.level ≤ 256 * (v.dac.toNat : Int)

theorem Traces.congr {v v' : SampleVoice} (h : v.Traces) (hdac : v'.dac = v.dac)
    (hlevel : v'.level = v.level) : v'.Traces := by
  obtain ⟨h1, h2, h3⟩ := h
  exact ⟨hdac ▸ h1, by rw [hdac, hlevel]; exact h2, by rw [hdac, hlevel]; exact h3⟩

theorem Traces.faded {v : SampleVoice} (h : v.Traces) : Traces { v with level := fade v.level } := by
  have hdac := h.dac
  obtain ⟨hlow, hhigh⟩ := fade_within (by omega) (by omega) ⟨h.low, h.high⟩
  exact ⟨hdac, hlow, hhigh⟩

theorem Traces.writeLevel {v : SampleVoice} (h : v.Traces) (value : UInt8) : (v.writeLevel value).Traces := by
  obtain ⟨-, hlow, hhigh⟩ := h
  have hvalue : (value &&& 0x7F).toNat ≤ 127 := by
    rw [UInt8.toNat_and]
    exact Nat.and_le_right
  refine ⟨hvalue, ?_, ?_⟩ <;>
  · simp only [SampleVoice.writeLevel]
    omega

theorem Traces.setEnabled {v : SampleVoice} (h : v.Traces) (enabled : Bool) :
    (v.setEnabled enabled).Traces := by
  simp only [SampleVoice.setEnabled, restart]
  split_ifs <;> exact h.congr rfl rfl

/-- Register and level move together: two up is 512 up. -/
theorem Traces.delta {v : SampleVoice} (h : v.Traces) (up : Bool) : (v.delta up).Traces := by
  obtain ⟨hdac, hlow, hhigh⟩ := h
  unfold SampleVoice.delta
  split_ifs with hup hroom hroom
  · have hnext : (v.dac + 2).toNat = v.dac.toNat + 2 := by
      simp only [UInt8.lt_iff_toNat_lt, UInt8.reduceToNat] at hroom
      simp only [UInt8.toNat_add, UInt8.reduceToNat]
      omega
    have hbound : v.dac.toNat < 0x7D := UInt8.lt_iff_toNat_lt.mp hroom
    refine ⟨?_, ?_, ?_⟩ <;> simp only [hnext] <;> omega
  · exact ⟨hdac, hlow, hhigh⟩
  · have hnext : (v.dac - 2).toNat = v.dac.toNat - 2 ∧ 1 < v.dac.toNat := by
      simp only [gt_iff_lt, UInt8.lt_iff_toNat_lt, UInt8.reduceToNat] at hroom
      simp only [UInt8.toNat_sub, UInt8.reduceToNat]
      omega
    refine ⟨?_, ?_, ?_⟩ <;> simp only [hnext.1] <;> omega
  · exact ⟨hdac, hlow, hhigh⟩

theorem Traces.play {v : SampleVoice} (h : v.Traces) (cpu : Cpu) (cart : Cartridge) :
    (v.play cpu cart).1.Traces := by
  have hfetch : ∃ v' cpu', (if v.remaining % 8 = 0 then v.fetch cpu cart else (v, cpu)) = (v', cpu') ∧
      v'.Traces := by
    split
    · exact ⟨_, _, rfl, h.congr rfl rfl⟩
    · exact ⟨_, _, rfl, h⟩
  obtain ⟨v', cpu', heq, h'⟩ := hfetch
  unfold SampleVoice.play
  simp only [heq]
  split_ifs
  · have hrestart : v'.restart.Traces := h'.congr rfl rfl
    exact hrestart.delta _
  · exact h'.congr rfl rfl
  · exact h'.congr rfl rfl
  · have hnext : Traces { v' with remaining := v'.remaining - 1 } := h'.congr rfl rfl
    exact hnext.delta _

theorem Traces.playMany {v : SampleVoice} (h : v.Traces) (cpu : Cpu) (cart : Cartridge) (n : Nat) :
    (v.playMany cpu cart n).1.Traces := by
  induction n generalizing v cpu with
  | zero => exact h
  | succ n ih => exact ih (h.play cpu cart) _

theorem Traces.level_le {v : SampleVoice} (h : v.Traces) : v.level.natAbs ≤ 32512 := by
  obtain ⟨hdac, hlow, hhigh⟩ := h
  omega

theorem Traces.output_le {v : SampleVoice} (h : v.Traces) : v.output.natAbs ≤ 24384 := by
  have hlevel := h.level_le
  unfold output
  omega

theorem Traces.sample {v : SampleVoice} (h : v.Traces) (pace : Pace) (cycles : Float32) (cpu : Cpu)
    (cart : Cartridge) :
    (v.sample pace cycles cpu cart).1.natAbs ≤ 24384 ∧ (v.sample pace cycles cpu cart).2.1.Traces := by
  simp only [SampleVoice.sample]
  split
  · exact ⟨h.faded.output_le, h.faded⟩
  · generalize pace _ _ _ _ = r
    have hopened : SampleVoice.Traces { v with level := fade v.level, oscillator := r.2 } :=
      h.faded.congr rfl rfl
    have hplayed := hopened.playMany cpu cart r.1
    exact ⟨hplayed.output_le, hplayed⟩

end SampleVoice

/-! ### Chips on the cartridge -/

theorem Vrc6Pulse.sample_le (p : Vrc6Pulse) (pace : Pace) (cycles : Float32) :
    (p.sample pace cycles).1.natAbs ≤ peak := by
  simp only [Vrc6Pulse.sample, peak]
  split_ifs <;> omega

/-- The accumulator's top five bits, 512 times. -/
theorem Vrc6Saw.sample_le (w : Vrc6Saw) (pace : Pace) (cycles : Float32) :
    (w.sample pace cycles).1.natAbs ≤ 15872 := by
  have htop : ∀ value : UInt8, (value >>> 3).toNat ≤ 31 := fun value => by
    have hvalue := value.toNat_lt
    rw [UInt8.toNat_shiftRight, Nat.shiftRight_eq_div_pow]
    exact Nat.le_of_lt_succ (Nat.div_lt_of_lt_mul hvalue)
  simp only [Vrc6Saw.sample]
  generalize Nat.repeat Vrc6Saw.move _ _ = u
  have hu := htop u.accumulator
  split <;> omega

namespace Mmc5Sound

/-- The levels of the pulses, and the direct level as it can be written. -/
structure Bounded (s : Mmc5Sound) : Prop where
  first : s.first.level.natAbs ≤ peak
  second : s.second.level.natAbs ≤ peak
  low : 0 ≤ s.directLevel
  high : s.directLevel ≤ 65280

theorem level_writeTimerLow (p : Mmc5Pulse) (value : UInt8) : (p.writeTimerLow value).level = p.level := by
  simp only [Mmc5Pulse.writeTimerLow]
  split <;> rfl

theorem level_writeTimerHigh (p : Mmc5Pulse) (value : UInt8) (t : Timing) :
    (p.writeTimerHigh value t).level = p.level := by
  simp only [Mmc5Pulse.writeTimerHigh]
  split <;> rfl

theorem Bounded.write {s : Mmc5Sound} (h : s.Bounded) (address : UInt16) (value : UInt8) :
    (s.write address value).Bounded := by
  obtain ⟨h1, h2, hlow, hhigh⟩ := h
  have hvalue : (value ^^^ 0x80).toNat ≤ 255 := Nat.le_of_lt_succ (UInt8.toNat_lt _)
  unfold Mmc5Sound.write
  split
  case h_3 => exact ⟨by rw [level_writeTimerLow]; exact h1, h2, hlow, hhigh⟩
  case h_4 => exact ⟨h1, by rw [level_writeTimerLow]; exact h2, hlow, hhigh⟩
  case h_5 => exact ⟨by rw [level_writeTimerHigh]; exact h1, h2, hlow, hhigh⟩
  case h_6 => exact ⟨h1, by rw [level_writeTimerHigh]; exact h2, hlow, hhigh⟩
  case h_8 => exact ⟨h1, h2, by dsimp only; omega, by dsimp only; omega⟩
  all_goals exact ⟨h1, h2, hlow, hhigh⟩

theorem Bounded.reset {s : Mmc5Sound} (h : s.Bounded) (t : Timing) : (s.reset t).Bounded := by
  have hretimed : Bounded { s with timing := t } := ⟨h.first, h.second, h.low, h.high⟩
  unfold Mmc5Sound.reset
  generalize ({ s with timing := t } : Mmc5Sound) = k at hretimed ⊢
  induction clearedByReset generalizing k with
  | nil => exact hretimed
  | cons address addresses ih => exact ih _ (hretimed.write address 0)

theorem Bounded.sample {s : Mmc5Sound} (h : s.Bounded) (pace : ChipPaces) :
    (s.sample pace).1.natAbs ≤ 72960 ∧ (s.sample pace).2.Bounded := by
  obtain ⟨hout1, hlevel1⟩ := s.first.level_sample h.first pace.first s.timing.cycleRate
  obtain ⟨hout2, hlevel2⟩ := s.second.level_sample h.second pace.second s.timing.cycleRate
  have hlow := h.low
  have hhigh := h.high
  refine ⟨?_, hlevel1, hlevel2, hlow, hhigh⟩
  simp only [Mmc5Sound.sample]
  unfold peak at hout1 hout2
  split <;> omega

end Mmc5Sound

namespace Expansion

/-- Only the MMC5 keeps levels. -/
def Bounded : Expansion → Prop
  | .mmc5 s => s.Bounded
  | _ => True

theorem Bounded.write {e : Expansion} (h : e.Bounded) (address : UInt16) (value : UInt8) :
    (e.write address value).Bounded := by
  cases e with
  | mmc5 s => exact Mmc5Sound.Bounded.write h address value
  | vrc6 | fds | vrc7 => trivial

theorem Bounded.reset {e : Expansion} (h : e.Bounded) (t : Timing) : (e.reset t).Bounded := by
  cases e with
  | mmc5 s => exact Mmc5Sound.Bounded.reset h t
  | vrc6 | fds | vrc7 => trivial

theorem bounded_ofChip (chip : SoundChip) (t : Timing) : (ofChip chip t).Bounded := by
  cases chip with
  | mmc5 => exact Mmc5Sound.Bounded.reset ⟨by decide, by decide, by decide, by decide⟩ t
  | vrc6 | fds | vrc7 => trivial

theorem Bounded.sample {e : Expansion} (h : e.Bounded) (pace : ChipPaces) :
    (e.sample pace).1.natAbs ≤ 72960 ∧ (e.sample pace).2.Bounded := by
  cases e with
  | mmc5 s => exact Mmc5Sound.Bounded.sample h pace
  | vrc6 s =>
    have h1 := s.first.sample_le pace.first s.cycles
    have h2 := s.second.sample_le pace.second s.cycles
    have h3 := s.saw.sample_le pace.third s.cycles
    refine ⟨?_, trivial⟩
    simp only [Expansion.sample, Vrc6Sound.sample]
    unfold peak at h1 h2
    omega
  | fds | vrc7 => exact ⟨by simp [Expansion.sample], trivial⟩

end Expansion

/-! ### The unit -/

namespace Sound

/-- No mix is louder: the shares of all voices, with the louder of the chips. -/
def loudest : Nat := 118144

/-- Everything that a later sample is computed from is within its bounds. -/
structure Bounded (s : Sound) : Prop where
  pulse1 : s.pulse1.level.natAbs ≤ peak
  pulse2 : s.pulse2.level.natAbs ≤ peak
  triangle : s.triangle.Rides
  noise : s.noise.level.natAbs ≤ peak
  sample : s.sample.Traces
  chip : ∀ e, s.expansion = some e → e.Bounded
  previous : s.previous.natAbs ≤ loudest

theorem Bounded.write {s : Sound} (h : s.Bounded) (address : UInt16) (value : UInt8) :
    (s.write address value).Bounded := by
  have hmode : (s.noise.writeMode value).level = s.noise.level := by
    unfold Noise.writeMode
    split <;> rfl
  obtain ⟨h1, h2, h3, h4, h5, h6, h7⟩ := h
  unfold Sound.write
  split
  case h_9 | h_10 | h_11 => exact ⟨h1, h2, h3.congr rfl rfl, h4, h5, h6, h7⟩
  case h_13 => exact ⟨h1, h2, h3, by rw [hmode]; exact h4, h5, h6, h7⟩
  case h_15 | h_17 | h_18 => exact ⟨h1, h2, h3, h4, h5.congr rfl rfl, h6, h7⟩
  case h_16 => exact ⟨h1, h2, h3, h4, h5.writeLevel value, h6, h7⟩
  case h_19 => exact ⟨h1, h2, h3.setEnabled _, h4, h5.setEnabled _, h6, h7⟩
  all_goals exact ⟨h1, h2, h3, h4, h5, h6, h7⟩

theorem Bounded.writeAll {s : Sound} (h : s.Bounded) (value : Nat → UInt8) : (s.writeAll value).Bounded := by
  have hfold : ∀ (ns : List Nat) (s : Sound), s.Bounded →
      (ns.foldl (fun s n => s.write (0x4000 + UInt16.ofNat n) (value n)) s).Bounded := by
    intro ns
    induction ns with
    | nil => exact fun s h => h
    | cons n ns ih => exact fun s h => ih _ (h.write _ _)
  unfold Sound.writeAll
  exact (hfold _ s h).write _ _

/-- What becomes of the chip's registers by a bounded change. -/
theorem Bounded.mapChip {s : Sound} (h : s.Bounded) {f : Expansion → Expansion}
    (hf : ∀ e, e.Bounded → (f e).Bounded) : Bounded { s with expansion := s.expansion.map f } := by
  obtain ⟨h1, h2, h3, h4, h5, h6, h7⟩ := h
  refine ⟨h1, h2, h3, h4, h5, fun e he => ?_, h7⟩
  obtain ⟨e', he', rfl⟩ := Option.map_eq_some_iff.mp he
  exact hf e' (h6 e' he')

theorem Bounded.reset {s : Sound} (h : s.Bounded) : s.reset.Bounded :=
  (h.writeAll _).mapChip fun _ he => he.reset _

theorem Bounded.setRates {s : Sound} (h : s.Bounded) (sampleRate refreshRate : UInt32) :
    (s.setRates sampleRate refreshRate).Bounded := by
  obtain ⟨h1, h2, h3, h4, h5, h6, h7⟩ := h
  exact Bounded.reset ⟨h1, h2, h3, h4, h5, h6, h7⟩

theorem Bounded.setChip {s : Sound} (h : s.Bounded) (chip : Option SoundChip) :
    (s.setChip chip).Bounded := by
  obtain ⟨h1, h2, h3, h4, h5, -, h7⟩ := h
  refine ⟨h1, h2, h3, h4, h5, fun e he => ?_, h7⟩
  obtain ⟨c, -, rfl⟩ := Option.map_eq_some_iff.mp he
  exact Expansion.bounded_ofChip c s.timing

theorem bounded_ofRates (sampleRate refreshRate : UInt32) : (ofRates sampleRate refreshRate).Bounded := by
  have hfresh : Bounded {} := ⟨by decide, by decide, ⟨by decide, by decide, by decide⟩, by decide,
    ⟨by decide, by decide, by decide⟩, fun e he => by simp at he, by decide⟩
  exact hfresh.setRates sampleRate refreshRate

theorem share_le {α : Type} {P : α → Prop} {bound : Nat} {r : Int × α} {x : α} (mixed : Bool)
    (hr : r.1.natAbs ≤ bound ∧ P r.2) (hx : P x) :
    (if mixed then r else (0, x)).1.natAbs ≤ bound ∧ P (if mixed then r else (0, x)).2 :=
  mixed_keeps (P := fun r => r.1.natAbs ≤ bound ∧ P r.2) mixed hr ⟨Nat.zero_le bound, hx⟩

theorem natAbs_add_le_add {a b : Int} {m n : Nat} (ha : a.natAbs ≤ m) (hb : b.natAbs ≤ n) : (a + b).natAbs ≤ m + n :=
  (Int.natAbs_add_le a b).trans (Nat.add_le_add ha hb)

theorem Bounded.mix {s : Sound} (h : s.Bounded) (paces : Paces) (cpu : Cpu) (cart : Cartridge) :
    (s.mix paces cpu cart).1.natAbs ≤ loudest ∧ (s.mix paces cpu cart).2.1.Bounded := by
  have ha := share_le (P := fun p : Pulse => p.level.natAbs ≤ peak) (s.mixes 0x01)
    (s.pulse1.level_sample h.pulse1 paces.pulse1 1 s.timing.cycleRate) h.pulse1
  have hb := share_le (P := fun p : Pulse => p.level.natAbs ≤ peak) (s.mixes 0x02)
    (s.pulse2.level_sample h.pulse2 paces.pulse2 0 s.timing.cycleRate) h.pulse2
  have hc := share_le (s.mixes 0x04) (h.triangle.sample paces.triangle s.timing.cycleRate) h.triangle
  have hd := share_le (P := fun w : Noise => w.level.natAbs ≤ peak) (s.mixes 0x08)
    (s.noise.level_sample h.noise paces.noise s.timing.cycleRate) h.noise
  have he := share_le (P := fun r : SampleVoice × Cpu => r.1.Traces) (x := (s.sample, cpu)) (s.mixes 0x10)
    (h.sample.sample paces.sample s.timing.cycleRate cpu cart) h.sample
  have hprevious := h.previous
  unfold Sound.mix
  dsimp only
  generalize (if s.mixes 0x01 then _ else _ : Int × Pulse) = a at ha ⊢
  generalize (if s.mixes 0x02 then _ else _ : Int × Pulse) = b at hb ⊢
  generalize (if s.mixes 0x04 then _ else _ : Int × Triangle) = c at hc ⊢
  generalize (if s.mixes 0x08 then _ else _ : Int × Noise) = d at hd ⊢
  generalize (if s.mixes 0x10 then _ else _ : Int × SampleVoice × Cpu) = e at he ⊢
  have hpulses := natAbs_add_le_add ha.1 hb.1
  have hvoices := natAbs_add_le_add (natAbs_add_le_add (natAbs_add_le_add hpulses hc.1) hd.1) he.1
  have hsum {f : Int} (hf : f.natAbs ≤ 72960) : (a.1 + b.1 + c.1 + d.1 + e.1 + f).natAbs ≤ loudest :=
    natAbs_add_le_add hvoices hf
  cases hchip : s.expansion with
  | none =>
    refine ⟨hsum (Nat.zero_le _), ha.2, hb.2, hc.2, hd.2, he.2, fun e he => ?_, hprevious⟩
    cases he
  | some chip =>
    have hbounded := h.chip chip hchip
    obtain ⟨hout, hnext⟩ := hbounded.sample paces.chip
    cases s.mixes 0x20 with
    | false =>
      refine ⟨hsum (Nat.zero_le _), ha.2, hb.2, hc.2, hd.2, he.2, fun e he => ?_, hprevious⟩
      cases he
      exact hbounded
    | true =>
      refine ⟨hsum hout, ha.2, hb.2, hc.2, hd.2, he.2, fun e he => ?_, hprevious⟩
      cases he
      exact hnext

theorem Bounded.next {s : Sound} (h : s.Bounded) (paces : Paces) (cpu : Cpu) (cart : Cartridge) :
    (s.next paces cpu cart).2.1.Bounded := by
  obtain ⟨hmixed, h1, h2, h3, h4, h5, h6, h7⟩ := h.mix paces cpu cart
  simp only [Sound.next, smooth]
  split
  · exact ⟨h1, h2, h3, h4, h5, h6, h7⟩
  · exact ⟨h1, h2, h3, h4, h5, h6, hmixed⟩
  · exact ⟨h1, h2, h3, h4, h5, h6, hmixed⟩

/-! ### Runs -/

/-- What can happen to a unit. A sample may take its steps at any pace, and read any memory. -/
inductive Event where
  | write (address : UInt16) (value : UInt8)
  | reset
  | setRates (sampleRate refreshRate : UInt32)
  | setFilter (filter : Filter)
  | chooseVoices (mask : UInt8)
  | setVoices (voices : UInt8) (enabled : Bool)
  | setChip (chip : Option SoundChip)
  | writeChip (address : UInt16) (value : UInt8)
  | load (image : Nat → UInt8)
  | sample (paces : Paces) (cpu : Cpu) (cart : Cartridge)

/-- The unit after an event. -/
def after (s : Sound) : Event → Sound
  | .write address value => s.write address value
  | .reset => s.reset
  | .setRates sampleRate refreshRate => s.setRates sampleRate refreshRate
  | .setFilter filter => { s with filter }
  | .chooseVoices mask => s.chooseVoices mask
  | .setVoices voices enabled => s.setVoices voices enabled
  | .setChip chip => s.setChip chip
  | .writeChip address value => { s with expansion := s.expansion.map (·.write address value) }
  | .load image => s.writeAll image
  | .sample paces cpu cart => (s.next paces cpu cart).2.1

/-- The unit after one event after the other. -/
def run (s : Sound) (events : List Event) : Sound := events.foldl after s

theorem Bounded.after {s : Sound} (h : s.Bounded) (event : Event) : (s.after event).Bounded := by
  cases event with
  | write address value => exact h.write address value
  | reset => exact h.reset
  | setRates sampleRate refreshRate => exact h.setRates sampleRate refreshRate
  | setFilter filter =>
    obtain ⟨h1, h2, h3, h4, h5, h6, h7⟩ := h
    exact ⟨h1, h2, h3, h4, h5, h6, h7⟩
  | chooseVoices mask =>
    obtain ⟨h1, h2, h3, h4, h5, h6, h7⟩ := h
    exact ⟨h1, h2, h3, h4, h5, h6, h7⟩
  | setVoices voices enabled =>
    obtain ⟨h1, h2, h3, h4, h5, h6, h7⟩ := h
    exact ⟨h1, h2, h3, h4, h5, h6, h7⟩
  | setChip chip => exact h.setChip chip
  | writeChip address value => exact h.mapChip fun e he => he.write address value
  | load image => exact h.writeAll image
  | sample paces cpu cart => exact h.next paces cpu cart

theorem Bounded.run {s : Sound} (h : s.Bounded) (events : List Event) : (s.run events).Bounded := by
  induction events generalizing s with
  | nil => exact h
  | cons event events ih => exact ih (h.after event)

/-- The levels that the voices may have. -/
structure InRange (s : Sound) : Prop where
  pulse1 : s.pulse1.level.natAbs ≤ 3840
  pulse2 : s.pulse2.level.natAbs ≤ 3840
  triangle : s.triangle.level.natAbs ≤ 8192
  noise : s.noise.level.natAbs ≤ 3840
  sample : s.sample.level.natAbs ≤ 32512
  register : s.sample.dac.toNat ≤ 127
  chip : ∀ m, s.expansion = some (.mmc5 m) → m.first.level.natAbs ≤ 3840 ∧ m.second.level.natAbs ≤ 3840

theorem Bounded.inRange {s : Sound} (h : s.Bounded) : s.InRange where
  pulse1 := h.pulse1
  pulse2 := h.pulse2
  triangle := h.triangle.level_le
  noise := h.noise
  sample := h.sample.level_le
  register := h.sample.dac
  chip m hm := by
    have hbounded : m.Bounded := h.chip _ hm
    exact ⟨hbounded.first, hbounded.second⟩

/-- The values of a signed word. -/
def FitsWord (x : Int) : Prop := -0x80000000 ≤ x ∧ x ≤ 0x7FFFFFFF

/-- Whatever happens to a unit, its voices stay in range, and neither a mix nor the weighted sum of its filter
leaves a word. The mask may be any, so the partial sums of a mix are covered as well. -/
theorem levels_bounded (sampleRate refreshRate : UInt32) (events : List Event) (paces : Paces) (cpu : Cpu)
    (cart : Cartridge) :
    let s := (ofRates sampleRate refreshRate).run events
    let mixed := (s.mix paces cpu cart).1
    s.InRange ∧ mixed.natAbs ≤ 118144 ∧ FitsWord mixed ∧ FitsWord (mixed * 3 + s.previous) := by
  intro s mixed
  have hbounded : s.Bounded := (bounded_ofRates sampleRate refreshRate).run events
  have hmixed : mixed.natAbs ≤ 118144 := (hbounded.mix paces cpu cart).1
  have hprevious : s.previous.natAbs ≤ 118144 := hbounded.previous
  refine ⟨hbounded.inRange, hmixed, ?_, ?_⟩ <;>
  · unfold FitsWord
    omega

end Sound

end Famicom
