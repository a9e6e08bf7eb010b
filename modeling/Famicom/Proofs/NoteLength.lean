import Famicom.Proofs.SettingsFile
import Famicom.Proofs.SoundProgress

/-!
When notes end. A note that is not held lasts as many frames as its length code says. The triangle's lasts longer by
the latency before its counters start; where the output is so slow that the latency is shorter than a sample, they
do not start at all, and the note sounds until the voice is switched off.

    voice            left of a note that is not held
    pulse, noise     length
    triangle         latency + length before its counters start, for ever without latency; then length
-/

namespace Famicom

/-! ### Voices -/

/-- A voice that is on and not held, with so many samples left of its note. -/
structure Fades (enabled : Bool) (control : UInt8) (length : Int) (left : Nat) : Prop where
  on : enabled = true
  plain : isHeld control = false
  left : length = left

namespace Fades

variable {enabled : Bool} {control : UInt8} {length : Int} {left : Nat} (h : Fades enabled control length left)
include h

theorem sounding : (enabled && length != 0) = true ↔ left ≠ 0 := by
  rw [h.on, h.left, Bool.true_and, bne_iff_ne]
  omega

/-- One sample of the note. -/
theorem tick : Fades enabled control (if enabled && length != 0 && !isHeld control then length - 1 else length)
    (left - 1) := by
  have hleft := h.left
  refine ⟨h.on, h.plain, ?_⟩
  rw [h.plain, Bool.not_false, Bool.and_true]
  split
  case isTrue hsounds =>
    have := h.sounding.mp hsounds
    omega
  case isFalse hover =>
    have := mt h.sounding.mpr hover
    omega

end Fades

namespace Pulse

variable {p : Pulse}

theorem fades_sample {left : Nat} (h : Fades p.enabled p.control p.length left) (pace : Pace) (extra : Int)
    (cycles : Float32) :
    Fades (p.sample pace extra cycles).2.enabled (p.sample pace extra cycles).2.control (p.sample pace extra cycles).2.length
      (left - 1) := by
  have htick : Fades p.tick.enabled p.tick.control p.tick.length (left - 1) := by
    have hnext : Fades p.enabled p.control (if p.counts then p.length - 1 else p.length) (left - 1) := h.tick
    unfold tick
    cases hcounts : p.counts <;>
    · rw [hcounts] at hnext
      exact hnext
  rw [← p.outline_sample pace extra cycles] at htick
  exact htick

theorem sample_silent (h : p.sounding = false) (pace : Pace) (extra : Int) (cycles : Float32) :
    (p.sample pace extra cycles).1 = 0 := by
  have hfaded : sounding { p with level := fade p.level } = false := h
  unfold sample
  simp only [hfaded]
  rfl

end Pulse

namespace Noise

variable {w : Noise}

theorem fades_sample {left : Nat} (h : Fades w.enabled w.control w.length left) (pace : Pace) (cycles : Float32) :
    Fades (w.sample pace cycles).2.enabled (w.sample pace cycles).2.control (w.sample pace cycles).2.length (left - 1) := by
  have htick : Fades w.tick.enabled w.tick.control w.tick.length (left - 1) := by
    have hnext : Fades w.enabled w.control (if w.counts then w.length - 1 else w.length) (left - 1) := h.tick
    unfold tick
    cases hcounts : w.counts <;>
    · rw [hcounts] at hnext
      exact hnext
  rw [← w.outline_sample pace cycles] at htick
  exact htick

theorem sample_silent (h : w.sounding = false) (pace : Pace) (cycles : Float32) : (w.sample pace cycles).1 = 0 := by
  have hfaded : sounding { w with level := fade w.level } = false := h
  unfold sample
  simp only [hfaded]
  rfl

end Noise

namespace Triangle

/-- The triangle is on and not held, with so many samples left of its note, or with no end to it: its counters run,
or they wait, or they wait without latency, and then for ever. -/
inductive Fades (w : Triangle) : Option Nat → Prop
  | counting (n : Nat) (on : w.enabled = true) (plain : w.held = false) (counts : w.counting = true)
      (length : w.length = n) : Fades w (some n)
  | waiting (m n : Nat) (on : w.enabled = true) (plain : w.held = false) (waits : w.counting = false)
      (latency : w.latency = (m + 1 : Nat)) (length : w.length = (n + 1 : Nat)) : Fades w (some (m + 1 + (n + 1)))
  | forever (n : Nat) (on : w.enabled = true) (plain : w.held = false) (waits : w.counting = false)
      (latency : w.latency = 0) (length : w.length = (n + 1 : Nat)) : Fades w none

variable {w : Triangle} {left : Option Nat}

theorem sounding_eq {n : Nat} (on : w.enabled = true) (length : w.length = n) : w.sounding = (n != 0) := by
  rw [sounding, on, length, Bool.true_and, Bool.eq_iff_iff, bne_iff_ne, bne_iff_ne]
  omega

theorem Fades.sounding (h : w.Fades left) : w.sounding = true ↔ left ≠ some 0 := by
  cases h with
  | counting n on _ _ length => rw [sounding_eq on length, bne_iff_ne, ne_eq, ne_eq, Option.some.injEq]
  | waiting m n on _ _ _ length =>
    exact iff_of_true (sounding_eq on length) fun h => Nat.succ_ne_zero _ (Option.some.inj h)
  | forever n on _ _ _ length => exact iff_of_true (sounding_eq on length) fun h => by cases h

theorem Fades.tick (h : w.Fades left) : w.tick.Fades (left.map (· - 1)) := by
  cases h with
  | counting n on plain counts length =>
    have hcounts : w.counts = (n != 0) := by
      rw [Triangle.counts, sounding_eq on length, plain, counts, Bool.true_or, Bool.and_true, Bool.not_false,
        Bool.and_true]
    unfold Triangle.tick
    rw [hcounts, counts]
    cases n with
    | zero => exact .counting 0 on plain counts length
    | succ n => exact .counting n on plain counts (by show w.length - 1 = n; omega)
  | waiting m n on plain waits latency length =>
    have hsome : w.latency ≠ 0 := by omega
    have hcounts : w.counts = true := by
      rw [Triangle.counts, sounding_eq on length, plain, bne_iff_ne.mpr hsome, Bool.or_true]
      rfl
    have hnext : w.tick = { w.outline with latency := w.latency - 1, counting := w.latency == 1 } := by
      unfold Triangle.tick
      rw [hcounts, waits]
      rfl
    rw [hnext, latency, Option.map_some]
    cases m with
    | zero =>
      -- The last sample of the latency starts the counters.
      rw [show 0 + 1 + (n + 1) - 1 = n + 1 by omega]
      exact .counting (n + 1) on plain rfl length
    | succ m =>
      rw [show m + 1 + 1 + (n + 1) - 1 = m + 1 + (n + 1) by omega]
      refine .waiting m n on plain ?_ ?_ length
      · exact beq_eq_false_iff_ne.mpr (by omega)
      · show ((m + 1 + 1 : Nat) : Int) - 1 = (m + 1 : Nat)
        omega
  | forever n on plain waits latency length =>
    have hcounts : w.counts = false := by
      rw [Triangle.counts, waits, latency]
      simp
    unfold Triangle.tick
    rw [hcounts]
    exact .forever n on plain waits latency length

/-- One sample of the note. -/
theorem Fades.sample (h : w.Fades left) (pace : Pace) (cycles : Float32) :
    (w.sample pace cycles).2.Fades (left.map (· - 1)) := by
  have htick := h.tick
  rw [← w.outline_sample pace cycles] at htick
  generalize left.map (· - 1) = next at htick
  cases htick with
  | counting n on plain counts length => exact .counting n on plain counts length
  | waiting m n on plain waits latency length => exact .waiting m n on plain waits latency length
  | forever n on plain waits latency length => exact .forever n on plain waits latency length

theorem sample_silent (h : w.sounding = false) (pace : Pace) (cycles : Float32) : (w.sample pace cycles).1 = 0 := by
  have hfaded : sounding { w with level := fade w.level } = false := h
  unfold sample
  simp only [hfaded]
  rfl

end Triangle

/-! ### The unit -/

/-- A voice whose notes end. -/
inductive Voice where
  | pulse1 | pulse2 | triangle | noise
  deriving DecidableEq, Repr

namespace Voice

/-- The voice's bit in the mix mask, in the switches and in the status. -/
def bit : Voice → UInt8
  | .pulse1 => 0x01
  | .pulse2 => 0x02
  | .triangle => 0x04
  | .noise => 0x08

/-- The register with the hold flag. -/
def holdRegister : Voice → UInt16
  | .pulse1 => 0x4000
  | .pulse2 => 0x4004
  | .triangle => 0x4008
  | .noise => 0x400C

/-- The hold flag. -/
def holdFlag : Voice → UInt8
  | .triangle => 0x80
  | _ => 0x20

/-- The register with the length code. -/
def lengthRegister : Voice → UInt16
  | .pulse1 => 0x4003
  | .pulse2 => 0x4007
  | .triangle => 0x400B
  | .noise => 0x400F

/-- The note still sounds. -/
def sounding (s : Sound) : Voice → Bool
  | .pulse1 => s.pulse1.sounding
  | .pulse2 => s.pulse2.sounding
  | .triangle => s.triangle.sounding
  | .noise => s.noise.sounding

/-- The voice's next sample. -/
def output (s : Sound) (paces : Sound.Paces) : Voice → Int
  | .pulse1 => (s.pulse1.sample paces.pulse1 1 s.timing.cycleRate).1
  | .pulse2 => (s.pulse2.sample paces.pulse2 0 s.timing.cycleRate).1
  | .triangle => (s.triangle.sample paces.triangle s.timing.cycleRate).1
  | .noise => (s.noise.sample paces.noise s.timing.cycleRate).1

/-- Samples before the note's length counts; none if it never does. -/
def wait? (s : Sound) : Voice → Option Nat
  | .triangle => if s.triangle.latency = 0 then none else some s.triangle.latency.toNat
  | _ => some 0

/-- The voice is on and not held, with so many samples left of its note, or with no end to it. -/
def Fades (s : Sound) (left : Option Nat) : Voice → Prop
  | .pulse1 => ∃ n, left = some n ∧ Famicom.Fades s.pulse1.enabled s.pulse1.control s.pulse1.length n
  | .pulse2 => ∃ n, left = some n ∧ Famicom.Fades s.pulse2.enabled s.pulse2.control s.pulse2.length n
  | .triangle => s.triangle.Fades left
  | .noise => ∃ n, left = some n ∧ Famicom.Fades s.noise.enabled s.noise.control s.noise.length n

end Voice

namespace Sound

/-- A sample of the output, and nothing else. -/
def Event.IsSample : Event → Prop
  | .sample _ _ _ => True
  | _ => False

variable {s : Sound} {voice : Voice} {left : Option Nat}

theorem status_voice (s : Sound) (voice : Voice) : (s.status &&& voice.bit != 0) = voice.sounding s := by
  obtain ⟨h1, h2, h3, h4, -, -⟩ := s.status_bits
  cases voice with
  | pulse1 => exact h1
  | pulse2 => exact h2
  | triangle => exact h3
  | noise => exact h4

theorem output_silent (h : voice.sounding s = false) (paces : Paces) : voice.output s paces = 0 := by
  cases voice with
  | pulse1 => exact Pulse.sample_silent h paces.pulse1 1 s.timing.cycleRate
  | pulse2 => exact Pulse.sample_silent h paces.pulse2 0 s.timing.cycleRate
  | triangle => exact Triangle.sample_silent h paces.triangle s.timing.cycleRate
  | noise => exact Noise.sample_silent h paces.noise s.timing.cycleRate

theorem sounding_iff (h : voice.Fades s left) : voice.sounding s = true ↔ left ≠ some 0 := by
  have hnote : ∀ {n : Nat} {enabled control length}, left = some n → Fades enabled control length n →
      ((enabled && length != 0) = true ↔ left ≠ some 0) := fun hleft hfades => by
    rw [hfades.sounding, hleft, ne_eq, ne_eq, Option.some.injEq]
  cases voice with
  | pulse1 | pulse2 | noise =>
    obtain ⟨n, hleft, hfades⟩ := h
    exact hnote hleft hfades
  | triangle => exact Triangle.Fades.sounding h

/-- The mixed voices make their samples; the mask stays. -/
theorem next_voices (s : Sound) (paces : Paces) (cpu : Cpu) (cart : Cartridge) :
    let k := (s.next paces cpu cart).2.1
    k.mixMask = s.mixMask ∧
      (s.mixes 0x01 = true → k.pulse1 = (s.pulse1.sample paces.pulse1 1 s.timing.cycleRate).2) ∧
      (s.mixes 0x02 = true → k.pulse2 = (s.pulse2.sample paces.pulse2 0 s.timing.cycleRate).2) ∧
      (s.mixes 0x04 = true → k.triangle = (s.triangle.sample paces.triangle s.timing.cycleRate).2) ∧
      (s.mixes 0x08 = true → k.noise = (s.noise.sample paces.noise s.timing.cycleRate).2) := by
  obtain ⟨previous, hnext⟩ := s.next_mix paces cpu cart
  rw [hnext]
  exact ⟨rfl, fun h => congrArg Prod.snd (if_pos h), fun h => congrArg Prod.snd (if_pos h),
    fun h => congrArg Prod.snd (if_pos h), fun h => congrArg Prod.snd (if_pos h)⟩

/-- One sample of a note. -/
theorem fades_next (h : voice.Fades s left) (hmixed : s.mixes voice.bit = true) (paces : Paces) (cpu : Cpu)
    (cart : Cartridge) : voice.Fades (s.next paces cpu cart).2.1 (left.map (· - 1)) := by
  obtain ⟨-, hpulse1, hpulse2, htriangle, hnoise⟩ := s.next_voices paces cpu cart
  cases voice with
  | pulse1 =>
    obtain ⟨n, rfl, hfades⟩ := h
    refine ⟨n - 1, rfl, ?_⟩
    rw [hpulse1 hmixed]
    exact Pulse.fades_sample hfades _ _ _
  | pulse2 =>
    obtain ⟨n, rfl, hfades⟩ := h
    refine ⟨n - 1, rfl, ?_⟩
    rw [hpulse2 hmixed]
    exact Pulse.fades_sample hfades _ _ _
  | triangle =>
    show Triangle.Fades _ _
    rw [htriangle hmixed]
    exact Triangle.Fades.sample h _ _
  | noise =>
    obtain ⟨n, rfl, hfades⟩ := h
    refine ⟨n - 1, rfl, ?_⟩
    rw [hnoise hmixed]
    exact Noise.fades_sample hfades _ _

/-- Any number of samples of a note. -/
theorem fades_run {events : List Event} (h : voice.Fades s left) (hmixed : s.mixes voice.bit = true)
    (hsamples : ∀ e ∈ events, e.IsSample) : voice.Fades (s.run events) (left.map (· - events.length)) := by
  induction events generalizing s left with
  | nil =>
    rw [List.length_nil, show left.map (· - 0) = left by cases left <;> rfl]
    exact h
  | cons e events ih =>
    have hsample := hsamples e List.mem_cons_self
    cases e with
    | sample paces cpu cart =>
      have hmask := (s.next_voices paces cpu cart).1
      have hmixed' : (s.next paces cpu cart).2.1.mixes voice.bit = true := by rwa [mixes, hmask]
      have hrest := ih (fades_next h hmixed paces cpu cart) hmixed' fun f hf =>
        hsamples f (List.mem_cons_of_mem _ hf)
      rw [Option.map_map] at hrest
      rw [List.length_cons, show (fun n => n - (events.length + 1)) = (· - events.length) ∘ (· - 1) by
        funext n
        show _ = n - 1 - events.length
        omega]
      exact hrest
    | _ => exact hsample.elim

/-- A note begins: the voice is switched on, its hold flag cleared and its length written. -/
theorem fades_start (s : Sound) (ht : s.timing.Fits) (voice : Voice) {switches control : UInt8}
    (hon : (switches &&& voice.bit != 0) = true) (hplain : control &&& voice.holdFlag = 0) (length : UInt8) :
    let start := ((s.write 0x4015 switches).write voice.holdRegister control).write voice.lengthRegister length
    voice.Fades start ((voice.wait? start).map (· + (s.timing.lengthOf length).toNat)) := by
  have hlength := ht.lengthOf_pos length
  have hnote : ∀ {enabled : Bool}, enabled = true → control &&& 0x20 = 0 →
      Fades enabled control (s.timing.lengthOf length) (0 + (s.timing.lengthOf length).toNat) := fun hon hplain =>
    ⟨hon, by rw [isHeld, hplain]; rfl, by omega⟩
  intro start
  cases voice with
  | pulse1 | pulse2 | noise => exact ⟨_, rfl, hnote hon hplain⟩
  | triangle =>
    have hlatency := Triangle.latencyOf_nonneg s.timing
    have htriangle : start.triangle =
        (((s.triangle.setEnabled (switches &&& 0x04 != 0)).writeLinear control s.timing).writeTimerHigh length
          s.timing) := rfl
    have henabled : start.triangle.enabled = true := by
      rw [htriangle, show (switches &&& 0x04 != 0) = true from hon]
      rfl
    have hheld : start.triangle.held = false := by
      show (control &&& 0x80 != 0) = false
      rw [show control &&& 0x80 = 0 from hplain]
      rfl
    show start.triangle.Fades
      ((if start.triangle.latency = 0 then none else some start.triangle.latency.toNat).map _)
    obtain ⟨n, hn⟩ : ∃ n : Nat, s.timing.lengthOf length = (n + 1 : Nat) :=
      ⟨(s.timing.lengthOf length).toNat - 1, by omega⟩
    have hstart : start.triangle.length = (n + 1 : Nat) := hn
    have hwaits : start.triangle.counting = false := rfl
    by_cases hnever : start.triangle.latency = 0
    · rw [if_pos hnever]
      exact .forever n henabled hheld hwaits hnever hstart
    · have hnonneg : 0 ≤ start.triangle.latency := hlatency
      obtain ⟨m, hm⟩ : ∃ m : Nat, start.triangle.latency = (m + 1 : Nat) :=
        ⟨start.triangle.latency.toNat - 1, by omega⟩
      rw [if_neg hnever, hm, hn]
      exact .waiting m n henabled hheld hwaits hm hstart

/-- Rates that a machine can run with give a frame as many samples as they say, unless they are too far apart. -/
theorem fits_of_valid {settings : Settings} (hvalid : settings.Valid)
    (hlong : 127 * (settings.sampleRate.toNat / settings.refreshRate.toNat) < 0x80000000) :
    (Timing.ofRates settings.sampleRate settings.refreshRate).Fits ∧
      (Timing.ofRates settings.sampleRate settings.refreshRate).samples =
        (settings.sampleRate.toNat / settings.refreshRate.toNat : Nat) := by
  have hrefresh : 1 ≤ settings.refreshRate.toNat :=
    Nat.pos_of_ne_zero fun hzero => hvalid.refreshRate (UInt32.toNat_inj.mp hzero)
  have horder : settings.refreshRate.toNat ≤ settings.sampleRate.toNat := UInt32.le_iff_toNat_le.mp hvalid.order
  have hsome := Nat.div_pos horder hrefresh
  have hsamples : (Timing.ofRates settings.sampleRate settings.refreshRate).samples =
      (settings.sampleRate.toNat / settings.refreshRate.toNat : Nat) := by
    unfold Timing.ofRates
    dsimp only
    rw [Nat.max_eq_left hrefresh, Nat.max_eq_left (hrefresh.trans horder)]
    exact Timing.wrap_eq (by omega) (by omega)
  refine ⟨?_, hsamples⟩
  unfold Timing.Fits
  rw [hsamples]
  omega

/-- Notes end on time. At any rates that a machine accepts, and that the longest note fits into a word at, a note of
a mixed voice, switched on and not held, ends with the sample that its length code says, after the latency if it is
the triangle's, not earlier and not later, and the voice is silent from then on; unless the triangle's latency is
shorter than a sample: then the note does not end. -/
theorem notes_end_on_time {settings : Settings} (hvalid : settings.validate = .ok settings)
    (hlong : ∀ code : Fin 32,
      Timing.noteFrames.get code * (settings.sampleRate.toNat / settings.refreshRate.toNat : Nat) < 0x80000000)
    (hrates : s.timing = .ofRates settings.sampleRate settings.refreshRate) (hmixed : s.mixes voice.bit = true)
    {switches control : UInt8} (hon : (switches &&& voice.bit != 0) = true) (hplain : control &&& voice.holdFlag = 0)
    (length : UInt8) {events : List Event} (hsamples : ∀ e ∈ events, e.IsSample) :
    let start := ((s.write 0x4015 switches).write voice.holdRegister control).write voice.lengthRegister length
    let k := start.run events
    let frame := settings.sampleRate.toNat / settings.refreshRate.toNat
    ((k.read 0x4015 &&& voice.bit != 0) = false ↔ ∃ wait, voice.wait? start = some wait ∧
      wait + Timing.noteFrames.get (Fin.ofNat 32 (length.toNat / 8)) * frame ≤ events.length) ∧
    ((k.read 0x4015 &&& voice.bit != 0) = false → ∀ paces, voice.output k paces = 0) := by
  have hlongest : (127 : Int) * (settings.sampleRate.toNat / settings.refreshRate.toNat : Nat) < 0x80000000 := hlong 1
  obtain ⟨hfits, hframe⟩ := fits_of_valid (Settings.valid_of_validate hvalid) (by omega)
  rw [← hrates] at hfits hframe
  intro start k frame
  have hmask : start.mixes voice.bit = true := by
    rw [mixes, mixMask_write, mixMask_write, mixMask_write]
    exact hmixed
  have hfades := fades_run (s.fades_start hfits voice hon hplain length) hmask hsamples
  have hlength : s.timing.lengthOf length = Timing.noteFrames.get (Fin.ofNat 32 (length.toNat / 8)) * frame := by
    rw [Timing.lengthOf, hfits.noteLength_eq, hframe]
  have hpos := hfits.lengthOf_pos length
  have hstatus : (k.read 0x4015 &&& voice.bit != 0) = voice.sounding k := k.status_voice voice
  have hover : voice.sounding k = false ↔ ((voice.wait? start).map (· + (s.timing.lengthOf length).toNat)).map
      (· - events.length) = some 0 := by
    rw [← not_iff_not, Bool.not_eq_false, sounding_iff hfades]
  rw [hstatus]
  refine ⟨hover.trans ?_, fun hsilent => output_silent hsilent⟩
  rw [← hlength]
  cases voice.wait? start with
  | none => simp
  | some wait =>
    simp only [Option.map_some, Option.some.injEq, exists_eq_left']
    omega

/-- A note of one frame, at four thousand samples a second. -/
theorem notes_end_on_time_one_frame :
    let start := (((ofRates 4000 50).write 0x4015 0x01).write 0x4000 0x9F).write 0x4003 0x18
    let k := start.run (List.replicate 80 (.sample {} {} {}))
    (k.read 0x4015 &&& 0x01 != 0) = false ∧ ∀ paces, Voice.pulse1.output k paces = 0 := by
  have hvalid : Settings.validate { sampleRate := 4000, refreshRate := 50 } =
      .ok { sampleRate := 4000, refreshRate := 50 } := by decide
  have hrates : (ofRates 4000 50).timing = .ofRates 4000 50 := rfl
  have hmixed : (ofRates 4000 50).mixes Voice.pulse1.bit = true := by decide
  have hon : ((0x01 : UInt8) &&& Voice.pulse1.bit != 0) = true := by decide
  have hplain : (0x9F : UInt8) &&& Voice.pulse1.holdFlag = 0 := by decide
  have hsamples : ∀ e ∈ List.replicate 80 (Event.sample {} {} {}), e.IsSample := fun e he => by
    rw [List.eq_of_mem_replicate he]
    trivial
  intro start k
  obtain ⟨hends, hsilent⟩ := notes_end_on_time hvalid (by decide) hrates hmixed hon hplain 0x18 hsamples
  have hover := hends.mpr ⟨0, rfl, by rw [List.length_replicate]; decide⟩
  exact ⟨hover, hsilent hover⟩

/-- There a sample takes 447 cycles, and the triangle is left without latency. -/
example : Triangle.latencyOf { cycleRate := 447.44318 } = 0 := by decide

end Sound

end Famicom
