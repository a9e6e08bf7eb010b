import Famicom.Proofs.SoundOutline

/-!
What a sample shows of the voices. Whatever is heard of it, a voice's outline moves as if its note had been
counted down once (`Sound.outline_mix`), and only if there is something to count:

    voice      has nothing to count
    pulse      off, at the end of its note, or held
    noise      off, at the end of its note, or held
    triangle   off, at the end of its note, or held, or before its counters start with no latency left

The sample voice is left as it is, but for its output (`SampleVoice.unheard`); a chip shows nothing.
-/

namespace Famicom

/-- What depends on no more than an outline is the same where the outlines are. -/
theorem eq_of_outline {α β : Type} (outline : α → α) (f : α → β) {x x' : α}
    (hf : ∀ x, f (outline x) = f x) (h : outline x' = outline x) : f x' = f x := by
  rw [← hf x', h, hf]

theorem outline_after {α : Type} (outline f : α → α) {x x' : α} (hf : ∀ x, outline (f (outline x)) = outline (f x))
    (h : outline x' = outline x) : outline (f x') = outline (f x) :=
  eq_of_outline outline (fun x => outline (f x)) hf h

/-! ### Voices -/

namespace Pulse

/-- A sample shortens the note. -/
def counts (p : Pulse) : Bool := p.sounding && !isHeld p.control

/-- The outline after a sample. -/
def tick (p : Pulse) : Pulse := if p.counts then { p.outline with length := p.length - 1 } else p.outline

theorem outline_run (p : Pulse) (steps : Nat) : (p.run steps).outline = p.outline := by
  unfold run
  split <;> rfl

theorem outline_advanceSweep (p : Pulse) (extra : Int) : (p.advanceSweep extra).outline = p.outline := by
  unfold advanceSweep
  split
  · rfl
  · exact loop_keeps (P := fun q : Pulse => q.outline = p.outline) rfl fun _ hq => hq

theorem tick_sounding {p : Pulse} (h : p.sounding = true) :
    p.tick = { p.outline with length := countDown (isHeld p.control) p.length } := by
  rw [tick, counts, h, Bool.true_and, countDown]
  cases isHeld p.control <;> rfl

/-- Whatever is heard of a sample, it shows as a tick. -/
theorem outline_sample (p : Pulse) (pace : Pace) (extra : Int) (cycles : Float32) :
    (p.sample pace extra cycles).2.outline = p.tick := by
  have hfaded : sounding { p with level := fade p.level } = p.sounding := rfl
  unfold sample
  simp only [hfaded]
  cases hsounding : p.sounding with
  | false =>
    rw [tick, counts, hsounding]
    rfl
  | true =>
    rw [tick_sounding hsounding]
    simp only [Bool.not_true, Bool.false_eq_true, if_false]
    split
    · rfl
    · rw [outline_run]
      exact outline_advanceSweep _ extra

theorem sample_still {p : Pulse} (h : p.counts = false) (pace : Pace) (extra : Int) (cycles : Float32) :
    (p.sample pace extra cycles).2.outline = p.outline ∧ (p.sample pace extra cycles).2.counts = false := by
  have hstill : (p.sample pace extra cycles).2.outline = p.outline := by
    rw [outline_sample, tick, h]
    rfl
  exact ⟨hstill, (eq_of_outline outline counts (fun _ => rfl) hstill).trans h⟩

end Pulse

namespace Noise

/-- A sample shortens the note. -/
def counts (w : Noise) : Bool := w.sounding && !isHeld w.control

/-- The outline after a sample. -/
def tick (w : Noise) : Noise := if w.counts then { w.outline with length := w.length - 1 } else w.outline

theorem outline_run (w : Noise) (steps : Nat) : (w.run steps).outline = w.outline := by
  unfold run
  split <;> rfl

theorem tick_sounding {w : Noise} (h : w.sounding = true) :
    w.tick = { w.outline with length := countDown (isHeld w.control) w.length } := by
  rw [tick, counts, h, Bool.true_and, countDown]
  cases isHeld w.control <;> rfl

theorem outline_sample (w : Noise) (pace : Pace) (cycles : Float32) :
    (w.sample pace cycles).2.outline = w.tick := by
  have hfaded : sounding { w with level := fade w.level } = w.sounding := rfl
  unfold sample
  simp only [hfaded]
  cases hsounding : w.sounding with
  | false =>
    rw [tick, counts, hsounding]
    rfl
  | true =>
    rw [tick_sounding hsounding]
    simp only [Bool.not_true, Bool.false_eq_true, if_false]
    exact outline_run _ _

theorem sample_still {w : Noise} (h : w.counts = false) (pace : Pace) (cycles : Float32) :
    (w.sample pace cycles).2.outline = w.outline ∧ (w.sample pace cycles).2.counts = false := by
  have hstill : (w.sample pace cycles).2.outline = w.outline := by
    rw [outline_sample, tick, h]
    rfl
  exact ⟨hstill, (eq_of_outline outline counts (fun _ => rfl) hstill).trans h⟩

end Noise

namespace Triangle

/-- A sample shortens the note, or the wait before its counters start. -/
def counts (w : Triangle) : Bool := w.sounding && !w.held && (w.counting || w.latency != 0)

/-- The outline after a sample. -/
def tick (w : Triangle) : Triangle :=
  if !w.counts then w.outline
  else if w.counting then { w.outline with length := w.length - 1 }
  else { w.outline with latency := w.latency - 1, counting := w.latency == 1 }

theorem outline_count {w : Triangle} (h : w.sounding = true) : w.count.outline = w.tick := by
  have hlength : (w.length != 0) = true := by
    rw [sounding, Bool.and_eq_true] at h
    exact h.2
  unfold count tick counts
  rw [h, hlength]
  cases hcounting : w.counting <;> cases w.held <;> cases w.latency != 0 <;>
    simp [outline, hcounting]

theorem outline_moves (w : Triangle) (n : Nat) : (Nat.repeat move n w).outline = w.outline := by
  induction n with
  | zero => rfl
  | succ n ih => exact ih

theorem outline_sample (w : Triangle) (pace : Pace) (cycles : Float32) :
    (w.sample pace cycles).2.outline = w.tick := by
  have hfaded : sounding { w with level := fade w.level } = w.sounding := rfl
  unfold sample
  simp only [hfaded]
  cases hsounding : w.sounding with
  | false =>
    rw [tick, counts, hsounding]
    rfl
  | true =>
    have hcount : (count { w with level := fade w.level }).outline = w.tick :=
      outline_count (hfaded.trans hsounding)
    simp only [Bool.not_true, Bool.false_eq_true, if_false]
    split
    · exact hcount
    · rw [outline_moves]
      exact hcount

theorem sample_still {w : Triangle} (h : w.counts = false) (pace : Pace) (cycles : Float32) :
    (w.sample pace cycles).2.outline = w.outline ∧ (w.sample pace cycles).2.counts = false := by
  have hstill : (w.sample pace cycles).2.outline = w.outline := by
    rw [outline_sample, tick, h]
    rfl
  exact ⟨hstill, (eq_of_outline outline counts (fun _ => rfl) hstill).trans h⟩

end Triangle

namespace SampleVoice

/-- A sample voice without its output. -/
def unheard (v : SampleVoice) : SampleVoice := { v with level := 0 }

theorem outlines_unheard : Outlines unheard where
  again _ := rfl
  enabled _ := rfl
  raised _ := rfl
  writeControl _ _ := rfl
  writeLevel _ _ := rfl
  writeAddress _ _ := rfl
  writeLength _ _ := rfl
  setEnabled v enabled := by
    cases enabled with
    | false => rfl
    | true =>
      unfold setEnabled unheard
      dsimp only
      by_cases h : v.remaining = 0
      · simp only [h, if_true]
        rfl
      · simp only [h, if_false]
        rfl

theorem unheard_eq {v v' : SampleVoice} (h : v'.unheard = v.unheard) : v' = { v with level := v'.level } := by
  have hlevel (v v' : SampleVoice) : v' = { v'.unheard with level := v'.level } := rfl
  exact (hlevel v v').trans (congrArg (fun u : SampleVoice => { u with level := v'.level }) h)

theorem unheard_delta (v : SampleVoice) (level : Int) (up : Bool) :
    (delta { v with level } up).unheard = (v.delta up).unheard := by
  unfold delta
  split_ifs <;> rfl

/-- What is played does not depend on the output. -/
theorem unheard_play (v : SampleVoice) (level : Int) (cpu : Cpu) (cart : Cartridge) :
    (play { v with level } cpu cart).1.unheard = (v.play cpu cart).1.unheard ∧
      (play { v with level } cpu cart).2 = (v.play cpu cart).2 := by
  have hfetched : ∃ v' cpu', (if v.remaining % 8 = 0 then v.fetch cpu cart else (v, cpu)) = (v', cpu') ∧
      (if v.remaining % 8 = 0 then fetch { v with level } cpu cart else ({ v with level }, cpu)) =
        ({ v' with level }, cpu') := by
    split
    · exact ⟨_, _, rfl, rfl⟩
    · exact ⟨_, _, rfl, rfl⟩
  obtain ⟨v', cpu', hv, hv'⟩ := hfetched
  unfold play
  dsimp only
  rw [hv, hv']
  dsimp only
  by_cases hlast : v'.remaining = 1
  · rw [if_pos hlast, if_pos hlast]
    by_cases hloops : v'.loops = true
    · rw [if_pos hloops, if_pos (show loops { v' with level } = true from hloops)]
      exact ⟨unheard_delta v'.restart level _, rfl⟩
    · rw [if_neg hloops, if_neg (show ¬ loops { v' with level } = true from hloops)]
      by_cases hrequests : requests { v' with remaining := 0, enabled := false } = true
      · rw [if_pos hrequests,
          if_pos (show requests { v' with level, remaining := 0, enabled := false } = true from hrequests)]
        exact ⟨rfl, rfl⟩
      · rw [if_neg hrequests,
          if_neg (show ¬ requests { v' with level, remaining := 0, enabled := false } = true from hrequests)]
        exact ⟨rfl, rfl⟩
  · rw [if_neg hlast, if_neg hlast]
    exact ⟨unheard_delta { v' with remaining := v'.remaining - 1 } level _, rfl⟩

theorem unheard_playMany {v v' : SampleVoice} (h : v'.unheard = v.unheard) (cpu : Cpu) (cart : Cartridge)
    (n : Nat) :
    (v'.playMany cpu cart n).1.unheard = (v.playMany cpu cart n).1.unheard ∧
      (v'.playMany cpu cart n).2 = (v.playMany cpu cart n).2 := by
  induction n generalizing v v' cpu with
  | zero => exact ⟨h, rfl⟩
  | succ n ih =>
    obtain ⟨hvoice, hcpu⟩ := v.unheard_play v'.level cpu cart
    rw [← unheard_eq h] at hvoice hcpu
    simp only [playMany, hcpu]
    exact ih hvoice _

/-- A sample takes the same cycles and raises the same requests, whatever the output was. -/
theorem unheard_sample {v v' : SampleVoice} (h : v'.unheard = v.unheard) (pace : Pace) (cycles : Float32)
    (cpu : Cpu) (cart : Cartridge) :
    (v'.sample pace cycles cpu cart).2.1.unheard = (v.sample pace cycles cpu cart).2.1.unheard ∧
      (v'.sample pace cycles cpu cart).2.2 = (v.sample pace cycles cpu cart).2.2 := by
  rw [unheard_eq h]
  generalize v'.level = level
  have hloops : loops { v with level := fade level } = loops { v with level := fade v.level } := rfl
  have hperiod : period { v with level := fade level } = period { v with level := fade v.level } := rfl
  unfold sample
  dsimp only
  by_cases hleft : v.remaining = 0
  · rw [if_pos hleft, if_pos hleft]
    exact ⟨rfl, rfl⟩
  · rw [if_neg hleft, if_neg hleft, hloops, hperiod]
    generalize pace v.oscillator cycles _ _ = r
    have hbegun : unheard { v with level := fade level, oscillator := r.2 } =
      unheard { v with level := fade v.level, oscillator := r.2 } := rfl
    exact unheard_playMany hbegun cpu cart r.1

/-- With no bits left nothing but the output moves. -/
theorem sample_still {v : SampleVoice} (h : v.remaining = 0) (pace : Pace) (cycles : Float32) (cpu : Cpu)
    (cart : Cartridge) : (v.sample pace cycles cpu cart).2 = ({ v with level := fade v.level }, cpu) := by
  unfold sample
  dsimp only
  rw [if_pos h]

end SampleVoice

/-! ### The unit -/

namespace Sound

variable {s : Sound}

/-- A chip shows nothing of the samples that it plays. -/
theorem chips_mix (s : Sound) (paces : Paces) (cpu : Cpu) (cart : Cartridge) :
    (s.mix paces cpu cart).2.1.expansion.map Expansion.outline = s.expansion.map Expansion.outline := by
  unfold mix
  dsimp only
  cases s.expansion with
  | none => rfl
  | some e =>
    cases s.mixes 0x20 with
    | false => rfl
    | true => exact congrArg some (e.outline_sample paces.chip)

/-- The sample voice and the processor after a sample. -/
def played (s : Sound) (paces : Paces) (cpu : Cpu) (cart : Cartridge) : SampleVoice × Cpu :=
  (if s.mixes 0x10 then s.sample.sample paces.sample s.timing.cycleRate cpu cart else (0, s.sample, cpu)).2

/-- The outline after a sample: the mixed voices count, the others stand still. -/
theorem outline_mix (s : Sound) (paces : Paces) (cpu : Cpu) (cart : Cartridge) :
    (s.mix paces cpu cart).2.1.outline SampleVoice.unheard =
      { pulse1 := if s.mixes 0x01 then s.pulse1.tick else s.pulse1.outline
        pulse2 := if s.mixes 0x02 then s.pulse2.tick else s.pulse2.outline
        triangle := if s.mixes 0x04 then s.triangle.tick else s.triangle.outline
        noise := if s.mixes 0x08 then s.noise.tick else s.noise.outline
        sample := (s.played paces cpu cart).1.unheard
        timing := s.timing
        expansion := s.expansion.map Expansion.outline } := by
  have hmixed : ∀ {α β : Type} (mixed : Bool) (r : Int × α) (x : α) (f : α → β) (y : β), f r.2 = y →
      f (if mixed then r else (0, x)).2 = if mixed then y else f x := by
    rintro α β (_ | _) r x f y h
    exacts [rfl, h]
  rw [← s.chips_mix paces cpu cart,
    ← hmixed _ _ _ _ _ (s.pulse1.outline_sample paces.pulse1 1 s.timing.cycleRate),
    ← hmixed _ _ _ _ _ (s.pulse2.outline_sample paces.pulse2 0 s.timing.cycleRate),
    ← hmixed _ _ _ _ _ (s.triangle.outline_sample paces.triangle s.timing.cycleRate),
    ← hmixed _ _ _ _ _ (s.noise.outline_sample paces.noise s.timing.cycleRate)]
  rfl

/-- After the voices are mixed the filter moves nothing but its memory. -/
theorem next_mix (s : Sound) (paces : Paces) (cpu : Cpu) (cart : Cartridge) : ∃ previous,
    (s.next paces cpu cart).2 = ({ (s.mix paces cpu cart).2.1 with previous }, (s.mix paces cpu cart).2.2) := by
  have hsmooth (k : Sound) (mixed : Int) : ∃ previous, (k.smooth mixed).2 = { k with previous } := by
    unfold smooth
    split
    · exact ⟨k.previous, rfl⟩
    · exact ⟨mixed, rfl⟩
    · exact ⟨mixed, rfl⟩
  obtain ⟨previous, hprevious⟩ := hsmooth (s.mix paces cpu cart).2.1 (s.mix paces cpu cart).1
  exact ⟨previous, congrArg (·, (s.mix paces cpu cart).2.2) hprevious⟩

theorem render_succ (s : Sound) (cpu : Cpu) (cart : Cartridge) (count : Nat) :
    (s.render cpu cart (count + 1)).2 =
      ((s.render cpu cart count).2.1.next {} (s.render cpu cart count).2.2 cart).2 := by
  simp only [Sound.render, List.range_succ, List.foldl_append, List.foldl_cons, List.foldl_nil]

end Sound

end Famicom
