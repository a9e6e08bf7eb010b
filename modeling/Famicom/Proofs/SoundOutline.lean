import Famicom.Proofs.SoundUnit

/-!
What a program can tell of the sound unit: which notes still sound, whether a sample is played or has asked for an
interrupt, and the product that the MMC5 works out. The outline of a unit is what these depend on, now and after
writes; wave forms, levels, envelopes and sweeps are left out of it.

    pulse, noise   control   enabled   length
    triangle       linear    enabled   length   counting   latency
    sample         as much as the caller keeps
    MMC5           both factors
-/

namespace Famicom

/-! ### Voices -/

/-- The outline of a pulse. -/
def Pulse.outline (p : Pulse) : Pulse := { control := p.control, enabled := p.enabled, length := p.length }

/-- The outline of a triangle. -/
def Triangle.outline (w : Triangle) : Triangle :=
  { linear := w.linear, enabled := w.enabled, counting := w.counting, latency := w.latency, length := w.length }

/-- The outline of a noise voice. -/
def Noise.outline (w : Noise) : Noise :=
  { control := w.control, enabled := w.enabled, length := w.length, short := #[], register := 0 }

/-- The outline of a chip on the cartridge. -/
def Expansion.outline : Expansion → Expansion
  | .mmc5 s => .mmc5 { factor1 := s.factor1, factor2 := s.factor2 }
  | .vrc6 _ => .vrc6 {}
  | .fds _ => .fds {}
  | .vrc7 _ => .vrc7 {}

theorem Expansion.outline_twice : outline ∘ outline = outline := by
  funext e
  cases e <;> rfl

theorem Triangle.outline_setEnabled (w : Triangle) (enabled : Bool) :
    (w.outline.setEnabled enabled).outline = (w.setEnabled enabled).outline := by
  cases enabled <;> rfl

theorem Noise.outline_writeMode (w : Noise) (value : UInt8) : (w.writeMode value).outline = w.outline := by
  unfold writeMode
  split <;> rfl

theorem Expansion.readRanges_outline (e : Expansion) : e.outline.readRanges = e.readRanges := by
  cases e <;> rfl

theorem Expansion.writeRanges_outline (e : Expansion) : e.outline.writeRanges = e.writeRanges := by
  cases e <;> rfl

theorem Expansion.read_outline (e : Expansion) (address : UInt16) : e.outline.read address = e.read address := by
  cases e <;> rfl

theorem Mmc5Sound.factors_write (s : Mmc5Sound) (address : UInt16) (value : UInt8) :
    (s.write address value).factor1 = (if address = 0x5205 then value else s.factor1) ∧
      (s.write address value).factor2 = (if address = 0x5206 then value else s.factor2) := by
  unfold write
  split <;> simp_all

theorem Expansion.outline_write (e : Expansion) (address : UInt16) (value : UInt8) :
    (e.outline.write address value).outline = (e.write address value).outline := by
  cases e with
  | mmc5 s =>
    simp only [outline, write, Mmc5Sound.factors_write]
  | _ => rfl

theorem Expansion.outline_reset (e : Expansion) (t : Timing) : (e.reset t).outline = e.outline := by
  cases e with
  | mmc5 s =>
    simp only [reset, outline, Mmc5Sound.reset, Mmc5Sound.clearedByReset, List.foldl_cons, List.foldl_nil,
      Mmc5Sound.factors_write]
    rfl
  | _ => rfl

theorem Expansion.outline_sample (e : Expansion) (pace : ChipPaces) : (e.sample pace).2.outline = e.outline := by
  cases e <;> rfl

/-! ### The unit -/

/-- What is kept of the sample voice says what its status is, and does not depend on more of it after a write. -/
structure SampleVoice.Outlines (keep : SampleVoice → SampleVoice) : Prop where
  again : ∀ v, keep (keep v) = keep v
  enabled : ∀ v, (keep v).enabled = v.enabled
  raised : ∀ v, (keep v).raised = v.raised
  writeControl : ∀ v value, keep ((keep v).writeControl value) = keep (v.writeControl value)
  writeLevel : ∀ v value, keep ((keep v).writeLevel value) = keep (v.writeLevel value)
  writeAddress : ∀ v value, keep ((keep v).writeAddress value) = keep (v.writeAddress value)
  writeLength : ∀ v value, keep ((keep v).writeLength value) = keep (v.writeLength value)
  setEnabled : ∀ v enabled, keep ((keep v).setEnabled enabled) = keep (v.setEnabled enabled)

namespace Sound

/-- The outline of a unit. -/
def outline (keep : SampleVoice → SampleVoice) (s : Sound) : Sound where
  pulse1 := s.pulse1.outline
  pulse2 := s.pulse2.outline
  triangle := s.triangle.outline
  noise := s.noise.outline
  sample := keep s.sample
  timing := s.timing
  expansion := s.expansion.map Expansion.outline

section
variable {keep : SampleVoice → SampleVoice} (h : SampleVoice.Outlines keep) (s : Sound)
include h

theorem status_outline : (s.outline keep).status = s.status := by
  simp only [status, outline, h.enabled, h.raised]
  rfl

theorem outline_writeSwitches (value : UInt8) :
    ((s.outline keep).writeSwitches value).outline keep = (s.writeSwitches value).outline keep := by
  simp only [writeSwitches, outline, h.setEnabled, Triangle.outline_setEnabled, Option.map_map,
    Expansion.outline_twice]
  rfl

/-- The outline after a write depends on the outline before it. -/
theorem outline_write (address : UInt16) (value : UInt8) :
    ((s.outline keep).write address value).outline keep = (s.write address value).outline keep := by
  unfold write
  split <;> simp only [outline, h.again, h.writeControl, h.writeLevel, h.writeAddress, h.writeLength,
    Noise.outline_writeMode, Option.map_map, Expansion.outline_twice]
  case h_19 => exact s.outline_writeSwitches h value
  all_goals rfl

end

theorem timing_write (s : Sound) (address : UInt16) (value : UInt8) :
    (s.write address value).timing = s.timing := by
  unfold write
  split <;> rfl

theorem expansion_write (s : Sound) (address : UInt16) (value : UInt8) :
    (s.write address value).expansion = s.expansion := by
  unfold write
  split <;> rfl

theorem mixMask_write (s : Sound) (address : UInt16) (value : UInt8) :
    (s.write address value).mixMask = s.mixMask := by
  unfold write
  split <;> rfl

/-- Units that are related so are the same to programs that do not read the status, and stay so. -/
structure Covert (S : Sound → Sound → Prop) : Prop where
  timing : ∀ {s s'}, S s s' → s'.timing = s.timing
  chips : ∀ {s s'}, S s s' → s'.expansion.map Expansion.outline = s.expansion.map Expansion.outline
  write : ∀ {s s'} (address value), S s s' → S (s.write address value) (s'.write address value)
  chip : ∀ {s s'} {e e' : Expansion}, e'.outline = e.outline → S s s' →
    S { s with expansion := some e } { s' with expansion := some e' }

/-- Units that are related so show the same status. -/
def Candid (S : Sound → Sound → Prop) : Prop := ∀ {s s' : Sound}, S s s' → s'.status = s.status

theorem candid_outline {keep : SampleVoice → SampleVoice} (h : SampleVoice.Outlines keep) :
    Candid fun s s' => s'.outline keep = s.outline keep :=
  fun {s s'} hs => by rw [← s'.status_outline h, hs, s.status_outline h]

theorem covert_outline {keep : SampleVoice → SampleVoice} (h : SampleVoice.Outlines keep) :
    Covert fun s s' => s'.outline keep = s.outline keep where
  timing := fun hs => by
    have htiming := congrArg Sound.timing hs
    exact htiming
  chips := fun hs => by
    have hchips := congrArg Sound.expansion hs
    exact hchips
  write := fun {s s'} address value hs => by rw [← s'.outline_write h, hs, s.outline_write h]
  chip := fun {s s' e e'} he hs => by
    have hchip : ∀ (s : Sound) (e : Expansion), ({ s with expansion := some e } : Sound).outline keep =
        { s.outline keep with expansion := some e.outline } := fun _ _ => rfl
    rw [hchip, hchip, hs, he]

section
variable {S : Sound → Sound → Prop} {s s' : Sound}

/-- Either no chip is plugged in, or chips with one outline. -/
theorem Covert.chip_cases (h : Covert S) (hs : S s s') : s.expansion = none ∧ s'.expansion = none ∨
    ∃ e e', s.expansion = some e ∧ s'.expansion = some e' ∧ e'.outline = e.outline := by
  have hchips := h.chips hs
  cases he : s.expansion with
  | none =>
    rw [he, Option.map_none, Option.map_eq_none_iff] at hchips
    exact Or.inl ⟨rfl, hchips⟩
  | some e =>
    rw [he, Option.map_some, Option.map_eq_some_iff] at hchips
    obtain ⟨e', he', houtline⟩ := hchips
    exact Or.inr ⟨e, e', rfl, he', houtline⟩

theorem Covert.writeAll (h : Covert S) (value : Nat → UInt8) (hs : S s s') :
    S (s.writeAll value) (s'.writeAll value) := by
  unfold Sound.writeAll
  refine h.write _ _ ?_
  generalize List.range 0x14 = ns
  induction ns generalizing s s' with
  | nil => exact hs
  | cons n ns ih => exact ih (h.write _ _ hs)

theorem Covert.reset (h : Covert S) (hs : S s s') : S s.reset s'.reset := by
  have hall := h.writeAll (fun _ => 0) hs
  unfold Sound.reset
  generalize s.writeAll (fun _ => 0) = k at hall ⊢
  generalize s'.writeAll (fun _ => 0) = k' at hall ⊢
  rcases h.chip_cases hall with ⟨he, he'⟩ | ⟨e, e', he, he', houtline⟩
  · have hnone : ∀ {k : Sound}, k.expansion = none →
        { k with expansion := k.expansion.map (·.reset k.timing) } = k := fun {k} hk => by
      cases k
      cases hk
      rfl
    rwa [hnone he, hnone he']
  · simp only [he, he', Option.map_some]
    refine h.chip ?_ hall
    rw [e.outline_reset, e'.outline_reset, houtline]

end

end Sound

end Famicom
