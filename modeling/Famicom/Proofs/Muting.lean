import Famicom.Proofs.Beside
import Famicom.Proofs.NoteLength

/-!
Muting. A voice outside the mix mask is not only silent, it stands still: its note does not end, and its sample
fetches nothing. A stray is a voice that counts under one mask and stands still under the other. All that a
stray can show is its bit of the status; processor, memories and picture unit hear nothing of it until a program
reads that bit. The sample voice stalls the processor, so it must not stray.

    mask    m ── write, frame, samples ──▶ m'      status   s . . . 4 3 2 1
            ┆ all but strays               ┆                          └─────┴ strays
    mask'   n ────── the same ───────────▶ n'
-/

namespace Famicom

/-! ### Two masks -/

namespace Voice

/-- The next sample moves the counters of the voice. -/
def counts (s : Sound) : Voice → Bool
  | .pulse1 => s.pulse1.counts
  | .pulse2 => s.pulse2.counts
  | .triangle => s.triangle.counts
  | .noise => s.noise.counts

/-- The voices of two units have the same outline. -/
def Alike (s s' : Sound) : Voice → Prop
  | .pulse1 => s'.pulse1.outline = s.pulse1.outline
  | .pulse2 => s'.pulse2.outline = s.pulse2.outline
  | .triangle => s'.triangle.outline = s.triangle.outline
  | .noise => s'.noise.outline = s.noise.outline

variable {s s' : Sound} {voice : Voice}

theorem Alike.sounding (h : voice.Alike s s') : voice.sounding s' = voice.sounding s := by
  cases voice with
  | pulse1 | pulse2 => exact eq_of_outline Pulse.outline Pulse.sounding (fun _ => rfl) h
  | triangle => exact eq_of_outline Triangle.outline Triangle.sounding (fun _ => rfl) h
  | noise => exact eq_of_outline Noise.outline Noise.sounding (fun _ => rfl) h

/-- A write finds and leaves the voice alike. -/
theorem Alike.write (h : voice.Alike s s') (htiming : s'.timing = s.timing) (address : UInt16) (value : UInt8) :
    voice.Alike (s.write address value) (s'.write address value) := by
  simp only [Sound.write, htiming]
  cases voice with
  | pulse1 =>
    have hpulse (f) (hf) := outline_after Pulse.outline f hf h
    split
    case h_1 => exact hpulse (·.writeControl value s.timing) fun _ => rfl
    case h_4 => exact hpulse (·.writeTimerHigh value s.timing) fun _ => rfl
    case h_19 => exact hpulse (·.setEnabled (value &&& 0x01 != 0)) fun _ => rfl
    all_goals exact h
  | pulse2 =>
    have hpulse (f) (hf) := outline_after Pulse.outline f hf h
    split
    case h_5 => exact hpulse (·.writeControl value s.timing) fun _ => rfl
    case h_8 => exact hpulse (·.writeTimerHigh value s.timing) fun _ => rfl
    case h_19 => exact hpulse (·.setEnabled (value &&& 0x02 != 0)) fun _ => rfl
    all_goals exact h
  | triangle =>
    have htriangle (f) (hf) := outline_after Triangle.outline f hf h
    split
    case h_9 => exact htriangle (·.writeLinear value s.timing) fun _ => rfl
    case h_11 => exact htriangle (·.writeTimerHigh value s.timing) fun _ => rfl
    case h_19 =>
      exact htriangle (·.setEnabled (value &&& 0x04 != 0)) fun w => w.outline_setEnabled (value &&& 0x04 != 0)
    all_goals exact h
  | noise =>
    have hnoise (f) (hf) := outline_after Noise.outline f hf h
    split
    case h_12 => exact hnoise (·.writeControl value s.timing) fun _ => rfl
    case h_13 => exact (s'.noise.outline_writeMode value).trans (h.trans (s.noise.outline_writeMode value).symm)
    case h_14 => exact hnoise (·.writeLength value s.timing) fun _ => rfl
    case h_19 => exact hnoise (·.setEnabled (value &&& 0x08 != 0)) fun _ => rfl
    all_goals exact h

/-- Played under both masks, under neither, or under one of them with nothing to count. -/
theorem mixed_alike {α : Type} {tick tick' outline outline' : α} {mixed mixed' : Bool} (htick : tick' = tick)
    (houtline : outline' = outline) (hrests : mixed' ≠ mixed → tick = outline) :
    (if mixed' then tick' else outline') = if mixed then tick else outline := by
  cases mixed <;> cases mixed'
  · exact houtline
  · exact htick.trans (hrests (by decide))
  · exact houtline.trans (hrests (by decide)).symm
  · exact htick

/-- A sample finds and leaves the voice alike. -/
theorem Alike.mix (h : voice.Alike s s')
    (hrests : s'.mixes voice.bit ≠ s.mixes voice.bit → voice.counts s = false) (paces : Sound.Paces)
    (cpu cpu' : Cpu) (cart cart' : Cartridge) :
    voice.Alike (s.mix paces cpu cart).2.1 (s'.mix paces cpu' cart').2.1 := by
  have hmix := s.outline_mix paces cpu cart
  have hmix' := s'.outline_mix paces cpu' cart'
  cases voice with
  | pulse1 =>
    have htick : s'.pulse1.tick = s.pulse1.tick := eq_of_outline Pulse.outline Pulse.tick (fun _ => rfl) h
    have hvoice := mixed_alike htick h fun hne => by
      rw [Pulse.tick, show s.pulse1.counts = false from hrests hne]
      rfl
    exact (congrArg (·.pulse1) hmix').trans (hvoice.trans (congrArg (·.pulse1) hmix).symm)
  | pulse2 =>
    have htick : s'.pulse2.tick = s.pulse2.tick := eq_of_outline Pulse.outline Pulse.tick (fun _ => rfl) h
    have hvoice := mixed_alike htick h fun hne => by
      rw [Pulse.tick, show s.pulse2.counts = false from hrests hne]
      rfl
    exact (congrArg (·.pulse2) hmix').trans (hvoice.trans (congrArg (·.pulse2) hmix).symm)
  | triangle =>
    have htick : s'.triangle.tick = s.triangle.tick :=
      eq_of_outline Triangle.outline Triangle.tick (fun _ => rfl) h
    have hvoice := mixed_alike htick h fun hne => by
      rw [Triangle.tick, show s.triangle.counts = false from hrests hne]
      rfl
    exact (congrArg (·.triangle) hmix').trans (hvoice.trans (congrArg (·.triangle) hmix).symm)
  | noise =>
    have htick : s'.noise.tick = s.noise.tick := eq_of_outline Noise.outline Noise.tick (fun _ => rfl) h
    have hvoice := mixed_alike htick h fun hne => by
      rw [Noise.tick, show s.noise.counts = false from hrests hne]
      rfl
    exact (congrArg (·.noise) hmix').trans (hvoice.trans (congrArg (·.noise) hmix).symm)

/-- A voice with nothing to count has nothing to count after a sample. -/
theorem rests_mix (h : voice.counts s = false) (paces : Sound.Paces) (cpu : Cpu) (cart : Cartridge) :
    voice.counts (s.mix paces cpu cart).2.1 = false := by
  cases voice with
  | pulse1 =>
    exact Sound.mixed_keeps (P := fun r : Int × Pulse => r.2.counts = false) _ (Pulse.sample_still h _ _ _).2 h
  | pulse2 =>
    exact Sound.mixed_keeps (P := fun r : Int × Pulse => r.2.counts = false) _ (Pulse.sample_still h _ _ _).2 h
  | triangle =>
    exact Sound.mixed_keeps (P := fun r : Int × Triangle => r.2.counts = false) _
      (Triangle.sample_still h _ _).2 h
  | noise =>
    exact Sound.mixed_keeps (P := fun r : Int × Noise => r.2.counts = false) _ (Noise.sample_still h _ _).2 h

end Voice

/-! ### The unit -/

namespace Sound

/-- Two masks name different selections of a voice. -/
def Switched (own mask voice : UInt8) : Prop := (mask &&& voice != 0) ≠ (own &&& voice != 0)

/-- A voice that one of two masks switches has nothing to count, unless it is a stray. -/
structure Rests (own mask : UInt8) (strays : List Voice) (s : Sound) : Prop where
  voices : ∀ voice, voice ∉ strays → Switched own mask voice.bit → voice.counts s = false
  sample : Switched own mask 0x10 → s.sample.remaining = 0

/-- Units under two masks that show the same to a program, strays apart. -/
structure Remixed (own mask : UInt8) (strays : List Voice) (s s' : Sound) : Prop where
  own : s.mixMask = own
  mask : s'.mixMask = mask
  voices : ∀ voice, voice ∉ strays → voice.Alike s s'
  sample : s'.sample.unheard = s.sample.unheard
  timing : s'.timing = s.timing
  chips : s'.expansion.map Expansion.outline = s.expansion.map Expansion.outline

variable {own mask : UInt8} {strays : List Voice} {s s' : Sound}

/-- The sample voice does not look at its output when a register is written. -/
theorem unheard_write (h : s'.sample.unheard = s.sample.unheard) (address : UInt16) (value : UInt8) :
    (s'.write address value).sample.unheard = (s.write address value).sample.unheard := by
  have hvoice (f) (hf) := outline_after SampleVoice.unheard f hf h
  have houtlines := SampleVoice.outlines_unheard
  unfold write
  split
  case h_15 => exact hvoice (·.writeControl value) (houtlines.writeControl · value)
  case h_16 => exact hvoice (·.writeLevel value) (houtlines.writeLevel · value)
  case h_17 => exact hvoice (·.writeAddress value) (houtlines.writeAddress · value)
  case h_18 => exact hvoice (·.writeLength value) (houtlines.writeLength · value)
  case h_19 => exact hvoice (·.setEnabled (value &&& 0x10 != 0)) (houtlines.setEnabled · (value &&& 0x10 != 0))
  all_goals exact h

theorem covert_remixed (own mask : UInt8) (strays : List Voice) : Covert (Remixed own mask strays) where
  timing h := h.timing
  chips h := h.chips
  write {s s'} address value h := by
    refine ⟨(mixMask_write s address value).trans h.own, (mixMask_write s' address value).trans h.mask,
      fun voice hstray => (h.voices voice hstray).write h.timing address value,
      unheard_write h.sample address value, ?_, ?_⟩
    · rw [timing_write, timing_write]
      exact h.timing
    · rw [expansion_write, expansion_write]
      exact h.chips
  chip {s s' e e'} he h := by
    refine ⟨h.own, h.mask, fun voice hstray => ?_, h.sample, h.timing, congrArg some he⟩
    have hvoice := h.voices voice hstray
    cases voice <;> exact hvoice

/-- The low bits of the status are those of the voices. -/
theorem status_and (s : Sound) (voice : Voice) :
    s.status &&& voice.bit = if voice.sounding s then voice.bit else 0 := by
  have hbits : ∀ a b c d e f : Bool,
      let status : UInt8 := (if a then 0x01 else 0) ||| (if b then 0x02 else 0) ||| (if c then 0x04 else 0) |||
        (if d then 0x08 else 0) ||| (if e then 0x10 else 0) ||| (if f then 0x80 else 0)
      status &&& 0x01 = (if a then 0x01 else 0) ∧ status &&& 0x02 = (if b then 0x02 else 0) ∧
        status &&& 0x04 = (if c then 0x04 else 0) ∧ status &&& 0x08 = (if d then 0x08 else 0) := by decide
  obtain ⟨h1, h2, h3, h4⟩ := hbits s.pulse1.sounding s.pulse2.sounding s.triangle.sounding s.noise.sounding
    s.sample.enabled s.sample.raised
  cases voice with
  | pulse1 => exact h1
  | pulse2 => exact h2
  | triangle => exact h3
  | noise => exact h4

/-- The high bits of the status are those of the sample voice. -/
theorem status_high (s : Sound) : s.status &&& 0xF0 =
    (if s.sample.enabled then 0x10 else 0) ||| (if s.sample.raised then 0x80 else 0) := by
  have hbits : ∀ a b c d e f : Bool,
      let status : UInt8 := (if a then 0x01 else 0) ||| (if b then 0x02 else 0) ||| (if c then 0x04 else 0) |||
        (if d then 0x08 else 0) ||| (if e then 0x10 else 0) ||| (if f then 0x80 else 0)
      status &&& 0xF0 = (if e then 0x10 else 0) ||| (if f then 0x80 else 0) := by decide
  exact hbits _ _ _ _ _ _

/-- Strays show in their bits of the status alone. -/
theorem Remixed.status (h : Remixed own mask strays s s') :
    (∀ voice, voice ∉ strays → s'.status &&& voice.bit = s.status &&& voice.bit) ∧
      s'.status &&& 0xF0 = s.status &&& 0xF0 := by
  refine ⟨fun voice hstray => ?_, ?_⟩
  · rw [status_and, status_and, (h.voices voice hstray).sounding]
  · have henabled : s'.sample.enabled = s.sample.enabled :=
      eq_of_outline SampleVoice.unheard SampleVoice.enabled (fun _ => rfl) h.sample
    have hraised : s'.sample.raised = s.sample.raised :=
      eq_of_outline SampleVoice.unheard SampleVoice.raised (fun _ => rfl) h.sample
    rw [status_high, status_high, henabled, hraised]

/-- Without strays the status is the same. -/
theorem candid_remixed (own mask : UInt8) : Candid (Remixed own mask []) := by
  intro s s' h
  have hsounding (voice : Voice) := (h.voices voice List.not_mem_nil).sounding
  have henabled : s'.sample.enabled = s.sample.enabled :=
    eq_of_outline SampleVoice.unheard SampleVoice.enabled (fun _ => rfl) h.sample
  have hraised : s'.sample.raised = s.sample.raised :=
    eq_of_outline SampleVoice.unheard SampleVoice.raised (fun _ => rfl) h.sample
  simp only [status, show s'.pulse1.sounding = s.pulse1.sounding from hsounding .pulse1,
    show s'.pulse2.sounding = s.pulse2.sounding from hsounding .pulse2,
    show s'.triangle.sounding = s.triangle.sounding from hsounding .triangle,
    show s'.noise.sounding = s.noise.sounding from hsounding .noise, henabled, hraised]

/-! ### Samples -/

theorem Remixed.switched (h : Remixed own mask strays s s') {voice : UInt8}
    (hne : s'.mixes voice ≠ s.mixes voice) : Switched own mask voice := by
  rwa [mixes, mixes, h.own, h.mask] at hne

/-- What has nothing to count has nothing to count after a sample. -/
theorem Rests.mix (h : Rests own mask strays s) (paces : Paces) (cpu : Cpu) (cart : Cartridge) :
    Rests own mask strays (s.mix paces cpu cart).2.1 where
  voices voice hstray hswitched := Voice.rests_mix (h.voices voice hstray hswitched) paces cpu cart
  sample hswitched := by
    have hstill := h.sample hswitched
    refine mixed_keeps (P := fun r : Int × SampleVoice × Cpu => r.2.1.remaining = 0) _ ?_ hstill
    rw [SampleVoice.sample_still hstill]
    exact hstill

/-- The processor is stalled and interrupted alike under both masks. -/
theorem Remixed.played (h : Remixed own mask strays s s') (hrests : Rests own mask strays s) (paces : Paces)
    (cpu : Cpu) (cart : Cartridge) :
    (s'.played paces cpu cart).1.unheard = (s.played paces cpu cart).1.unheard ∧
      (s'.played paces cpu cart).2 = (s.played paces cpu cart).2 := by
  obtain ⟨hleft, hcpu⟩ := SampleVoice.unheard_sample h.sample paces.sample s.timing.cycleRate cpu cart
  have hshown (s : Sound) : ((s.played paces cpu cart).1.unheard, (s.played paces cpu cart).2) =
      if s.mixes 0x10 then ((s.sample.sample paces.sample s.timing.cycleRate cpu cart).2.1.unheard,
        (s.sample.sample paces.sample s.timing.cycleRate cpu cart).2.2) else (s.sample.unheard, cpu) := by
    unfold Sound.played
    split <;> rfl
  refine Prod.mk.inj ?_
  rw [hshown, hshown, h.timing]
  refine Voice.mixed_alike (Prod.ext hleft hcpu) (by rw [h.sample]) fun hne => ?_
  rw [SampleVoice.sample_still (hrests.sample (h.switched hne))]
  rfl

/-- A sample shows the same under both masks, strays apart. -/
theorem Remixed.mix (h : Remixed own mask strays s s') (hrests : Rests own mask strays s) (paces : Paces)
    (cpu : Cpu) (cart : Cartridge) :
    Remixed own mask strays (s.mix paces cpu cart).2.1 (s'.mix paces cpu cart).2.1 ∧
      (s'.mix paces cpu cart).2.2 = (s.mix paces cpu cart).2.2 := by
  obtain ⟨hsample, hcpu⟩ := h.played hrests paces cpu cart
  refine ⟨⟨h.own, h.mask, fun voice hstray => ?_, hsample, h.timing, ?_⟩, hcpu⟩
  · have hstill := fun hne => hrests.voices voice hstray (h.switched hne)
    exact (h.voices voice hstray).mix hstill paces cpu cpu cart cart
  · rw [chips_mix, chips_mix]
    exact h.chips

/-- The filter shows nothing. -/
theorem Remixed.next (h : Remixed own mask strays s s') (hrests : Rests own mask strays s) (paces : Paces)
    (cpu : Cpu) (cart : Cartridge) :
    Remixed own mask strays (s.next paces cpu cart).2.1 (s'.next paces cpu cart).2.1 ∧
      Rests own mask strays (s.next paces cpu cart).2.1 ∧
      (s'.next paces cpu cart).2.2 = (s.next paces cpu cart).2.2 := by
  obtain ⟨hmixed, hcpu⟩ := h.mix hrests paces cpu cart
  have hstill := hrests.mix paces cpu cart
  obtain ⟨previous, hnext⟩ := s.next_mix paces cpu cart
  obtain ⟨previous', hnext'⟩ := s'.next_mix paces cpu cart
  rw [hnext, hnext']
  refine ⟨⟨hmixed.own, hmixed.mask, fun voice hstray => ?_, hmixed.sample, hmixed.timing, hmixed.chips⟩,
    ⟨fun voice hstray hswitched => ?_, hstill.sample⟩, hcpu⟩
  · have hvoice := hmixed.voices voice hstray
    cases voice <;> exact hvoice
  · have hvoice := hstill.voices voice hstray hswitched
    cases voice <;> exact hvoice

/-- Any number of samples shows the same under both masks, strays apart. -/
theorem Remixed.render (h : Remixed own mask strays s s') (hrests : Rests own mask strays s) (cpu : Cpu)
    (cart : Cartridge) (count : Nat) :
    Remixed own mask strays (s.render cpu cart count).2.1 (s'.render cpu cart count).2.1 ∧
      Rests own mask strays (s.render cpu cart count).2.1 ∧
      (s'.render cpu cart count).2.2 = (s.render cpu cart count).2.2 := by
  induction count with
  | zero => exact ⟨h, hrests, rfl⟩
  | succ count ih =>
    obtain ⟨hremixed, hstill, hcpu⟩ := ih
    rw [render_succ, render_succ, hcpu]
    exact hremixed.next hstill {} _ cart

end Sound

/-! ### Consoles -/

namespace Machine

/-- What is read of the status in an event: by a read of it, or by the programs of a slice or a frame. -/
def heardIn (m : Machine) : Event → List UInt8
  | .read address => if address = 0x4015 then [(m.read 0x4015).1] else []
  | .execute slice => statusReads (m.sliceTrace slice)
  | .frame draw => statusReads (m.playedTrace draw)
  | _ => []

/-- What is read of the status in a history. -/
def heardOf (m : Machine) : List Event → List UInt8
  | [] => []
  | e :: events => m.heardIn e ++ (m.after e).heardOf events

namespace Beside

variable {m n : Machine} {own mask : UInt8} {strays : List Voice}

/-- Sound is made on both consoles. -/
theorem samples (h : Beside (Sound.Remixed own mask strays) m n) (hrests : m.sound.Rests own mask strays)
    (count : Nat) : Beside (Sound.Remixed own mask strays) (m.samples count).2 (n.samples count).2 := by
  obtain ⟨hremixed, -, hcpu⟩ := h.related.render hrests m.cpu m.cart count
  have hrender : n.sound.render n.cpu n.cart count = n.sound.render m.cpu m.cart count := by rw [h.cpu, h.cart]
  unfold Machine.samples
  dsimp only
  rw [hrender, hcpu]
  generalize m.sound.render m.cpu m.cart count = r at hremixed ⊢
  exact (h.mapCpu fun _ => r.2.2).withSound hremixed

theorem after (h : Beside (Sound.Remixed own mask strays) m n) {e : Event} (he : e.isNative = true)
    (hrests : ∀ count, e = .samples (count + 1) → Sound.Rests own mask strays m.sound) :
    Goes (Sound.Remixed own mask strays) (m.heardIn e) (n.heardIn e) (m.after e) (n.after e) := by
  have hcovert := Sound.covert_remixed own mask strays
  cases e with
  | reset kind =>
    refine .silent ?_
    by_cases hcartridge : m.hasCartridge = true
    · exact h.reset kind (fun hs => hcovert.reset hs) hcartridge
    · simp only [Machine.after, Machine.reset, h.hasCartridge, hcartridge, Bool.not_false, if_true]
      exact h
  | frame draw => exact h.runFrame hcovert draw
  | execute slice => exact h.execute hcovert slice
  | read address =>
    have hread := (h.read hcovert address).2
    simp only [heardIn]
    split
    · exact h.reads fun _ => hread
    · exact .silent hread
  | write address value => exact .silent (h.write hcovert address value)
  | samples count =>
    refine .silent ?_
    cases count with
    | zero => exact h
    | succ count => exact h.samples (hrests count rfl) (count + 1)
  | restore bytes => exact absurd he Bool.false_ne_true

/-- Whatever happens, as long as no sound is made while a switched voice counts that is no stray. -/
theorem history (h : Beside (Sound.Remixed own mask strays) m n) {events : List Event}
    (hnative : ∀ e ∈ events, e.isNative = true)
    (hrests : ∀ past count future, events = past ++ .samples (count + 1) :: future →
      Sound.Rests own mask strays (past.foldl Machine.after m).sound) :
    Goes (Sound.Remixed own mask strays) (m.heardOf events) (n.heardOf events) (events.foldl Machine.after m)
      (events.foldl Machine.after n) := by
  induction events generalizing m n with
  | nil => exact .silent h
  | cons e events ih =>
    have hafter := h.after (hnative e List.mem_cons_self) fun count he =>
      hrests [] count events (by rw [he, List.nil_append])
    refine hafter.append fun hnext => ?_
    refine ih hnext (fun f hf => hnative f (List.mem_cons_of_mem e hf)) fun past count future hevents => ?_
    exact hrests (e :: past) count future (by rw [hevents, List.cons_append])

end Beside

/-- The console under another mix mask. -/
def remixed (m : Machine) (mask : UInt8) : Machine := { m with sound.mixMask := mask }

/-- All that a mix mask can show is the end of notes, in the status. Let some of the pulses, the triangle and the
noise be strays, and let every other voice that the mask switches have nothing to count whenever sound is made. As
long as the status is the same wherever it is read, processor, memories and picture unit are the same under both
masks, and so is all that is read, but for the strays' bits of the status. It is always the same without strays, and
where nobody reads it. -/
theorem muting_unseen {m : Machine} {mask : UInt8} {strays : List Voice} {events : List Event}
    (hnative : ∀ e ∈ events, e.isNative = true)
    (hrests : ∀ past count future, events = past ++ .samples (count + 1) :: future →
      Sound.Rests m.sound.mixMask mask strays (past.foldl after m).sound)
    (hheard : strays = [] ∨ m.heardOf events = [] ∨ (m.remixed mask).heardOf events = m.heardOf events) :
    let k := events.foldl after m
    let k' := events.foldl after (m.remixed mask)
    k'.cpu = k.cpu ∧ k'.cart = k.cart ∧ k'.ppu = k.ppu ∧
      (∀ address, address ≠ 0x4015 → (k'.read address).1 = (k.read address).1) ∧
      (∀ voice, voice ∉ strays → (k'.read 0x4015).1 &&& voice.bit = (k.read 0x4015).1 &&& voice.bit) ∧
      (k'.read 0x4015).1 &&& 0xF0 = (k.read 0x4015).1 &&& 0xF0 := by
  have hvoices : ∀ voice, voice ∉ strays → voice.Alike m.sound (m.remixed mask).sound := by
    rintro (_ | _ | _ | _) - <;> rfl
  have hbeside : Beside (Sound.Remixed m.sound.mixMask mask strays) m (m.remixed mask) :=
    .intro (m := m) m.log m.frames (.refl m.timer) ⟨rfl, rfl, hvoices, rfl, rfl, rfl⟩
  have hgoes := hbeside.history hnative hrests
  have hsame : (m.remixed mask).heardOf events = m.heardOf events := by
    obtain rfl | hnone | hheard := hheard
    · exact hgoes.candid (Sound.candid_remixed m.sound.mixMask mask)
    · rw [hnone, hgoes.quiet hnone]
    · exact hheard
  have hrun := hgoes.beside hsame
  intro k k'
  obtain ⟨hbits, hhigh⟩ := hrun.related.status
  have hflag : k'.timer.read.1 = k.timer.read.1 := hrun.timer.read.1
  have hmasked (a b c : UInt8) : (a ||| b) &&& c = (a &&& c) ||| (b &&& c) := Ppu.or_and_mask a b c
  refine ⟨hrun.cpu, hrun.cart, hrun.ppu, fun address hother => ?_, fun voice hstray => ?_, ?_⟩
  · exact (hrun.read (Sound.covert_remixed m.sound.mixMask mask strays) address).1 hother
  · rw [Beside.read_status, Beside.read_status, hflag, hmasked, hmasked, hbits voice hstray]
  · rw [Beside.read_status, Beside.read_status, hflag, hmasked, hmasked, hhigh]

end Machine

/-! ### A note under two masks -/

namespace Sound

variable {s : Sound} {voice : Voice} {left : Option Nat}

/-- With no sample to play the processor is left alone. -/
theorem render_idle (h : s.sample.remaining = 0) (cpu : Cpu) (cart : Cartridge) (count : Nat) :
    (s.render cpu cart count).2.1.sample.remaining = 0 ∧ (s.render cpu cart count).2.2 = cpu := by
  have hplayed (k : Sound) (hk : k.sample.remaining = 0) :
      (k.played {} cpu cart).1.remaining = 0 ∧ (k.played {} cpu cart).2 = cpu := by
    unfold played
    split
    · rw [SampleVoice.sample_still hk]
      exact ⟨hk, rfl⟩
    · exact ⟨hk, rfl⟩
  induction count with
  | zero => exact ⟨h, rfl⟩
  | succ count ih =>
    obtain ⟨hidle, hcpu⟩ := ih
    rw [render_succ, hcpu]
    generalize (s.render cpu cart count).2.1 = k at hidle ⊢
    obtain ⟨previous, hnext⟩ := k.next_mix {} cpu cart
    rw [hnext]
    exact hplayed k hidle

/-- A mixed voice plays on. -/
theorem fades_render (h : voice.Fades s left) (hmixed : s.mixes voice.bit = true) (cpu : Cpu) (cart : Cartridge)
    (count : Nat) : (s.render cpu cart count).2.1.mixes voice.bit = true ∧
      voice.Fades (s.render cpu cart count).2.1 (left.map (· - count)) := by
  induction count with
  | zero =>
    rw [show left.map (· - 0) = left by cases left <;> rfl]
    exact ⟨hmixed, h⟩
  | succ count ih =>
    obtain ⟨hstill, hfades⟩ := ih
    rw [render_succ]
    generalize (s.render cpu cart count).2.1 = k at hstill hfades ⊢
    generalize (s.render cpu cart count).2.2 = cpu'
    have hnext := fades_next hfades hstill {} cpu' cart
    rw [Option.map_map] at hnext
    rw [mixes, (k.next_voices {} cpu' cart).1]
    exact ⟨hstill, hnext⟩

/-- An unmixed voice stands still. -/
theorem alike_render (hmuted : s.mixes voice.bit = false) (cpu : Cpu) (cart : Cartridge) (count : Nat) :
    (s.render cpu cart count).2.1.mixes voice.bit = false ∧ voice.Alike s (s.render cpu cart count).2.1 := by
  induction count with
  | zero => exact ⟨hmuted, by cases voice <;> rfl⟩
  | succ count ih =>
    obtain ⟨hstill, halike⟩ := ih
    rw [render_succ]
    generalize (s.render cpu cart count).2.1 = k at hstill halike ⊢
    generalize (s.render cpu cart count).2.2 = cpu'
    obtain ⟨previous, hnext⟩ := k.next_mix {} cpu' cart
    have hmix := k.outline_mix {} cpu' cart
    rw [mixes, (k.next_voices {} cpu' cart).1]
    refine ⟨hstill, ?_⟩
    rw [hnext]
    cases voice with
    | pulse1 =>
      have hvoice := congrArg (·.pulse1) hmix
      rw [show k.mixes 0x01 = false from hstill] at hvoice
      exact hvoice.trans halike
    | pulse2 =>
      have hvoice := congrArg (·.pulse2) hmix
      rw [show k.mixes 0x02 = false from hstill] at hvoice
      exact hvoice.trans halike
    | triangle =>
      have hvoice := congrArg (·.triangle) hmix
      rw [show k.mixes 0x04 = false from hstill] at hvoice
      exact hvoice.trans halike
    | noise =>
      have hvoice := congrArg (·.noise) hmix
      rw [show k.mixes 0x08 = false from hstill] at hvoice
      exact hvoice.trans halike

end Sound

namespace Machine

/-- A note of one frame on the first pulse. -/
def plucked (m : Machine) : Machine := ((m.write 0x4015 0x01).write 0x4000 0x00).write 0x4003 0x18

/-- The note is on, as the status shows, unless the frame timer has gone off. -/
theorem pulse_shown {m : Machine} (h : m.timer.raised = false) :
    ((m.read 0x4015).1 &&& 0x01 != 0) = Voice.pulse1.sounding m.sound := by
  rw [Beside.read_status, FrameTimer.read, h]
  simp only [Bool.false_eq_true, if_false, UInt8.or_zero]
  exact m.sound.status_voice .pulse1

theorem sound_plucked (m : Machine) :
    m.plucked.sound = ((m.sound.write 0x4015 0x01).write 0x4000 0x00).write 0x4003 0x18 := rfl

theorem mixMask_plucked (m : Machine) : m.plucked.sound.mixMask = m.sound.mixMask := by
  rw [sound_plucked, Sound.mixMask_write, Sound.mixMask_write, Sound.mixMask_write]

/-- The sample voice is off beside the note. -/
theorem plucked_idle (m : Machine) : m.plucked.sound.sample.remaining = 0 := rfl

theorem paused_plucked (m : Machine) : m.plucked.paused = m.paused := rfl

theorem Waits.plucked {m : Machine} (h : Waits m) : Waits m.plucked := h.of_situation rfl (Int.le_refl _)

theorem Waits.remixed {m : Machine} (h : Waits m) (mask : UInt8) : Waits (m.remixed mask) :=
  h.of_situation rfl (Int.le_refl _)

/-- Under a mask without the first pulse, the voice with the note is the only one that may count. -/
theorem rests_after_read {m : Machine} (hmask : m.sound.mixMask = 0x3F) :
    Sound.Rests m.sound.mixMask 0x3E [.pulse1] ([Event.read 0x4015].foldl after m).sound := by
  rw [hmask]
  refine ⟨fun voice hstray hswitched => ?_, fun hswitched => absurd hswitched (not_not_intro (by decide))⟩
  cases voice with
  | pulse1 => exact absurd (List.mem_singleton.mpr rfl) hstray
  | pulse2 | triangle | noise => exact absurd hswitched (not_not_intro (by decide))

theorem statusReads_waits {ms : List Machine} (h : ∀ k ∈ ms, Waits k) : statusReads ms = [] := by
  rw [statusReads, List.filterMap_eq_nil_iff]
  intro k hk
  rw [probe, readsSound, (h k hk).jumps]
  rfl

theorem Waits.samples {m : Machine} (h : Waits m) (hidle : m.sound.sample.remaining = 0) (count : Nat) :
    Waits (m.samples count).2 := by
  have hcpu := (Sound.render_idle hidle m.cpu m.cart count).2
  refine h.of_situation ?_ ?_ <;> simp only [Machine.samples, hcpu]
  · rfl
  · exact Int.le_refl _

/-- A program that waits hears nothing of the note in any slice or frame. -/
theorem Waits.heard {m : Machine} (h : Waits m) (slice : Int) (draw : Bool) :
    m.heardIn (.execute slice) = [] ∧ m.heardIn (.frame draw) = [] := by
  refine ⟨statusReads_waits (h.sliceTrace slice), ?_⟩
  show statusReads (m.playedTrace draw) = []
  unfold playedTrace
  split
  · rfl
  · exact statusReads_waits (h.runLines draw false _).1

/-- The status is read, a note is played, and a program goes on for some time. -/
def recital (count : Nat) : List Event := [.read 0x4015, .samples count, .frame true, .execute 20]

/-- All that a waiting program hears in it is what is read at the start. -/
theorem Waits.heardOf {m : Machine} (h : Waits m) (hgoes : m.paused = false)
    (hidle : m.sound.sample.remaining = 0) (count : Nat) :
    m.heardOf (recital count) = [(m.read 0x4015).1] := by
  have hread : (m.read 0x4015).2.situation = m.situation ∧ (m.read 0x4015).2.cpu = m.cpu ∧
      (m.read 0x4015).2.sound = m.sound := ⟨rfl, rfl, rfl⟩
  have hfirst : m.heardIn (.read 0x4015) = [(m.read 0x4015).1] := by rw [heardIn, if_pos rfl]
  simp only [recital, Machine.heardOf, hfirst, Machine.after]
  generalize (m.read 0x4015).2 = k at hread
  obtain ⟨hsituation, hcpu, hsound⟩ := hread
  have hk : Waits k := h.of_situation hsituation (by rw [hcpu])
  have hplayed := hk.samples (by rw [hsound]; exact hidle) count
  have hpaused : (k.samples count).2.paused = false := (congrArg (·.paused) hsituation).trans hgoes
  have hsilent : k.heardIn (.samples count) = [] := rfl
  have hframe := (hplayed.runFrame hpaused true).1
  rw [hsilent, (hplayed.heard 0 true).2, (hframe.heard 20 true).1]
  simp only [List.append_nil]

/-- And it hears the same under any mask. -/
theorem Waits.heardOf_remixed {m : Machine} (h : Waits m) (hgoes : m.paused = false)
    (hidle : m.sound.sample.remaining = 0) (mask : UInt8) (count : Nat) :
    (m.remixed mask).heardOf (recital count) = m.heardOf (recital count) := by
  rw [h.heardOf hgoes hidle, (h.remixed mask).heardOf hgoes hidle]
  rfl

theorem native_recital (count : Nat) : ∀ e ∈ recital count, e.isNative = true := by
  intro e he
  simp only [recital, List.mem_cons, List.not_mem_nil, or_false] at he
  obtain rfl | rfl | rfl | rfl := he <;> rfl

/-- Sound is made in it after a read alone. -/
theorem recital_past {past future : List Event} {count n : Nat}
    (h : recital count = past ++ .samples n :: future) : past = [.read 0x4015] := by
  obtain _ | ⟨e, _ | ⟨e', past⟩⟩ := past
  · exact absurd (List.cons.inj h).1 Event.noConfusion
  · exact congrArg (fun e => [e]) (List.cons.inj h).1.symm
  · have hlate : Event.samples n ∈ [Event.frame true, .execute 20] := by
      have htail : [Event.frame true, .execute 20] = past ++ .samples n :: future :=
        (List.cons.inj (List.cons.inj h).2).2
      rw [htail]
      exact List.mem_append_right past List.mem_cons_self
    rcases List.mem_cons.mp hlate with heq | hlast
    · exact absurd heq Event.noConfusion
    · exact absurd (List.mem_singleton.mp hlast) Event.noConfusion

/-- A program waits while the note is played, with its voice and without; the status has been read before. -/
theorem muting_unseen_waiting :
    let m := waiting.plucked
    let events := recital 735
    let k := events.foldl after m
    let k' := events.foldl after (m.remixed 0x3E)
    k'.cpu = k.cpu ∧ k'.cart = k.cart ∧ k'.ppu = k.ppu ∧
      (∀ address, address ≠ 0x4015 → (k'.read address).1 = (k.read address).1) ∧
      (∀ voice, voice ∉ [Voice.pulse1] → (k'.read 0x4015).1 &&& voice.bit = (k.read 0x4015).1 &&& voice.bit) ∧
      (k'.read 0x4015).1 &&& 0xF0 = (k.read 0x4015).1 &&& 0xF0 := by
  have hmask : waiting.sound.mixMask = 0x3F := by
    rw [waiting_eq]
    decide +kernel
  have hown : waiting.plucked.sound.mixMask = 0x3F := (mixMask_plucked waiting).trans hmask
  have hidle := plucked_idle waiting
  have hwaits := waits_waiting.plucked
  have hpaused : waiting.plucked.paused = false := (paused_plucked waiting).trans waiting_shows.1
  have hheard := hwaits.heardOf_remixed hpaused hidle 0x3E 735
  refine muting_unseen (native_recital 735) (fun past count future hevents => ?_) (.inr (.inr hheard))
  rw [recital_past hevents]
  exact rests_after_read hown

/-- The note of a mixed pulse is over when its length has run out. -/
theorem heard_note {m : Machine} {left : Nat} (hraised : m.timer.raised = false)
    (hnote : Voice.pulse1.Fades m.sound (some left)) (hmixed : m.sound.mixes Voice.pulse1.bit = true) {count : Nat}
    (hover : left ≤ count) : (((m.after (.samples count)).read 0x4015).1 &&& 0x01 != 0) = false := by
  have hfades := (Sound.fades_render hnote hmixed m.cpu m.cart count).2
  have hshown : (((m.after (.samples count)).read 0x4015).1 &&& 0x01 != 0) =
      Voice.pulse1.sounding (m.sound.render m.cpu m.cart count).2.1 := pulse_shown hraised
  rw [Option.map_some, Nat.sub_eq_zero_of_le hover] at hfades
  rw [hshown, Bool.eq_false_iff, Ne, Sound.sounding_iff hfades]
  exact fun hleft => hleft rfl

/-- The note of an unmixed pulse stands still. -/
theorem muted_note {m : Machine} (hraised : m.timer.raised = false)
    (hmuted : m.sound.mixes Voice.pulse1.bit = false) (count : Nat) :
    (((m.after (.samples count)).read 0x4015).1 &&& 0x01 != 0) = Voice.pulse1.sounding m.sound := by
  have halike := (Sound.alike_render hmuted m.cpu m.cart count).2
  have hshown : (((m.after (.samples count)).read 0x4015).1 &&& 0x01 != 0) =
      Voice.pulse1.sounding (m.sound.render m.cpu m.cart count).2.1 := pulse_shown hraised
  exact hshown.trans halike.sounding

/-- The note is heard to its end where the first pulse is mixed, and goes on where it is not. -/
theorem plucked_notes {m : Machine} {left : Nat} (hraised : m.timer.raised = false) (hfits : m.sound.timing.Fits)
    (hmask : m.sound.mixMask = 0x3F) (hlength : m.sound.timing.lengthOf 0x18 = (left : Nat)) (hsome : left ≠ 0) :
    (((m.plucked.after (.samples left)).read 0x4015).1 &&& 0x01 != 0) = false ∧
      ((((m.plucked.remixed 0x3E).after (.samples left)).read 0x4015).1 &&& 0x01 != 0) = true := by
  have hon : ((0x01 : UInt8) &&& Voice.pulse1.bit != 0) = true := by decide
  have hplain : (0x00 : UInt8) &&& Voice.pulse1.holdFlag = 0 := by decide
  have hstart := m.sound.fades_start hfits .pulse1 hon hplain 0x18
  rw [hlength] at hstart
  have hnote : Voice.pulse1.Fades m.plucked.sound (some (0 + left)) := hstart
  have hmixed : m.plucked.sound.mixes Voice.pulse1.bit = true := by
    rw [Sound.mixes, mixMask_plucked, hmask]
    decide
  have hsilent : m.plucked.timer.raised = false := hraised
  have hunmixed : (m.plucked.remixed 0x3E).sound.mixes Voice.pulse1.bit = false := by
    show ((0x3E : UInt8) &&& 0x01 != 0) = false
    decide
  refine ⟨heard_note hsilent hnote hmixed (Nat.le_of_eq (Nat.zero_add left)), ?_⟩
  have hmuted := muted_note (m := m.plucked.remixed 0x3E) hsilent hunmixed left
  have hsounds : Voice.pulse1.sounding m.plucked.sound = true := by
    rw [Sound.sounding_iff hnote, Nat.zero_add]
    exact fun hleft => hsome (Option.some.inj hleft)
  exact hmuted.trans hsounds

/-- A pulse ends its note where it is heard, and goes on where it is muted. -/
theorem muting_stops_notes :
    let m : Machine := plucked {}
    (((m.after (.samples 735)).read 0x4015).1 &&& 0x01 != 0) = false ∧
      ((((m.remixed 0x3E).after (.samples 735)).read 0x4015).1 &&& 0x01 != 0) = true := by
  have hvalid : Settings.validate {} = .ok {} := by decide
  obtain ⟨hfits, hframe⟩ := Sound.fits_of_valid (Settings.valid_of_validate hvalid) (by decide)
  have htiming : ({} : Machine).sound.timing = Timing.ofRates 44100 60 := rfl
  refine plucked_notes rfl (by rw [htiming]; exact hfits) rfl ?_ (by decide)
  rw [htiming, Timing.lengthOf, hfits.noteLength_eq, hframe]
  decide

end Machine

end Famicom
