import Famicom.Proofs.Processor
import Mathlib.Tactic.IntervalCases

/-!
What the sound unit leaves alone. Writing its registers and playing samples keep the chip that is
plugged in and the seven bits of the sample voice's level. Playing reads memory for the sample voice,
which charges the processor and may interrupt it; the windows stay.

    write    chip
    render   chip, windows, a level below 80
-/

namespace Famicom

/-! ### Loops -/

section
variable {α : Type} {l : Loop α}

/-- What every step keeps, a loop keeps that ends; where one does not end, its start stands in. -/
theorem loop_keeps {P : α → Prop} {a : α} (h : P a) (hstep : ∀ a, P a → P (l.step a)) : P ((l.run a).getD a) := by
  have hended : ∀ a b, l.run a = some b → P a → P b := by
    refine Loop.run.partial_correctness l (fun a b => P a → P b) fun rest ih a b hloop ha => ?_
    split at hloop
    · exact ih _ _ hloop (hstep a ha)
    · rwa [← Option.some.inj hloop]
  cases hloop : l.run a with
  | none => exact h
  | some b => exact hended a b hloop h

end

/-! ### What writing keeps -/

theorem Expansion.chip_write (e : Expansion) (address : UInt16) (value : UInt8) :
    (e.write address value).chip = e.chip := by
  cases e <;> rfl

theorem Expansion.chip_sample (e : Expansion) (pace : ChipPaces) : (e.sample pace).2.chip = e.chip := by
  cases e <;> rfl

theorem SampleVoice.dac_setEnabled (v : SampleVoice) (enabled : Bool) :
    (v.setEnabled enabled).dac = v.dac := by
  simp only [setEnabled, restart]
  split_ifs <;> rfl

theorem SampleVoice.dac_delta (v : SampleVoice) (up : Bool) (h : v.dac < 0x80) :
    (v.delta up).dac < 0x80 := by
  unfold delta
  simp only [UInt8.lt_iff_toNat_lt] at h
  split_ifs with hup hroom hroom
  · simp only [UInt8.lt_iff_toNat_lt] at hroom
    simp only [UInt8.lt_iff_toNat_lt, UInt8.toNat_add, UInt8.reduceToNat] at hroom ⊢
    omega
  · exact UInt8.lt_iff_toNat_lt.mpr h
  · simp only [gt_iff_lt, UInt8.lt_iff_toNat_lt, UInt8.reduceToNat] at hroom h
    simp only [UInt8.lt_iff_toNat_lt, UInt8.toNat_sub, UInt8.reduceToNat]
    omega
  · exact UInt8.lt_iff_toNat_lt.mpr h

/-- Playing keeps the level within seven bits. -/
theorem SampleVoice.dac_play (v : SampleVoice) (cpu : Cpu) (cart : Cartridge) (h : v.dac < 0x80) :
    (v.play cpu cart).1.dac < 0x80 := by
  have hfetch : (if v.remaining % 8 = 0 then v.fetch cpu cart else (v, cpu)).1.dac = v.dac := by
    split <;> rfl
  unfold play
  generalize (if v.remaining % 8 = 0 then v.fetch cpu cart else (v, cpu)) = r at hfetch ⊢
  obtain ⟨v', cpu'⟩ := r
  rw [← hfetch] at h
  simp only
  split_ifs
  · exact dac_delta _ _ h
  · exact h
  · exact h
  · exact dac_delta _ _ h

theorem SampleVoice.dac_playMany (v : SampleVoice) (cpu : Cpu) (cart : Cartridge) (n : Nat)
    (h : v.dac < 0x80) : (v.playMany cpu cart n).1.dac < 0x80 := by
  induction n generalizing v cpu with
  | zero => exact h
  | succ n ih => exact ih (v.play cpu cart).1 (v.play cpu cart).2 (v.dac_play cpu cart h)

theorem SampleVoice.dac_sample (v : SampleVoice) (pace : Pace) (cycles : Float32) (cpu : Cpu)
    (cart : Cartridge) (h : v.dac < 0x80) : (v.sample pace cycles cpu cart).2.1.dac < 0x80 := by
  simp only [sample]
  split
  · exact h
  · generalize pace _ _ _ _ = r
    exact dac_playMany { v with level := fade v.level, oscillator := r.2 } cpu cart r.1 h

/-! ### What playing does to the processor -/

/-- The relation holds across a stolen cycle and across an interrupt request, which is all that the sample
voice asks of a processor. -/
structure Cpu.Attends (cart : Cartridge) (R : Cpu → Cpu → Prop) : Prop where
  refl : ∀ c, R c c
  trans : ∀ {c d e}, R c d → R d e → R c e
  charge : ∀ c : Cpu, R c (c.charge 1)
  irq : ∀ c : Cpu, R c (c.irq cart)

namespace Cpu.Attends

variable {cart : Cartridge} {R : Cpu → Cpu → Prop}

theorem play (h : Attends cart R) (v : SampleVoice) (cpu : Cpu) : R cpu (v.play cpu cart).2 := by
  have hfetch : R cpu (if v.remaining % 8 = 0 then v.fetch cpu cart else (v, cpu)).2 := by
    split
    · exact h.charge cpu
    · exact h.refl cpu
  unfold SampleVoice.play
  generalize (if v.remaining % 8 = 0 then v.fetch cpu cart else (v, cpu)) = r at hfetch ⊢
  simp only
  split_ifs
  · exact hfetch
  · exact h.trans hfetch (h.irq r.2)
  · exact hfetch
  · exact hfetch

theorem playMany (h : Attends cart R) (v : SampleVoice) (cpu : Cpu) (n : Nat) :
    R cpu (v.playMany cpu cart n).2 := by
  induction n generalizing v cpu with
  | zero => exact h.refl cpu
  | succ n ih => exact h.trans (h.play v cpu) (ih (v.play cpu cart).1 (v.play cpu cart).2)

theorem sample (h : Attends cart R) (v : SampleVoice) (pace : Pace) (cycles : Float32) (cpu : Cpu) :
    R cpu (v.sample pace cycles cpu cart).2.2 := by
  simp only [SampleVoice.sample]
  split
  · exact h.refl cpu
  · generalize pace _ _ _ _ = r
    exact h.playMany { v with level := fade v.level, oscillator := r.2 } cpu r.1

theorem mix (h : Attends cart R) (s : Sound) (paces : Sound.Paces) (cpu : Cpu) :
    R cpu (s.mix paces cpu cart).2.2 := by
  simp only [Sound.mix]
  split_ifs
  · exact h.sample s.sample paces.sample s.timing.cycleRate cpu
  · exact h.refl cpu

theorem next (h : Attends cart R) (s : Sound) (paces : Sound.Paces) (cpu : Cpu) :
    R cpu (s.next paces cpu cart).2.2 :=
  h.mix s paces cpu

theorem render (h : Attends cart R) (s : Sound) (cpu : Cpu) (count : Nat) :
    R cpu (s.render cpu cart count).2.2 := by
  simp only [Sound.render]
  generalize ([] : List Int) = acc
  generalize List.range count = ks
  induction ks generalizing acc s cpu with
  | nil => exact h.refl cpu
  | cons k ks ih =>
    have hnext := h.next s {} cpu
    rw [List.foldl_cons]
    generalize s.next {} cpu cart = r at hnext ⊢
    exact h.trans hnext (ih _ _ _)

end Cpu.Attends

theorem Cpu.attends_pages (cart : Cartridge) : Attends cart fun c c' => c'.pages = c.pages where
  refl := fun _ => rfl
  trans := fun h h' => h'.trans h
  charge := fun _ => rfl
  irq := fun c => c.pages_irq cart

/-- What playing keeps: the chip, the seven bits of the sample voice's level and the windows. -/
structure Sound.Keeps (s : Sound) (cpu : Cpu) (s' : Sound) (cpu' : Cpu) : Prop where
  chip : s'.chip = s.chip
  level : s.sample.dac < 0x80 → s'.sample.dac < 0x80
  pages : cpu'.pages = cpu.pages

theorem Sound.Keeps.refl (s : Sound) (cpu : Cpu) : Keeps s cpu s cpu := ⟨rfl, fun h => h, rfl⟩

theorem Sound.Keeps.trans {s s' s'' : Sound} {cpu cpu' cpu'' : Cpu} (h : Keeps s cpu s' cpu')
    (h' : Keeps s' cpu' s'' cpu'') : Keeps s cpu s'' cpu'' :=
  ⟨h'.chip.trans h.chip, fun hl => h'.level (h.level hl), h'.pages.trans h.pages⟩

/-- A voice that is not mixed adds nothing and stays as it is. -/
theorem Sound.mixed_keeps {α : Type} {P : Int × α → Prop} {r : Int × α} {x : α} (mixed : Bool) (hr : P r)
    (hx : P (0, x)) : P (if mixed then r else (0, x)) := by
  cases mixed with
  | false => exact hx
  | true => exact hr

theorem Sound.mix_keeps (s : Sound) (paces : Paces) (cpu : Cpu) (cart : Cartridge) :
    Keeps s cpu (s.mix paces cpu cart).2.1 (s.mix paces cpu cart).2.2 := by
  have hdac := s.sample.dac_sample paces.sample s.timing.cycleRate cpu cart
  refine ⟨?_, ?_, (Cpu.attends_pages cart).mix s paces cpu⟩
  all_goals unfold mix
  · simp only [chip]
    split
    · rename_i e he
      rw [he]
      split_ifs <;> simp [e.chip_sample]
    · rename_i he
      rw [he]
  · simp only
    split_ifs
    · exact hdac
    · exact fun h => h

/-- After a mix there is the same chip, with or without a sample of its own. -/
theorem Sound.chip_mix (s : Sound) (paces : Paces) (cpu : Cpu) (cart : Cartridge) {e : Expansion}
    (he : (s.mix paces cpu cart).2.1.expansion = some e) :
    s.expansion = some e ∨ ∃ e', s.expansion = some e' ∧ (e'.sample paces.chip).2 = e := by
  unfold mix at he
  dsimp only at he
  cases hchip : s.expansion with
  | none =>
    rw [hchip] at he
    cases he
  | some e' =>
    rw [hchip] at he
    cases hmixed : s.mixes 0x20 with
    | false =>
      rw [hmixed] at he
      exact Or.inl he
    | true =>
      rw [hmixed] at he
      exact Or.inr ⟨e', rfl, Option.some.inj he⟩

theorem Sound.next_keeps (s : Sound) (paces : Paces) (cpu : Cpu) (cart : Cartridge) :
    Keeps s cpu (s.next paces cpu cart).2.1 (s.next paces cpu cart).2.2 := by
  have h := s.mix_keeps paces cpu cart
  simp only [next, smooth]
  split <;> exact ⟨h.chip, h.level, h.pages⟩

theorem Sound.render_keeps (s : Sound) (cpu : Cpu) (cart : Cartridge) (count : Nat) :
    Keeps s cpu (s.render cpu cart count).2.1 (s.render cpu cart count).2.2 := by
  simp only [render]
  generalize ([] : List Int) = acc
  generalize List.range count = ks
  induction ks generalizing acc s cpu with
  | nil => exact Keeps.refl s cpu
  | cons k ks ih =>
    have h := s.next_keeps {} cpu cart
    rw [List.foldl_cons]
    generalize s.next {} cpu cart = r at h ⊢
    exact h.trans (ih _ _ _)

/-- No register unplugs the chip. -/
theorem Sound.chip_write (s : Sound) (address : UInt16) (value : UInt8) :
    (s.write address value).chip = s.chip := by
  unfold Sound.write
  split <;> rfl

/-- The level of the sample voice has seven bits. -/
theorem Sound.dac_write (s : Sound) (address : UInt16) (value : UInt8) :
    (s.write address value).sample.dac = s.sample.dac ∨ (s.write address value).sample.dac < 0x80 := by
  unfold Sound.write
  split
  case h_16 =>
    right
    show value &&& 0x7F < 0x80
    rw [UInt8.lt_iff_toNat_lt, UInt8.toNat_and]
    exact Nat.lt_of_le_of_lt Nat.and_le_right (by decide)
  case h_19 => exact Or.inl (s.sample.dac_setEnabled _)
  all_goals exact Or.inl rfl

/-! ### All registers at once -/

theorem Sound.chip_writeAll (s : Sound) (value : Nat → UInt8) : (s.writeAll value).chip = s.chip := by
  have hfold : ∀ (ns : List Nat) (s : Sound),
      (ns.foldl (fun s n => s.write (0x4000 + UInt16.ofNat n) (value n)) s).chip = s.chip := by
    intro ns
    induction ns with
    | nil => exact fun s => rfl
    | cons n ns ih => exact fun s => (ih _).trans (s.chip_write _ _)
  unfold writeAll
  simp only [chip_write, hfold]

theorem Sound.dac_writeAll (s : Sound) (value : Nat → UInt8) :
    (s.writeAll value).sample.dac = value 0x11 &&& 0x7F := by
  have hswitches : ∀ s : Sound, (s.write 0x4015 (value 0x15)).sample.dac = s.sample.dac := fun s =>
    s.sample.dac_setEnabled _
  rw [writeAll, hswitches]
  rfl

theorem Sound.chip_reset (s : Sound) : s.reset.chip = s.chip := by
  have hchip : ∀ e : Expansion, (e.reset (s.writeAll fun _ => 0).timing).chip = e.chip := fun e => by
    cases e <;> rfl
  have h := s.chip_writeAll fun _ => 0
  unfold reset
  simp only [chip, Option.map_map, Function.comp_def, hchip] at h ⊢
  exact h

theorem Sound.dac_reset (s : Sound) : s.reset.sample.dac = 0 := s.dac_writeAll fun _ => 0

/-- The level that writing all registers leaves has seven bits. -/
theorem Sound.dac_writeAll_lt (s : Sound) (value : Nat → UInt8) :
    (s.writeAll value).sample.dac < 0x80 := by
  rw [s.dac_writeAll, UInt8.lt_iff_toNat_lt, UInt8.toNat_and]
  exact Nat.lt_of_le_of_lt Nat.and_le_right (by decide)

theorem Sound.chip_setChip (s : Sound) (chip : Option SoundChip) : (s.setChip chip).chip = chip := by
  have hchip : ∀ c, (Expansion.ofChip c s.timing).chip = c := fun c => by cases c <;> rfl
  simp [setChip, Sound.chip, Option.map_map, Function.comp_def, hchip]

/-! ### The register image -/

theorem Noise.writeMode_keeps (w : Noise) (value : UInt8) :
    (w.writeMode value).control = w.control ∧ (w.writeMode value).mode = value ∧
      (w.writeMode value).lengthCode = w.lengthCode := by
  unfold writeMode
  split
  · generalize shortNoise w.register = r
    exact ⟨rfl, rfl, rfl⟩
  · exact ⟨rfl, rfl, rfl⟩

/-- The mode latches the period, and leaves the note and its envelope alone. -/
theorem Noise.writeMode_latches (w : Noise) (value : UInt8) :
    (w.writeMode value).period = periodOf noisePeriods value ∧ (w.writeMode value).length = w.length ∧
      (w.writeMode value).envelope = w.envelope := by
  unfold writeMode
  split
  · generalize shortNoise w.register = r
    exact ⟨rfl, rfl, rfl⟩
  · exact ⟨rfl, rfl, rfl⟩

theorem Triangle.setEnabled_keeps (w : Triangle) (enabled : Bool) :
    (w.setEnabled enabled).linear = w.linear ∧ (w.setEnabled enabled).timerLow = w.timerLow ∧
      (w.setEnabled enabled).timerHigh = w.timerHigh := by
  unfold setEnabled
  split <;> exact ⟨rfl, rfl, rfl⟩

theorem SampleVoice.setEnabled_keeps (v : SampleVoice) (enabled : Bool) :
    (v.setEnabled enabled).control = v.control ∧ (v.setEnabled enabled).dac = v.dac ∧
      (v.setEnabled enabled).addressCode = v.addressCode ∧
      (v.setEnabled enabled).lengthCode = v.lengthCode := by
  simp only [setEnabled]
  split
  · exact ⟨rfl, rfl, rfl, rfl⟩
  · split <;> exact ⟨rfl, rfl, rfl, rfl⟩

/-- What the image holds of a value that was written to the n-th register. -/
def Sound.imageByte (n : Nat) (value : UInt8) : UInt8 :=
  if n = 0x09 ∨ n = 0x0D then 0 else if n = 0x11 then value &&& 0x7F else value

/-- A written register changes its own byte of the image, and no other. -/
theorem Sound.registers_write (s : Sound) {n : Nat} (hn : n < 0x14) (value : UInt8) :
    (s.write (0x4000 + UInt16.ofNat n) value).registers = s.registers.set n (imageByte n value) := by
  obtain ⟨hcontrol, hmode, hlength⟩ := s.noise.writeMode_keeps value
  have hnoise : (s.write 0x400E value).registers = s.registers.set 0x0E value := by
    show ({ s with noise := s.noise.writeMode value } : Sound).registers = _
    simp only [registers, hcontrol, hmode, hlength, List.set]
  interval_cases n
  case «14» => exact hnoise
  all_goals rfl

theorem Sound.registers_writeSwitches (s : Sound) (value : UInt8) :
    (s.writeSwitches value).registers = s.registers.set 0x15 value := by
  obtain ⟨hlinear, hlow, hhigh⟩ := s.triangle.setEnabled_keeps (value &&& 0x04 != 0)
  obtain ⟨hcontrol, hdac, haddress, hlength⟩ := s.sample.setEnabled_keeps (value &&& 0x10 != 0)
  simp only [writeSwitches, registers, Pulse.setEnabled, Noise.setEnabled, hlinear, hlow, hhigh,
    hcontrol, hdac, haddress, hlength, List.set]

/-- Setting the first elements one by one replaces them. -/
theorem foldl_set_range {α : Type} (f : Nat → α) {r : List α} {k : Nat} (hk : k ≤ r.length) :
    (List.range k).foldl (fun r n => r.set n (f n)) r = (List.range k).map f ++ r.drop k := by
  induction k with
  | zero => simp
  | succ k ih =>
    have hlt : k < r.length := by omega
    have hdrop : r.drop k = r[k] :: r.drop (k + 1) := List.drop_eq_getElem_cons hlt
    rw [List.range_succ, List.foldl_append, ih (by omega), hdrop, List.foldl_cons, List.foldl_nil,
      List.set_append_right _ _ (by simp), List.length_map, List.length_range, Nat.sub_self,
      List.set_cons_zero, List.map_append, List.append_assoc]
    rfl

/-- Writing all registers writes the whole image: the gaps are zero, and the level loses its top bit. -/
theorem Sound.registers_writeAll (s : Sound) (value : Nat → UInt8) :
    (s.writeAll value).registers =
      (List.range 0x14).map (fun n => imageByte n (value n)) ++ [0, value 0x15] := by
  have hfold : ∀ (ns : List Nat) (s : Sound), (∀ n ∈ ns, n < 0x14) →
      (ns.foldl (fun s n => s.write (0x4000 + UInt16.ofNat n) (value n)) s).registers =
        ns.foldl (fun r n => r.set n (imageByte n (value n))) s.registers := by
    intro ns
    induction ns with
    | nil => exact fun s _ => rfl
    | cons n ns ih =>
      intro s hns
      rw [List.foldl_cons, List.foldl_cons, ih _ fun k hk => hns k (List.mem_cons_of_mem n hk),
        s.registers_write (hns n List.mem_cons_self)]
  have hswitches : ∀ s : Sound, s.write 0x4015 (value 0x15) = s.writeSwitches (value 0x15) :=
    fun s => rfl
  rw [writeAll, hswitches, registers_writeSwitches, hfold _ _ fun n hn => List.mem_range.mp hn]
  rw [foldl_set_range (fun n => imageByte n (value n))
    (by simp [registers] : 0x14 ≤ s.registers.length),
    List.set_append_right _ _ (by simp)]
  simp [registers]

/-- Writing the registers of a unit anew brings its image back. -/
theorem Sound.registers_restored (s s' : Sound) (h : s'.sample.dac < 0x80) :
    (s.writeAll fun n => s'.registers.getD n 0).registers = s'.registers := by
  have hdac : s'.sample.dac &&& 0x7F = s'.sample.dac := by
    apply UInt8.toNat.inj
    rw [UInt8.toNat_and]
    exact (Nat.and_two_pow_sub_one_eq_mod _ 7).trans (Nat.mod_eq_of_lt (UInt8.lt_iff_toNat_lt.mp h))
  rw [registers_writeAll]
  simp [registers, imageByte, hdac, List.range, List.range.loop]

end Famicom
