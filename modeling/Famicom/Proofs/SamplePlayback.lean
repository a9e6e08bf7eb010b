import Famicom.Proofs.Loudness
import Famicom.Proofs.Native
import Famicom.Proofs.SoundTicks

/-!
What the sample voice asks of the processor: a byte for every eighth bit, and at the end of a sample that does not
start over an interrupt, if the control register asks for one. The bits of a sample are played in whatever groups
the output's samples make of them; what is asked for depends on the number of bits alone.

    bit     0 1 2 3 4 5 6 7   8 …            8 · (16 · L + 1) − 1
    byte    $C000 + 64 · A    the next one                            after $FFFF comes $8000
    end                                      interrupt, or over again

A pace must not take more steps than are wanted, as `Oscillator.advance` never does.
-/

namespace Famicom

/-- The pace takes at most as many steps as are wanted. -/
def Pace.Limited (pace : Pace) : Prop := ∀ o cycles period n, (pace o cycles period (some n)).1 ≤ n

theorem Oscillator.settle_le (period : Float32) (fuel : Nat) (credit : Float32) :
    (settle period fuel credit).1 ≤ fuel := by
  induction fuel generalizing credit with
  | zero => exact Nat.le_refl 0
  | succ fuel ih =>
    unfold settle
    split
    · exact Nat.succ_le_succ (ih _)
    · exact Nat.zero_le _

theorem Oscillator.limited_advance : Pace.Limited advance := fun _ _ _ _ =>
  (settle_le _ _ _).trans (Nat.min_le_left _ _)

namespace SampleVoice

/-! ### Demands -/

/-- Something that playing asks of the processor. -/
inductive Demand where
  | fetch (address : UInt16) (value : UInt8)
  | interrupt
  deriving DecidableEq, Repr

/-- The address of a byte that is asked for; none for an interrupt. -/
def Demand.address? : Demand → Option UInt16
  | .fetch address _ => some address
  | .interrupt => none

/-- A byte costs the processor a cycle, an interrupt is requested. -/
def meet (cart : Cartridge) (cpu : Cpu) : Demand → Cpu
  | .fetch _ _ => cpu.charge 1
  | .interrupt => cpu.irq cart

/-- What one bit asks for, with the byte that the voice gets. -/
def demands (v : SampleVoice) (cpu : Cpu) (cart : Cartridge) : List Demand :=
  (if v.remaining % 8 = 0 then [.fetch v.address (v.fetch cpu cart).1.byte] else []) ++
    if v.remaining = 1 ∧ v.loops = false ∧ v.requests = true then [.interrupt] else []

/-- What several bits ask for. -/
def demandsMany (v : SampleVoice) (cpu : Cpu) (cart : Cartridge) : Nat → List Demand
  | 0 => []
  | n + 1 => v.demands cpu cart ++ demandsMany (v.play cpu cart).1 (v.play cpu cart).2 cart n

/-- The voice before a bit is played: with a new byte if it is the first of eight. -/
theorem exists_fetched (v : SampleVoice) (cpu : Cpu) (cart : Cartridge) :
    ∃ byte cpu', (if v.remaining % 8 = 0 then v.fetch cpu cart else (v, cpu)) =
        ({ v with byte, address := if v.remaining % 8 = 0 then following v.address else v.address }, cpu') ∧
      (if v.remaining % 8 = 0 then [Demand.fetch v.address (v.fetch cpu cart).1.byte] else []).foldl
        (meet cart) cpu = cpu' := by
  split
  · exact ⟨_, _, rfl, rfl⟩
  · exact ⟨v.byte, _, rfl, rfl⟩

theorem play_cpu (v : SampleVoice) (cpu : Cpu) (cart : Cartridge) :
    (v.play cpu cart).2 = (v.demands cpu cart).foldl (meet cart) cpu := by
  obtain ⟨byte, cpu', hfetched, hcpu⟩ := v.exists_fetched cpu cart
  have hloops : ∀ byte address, loops { v with byte, address } = v.loops := fun _ _ => rfl
  have hrequests : ∀ byte address,
      requests { v with byte, address, remaining := 0, enabled := false } = v.requests := fun _ _ => rfl
  unfold play demands
  rw [List.foldl_append, hcpu]
  simp only [hfetched, hloops, hrequests]
  clear hfetched hcpu hloops hrequests
  by_cases hlast : v.remaining = 1
  · cases v.loops <;> cases v.requests <;> simp [hlast, meet]
  · simp [hlast]

theorem playMany_cpu (v : SampleVoice) (cpu : Cpu) (cart : Cartridge) (n : Nat) :
    (v.playMany cpu cart n).2 = (v.demandsMany cpu cart n).foldl (meet cart) cpu := by
  induction n generalizing v cpu with
  | zero => rfl
  | succ n ih =>
    rw [demandsMany, List.foldl_append, ← play_cpu]
    exact ih _ _

/-- A bit that does not end the sample leaves what the windows show. -/
theorem peek_play {v : SampleVoice} (h : v.loops = false → v.remaining ≠ 1) (cpu : Cpu) (cart : Cartridge)
    (address : UInt16) : (v.play cpu cart).2.peek cart address = cpu.peek cart address := by
  have hquiet : ¬ (v.remaining = 1 ∧ v.loops = false ∧ v.requests = true) := fun ⟨hlast, hloops, _⟩ =>
    h hloops hlast
  rw [play_cpu, demands, if_neg hquiet, List.append_nil]
  split <;> rfl

/-! ### The sample as it is written -/

/-- Bytes of the sample. -/
def bytes (v : SampleVoice) : Nat := 16 * v.lengthCode.toNat + 1

/-- Where the k-th byte of a sample lies. -/
def byteAddress (code : UInt8) (k : Nat) : UInt16 :=
  UInt16.ofNat (0x8000 + (0x4000 + 64 * code.toNat + k) % 0x8000)

/-- How many bits of the current round have been played, of `played` in all. -/
def lap (v : SampleVoice) (played : Nat) : Nat := if v.loops then played % v.bits else played

/-- What the bit after `played` others asks for. -/
def due (v : SampleVoice) (played : Nat) : List (Option UInt16) :=
  (if played % 8 = 0 then [some (byteAddress v.addressCode (played / 8 % v.bytes))] else []) ++
    if played + 1 = v.bits ∧ v.loops = false ∧ v.requests = true then [none] else []

theorem bits_eq (v : SampleVoice) : v.bits = v.bytes * 8 := by
  unfold bits bytes
  omega

theorem bits_pos (v : SampleVoice) : 0 < v.bits := Nat.mul_pos (Nat.succ_pos _) (by decide)

theorem start_eq (v : SampleVoice) : v.start = byteAddress v.addressCode 0 := by
  have hcode := v.addressCode.toNat_lt
  apply UInt16.toNat_inj.mp
  simp only [start, byteAddress, UInt16.toNat_add, UInt16.toNat_mul, UInt8.toNat_toUInt16, UInt16.toNat_ofNat',
    UInt16.reduceToNat]
  omega

/-- The program's space repeats: $FFFF is followed by $8000. -/
theorem following_byteAddress (code : UInt8) (k : Nat) :
    following (byteAddress code k) = byteAddress code (k + 1) := by
  have hplace : ∀ k, (byteAddress code k).toNat = 0x8000 + (0x4000 + 64 * code.toNat + k) % 0x8000 := fun k => by
    rw [byteAddress, UInt16.toNat_ofNat']
    omega
  have hlast : byteAddress code k = 0xFFFF ↔ (0x4000 + 64 * code.toNat + k) % 0x8000 = 0x7FFF := by
    rw [← UInt16.toNat_inj, hplace]
    show _ = 0xFFFF ↔ _
    omega
  unfold following
  apply UInt16.toNat_inj.mp
  rw [hplace (k + 1)]
  split
  case isTrue h =>
    have h := hlast.mp h
    show 0x8000 = _
    omega
  case isFalse h =>
    have h := mt hlast.mpr h
    rw [UInt16.toNat_add, hplace]
    show (_ + 1) % 2 ^ 16 = _
    omega

section
variable (v : SampleVoice) (played : Nat)

theorem lap_mod : v.lap played % 8 = played % 8 := by
  unfold lap
  split
  · exact Nat.mod_mod_of_dvd _ (Dvd.intro_left _ v.bits_eq.symm)
  · rfl

theorem lap_div (h : v.lap played < v.bits) : played / 8 % v.bytes = v.lap played / 8 := by
  rw [bits_eq] at h
  unfold lap at h ⊢
  split
  · rw [bits_eq, Nat.mul_comm, Nat.mod_mul_right_div_self]
  · rw [if_neg ‹_›] at h
    exact Nat.mod_eq_of_lt (Nat.div_lt_of_lt_mul (by omega))

theorem lap_succ : v.lap (played + 1) =
    if v.loops = true ∧ v.lap played + 1 = v.bits then 0 else v.lap played + 1 := by
  unfold lap
  cases v.loops with
  | false => rfl
  | true =>
    have hlt := Nat.mod_lt played v.bits_pos
    have hnext : (played + 1) % v.bits = (played % v.bits + 1) % v.bits := (Nat.mod_add_mod _ _ _).symm
    simp only [if_true, true_and]
    split
    case isTrue h => rw [hnext, h, Nat.mod_self]
    case isFalse h => rw [hnext, Nat.mod_eq_of_lt (by omega)]

end

/-! ### Playing -/

/-- The voice after `played` bits of a sample that began as `v₀` says. -/
structure Tracks (v₀ : SampleVoice) (played : Nat) (v : SampleVoice) : Prop where
  control : v.control = v₀.control
  addressCode : v.addressCode = v₀.addressCode
  lengthCode : v.lengthCode = v₀.lengthCode
  within : v₀.lap played ≤ v₀.bits
  remaining : v.remaining = v₀.bits - v₀.lap played
  address : v.address = byteAddress v₀.addressCode ((v₀.lap played + 7) / 8)
  enabled : v.enabled = decide (v₀.lap played < v₀.bits)
  raised : v.raised = true ↔ v₀.lap played = v₀.bits ∧ v₀.requests = true

section
variable {v₀ v : SampleVoice} {played : Nat}

theorem Tracks.loops (h : Tracks v₀ played v) : v.loops = v₀.loops := by
  rw [SampleVoice.loops, h.control, SampleVoice.loops]

theorem Tracks.requests (h : Tracks v₀ played v) : v.requests = v₀.requests := by
  rw [SampleVoice.requests, h.control, SampleVoice.requests]

theorem Tracks.bits (h : Tracks v₀ played v) : v.bits = v₀.bits := by
  rw [SampleVoice.bits, h.lengthCode, SampleVoice.bits]

theorem Tracks.start (h : Tracks v₀ played v) : v.start = byteAddress v₀.addressCode 0 := by
  rw [start_eq, h.addressCode]

/-- Nothing but the level and the oscillator is new. -/
theorem Tracks.congr {v' : SampleVoice} (h : Tracks v₀ played v)
    (heq : v' = { v with dac := v'.dac, level := v'.level, oscillator := v'.oscillator, byte := v'.byte }) :
    Tracks v₀ played v' := by
  rw [heq]
  exact ⟨h.control, h.addressCode, h.lengthCode, h.within, h.remaining, h.address, h.enabled, h.raised⟩

theorem Tracks.delta (h : Tracks v₀ played v) (up : Bool) : Tracks v₀ played (v.delta up) := by
  refine h.congr ?_
  unfold SampleVoice.delta
  split_ifs <;> rfl

/-- Switched on while nothing is being played, the voice is at its first bit. -/
theorem tracks_setEnabled (hidle : v.remaining = 0) : (v.setEnabled true).Tracks 0 (v.setEnabled true) := by
  have hon : v.setEnabled true =
      { v with enabled := true, address := v.start, remaining := v.bits, raised := false } := by
    unfold setEnabled
    dsimp only
    rw [if_neg (by decide), if_pos hidle]
    rfl
  have hlap : (v.setEnabled true).lap 0 = 0 := by
    unfold lap
    rw [Nat.zero_mod, ite_self]
  have hpos := bits_pos (v.setEnabled true)
  refine ⟨rfl, rfl, rfl, ?_, ?_, ?_, ?_, ?_⟩ <;> rw [hlap]
  · exact Nat.zero_le _
  · rw [hon]
    rfl
  · rw [hon]
    exact v.start_eq
  · rw [decide_eq_true hpos, hon]
  · rw [hon]
    exact iff_of_false Bool.false_ne_true fun h => v.bits_pos.ne h.1

theorem Tracks.lap_lt (h : Tracks v₀ played v) (hleft : v.remaining ≠ 0) : v₀.lap played < v₀.bits := by
  have hremaining := h.remaining
  omega

/-- The voice counts down, so the first bit of a byte comes when a multiple of eight is left. -/
theorem Tracks.first_iff (h : Tracks v₀ played v) : v.remaining % 8 = 0 ↔ played % 8 = 0 := by
  have hremaining := h.remaining
  have hwithin := h.within
  have hbits := v₀.bits_eq
  have hmod := v₀.lap_mod played
  omega

theorem Tracks.last_iff (h : Tracks v₀ played v) : v.remaining = 1 ↔ v₀.lap played + 1 = v₀.bits := by
  have hremaining := h.remaining
  have hwithin := h.within
  omega

/-- Where the byte after the current one lies, once the next bit has been played. -/
theorem Tracks.address_next (h : Tracks v₀ played v) :
    (if v.remaining % 8 = 0 then following v.address else v.address) =
      byteAddress v₀.addressCode ((v₀.lap played + 1 + 7) / 8) := by
  have hfirst := h.first_iff
  have hmod := v₀.lap_mod played
  rw [h.address]
  split
  · rw [following_byteAddress]
    congr 1
    omega
  · congr 1
    omega

/-- A bit asks for what is due. -/
theorem Tracks.map_demands (h : Tracks v₀ played v) (hleft : v.remaining ≠ 0) (cpu : Cpu) (cart : Cartridge) :
    (v.demands cpu cart).map Demand.address? = v₀.due played := by
  have hfinal : (v.remaining = 1 ∧ v.loops = false ∧ v.requests = true) ↔
      (played + 1 = v₀.bits ∧ v₀.loops = false ∧ v₀.requests = true) := by
    rw [h.last_iff, h.loops, h.requests]
    refine and_congr_left fun hplain => ?_
    rw [lap, if_neg (by simp [hplain.1])]
  unfold demands due
  rw [v₀.lap_div played (h.lap_lt hleft), List.map_append]
  simp only [hfinal, h.first_iff]
  congr 1
  · split
    case isTrue hzero =>
      have hmod := v₀.lap_mod played
      have hplace : v.address = byteAddress v₀.addressCode (v₀.lap played / 8) := by
        rw [h.address]
        congr 1
        omega
      rw [hplace]
      rfl
    case isFalse => rfl
  · split <;> rfl

/-- A bit is played: the voice is one bit further. -/
theorem Tracks.play (h : Tracks v₀ played v) (hleft : v.remaining ≠ 0) (cpu : Cpu) (cart : Cartridge) :
    Tracks v₀ (played + 1) (v.play cpu cart).1 := by
  have hlt := h.lap_lt hleft
  have hnext := v₀.lap_succ played
  have henabled : v.enabled = true := h.enabled.trans (decide_eq_true hlt)
  have hraised : v.raised = false := Bool.eq_false_iff.mpr fun hset => hlt.ne (h.raised.mp hset).1
  obtain ⟨byte, cpu', hfetched, -⟩ := v.exists_fetched cpu cart
  rw [h.address_next] at hfetched
  have hloops : ∀ byte address, SampleVoice.loops { v with byte, address } = v₀.loops := fun _ _ => h.loops
  have hrequests : ∀ byte address,
      SampleVoice.requests { v with byte, address, remaining := 0, enabled := false } = v₀.requests :=
    fun _ _ => h.requests
  unfold SampleVoice.play
  simp only [hfetched, hloops, hrequests]
  by_cases hend : v₀.lap played + 1 = v₀.bits
  · rw [if_pos (h.last_iff.mpr hend)]
    cases hover : v₀.loops with
    | true =>
      rw [hover, if_pos ⟨rfl, hend⟩] at hnext
      have hagain : ∀ byte address, Tracks v₀ (played + 1) (restart { v with byte, address }) := by
        intro byte address
        refine ⟨h.control, h.addressCode, h.lengthCode, ?_, ?_, ?_, ?_, ?_⟩ <;> rw [hnext]
        · exact Nat.zero_le _
        · exact h.bits
        · exact h.start
        · exact henabled.trans (decide_eq_true v₀.bits_pos).symm
        · exact iff_of_false Bool.false_ne_true fun hset => v₀.bits_pos.ne hset.1
      exact (hagain _ _).delta _
    | false =>
      rw [hover, if_neg (by simp)] at hnext
      have hdone : v₀.lap (played + 1) = v₀.bits := hnext.trans hend
      cases hasks : v₀.requests <;>
      · refine ⟨h.control, h.addressCode, h.lengthCode, hdone.le, ?_, by rw [hnext]; rfl, ?_, ?_⟩
        · rw [hdone, Nat.sub_self]
          rfl
        · rw [hdone, decide_eq_false (Nat.lt_irrefl _)]
          rfl
        · simp [hdone, hasks, hraised]
  · rw [if_neg (mt h.last_iff.mp hend)]
    rw [if_neg fun hover => hend hover.2] at hnext
    have hremaining := h.remaining
    have hon : Tracks v₀ (played + 1) { v with
        byte, remaining := v.remaining - 1
        address := byteAddress v₀.addressCode ((v₀.lap played + 1 + 7) / 8) } := by
      refine ⟨h.control, h.addressCode, h.lengthCode, ?_, ?_, ?_, ?_, ?_⟩ <;> rw [hnext]
      · exact hlt
      · show v.remaining - 1 = _
        omega
      · exact henabled.trans (decide_eq_true (by omega)).symm
      · exact iff_of_false (Bool.eq_false_iff.mp hraised) fun hset => hend hset.1
    exact hon.delta _

/-- A sample that starts over always has bits left. -/
theorem Tracks.over (h : Tracks v₀ played v) (hover : v₀.loops = true) :
    v.remaining ≠ 0 ∧ v.enabled = true ∧ v.raised = false := by
  have hlap : v₀.lap played < v₀.bits := by
    rw [lap, if_pos hover]
    exact Nat.mod_lt played v₀.bits_pos
  refine ⟨?_, h.enabled.trans (decide_eq_true hlap), ?_⟩
  · rw [h.remaining]
    omega
  · exact Bool.eq_false_iff.mpr fun hset => hlap.ne (h.raised.mp hset).1

/-- Otherwise it has those that have not been played, and is over after the last. -/
theorem Tracks.once (h : Tracks v₀ played v) (honce : v₀.loops = false) :
    played ≤ v₀.bits ∧ v.remaining = v₀.bits - played ∧ (v.enabled = true ↔ played < v₀.bits) ∧
      (v.raised = true ↔ played = v₀.bits ∧ v₀.requests = true) := by
  have hlap : v₀.lap played = played := by
    rw [lap, if_neg (by simp [honce])]
  obtain ⟨-, -, -, hwithin, hremaining, -, henabled, hraised⟩ := h
  rw [hlap] at hwithin hremaining henabled hraised
  exact ⟨hwithin, hremaining, by rw [henabled, decide_eq_true_iff], hraised⟩

/-- Many bits, but no more than are left, ask for what is due one after the other; the bytes are those that the
windows show. -/
theorem Tracks.playMany {n : Nat} (h : Tracks v₀ played v) (hleft : v₀.loops = false → n ≤ v.remaining)
    (cpu : Cpu) (cart : Cartridge) :
    Tracks v₀ (played + n) (v.playMany cpu cart n).1 ∧
      (v.demandsMany cpu cart n).map Demand.address? = (List.range' played n).flatMap v₀.due ∧
      ∀ address value, .fetch address value ∈ v.demandsMany cpu cart n → value = cpu.peek cart address := by
  induction n generalizing v played cpu with
  | zero => exact ⟨h, rfl, fun _ _ hmem => absurd hmem List.not_mem_nil⟩
  | succ n ih =>
    have hsome : v.remaining ≠ 0 := by
      cases hover : v₀.loops with
      | true => exact (h.over hover).1
      | false =>
        have := hleft hover
        omega
    have hplayed := h.play hsome cpu cart
    have hleft' : v₀.loops = false → n ≤ (v.play cpu cart).1.remaining := fun honce => by
      have := hleft honce
      have := (h.once honce).2.1
      have := (hplayed.once honce).2.1
      omega
    obtain ⟨hmany, hdues, hvalues⟩ := ih hplayed hleft' (v.play cpu cart).2
    refine ⟨?_, ?_, fun address value hmem => ?_⟩
    · rw [show played + (n + 1) = played + 1 + n by omega]
      exact hmany
    · rw [demandsMany, List.map_append, h.map_demands hsome, hdues, List.range'_succ, List.flatMap_cons]
    · rcases List.mem_append.mp hmem with hfirst | hlater
      · simp only [demands, List.mem_append, List.mem_ite_nil_right, List.mem_singleton, Demand.fetch.injEq,
          reduceCtorEq, and_false, or_false] at hfirst
        obtain ⟨-, rfl, rfl⟩ := hfirst
        rfl
      · -- Something follows, so this bit was not the last and no interrupt has changed the stack.
        have hmore : n ≠ 0 := by
          rintro rfl
          exact absurd hlater List.not_mem_nil
        refine (hvalues address value hlater).trans (peek_play (fun honce hlast => ?_) cpu cart address)
        have := hleft (h.loops.symm.trans honce)
        omega

end

/-- All that is due among the first `n` bits: every byte at its time, and the interrupt at the end. -/
theorem flatMap_due (v : SampleVoice) {n : Nat} (h : v.loops = false → n ≤ v.bits) :
    (List.range n).flatMap v.due =
      (List.range ((n + 7) / 8)).map (fun k => some (byteAddress v.addressCode (k % v.bytes))) ++
        if n = v.bits ∧ v.loops = false ∧ v.requests = true then [none] else [] := by
  induction n with
  | zero => simp [v.bits_pos.ne]
  | succ n ih =>
    have hbefore : ¬ (n = v.bits ∧ v.loops = false ∧ v.requests = true) := fun ⟨hend, honce, _⟩ => by
      have := h honce
      omega
    rw [List.range_succ, List.flatMap_append, ih fun honce => Nat.le_of_succ_le (h honce), if_neg hbefore,
      List.append_nil, List.flatMap_cons, List.flatMap_nil, List.append_nil, due, ← List.append_assoc]
    congr 1
    split
    case isTrue hzero =>
      rw [show (n + 1 + 7) / 8 = (n + 7) / 8 + 1 by omega, List.range_succ, List.map_append,
        show n / 8 = (n + 7) / 8 by omega]
      rfl
    case isFalse hzero =>
      rw [show (n + 1 + 7) / 8 = (n + 7) / 8 by omega, List.append_nil]

/-! ### Samples -/

/-- The bits that one sample of the output plays. -/
def beats (v : SampleVoice) (pace : Pace) (cycles : Float32) : Nat :=
  if v.remaining = 0 then 0
  else (pace v.oscillator cycles v.period (if v.loops then none else some v.remaining)).1

/-- The voice as these bits find it. -/
def opened (v : SampleVoice) (pace : Pace) (cycles : Float32) : SampleVoice :=
  { v with
    level := fade v.level
    oscillator := if v.remaining = 0 then v.oscillator
      else (pace v.oscillator cycles v.period (if v.loops then none else some v.remaining)).2 }

theorem sample_eq (v : SampleVoice) (pace : Pace) (cycles : Float32) (cpu : Cpu) (cart : Cartridge) :
    (v.sample pace cycles cpu cart).2 = (v.opened pace cycles).playMany cpu cart (v.beats pace cycles) := by
  unfold sample opened beats
  simp only
  split
  · rfl
  · rfl

/-- A sample that ends is not played past its end. -/
theorem beats_le {v : SampleVoice} {pace : Pace} (h : pace.Limited) (honce : v.loops = false) (cycles : Float32) :
    v.beats pace cycles ≤ v.remaining := by
  unfold beats
  split
  · exact Nat.zero_le _
  · rw [honce]
    exact h _ _ _ _

end SampleVoice

/-! ### The unit -/

namespace Sound

/-- The bits that an event plays. -/
def beatsIn (s : Sound) : Event → Nat
  | .sample paces _ _ => if s.mixes 0x10 then s.sample.beats paces.sample s.timing.cycleRate else 0
  | _ => 0

/-- What an event asks of the processor. -/
def demandsIn (s : Sound) : Event → List SampleVoice.Demand
  | .sample paces cpu cart =>
    if s.mixes 0x10 then
      (s.sample.opened paces.sample s.timing.cycleRate).demandsMany cpu cart
        (s.sample.beats paces.sample s.timing.cycleRate)
    else []
  | _ => []

/-- The bits that are played in the course of some events. -/
def beats (s : Sound) : List Event → Nat
  | [] => 0
  | e :: events => s.beatsIn e + beats (s.after e) events

/-- What the events ask of the processor. -/
def demands (s : Sound) : List Event → List SampleVoice.Demand
  | [] => []
  | e :: events => s.demandsIn e ++ demands (s.after e) events

/-- Leaves the sample alone that is being played: it may be paced in any way, as long as it ends. -/
def Event.Spares : Event → Prop
  | .write address _ => address ∉ [0x4010, 0x4012, 0x4013, 0x4015]
  | .reset | .setRates _ _ | .load _ => False
  | .sample paces _ _ => paces.sample.Limited
  | _ => True

/-- Does not write the switches. -/
def Event.LeavesSwitches : Event → Prop
  | .write address _ => address ≠ 0x4015
  | .reset | .setRates _ _ | .load _ => False
  | _ => True

section
variable (s : Sound) (paces : Paces) (cpu : Cpu) (cart : Cartridge)

theorem next_played : (s.next paces cpu cart).2.1.sample = (s.played paces cpu cart).1 ∧
    (s.next paces cpu cart).2.2 = (s.played paces cpu cart).2 := by
  obtain ⟨previous, hnext⟩ := s.next_mix paces cpu cart
  rw [hnext]
  exact ⟨rfl, rfl⟩

/-- A sample plays its bits, after nothing but the level and the oscillator have changed. -/
theorem exists_opened : ∃ level oscillator,
    s.played paces cpu cart = SampleVoice.playMany { s.sample with level, oscillator } cpu cart
        (s.beatsIn (.sample paces cpu cart)) ∧
      s.demandsIn (.sample paces cpu cart) = SampleVoice.demandsMany { s.sample with level, oscillator } cpu cart
        (s.beatsIn (.sample paces cpu cart)) := by
  unfold played demandsIn beatsIn
  cases s.mixes 0x10 with
  | false => exact ⟨s.sample.level, s.sample.oscillator, rfl, rfl⟩
  | true => exact ⟨_, _, s.sample.sample_eq _ _ cpu cart, rfl⟩

/-- The processor does what it is asked, and nothing else. -/
theorem next_cpu : (s.next paces cpu cart).2.2 =
    (s.demandsIn (.sample paces cpu cart)).foldl (SampleVoice.meet cart) cpu := by
  obtain ⟨level, oscillator, hplayed, hdemands⟩ := s.exists_opened paces cpu cart
  rw [(s.next_played paces cpu cart).2, hplayed, hdemands, SampleVoice.playMany_cpu]

/-- The status, bit by bit. -/
theorem status_bits :
    (s.status &&& 0x01 != 0) = s.pulse1.sounding ∧ (s.status &&& 0x02 != 0) = s.pulse2.sounding ∧
      (s.status &&& 0x04 != 0) = s.triangle.sounding ∧ (s.status &&& 0x08 != 0) = s.noise.sounding ∧
      (s.status &&& 0x10 != 0) = s.sample.enabled ∧ (s.status &&& 0x80 != 0) = s.sample.raised := by
  unfold status
  generalize s.pulse1.sounding = b1
  generalize s.pulse2.sounding = b2
  generalize s.triangle.sounding = b3
  generalize s.noise.sounding = b4
  generalize s.sample.enabled = b5
  generalize s.sample.raised = b6
  revert b1 b2 b3 b4 b5 b6
  decide

end

section
variable {s : Sound} {v₀ : SampleVoice} {played : Nat}

/-- One sample plays its bits, and asks for what is due with them. -/
theorem tracks_sample {paces : Paces} (h : v₀.Tracks played s.sample) (hlimited : paces.sample.Limited) (cpu : Cpu)
    (cart : Cartridge) :
    v₀.Tracks (played + s.beatsIn (.sample paces cpu cart)) (s.next paces cpu cart).2.1.sample ∧
      (s.demandsIn (.sample paces cpu cart)).map SampleVoice.Demand.address? =
        (List.range' played (s.beatsIn (.sample paces cpu cart))).flatMap v₀.due ∧
      ∀ address value, .fetch address value ∈ s.demandsIn (.sample paces cpu cart) →
        value = cpu.peek cart address := by
  have hleft : v₀.loops = false → s.beatsIn (.sample paces cpu cart) ≤ s.sample.remaining := fun honce => by
    simp only [beatsIn]
    split
    · exact SampleVoice.beats_le hlimited (h.loops.trans honce) _
    · exact Nat.zero_le _
  obtain ⟨level, oscillator, hplayed, hdemands⟩ := s.exists_opened paces cpu cart
  have hopened : v₀.Tracks played { s.sample with level, oscillator } := h.congr rfl
  rw [(s.next_played paces cpu cart).1, hplayed, hdemands]
  exact hopened.playMany hleft cpu cart

/-- The registers that do not belong to the sample leave the voice on its way. -/
theorem tracks_write (h : v₀.Tracks played s.sample) {address : UInt16}
    (hspares : address ∉ ([0x4010, 0x4012, 0x4013, 0x4015] : List UInt16)) (value : UInt8) :
    v₀.Tracks played (s.write address value).sample := by
  unfold write
  split
  case h_15 | h_17 | h_18 | h_19 => exact absurd (by decide) hspares
  case h_16 => exact h.congr rfl
  all_goals exact h

theorem tracks_after {e : Event} (h : v₀.Tracks played s.sample) (he : e.Spares) :
    v₀.Tracks (played + s.beatsIn e) (s.after e).sample ∧
      (s.demandsIn e).map SampleVoice.Demand.address? = (List.range' played (s.beatsIn e)).flatMap v₀.due := by
  cases e with
  | write address value => exact ⟨tracks_write h he value, rfl⟩
  | sample paces cpu cart =>
    obtain ⟨hnext, hdue, -⟩ := tracks_sample h he cpu cart
    exact ⟨hnext, hdue⟩
  | reset | setRates | load => exact he.elim
  | setFilter | chooseVoices | setVoices | setChip | writeChip => exact ⟨h, rfl⟩

theorem tracks_run {events : List Event} (h : v₀.Tracks played s.sample) (hspares : ∀ e ∈ events, e.Spares) :
    v₀.Tracks (played + s.beats events) (s.run events).sample ∧
      (s.demands events).map SampleVoice.Demand.address? =
        (List.range' played (s.beats events)).flatMap v₀.due := by
  induction events generalizing s played with
  | nil => exact ⟨h, rfl⟩
  | cons e events ih =>
    obtain ⟨hafter, hdue⟩ := tracks_after h (hspares e List.mem_cons_self)
    obtain ⟨hrun, hdues⟩ := ih hafter fun f hf => hspares f (List.mem_cons_of_mem e hf)
    rw [Nat.add_assoc] at hrun
    refine ⟨hrun, ?_⟩
    rw [demands, beats, List.map_append, hdue, hdues, ← List.flatMap_append, List.range'_append_1]

/-- Nothing is left to play and the voice is off. -/
def Finished (v : SampleVoice) : Prop := v.remaining = 0 ∧ v.enabled = false

/-- Without the switches a finished voice stays so. -/
theorem finished_after {e : Event} (h : Finished s.sample) (he : e.LeavesSwitches) :
    Finished (s.after e).sample ∧ s.demandsIn e = [] := by
  cases e with
  | write address value =>
    refine ⟨?_, rfl⟩
    show Finished (s.write address value).sample
    unfold write
    split
    case h_19 => exact absurd rfl he
    all_goals exact h
  | sample paces cpu cart =>
    have hnone : s.beatsIn (.sample paces cpu cart) = 0 := by
      simp only [beatsIn, SampleVoice.beats]
      rw [if_pos h.1, ite_self]
    obtain ⟨level, oscillator, hplayed, hdemands⟩ := s.exists_opened paces cpu cart
    rw [hnone] at hplayed hdemands
    refine ⟨?_, hdemands⟩
    show Finished (s.next paces cpu cart).2.1.sample
    rw [(s.next_played paces cpu cart).1, hplayed]
    exact h
  | reset | setRates | load => exact he.elim
  | setFilter | chooseVoices | setVoices | setChip | writeChip => exact ⟨h, rfl⟩

theorem finished_run {events : List Event} (h : Finished s.sample) (hleaves : ∀ e ∈ events, e.LeavesSwitches) :
    Finished (s.run events).sample ∧ s.demands events = [] := by
  induction events generalizing s with
  | nil => exact ⟨h, rfl⟩
  | cons e events ih =>
    obtain ⟨hafter, hnone⟩ := finished_after h (hleaves e List.mem_cons_self)
    obtain ⟨hrun, hnones⟩ := ih hafter fun f hf => hleaves f (List.mem_cons_of_mem e hf)
    exact ⟨hrun, by rw [demands, hnone, hnones, List.append_nil]⟩

/-- Where a sample starts: the codes are written and the voice is switched on, while nothing is being played. -/
theorem tracks_start (hidle : s.sample.remaining = 0) (a l : UInt8) {switches : UInt8}
    (hon : (switches &&& 0x10 != 0) = true) :
    let start := ((s.write 0x4012 a).write 0x4013 l).write 0x4015 switches
    start.sample.control = s.sample.control ∧ start.sample.addressCode = a ∧ start.sample.lengthCode = l ∧
      start.sample.Tracks 0 start.sample := by
  have hcoded : SampleVoice.remaining { s.sample with addressCode := a, lengthCode := l } = 0 := hidle
  have hstart : (((s.write 0x4012 a).write 0x4013 l).write 0x4015 switches).sample =
      SampleVoice.setEnabled { s.sample with addressCode := a, lengthCode := l } true := by
    rw [← hon]
    rfl
  obtain ⟨hcontrol, -, haddress, hlength⟩ := SampleVoice.setEnabled_keeps
    { s.sample with addressCode := a, lengthCode := l } true
  intro start
  rw [show start.sample = _ from hstart]
  exact ⟨hcontrol, haddress, hlength, SampleVoice.tracks_setEnabled hcoded⟩

/-- A sample is played byte by byte. Started while nothing is being played, from `$C000 + 64 · a` with `16 · l + 1`
bytes, and however its bits fall into samples of the output, it asks the processor for exactly its bytes, one for
every eight bits, through the windows, for a cycle each; after its last bit for one interrupt, if the control
register says so, and shows that in the status; and for nothing more until the switches are written. A sample that
starts over asks for the same bytes again and again, and for no interrupt. -/
theorem sample_playback (hidle : s.sample.remaining = 0) (a l : UInt8) {switches : UInt8}
    (hon : (switches &&& 0x10 != 0) = true) {events later : List Event} (hspares : ∀ e ∈ events, e.Spares)
    (hlater : ∀ e ∈ later, e.LeavesSwitches) :
    let start := ((s.write 0x4012 a).write 0x4013 l).write 0x4015 switches
    let k := start.run events
    let bytes := 16 * l.toNat + 1
    let played := start.beats events
    let asked := (start.demands events).map SampleVoice.Demand.address?
    (∀ past paces cpu cart future, events = past ++ .sample paces cpu cart :: future →
      let now := (start.run past).demandsIn (.sample paces cpu cart)
      ((start.run past).next paces cpu cart).2.2 = now.foldl (SampleVoice.meet cart) cpu ∧
        ∀ address value, .fetch address value ∈ now → value = cpu.peek cart address) ∧
    (s.sample.loops = false →
      played ≤ 8 * bytes ∧
      asked = (List.range ((played + 7) / 8)).map (fun i => some (SampleVoice.byteAddress a i)) ++
        (if played = 8 * bytes ∧ s.sample.requests = true then [none] else []) ∧
      ((k.read 0x4015 &&& 0x10 != 0) = true ↔ played < 8 * bytes) ∧
      ((k.read 0x4015 &&& 0x80 != 0) = true ↔ played = 8 * bytes ∧ s.sample.requests = true) ∧
      (played = 8 * bytes → k.demands later = [] ∧ ((k.run later).read 0x4015 &&& 0x10 != 0) = false)) ∧
    (s.sample.loops = true →
      asked = (List.range ((played + 7) / 8)).map (fun i => some (SampleVoice.byteAddress a (i % bytes))) ∧
      (k.read 0x4015 &&& 0x10 != 0) = true ∧ (k.read 0x4015 &&& 0x80 != 0) = false) := by
  obtain ⟨hcontrol, haddress, hlength, hstart⟩ := tracks_start hidle a l hon
  intro start k bytes played asked
  have hloops : start.sample.loops = s.sample.loops := congrArg (fun c => c &&& 0x40 != 0) hcontrol
  have hrequests : start.sample.requests = s.sample.requests := congrArg (fun c => c &&& 0x80 != 0) hcontrol
  have hbytes : start.sample.bytes = bytes := congrArg (fun c : UInt8 => 16 * c.toNat + 1) hlength
  have hbits : start.sample.bits = 8 * bytes := by rw [SampleVoice.bits_eq, hbytes, Nat.mul_comm]
  obtain ⟨hplayed, hasked⟩ := tracks_run hstart hspares
  have hrun : start.sample.Tracks played k.sample := by rwa [Nat.zero_add] at hplayed
  have hall : asked = (List.range ((played + 7) / 8)).map
      (fun i => some (SampleVoice.byteAddress a (i % bytes))) ++
        if played = 8 * bytes ∧ s.sample.loops = false ∧ s.sample.requests = true then [none] else [] := by
    have hdue := start.sample.flatMap_due fun honce => (hrun.once honce).1
    rw [haddress, hbytes, hbits, hloops, hrequests] at hdue
    exact (hasked.trans (by rw [List.range_eq_range'])).trans hdue
  obtain ⟨-, -, -, -, hplaying, hmarked⟩ := k.status_bits
  refine ⟨fun past paces cpu cart future hevents => ?_, fun honce => ?_, fun hover => ?_⟩
  · have hpast : ∀ e ∈ past, e.Spares := fun e he => hspares e (by rw [hevents]; exact List.mem_append_left _ he)
    have hnow : paces.sample.Limited := hspares (.sample paces cpu cart) (by rw [hevents]; simp)
    obtain ⟨hbefore, -⟩ := tracks_run hstart hpast
    exact ⟨next_cpu _ _ _ _, (tracks_sample hbefore hnow cpu cart).2.2⟩
  · obtain ⟨hwithin, hleft, henabled, hraised⟩ := hrun.once (hloops.trans honce)
    rw [hbits] at hwithin hleft henabled hraised
    rw [hrequests] at hraised
    refine ⟨hwithin, ?_, ?_, ?_, fun hend => ?_⟩
    · rw [hall, honce]
      simp only [true_and]
      congr 1
      refine List.map_congr_left fun i hi => ?_
      have hi := List.mem_range.mp hi
      rw [Nat.mod_eq_of_lt (by omega)]
    · rw [show k.read 0x4015 = k.status from rfl, hplaying, henabled]
    · rw [show k.read 0x4015 = k.status from rfl, hmarked, hraised]
    · have hfinished : Finished k.sample := by
        refine ⟨hleft.trans (Nat.sub_eq_zero_of_le hend.ge), Bool.eq_false_iff.mpr fun hset => ?_⟩
        exact (henabled.mp hset).ne hend
      obtain ⟨hstill, hnone⟩ := finished_run hfinished hlater
      obtain ⟨-, -, -, -, hoff, -⟩ := (k.run later).status_bits
      exact ⟨hnone, hoff.trans hstill.2⟩
  · obtain ⟨-, henabled, hraised⟩ := hrun.over (hloops.trans hover)
    rw [hover] at hall
    exact ⟨hall.trans (by simp), hplaying.trans henabled, hmarked.trans hraised⟩

end

/-- A sample of one byte: five bits in the first sample of the output, three in the second, none in the third. -/
theorem sample_playback_one_byte :
    let fives : Pace := fun o _ _ limit => (min 5 (limit.getD 5), o)
    let s : Sound := ({ mixMask := 0x10 } : Sound).write 0x4010 0x8F
    let start := ((s.write 0x4012 0xFF).write 0x4013 0).write 0x4015 0x10
    let events : List Event :=
      [.sample { sample := fives } {} {}, .write 0x4011 0x20, .sample { sample := fives } {} {}, .sample {} {} {}]
    let later : List Event := [.write 0x4010 0x4F, .sample { sample := fives } {} {}]
    let k := start.run events
    start.beats events = 8 ∧
      (start.demands events).map SampleVoice.Demand.address? = [some 0xFFC0, none] ∧
      (k.read 0x4015 &&& 0x80 != 0) = true ∧
      k.demands later = [] ∧ ((k.run later).read 0x4015 &&& 0x10 != 0) = false := by
  intro fives s start events later k
  have hlimited : fives.Limited := fun _ _ _ n => Nat.min_le_right 5 n
  have hspares : ∀ e ∈ events, e.Spares := by
    simp only [events, List.forall_mem_cons]
    exact ⟨hlimited, by simp [Event.Spares], hlimited, Oscillator.limited_advance, fun _ h =>
      absurd h List.not_mem_nil⟩
  have hlater : ∀ e ∈ later, e.LeavesSwitches := by
    simp only [later, List.forall_mem_cons]
    exact ⟨by simp [Event.LeavesSwitches], trivial, fun _ h => absurd h List.not_mem_nil⟩
  have hplayed : start.beats events = 8 := by decide
  have hon : ((0x10 : UInt8) &&& 0x10 != 0) = true := by decide
  obtain ⟨-, honce, -⟩ := sample_playback (s := s) rfl 0xFF 0 hon hspares hlater
  obtain ⟨-, hasked, -, hmarked, hend⟩ := honce (by decide)
  obtain ⟨hnone, hoff⟩ := hend hplayed
  refine ⟨hplayed, hasked.trans ?_, hmarked.mpr ⟨hplayed, by decide⟩, hnone, hoff⟩
  rw [hplayed]
  decide

end Sound

end Famicom
