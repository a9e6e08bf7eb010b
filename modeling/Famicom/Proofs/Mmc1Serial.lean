import Famicom.Proofs.Circuit
import Mathlib.Data.List.DropRight
import Mathlib.Data.Nat.Digits.Defs

/-!
The serial port of the MMC1, against the history of its writes. A write with bit 7 set resets the port, every
other one feeds the register that its address selects. The writes since something else was written, the
*streak* of a register, are cut into groups of five:

    writes      … | 1 1 1 1 1 | 1 1 | 2 2 2 | reset | 2 2 2 2 2 | 2
    groups          └ commit ┘                        └ commit ┘
    discarded                   1 1   2 2 2

What the latch holds is the rest of the streak that is no group yet (`Collected`), so the fifth write of a
group commits the number that its five bits make, and no other write switches a window.
-/

namespace Famicom

/-- A write to the address space of the ROM. -/
structure RomWrite where
  address : UInt16
  value : UInt8
  inRom : 0x8000 ≤ address
  deriving DecidableEq, Repr

namespace RomWrite

/-- Bit 7 is set. -/
def resets (w : RomWrite) : Bool := w.value &&& 0x80 != 0

/-- The register that the address selects. -/
def register (w : RomWrite) : UInt16 := Mmc1.register w.address

/-- Bit 7 is clear, and the address selects this register. -/
def feeds (register : UInt16) (w : RomWrite) : Bool := !w.resets && w.register == register

/-- What is fed. -/
def bit (w : RomWrite) : Nat := w.value.toNat % 2

variable (register : UInt16) (ws : List RomWrite)

/-- The number whose bits are fed, the lowest one first. -/
def number (ws : List RomWrite) : Nat := Nat.ofDigits 2 (ws.map bit)

/-- The writes at the end that feed a register. -/
def streak : List RomWrite := ws.rtakeWhile (feeds register)

/-- Those of them that no group of five has been made of. -/
def unfinished : List RomWrite := (streak register ws).drop ((streak register ws).length / 5 * 5)

/-- After the others, this write is the fifth of a group. -/
def Completes (ws : List RomWrite) (w : RomWrite) : Prop :=
  w.resets = false ∧ (unfinished w.register ws).length = 4

instance (ws : List RomWrite) (w : RomWrite) : Decidable (Completes ws w) :=
  inferInstanceAs (Decidable (_ ∧ _))

/-! ### Groups -/

variable {register ws} {w : RomWrite}

theorem unfinished_nil (register : UInt16) : unfinished register [] = [] := by
  rw [unfinished, streak, List.rtakeWhile_nil, List.drop_nil]

theorem length_unfinished : (unfinished register ws).length = (streak register ws).length % 5 := by
  rw [unfinished, List.length_drop]
  omega

theorem length_unfinished_le : (unfinished register ws).length ≤ 4 := by
  rw [length_unfinished]
  omega

/-- They are the last writes, and all of them feed the register. -/
theorem unfinished_suffix : unfinished register ws <:+ ws :=
  (List.drop_suffix _ _).trans (List.rtakeWhile_suffix _ _)

theorem feeds_of_mem (h : w ∈ unfinished register ws) : w.feeds register = true :=
  List.mem_rtakeWhile_imp ((List.drop_suffix _ _).subset h)

/-- Anything else ends a streak. -/
theorem unfinished_concat_of_not (h : w.feeds register = false) : unfinished register (ws ++ [w]) = [] := by
  have hstreak : streak register (ws ++ [w]) = [] :=
    List.rtakeWhile_concat_neg _ _ _ (by rw [h]; exact Bool.false_ne_true)
  rw [unfinished, hstreak, List.drop_nil]

theorem streak_concat (h : w.feeds register = true) :
    streak register (ws ++ [w]) = streak register ws ++ [w] :=
  List.rtakeWhile_concat_pos _ _ _ h

/-- The fifth write finishes a group. -/
theorem unfinished_concat_of_four (h : w.feeds register = true) (hfour : (unfinished register ws).length = 4) :
    unfinished register (ws ++ [w]) = [] := by
  rw [length_unfinished] at hfour
  refine List.length_eq_zero_iff.mp ?_
  rw [length_unfinished, streak_concat h, List.length_append, List.length_singleton]
  omega

/-- Any other adds a bit. -/
theorem unfinished_concat (h : w.feeds register = true) (hfew : (unfinished register ws).length ≠ 4) :
    unfinished register (ws ++ [w]) = unfinished register ws ++ [w] := by
  rw [length_unfinished] at hfew
  have hcut : ((streak register ws).length + 1) / 5 * 5 = (streak register ws).length / 5 * 5 := by omega
  have hroom : (streak register ws).length / 5 * 5 ≤ (streak register ws).length := Nat.div_mul_le_self _ 5
  rw [unfinished, streak_concat h, List.length_append, List.length_singleton, hcut,
    List.drop_append_of_le_length hroom, unfinished]

/-- One write adds one bit at most. -/
theorem length_unfinished_concat_le :
    (unfinished register (ws ++ [w])).length ≤ (unfinished register ws).length + 1 := by
  by_cases h : w.feeds register = true
  · by_cases hfour : (unfinished register ws).length = 4
    · rw [unfinished_concat_of_four h hfour]
      exact Nat.zero_le _
    · rw [unfinished_concat h hfour, List.length_append, List.length_singleton]
  · rw [unfinished_concat_of_not (Bool.eq_false_of_not_eq_true h)]
    exact Nat.zero_le _

theorem length_unfinished_append_le (later : List RomWrite) :
    (unfinished register (ws ++ later)).length ≤ (unfinished register ws).length + later.length := by
  induction later using List.reverseRecOn with
  | nil => rw [List.append_nil, List.length_nil, Nat.add_zero]
  | append_singleton later w ih =>
    have hlast := @length_unfinished_concat_le register (ws ++ later) w
    rw [List.append_assoc] at hlast
    rw [List.length_append, List.length_singleton]
    omega

theorem Completes.feeds (h : Completes ws w) : w.feeds w.register = true := by
  rw [RomWrite.feeds, h.1, Bool.not_false, Bool.true_and, beq_self_eq_true]

/-- After a group nothing is left over, for no register. -/
theorem Completes.nothing_left (h : Completes ws w) (register : UInt16) :
    unfinished register (ws ++ [w]) = [] := by
  by_cases hr : w.feeds register = true
  · have hregister : w.register = register := by
      rw [RomWrite.feeds, Bool.and_eq_true, beq_iff_eq] at hr
      exact hr.2
    subst hregister
    exact unfinished_concat_of_four hr h.2
  · exact unfinished_concat_of_not (Bool.eq_false_of_not_eq_true hr)

/-- No write belongs to two groups: between the last writes of two of them there are four others. -/
theorem Completes.apart {between : List RomWrite} {w' : RomWrite} (h : Completes ws w)
    (h' : Completes (ws ++ w :: between) w') : 4 ≤ between.length := by
  have hgrows := @length_unfinished_append_le w'.register (ws ++ [w]) between
  rw [h.nothing_left, List.length_nil, Nat.zero_add, List.append_assoc, List.singleton_append, h'.2] at hgrows
  exact hgrows

/-! ### Their numbers -/

theorem bit_lt (w : RomWrite) : w.bit < 2 := Nat.mod_lt _ Nat.two_pos

theorem number_lt (ws : List RomWrite) : number ws < 2 ^ ws.length := by
  have hdigits : ∀ b ∈ ws.map bit, b < 2 := by
    intro b hb
    obtain ⟨w, -, rfl⟩ := List.mem_map.mp hb
    exact w.bit_lt
  have hlt := Nat.ofDigits_lt_base_pow_length Nat.one_lt_two hdigits
  rwa [List.length_map] at hlt

theorem number_concat (ws : List RomWrite) (w : RomWrite) :
    number (ws ++ [w]) = number ws + 2 ^ ws.length * w.bit := by
  rw [number, List.map_append, Nat.ofDigits_append, List.length_map, List.map_singleton, Nat.ofDigits_singleton,
    number]

end RomWrite

/-! ### The registers -/

namespace Mmc1

/-- What is left in the latch for a write that feeds this register. -/
def turn (s : Mmc1) (register : UInt16) : Mmc1 :=
  if s.target = register then s else { s.discard with target := register }

/-- One more bit in the latch. -/
def collect (s : Mmc1) (value : UInt8) : Mmc1 :=
  { s with latch := s.latch ||| ((value &&& 1) <<< s.count), count := s.count + 1 }

/-- The latch holds four bits at most, and nothing above them. -/
structure Partial (s : Mmc1) : Prop where
  count : s.count ≤ 4
  latch : s.latch.toNat < 2 ^ s.count.toNat

variable {s : Mmc1} (view : View) {address : UInt16} {value : UInt8}

theorem turn_target (s : Mmc1) : s.turn s.target = s := if_pos rfl

theorem turn_of_ne {register : UInt16} (h : s.target ≠ register) :
    s.turn register = { s.discard with target := register } := if_neg h

theorem target_turn (s : Mmc1) (register : UInt16) : (s.turn register).target = register := by
  unfold turn
  split
  case isTrue h => exact h
  case isFalse => rfl

/-! #### The four things that a write can do -/

theorem write_resets (s : Mmc1) (h : (value &&& 0x80 != 0) = true) :
    s.write view address value = ({ s with control := s.control ||| 0x0C }.discard, []) := if_pos h

theorem write_feeds (s : Mmc1) (h : (value &&& 0x80 != 0) = false) :
    let t := (s.turn (register address)).collect value
    s.write view address value = if t.count = 5 then
      ((t.store (register address) t.latch).discard,
        (t.store (register address) t.latch).discard.commit view (register address) t.latch)
    else (t, []) := if_neg (by rw [h]; exact Bool.false_ne_true)

theorem count_collect (s : Mmc1) (value : UInt8) : (s.collect value).count = 5 ↔ s.count = 4 := by
  show s.count + 1 = 5 ↔ s.count = 4
  grind

theorem write_collects (s : Mmc1) (h : (value &&& 0x80 != 0) = false)
    (hroom : (s.turn (register address)).count ≠ 4) :
    s.write view address value = ((s.turn (register address)).collect value, []) := by
  rw [s.write_feeds view h, if_neg (mt (count_collect _ value).mp hroom)]

theorem write_completes (s : Mmc1) (h : (value &&& 0x80 != 0) = false)
    (hfull : (s.turn (register address)).count = 4) :
    let t := (s.turn (register address)).collect value
    s.write view address value = ((t.store (register address) t.latch).discard,
      (t.store (register address) t.latch).discard.commit view (register address) t.latch) := by
  intro t
  rw [s.write_feeds view h, if_pos ((count_collect _ value).mpr hfull)]

/-- A bit taken in changes the latch, its count and its target, and nothing else. -/
theorem collect_turn (s : Mmc1) (register : UInt16) (value : UInt8) :
    s = { (s.turn register).collect value with latch := s.latch, count := s.count, target := s.target } := by
  unfold turn
  split <;> rfl

theorem discard_store_collect (s : Mmc1) (register : UInt16) (value v : UInt8) :
    ((s.collect value).store register v).discard = { s.store register v with latch := 0, count := 0 } := by
  simp only [store, discard]
  split_ifs <;> rfl

theorem toNat_count_collect (h : s.Partial) (value : UInt8) :
    (s.collect value).count.toNat = s.count.toNat + 1 := by
  have hcount : s.count.toNat ≤ 4 := UInt8.le_iff_toNat_le.mp h.count
  show (s.count + 1).toNat = _
  rw [UInt8.toNat_add, UInt8.toNat_one]
  exact Nat.mod_eq_of_lt (by omega)

theorem toNat_collect (h : s.Partial) (value : UInt8) :
    (s.collect value).latch.toNat = s.latch.toNat + 2 ^ s.count.toNat * (value.toNat % 2) := by
  have hcount : s.count.toNat ≤ 4 := UInt8.le_iff_toNat_le.mp h.count
  have hbit : (value &&& 1).toNat = value.toNat % 2 := by
    rw [UInt8.toNat_and]
    exact Nat.and_one_is_mod _
  have hsmall : 2 ^ s.count.toNat * (value.toNat % 2) < 2 ^ 8 := by
    have hpow : 2 ^ s.count.toNat ≤ 2 ^ 4 := Nat.pow_le_pow_right Nat.two_pos hcount
    have hlt : value.toNat % 2 ≤ 1 := Nat.le_of_lt_succ (Nat.mod_lt _ Nat.two_pos)
    have hle := Nat.mul_le_mul hpow hlt
    omega
  show (s.latch ||| ((value &&& 1) <<< s.count)).toNat = _
  -- the new bit lies above all others
  rw [UInt8.toNat_or, UInt8.toNat_shiftLeft, hbit, Nat.mod_eq_of_lt (by omega : s.count.toNat < 8),
    Nat.shiftLeft_eq, Nat.mul_comm, Nat.mod_eq_of_lt hsmall, Nat.or_comm,
    ← Nat.two_pow_add_eq_or_of_lt h.latch, Nat.add_comm]

/-! #### What the latch holds -/

theorem Partial.of_empty (hcount : s.count = 0) (hlatch : s.latch = 0) : s.Partial := by
  constructor
  · rw [hcount]
    decide
  · rw [hcount, hlatch]
    decide

theorem Partial.init (s : Mmc1) (view : View) : (s.init view).1.Partial := .of_empty rfl rfl

theorem Partial.turn (h : s.Partial) (register : UInt16) : (s.turn register).Partial := by
  by_cases htarget : s.target = register
  · rwa [Mmc1.turn, if_pos htarget]
  · rw [turn_of_ne htarget]
    exact .of_empty rfl rfl

theorem Partial.collect (h : s.Partial) (hroom : s.count ≠ 4) (value : UInt8) :
    (s.collect value).Partial := by
  have hcount : s.count.toNat < 4 := by
    have hle := UInt8.le_iff_toNat_le.mp h.count
    have hne := mt UInt8.toNat_inj.mp hroom
    simp only [UInt8.reduceToNat] at hle hne
    omega
  constructor
  · rw [UInt8.le_iff_toNat_le, toNat_count_collect h]
    exact hcount
  · have hbit : value.toNat % 2 < 2 := Nat.mod_lt _ Nat.two_pos
    have hle := Nat.mul_le_mul_left (2 ^ s.count.toNat) (Nat.le_of_lt_succ hbit)
    have hlatch := h.latch
    rw [toNat_collect h, toNat_count_collect h, Nat.pow_succ]
    omega

/-- No write fills it up. -/
theorem Partial.write (h : s.Partial) (address : UInt16) (value : UInt8) :
    (s.write view address value).1.Partial := by
  cases hvalue : value &&& 0x80 != 0 with
  | true =>
    rw [s.write_resets view hvalue]
    exact .of_empty rfl rfl
  | false =>
    by_cases hfull : (s.turn (register address)).count = 4
    · rw [s.write_completes view hvalue hfull]
      exact .of_empty rfl rfl
    · rw [s.write_collects view hvalue hfull]
      exact (h.turn _).collect hfull value

/-! #### The latch against the history -/

open RomWrite (number unfinished Completes)

variable {ws : List RomWrite} {w : RomWrite}

/-- Whatever register is fed next, the latch holds the bits of its unfinished group. -/
def Collected (s : Mmc1) (ws : List RomWrite) : Prop := ∀ register,
  (s.turn register).count.toNat = (unfinished register ws).length ∧
    (s.turn register).latch.toNat = number (unfinished register ws)

theorem Collected.partial_turn (h : s.Collected ws) (register : UInt16) : (s.turn register).Partial := by
  obtain ⟨hcount, hlatch⟩ := h register
  constructor
  · rw [UInt8.le_iff_toNat_le, hcount]
    exact RomWrite.length_unfinished_le
  · rw [hlatch, hcount]
    exact RomWrite.number_lt _

theorem Collected.completes_iff (h : s.Collected ws) (hw : w.resets = false) :
    (s.turn w.register).count = 4 ↔ Completes ws w := by
  rw [Completes, ← (h w.register).1, ← UInt8.toNat_inj]
  exact ⟨fun hfour => ⟨hw, hfour⟩, And.right⟩

/-- An empty latch goes with no unfinished group. -/
theorem Collected.of_empty (hcount : s.count = 0) (hlatch : s.latch = 0)
    (h : ∀ register, unfinished register ws = []) : s.Collected ws := by
  intro register
  rw [h register]
  by_cases htarget : s.target = register
  · rw [turn, if_pos htarget, hcount, hlatch]
    exact ⟨rfl, rfl⟩
  · rw [turn_of_ne htarget]
    exact ⟨rfl, rfl⟩

/-- A bit more in the latch is one more in the group of its register, and ends those of all others. -/
theorem Collected.collect (h : s.Collected ws) (hw : w.resets = false) (hmore : ¬ Completes ws w) :
    ((s.turn w.register).collect w.value).Collected (ws ++ [w]) := by
  have htarget : ((s.turn w.register).collect w.value).target = w.register := s.target_turn _
  intro register
  by_cases hregister : w.register = register
  · subst hregister
    have hfeeds : w.feeds w.register = true := by
      rw [RomWrite.feeds, hw, Bool.not_false, Bool.true_and, beq_self_eq_true]
    have hfew : (unfinished w.register ws).length ≠ 4 := fun hfour => hmore ⟨hw, hfour⟩
    have hpartial := h.partial_turn w.register
    obtain ⟨hcount, hlatch⟩ := h w.register
    rw [turn, if_pos htarget, RomWrite.unfinished_concat hfeeds hfew, RomWrite.number_concat, List.length_append,
      List.length_singleton, toNat_count_collect hpartial, toNat_collect hpartial, hlatch, hcount]
    exact ⟨rfl, rfl⟩
  · have hends : w.feeds register = false := by
      rw [RomWrite.feeds, beq_false_of_ne hregister, Bool.and_false]
    rw [RomWrite.unfinished_concat_of_not hends, turn_of_ne (by rwa [htarget])]
    exact ⟨rfl, rfl⟩

/-- Every write keeps the latch in accord with the history. -/
theorem Collected.write (h : s.Collected ws) (w : RomWrite) :
    (s.write view w.address w.value).1.Collected (ws ++ [w]) := by
  by_cases hw : w.resets = true
  · rw [s.write_resets view hw]
    refine .of_empty rfl rfl fun register => RomWrite.unfinished_concat_of_not ?_
    rw [RomWrite.feeds, hw, Bool.not_true, Bool.false_and]
  · replace hw := Bool.eq_false_of_not_eq_true hw
    by_cases hcompletes : Completes ws w
    · rw [s.write_completes view hw ((h.completes_iff hw).mpr hcompletes)]
      exact .of_empty rfl rfl hcompletes.nothing_left
    · rw [s.write_collects view hw (mt (h.completes_iff hw).mp hcompletes)]
      exact h.collect hw hcompletes

/-- A fifth write stores the number of its group, and asks for what that means. -/
theorem Collected.write_completes (h : s.Collected ws) (hcompletes : Completes ws w) :
    ∃ value : UInt8, value.toNat = number (unfinished w.register ws ++ [w]) ∧
      s.write view w.address w.value =
        ({ s.store w.register value with latch := 0, count := 0 },
          ({ s.store w.register value with latch := 0, count := 0 } : Mmc1).commit view w.register value) := by
  have hfull := (h.completes_iff hcompletes.1).mpr hcompletes
  -- four bits are there, so they were meant for this register
  have hturn : s.turn w.register = s := by
    by_cases htarget : s.target = w.register
    · rw [turn, if_pos htarget]
    · rw [turn_of_ne htarget] at hfull
      exact absurd hfull (by decide : (0 : UInt8) ≠ 4)
  have hpartial := h.partial_turn w.register
  obtain ⟨hcount, hlatch⟩ := h w.register
  rw [hturn] at hfull hpartial hcount hlatch
  refine ⟨(s.collect w.value).latch, ?_, ?_⟩
  · rw [toNat_collect hpartial, hlatch, hcount, RomWrite.number_concat]
    rfl
  · have hwrite := s.write_completes view hcompletes.1 (hturn.symm ▸ hfull)
    simp only [show s.turn (register w.address) = s from hturn, discard_store_collect] at hwrite
    exact hwrite

theorem collected_init (s : Mmc1) (view : View) : (s.init view).1.Collected [] :=
  .of_empty rfl rfl RomWrite.unfinished_nil

end Mmc1

/-! ### Machines -/

namespace Machine

open RomWrite (number Completes)

variable {m : Machine} {s : Mmc1} {ws : List RomWrite}

/-- A write to the address space of the ROM, for the board. -/
def romWrite (m : Machine) (w : RomWrite) : Machine := m.boardWrite w.address w.value

/-- What such a write comes to. -/
theorem circuit_romWrite (h : m.board = some (.mmc1 s)) (w : RomWrite) :
    (m.romWrite w).circuit = (s.write m.view w.address w.value).2.foldl Circuit.obey
      { m.circuit with board := some (.mmc1 (s.write m.view w.address w.value).1) } :=
  (m.circuit_withBoard _).trans (Circuit.act_some (c := m.circuit) h _)

theorem board_romWrite (h : m.board = some (.mmc1 s)) (w : RomWrite) :
    (m.romWrite w).board = some (.mmc1 (s.write m.view w.address w.value).1) := by
  show (m.romWrite w).circuit.board = _
  rw [circuit_romWrite h, Circuit.board_obeyAll]

theorem board_init_mmc1 (h : m.board = some (.mmc1 s)) :
    (m.withBoard (·.init m.view)).board = some (.mmc1 (s.init m.view).1) :=
  m.board_withBoard h _

/-- From power-on on, the latch is in accord with everything that has been written. -/
theorem collected_run (h : m.board = some (.mmc1 s)) (ws : List RomWrite) :
    ∃ s', (ws.foldl romWrite (m.withBoard (·.init m.view))).board = some (.mmc1 s') ∧ s'.Collected ws := by
  induction ws using List.reverseRecOn with
  | nil => exact ⟨_, board_init_mmc1 h, s.collected_init m.view⟩
  | append_singleton ws w ih =>
    obtain ⟨s', hs', hcollected⟩ := ih
    rw [List.foldl_append, List.foldl_cons, List.foldl_nil]
    exact ⟨_, board_romWrite hs' w, hcollected.write _ w⟩

/-- Where no group is completed, nothing is switched. -/
theorem pages_of_not_completes (h : m.board = some (.mmc1 s)) (hs : s.Collected ws) {w : RomWrite}
    (hw : ¬ Completes ws w) :
    (m.romWrite w).cpu.pages = m.cpu.pages ∧ (m.romWrite w).ppu.pages = m.ppu.pages := by
  have hquiet : (s.write m.view w.address w.value).2 = [] := by
    by_cases hresets : w.resets = true
    · rw [s.write_resets m.view hresets]
    · replace hresets := Bool.eq_false_of_not_eq_true hresets
      rw [s.write_collects m.view hresets (mt (hs.completes_iff hresets).mp hw)]
  have hcircuit := circuit_romWrite h w
  rw [hquiet, List.foldl_nil] at hcircuit
  exact ⟨congrArg Circuit.cpu hcircuit, congrArg Circuit.ppu hcircuit⟩

/-- The protocol of the serial port. Nothing is switched but by the fifth write of a group: five writes on end that
feed the same register, with no write in common with another group. It stores and carries out the number whose
bits they are, the first one lowest. A write with bit 7 set empties the latch, and sets bits 2 and 3 of the
control register. -/
theorem serial_writes_grouped {s₀ : Mmc1} (hboard : m.board = some (.mmc1 s₀)) (ws : List RomWrite)
    (w : RomWrite) :
    let before := ws.foldl romWrite (m.withBoard (·.init m.view))
    let after := before.romWrite w
    ∃ s s', before.board = some (.mmc1 s) ∧ after.board = some (.mmc1 s') ∧
      (s.count ≤ 4 ∧ s.latch.toNat < 2 ^ s.count.toNat) ∧
      (w.resets = true → s' = { s with control := s.control ||| 0x0C, latch := 0, count := 0 }) ∧
      (¬ Completes ws w → after.cpu.pages = before.cpu.pages ∧ after.ppu.pages = before.ppu.pages) ∧
      (¬ Completes ws w → w.resets = false →
        s = { s' with latch := s.latch, count := s.count, target := s.target }) ∧
      (Completes ws w →
        (∃ earlier group value, ws = earlier ++ group ∧ group.length = 4 ∧
          (∀ v ∈ group ++ [w], v.feeds w.register = true) ∧ value.toNat = number (group ++ [w]) ∧
          s' = { s.store w.register value with latch := 0, count := 0 } ∧
          after.circuit = (s'.commit before.view w.register value).foldl Circuit.obey
            { before.circuit with board := some (.mmc1 s') }) ∧
        ∀ earlier last between, ws = earlier ++ last :: between → Completes earlier last →
          4 ≤ between.length) := by
  intro before after
  obtain ⟨s, hs, hcollected⟩ := collected_run hboard ws
  have hbounds : s.Partial := s.turn_target ▸ hcollected.partial_turn s.target
  refine ⟨s, _, hs, board_romWrite hs w, ⟨hbounds.count, hbounds.latch⟩, ?_,
    pages_of_not_completes hs hcollected, ?_, ?_⟩
  · intro hresets
    rw [s.write_resets before.view hresets]
    rfl
  · intro hmore hfeeds
    rw [s.write_collects before.view hfeeds (mt (hcollected.completes_iff hfeeds).mp hmore)]
    exact s.collect_turn w.register w.value
  · intro hcompletes
    obtain ⟨value, hvalue, hwrite⟩ := hcollected.write_completes before.view hcompletes
    obtain ⟨earlier, hsplit⟩ := @RomWrite.unfinished_suffix w.register ws
    have hcircuit := circuit_romWrite hs w
    rw [hwrite] at hcircuit ⊢
    refine ⟨⟨earlier, _, value, hsplit.symm, hcompletes.2, ?_, hvalue, rfl, hcircuit⟩, ?_⟩
    · intro v hv
      rcases List.mem_append.mp hv with hv | hv
      · exact RomWrite.feeds_of_mem hv
      · rw [List.mem_singleton.mp hv]
        exact hcompletes.feeds
    · rintro earlier last between rfl hlast
      exact hlast.apart hcompletes

/-- Five writes to $8000 that feed 1, 1, 0, 0, 0 store a 3 in the control register; a fed bit and a reset before
them are forgotten. -/
theorem serial_writes_grouped_control :
    let write (value : UInt8) : RomWrite := ⟨0x8000, value, by decide⟩
    let ws := [write 1, write 0x80, write 1, write 1, write 0, write 0]
    let m : Machine := { (default : Machine) with board := some (.mmc1 {}) }
    Completes ws (write 0) ∧ ∃ s, (([write 0].foldl romWrite
      (ws.foldl romWrite (m.withBoard (·.init m.view)))).board = some (.mmc1 s) ∧ s.control = 3) := by
  intro write ws m
  have hcompletes : Completes ws (write 0) := by decide
  obtain ⟨s, s', -, hs', -, -, -, -, hgroup⟩ :=
    serial_writes_grouped (rfl : m.board = some (.mmc1 {})) ws (write 0)
  obtain ⟨⟨earlier, group, value, hsplit, hlength, -, hvalue, hstored, -⟩, -⟩ := hgroup hcompletes
  have hearlier : earlier.length = 2 := by
    have htotal := congrArg List.length hsplit
    rw [List.length_append, hlength] at htotal
    exact Nat.add_right_cancel htotal.symm
  have hlast : group = ws.drop 2 := by rw [← hearlier, hsplit, List.drop_left]
  have hthree : value = 3 := UInt8.toNat_inj.mp (by rw [hvalue, hlast]; decide)
  have hregister : (write 0).register = 0 := by decide
  refine ⟨hcompletes, s', hs', ?_⟩
  rw [hstored, hthree, hregister]
  rfl

end Machine

end Famicom
