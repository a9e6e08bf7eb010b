import Famicom.Proofs.Bitfields
import Famicom.Proofs.Opcodes

/-!
What an instruction costs. The opcode alone settles all but three penalties, each of which looks at one thing:

    reads at (zp),Y, abs,X, abs,Y     + 1 if the index carries into the high byte
    branches                          + 1 if taken, + 1 more if they leave the page of the next instruction
    CLI, RTI                          + 7 if an interrupt that was waiting is taken

The table of base costs and the lists of opcodes stand here by themselves; that the opcode matrix agrees with them is
checked opcode by opcode (`Opcode.listed`), and what a shape of instruction costs is then one lemma (`Machine.cost_eq`).
-/

namespace Famicom

/-! ### Opcodes -/

namespace Opcode

/-- Base cycles of all opcodes in order, 0 where the processor stops. -/
def table : List Nat := [
  7, 6, 0, 8, 3, 3, 5, 5, 3, 2, 2, 2, 4, 4, 6, 6,
  2, 5, 0, 8, 4, 4, 6, 6, 2, 4, 2, 7, 4, 4, 7, 7,
  6, 6, 0, 8, 3, 3, 5, 5, 4, 2, 2, 2, 4, 4, 6, 6,
  2, 5, 0, 8, 4, 4, 6, 6, 2, 4, 2, 7, 4, 4, 7, 7,
  6, 6, 0, 8, 3, 3, 5, 5, 3, 2, 2, 2, 3, 4, 6, 6,
  2, 5, 0, 8, 4, 4, 6, 6, 2, 4, 2, 7, 4, 4, 7, 7,
  6, 6, 0, 8, 3, 3, 5, 5, 4, 2, 2, 2, 5, 4, 6, 6,
  2, 5, 0, 8, 4, 4, 6, 6, 2, 4, 2, 7, 4, 4, 7, 7,
  2, 6, 2, 6, 3, 3, 3, 3, 2, 2, 2, 2, 4, 4, 4, 4,
  2, 6, 0, 6, 4, 4, 4, 4, 2, 5, 2, 5, 5, 5, 5, 5,
  2, 6, 2, 6, 3, 3, 3, 3, 2, 2, 2, 2, 4, 4, 4, 4,
  2, 5, 0, 5, 4, 4, 4, 4, 2, 4, 2, 4, 4, 4, 4, 4,
  2, 6, 2, 8, 3, 3, 5, 5, 2, 2, 2, 2, 4, 4, 6, 6,
  2, 5, 0, 8, 4, 4, 6, 6, 2, 4, 2, 7, 4, 4, 7, 7,
  2, 6, 2, 8, 3, 3, 5, 5, 2, 2, 2, 2, 4, 4, 6, 6,
  2, 5, 0, 8, 4, 4, 6, 6, 2, 4, 2, 7, 4, 4, 7, 7]

/-- Base cycles of an opcode. -/
def cycles (opcode : UInt8) : Nat := table.getD opcode.toNat 0

/-- The opcodes that stop the processor. -/
def stops : List UInt8 := [0x02, 0x12, 0x22, 0x32, 0x42, 0x52, 0x62, 0x72, 0x92, 0xB2, 0xD2, 0xF2]

/-- The mode of an opcode that pays for a crossed page: ORA, AND, EOR, ADC, LDA, CMP and SBC in all three, LAX at (zp),Y
and abs,Y, LDY at abs,X, LDX and LAS at abs,Y. -/
def pagedMode? (opcode : UInt8) : Option Mode :=
  if opcode ∈ [0x11, 0x31, 0x51, 0x71, 0xB1, 0xD1, 0xF1, 0xB3] then some .indirectY
  else if opcode ∈ [0x1D, 0x3D, 0x5D, 0x7D, 0xBD, 0xDD, 0xFD, 0xBC] then some .absoluteX
  else if opcode ∈ [0x19, 0x39, 0x59, 0x79, 0xB9, 0xD9, 0xF9, 0xBE, 0xBF, 0xBB] then some .absoluteY
  else none

/-- The flag that a branch looks at, and the value for which it is taken. -/
def branchOn? : UInt8 → Option (Flag × Bool)
  | 0x10 => some (.negative, false)
  | 0x30 => some (.negative, true)
  | 0x50 => some (.overflow, false)
  | 0x70 => some (.overflow, true)
  | 0x90 => some (.carry, false)
  | 0xB0 => some (.carry, true)
  | 0xD0 => some (.zero, false)
  | 0xF0 => some (.zero, true)
  | _ => none

end Opcode

namespace Instruction

/-- Cycles of an instruction without penalties. -/
def cycles : Instruction → Int
  | .load _ mode => mode.loadCost
  | .store _ mode => mode.storeCost
  | .modify _ mode => mode.modifyCost
  | .accumulator _ => 2
  | .implied op => op.cost
  | .branch _ _ => 2
  | .brk => 7
  | .jsr | .rti | .rts => 6
  | .jmp => 3
  | .jmpIndirect => 5
  | .skip _ cost => cost
  | .jam => 0

/-- The mode of a read that pays for a crossed page. -/
def pagedMode? : Instruction → Option Mode
  | .load _ .absoluteX => some .absoluteX
  | .load _ .absoluteY => some .absoluteY
  | .load _ .indirectY => some .indirectY
  | _ => none

/-- What a branch looks at, and the value for which it is taken. -/
def branchOn? : Instruction → Option (Flag × Bool)
  | .branch flag value => some (flag, value)
  | _ => none

end Instruction

namespace Opcode

open Instruction (decode matrix)

variable (opcode : UInt8)

/-- An instruction costs what the table and the lists say of its opcode. -/
structure Listed (i : Instruction) (opcode : UInt8) : Prop where
  stops : i = .jam ↔ opcode ∈ stops
  cycles : i.cycles = cycles opcode
  paged : i.pagedMode? = pagedMode? opcode
  branch : i.branchOn? = branchOn? opcode
  opens : i.opensInterrupts = true ↔ opcode = 0x40 ∨ opcode = 0x58

theorem listed : Listed (decode opcode) opcode where
  stops := by
    rw [← decide_eq_decide]
    exact of_matrix (f := fun i => decide (i = .jam)) (g := fun opcode => decide (opcode ∈ stops))
      (by decide +kernel) opcode
  cycles := by
    have hrow : matrix.toList.map Instruction.cycles = table.map Int.ofNat := by decide +kernel
    have hat := map_matrix Instruction.cycles opcode
    rw [hrow, List.getElem?_map] at hat
    obtain ⟨n, hn, hcycles⟩ := Option.map_eq_some_iff.mp hat
    rw [← hcycles, Opcode.cycles, List.getD_eq_getElem?_getD, hn]
    rfl
  paged := of_matrix (by decide +kernel) opcode
  branch := of_matrix (by decide +kernel) opcode
  opens := by
    have hopens : (decode opcode).opensInterrupts = decide (opcode = 0x40 ∨ opcode = 0x58) :=
      of_matrix (g := fun opcode => decide (opcode = 0x40 ∨ opcode = 0x58)) (by decide +kernel) opcode
    rw [hopens, decide_eq_true_eq]

/-- What does not stop takes two to eight cycles. -/
theorem cycles_bounds (h : opcode ∉ stops) : 2 ≤ cycles opcode ∧ cycles opcode ≤ 8 := by
  have hbounds := of_matrix (f := fun i => decide (i = .jam ∨ 2 ≤ i.cycles ∧ i.cycles ≤ 8)) (g := fun _ => true)
    (by decide +kernel) opcode
  rw [decide_eq_true_eq, (listed opcode).stops, (listed opcode).cycles] at hbounds
  have hcycles := hbounds.resolve_left h
  omega

end Opcode

/-! ### Pages -/

/-- The page of an address. -/
def pageOf (address : Nat) : Nat := address / 0x100

/-- The address at a distance that a signed byte gives; addresses wrap at 65536. -/
def displaced (address : Nat) (offset : UInt8) : Nat :=
  ((address + Int.bmod offset.toNat 0x100) % 0x10000).toNat

/-- The sum's low byte is less than the index exactly if the sum is on another page. -/
theorem lt_index_iff (base : UInt16) (index : UInt8) : (base + index.toUInt16).toUInt8 < index ↔
    pageOf ((base.toNat + index.toNat) % 0x10000) ≠ pageOf base.toNat := by
  have hbase := base.toNat_lt
  have hindex := index.toNat_lt
  rw [UInt8.lt_iff_toNat_lt, UInt16.toNat_toUInt8, UInt16.toNat_add, UInt8.toNat_toUInt16, pageOf, pageOf]
  omega

theorem toNat_signed (offset : UInt8) :
    ((Cpu.signed offset).toNat : Int) = Int.bmod offset.toNat 0x100 % 0x10000 := by
  have hlt := offset.toNat_lt
  have hfilled : (0xFF00 : UInt16) = (0xFF : UInt8).toUInt16 <<< 8 := rfl
  have hsign : offset < 0x80 ↔ offset.toNat < 0x80 := Iff.rfl
  rw [Int.bmod_def, Cpu.signed]
  by_cases h : offset < 0x80
  · rw [if_pos h, UInt8.toNat_toUInt16]
    rw [hsign] at h
    omega
  · have hhigh : (0xFF : UInt8).toNat = 0xFF := rfl
    rw [if_neg h, UInt16.or_comm, hfilled, toNat_word]
    rw [hsign] at h
    omega

/-- The carry or the borrow out of the low byte tells exactly whether the target is on another page. -/
theorem leavesPage_iff (address : UInt16) (offset : UInt8) :
    Cpu.leavesPage address offset = true ↔ pageOf (displaced address.toNat offset) ≠ pageOf address.toNat := by
  have hsigned := toNat_signed offset
  have hlow : -0x80 ≤ Int.bmod offset.toNat 0x100 := Int.le_bmod (by decide)
  have hhigh : Int.bmod offset.toNat 0x100 < 0x80 := Int.bmod_lt (by decide)
  have hbyte : (address &&& 0x00FF).toNat = address.toNat % 0x100 := by
    rw [UInt16.toNat_and]
    exact Nat.and_two_pow_sub_one_eq_mod _ 8
  have hbit (w : UInt16) : (w &&& 0x0100).toNat = w.toNat / 2 ^ 8 % 2 ^ 1 * 2 ^ 8 := toNat_and_field w 8 1 rfl
  rw [Cpu.leavesPage, bne_iff_ne, ne_eq, ← UInt16.toNat_inj, hbit, UInt16.toNat_add, hbyte]
  unfold displaced pageOf
  generalize Int.bmod offset.toNat 0x100 = distance at hsigned hlow hhigh ⊢
  generalize (Cpu.signed offset).toNat = shift at hsigned ⊢
  have haddress := address.toNat_lt
  have hzero : (0 : UInt16).toNat = 0 := rfl
  omega

/-! ### Penalties -/

namespace Cpu

variable (c : Cpu) (cart : Cartridge)

/-- The address before indexing, of the modes that may cross a page. -/
def unindexed (c : Cpu) (cart : Cartridge) : Mode → Nat
  | .indirectY => (c.zeroPageWord (c.peek cart c.pc)).toNat
  | _ => (c.peekWord cart c.pc).toNat

/-- The index of the modes that may cross a page. -/
def index (c : Cpu) : Mode → Nat
  | .absoluteX => c.x.toNat
  | _ => c.y.toNat

/-- One cycle if the effective address is on another page than the address before indexing. -/
def pagePenalty (c : Cpu) (cart : Cartridge) : Option Mode → Nat
  | none => 0
  | some mode =>
    if pageOf ((c.unindexed cart mode + c.index mode) % 0x10000) = pageOf (c.unindexed cart mode) then 0 else 1

/-- One cycle for a taken branch, and one more if it leaves the page of the next instruction. -/
def branchPenalty (c : Cpu) (cart : Cartridge) : Option (Flag × Bool) → Nat
  | none => 0
  | some (flag, value) =>
    let next := (c.pc.toNat + 1) % 0x10000
    if c.flag flag = value then
      if pageOf (displaced next (c.peek cart c.pc)) = pageOf next then 1 else 2
    else 0

/-- An index that carries is one that the sum's low byte is less than. -/
theorem carry_eq (base : UInt16) (i : UInt8) : (if i > (base + i.toUInt16).toUInt8 then 1 else 0 : Int) =
    (if pageOf ((base.toNat + i.toNat) % 0x10000) = pageOf base.toNat then 0 else 1 : Nat) := by
  by_cases h : pageOf ((base.toNat + i.toNat) % 0x10000) = pageOf base.toNat
  · rw [if_pos h, if_neg fun hlt => (lt_index_iff base i).mp hlt h]
    rfl
  · rw [if_neg h, if_pos ((lt_index_iff base i).mpr h)]
    rfl

theorem cost_load (op : Load) (mode : Mode) :
    (if c.crossed mode (c.effective cart mode) then 1 else 0 : Int) =
      c.pagePenalty cart (Instruction.load op mode).pagedMode? := by
  cases mode with
  | absoluteX =>
    simp only [crossed, decide_eq_true_eq]
    exact carry_eq (c.peekWord cart c.pc) c.x
  | absoluteY =>
    simp only [crossed, decide_eq_true_eq]
    exact carry_eq (c.peekWord cart c.pc) c.y
  | indirectY =>
    simp only [crossed, decide_eq_true_eq]
    exact carry_eq (c.zeroPageWord (c.peek cart c.pc)) c.y
  | _ => rfl

theorem cost_branch_eq (flag : Flag) (value : Bool) :
    ((c.advance 1).branch (c.peek cart c.pc) (c.flag flag == value)).1 =
      2 + c.branchPenalty cart (some (flag, value)) := by
  have hnext : (c.advance 1).pc.toNat = (c.pc.toNat + 1) % 0x10000 := UInt16.toNat_add c.pc 1
  have hleaves := leavesPage_iff (c.advance 1).pc (c.peek cart c.pc)
  rw [hnext] at hleaves
  unfold branch
  simp only [branchPenalty]
  by_cases htaken : c.flag flag = value
  · rw [beq_iff_eq.mpr htaken, if_pos htaken, if_neg (by decide)]
    by_cases hsame : pageOf (displaced ((c.pc.toNat + 1) % 0x10000) (c.peek cart c.pc)) =
        pageOf ((c.pc.toNat + 1) % 0x10000)
    · rw [if_pos hsame, if_neg fun h => hleaves.mp h hsame]
      rfl
    · rw [if_neg hsame, if_pos (hleaves.mpr hsame)]
      rfl
  · rw [beq_eq_false_iff_ne.mpr htaken, if_neg htaken, if_pos (by decide)]
    rfl

end Cpu

namespace Machine

variable (m : Machine)

/-- What an instruction costs, its operand bytes being at the program counter. -/
theorem cost_eq (i : Instruction) : (m.perform i).1 =
    i.cycles + m.cpu.pagePenalty m.cart i.pagedMode? + m.cpu.branchPenalty m.cart i.branchOn? := by
  cases i with
  | load op mode =>
    have hcost : (m.perform (.load op mode)).1 =
        mode.loadCost + if m.cpu.crossed mode (m.cpu.effective m.cart mode) then 1 else 0 := by
      simp only [perform, load]
      split <;> rfl
    rw [hcost, m.cpu.cost_load m.cart op mode]
    exact (Int.add_zero _).symm
  | branch flag value =>
    have hcost : (m.perform (.branch flag value)).1 =
        ((m.cpu.advance 1).branch (m.cpu.peek m.cart m.cpu.pc) (m.cpu.flag flag == value)).1 := rfl
    rw [hcost, m.cpu.cost_branch_eq m.cart flag value]
    rfl
  | _ =>
    simp only [perform, store, modify, Instruction.cycles, Instruction.pagedMode?, Instruction.branchOn?,
      Cpu.pagePenalty, Cpu.branchPenalty]
    omega

/-- What the next instruction pays for a crossed page. -/
def pagePenalty (m : Machine) : Nat := (m.cpu.advance 1).pagePenalty m.cart (Opcode.pagedMode? m.opcode)

/-- What the next instruction pays for a taken branch. -/
def branchPenalty (m : Machine) : Nat := (m.cpu.advance 1).branchPenalty m.cart (Opcode.branchOn? m.opcode)

/-- The next instruction lets a waiting interrupt in: it is CLI, or RTI and the status on the stack does not mask
interrupts, and its own cycles leave some of the slice. -/
def letsIn (m : Machine) : Bool :=
  (m.opcode == 0x58 || m.opcode == 0x40 && m.cpu.pull.1 &&& 0x04 == 0) && m.cpu.pending &&
    (Opcode.cycles m.opcode : Int) < m.cpu.budget

/-- What the next instruction pays for an interrupt that it lets in. -/
def entryPenalty (m : Machine) : Nat := if m.letsIn then 7 else 0

theorem clock_performed : m.performed.2.cpu.clock = m.cpu.clock := by
  cases h : m.transfers with
  | true => exact (m.performed_transfer h).2.2
  | false => exact (m.performed_plain h).clock

theorem cost_performed_eq :
    m.performed.1 = (Opcode.cycles m.opcode + m.pagePenalty + m.branchPenalty : Nat) := by
  have hlisted := Opcode.listed m.opcode
  rw [performed, cost_eq, nextInstruction_eq, hlisted.cycles, hlisted.paged, hlisted.branch, Int.natCast_add,
    Int.natCast_add]
  rfl

/-! ### Waiting interrupts -/

theorem serves_iff (c : Cpu) (cost : Int) (cart : Cartridge) :
    ((c.spend cost).servePending cart).clock =
        c.clock + cost.toNat + (if !c.flag .interrupt && c.pending && decide (cost < c.budget) then 7 else 0) ∧
      (((!c.flag .interrupt && c.pending && decide (cost < c.budget)) = true) ↔
        c.pending = true ∧ ((c.spend cost).servePending cart).pending = false) := by
  have hbudget : decide ((c.spend cost).budget > 0) = decide (cost < c.budget) :=
    decide_eq_decide.mpr (show c.budget - cost > 0 ↔ cost < c.budget by omega)
  have hserve : (c.spend cost).servePending cart =
      if !c.flag .interrupt && c.pending && decide (cost < c.budget) then
        (({ c.spend cost with pending := false }).enter cart Cpu.irqVector).spend Cpu.interruptCycles
      else c.spend cost := by
    rw [← hbudget]
    rfl
  rw [hserve]
  cases hserves : !c.flag .interrupt && c.pending && decide (cost < c.budget) with
  | true =>
    simp only [Bool.and_eq_true] at hserves
    exact ⟨rfl, iff_of_true rfl ⟨hserves.1.2, rfl⟩⟩
  | false => exact ⟨rfl, iff_of_false Bool.false_ne_true fun h => Bool.false_ne_true (h.2.symm.trans h.1)⟩

/-- The interrupt flag's bit of a status that was pulled. -/
theorem pulled_bit (b : UInt8) : (b ||| 0x20) &&& 0x04 = b &&& 0x04 := by
  have hbits : (0x20 : UInt8) &&& 0x04 = 0 := rfl
  rw [or_and_distrib, hbits, UInt8.or_zero]

theorem cleared_bit (p : UInt8) : (p &&& ~~~ 0x04 ||| 0x20) &&& 0x04 = 0 := by
  have hbits : (~~~ 0x04 : UInt8) &&& 0x04 = 0 := rfl
  rw [pulled_bit, UInt8.and_assoc, hbits, UInt8.and_zero]

/-- CLI and RTI cost their base cycles and leave an interrupt waiting; what they do to the interrupt flag. -/
theorem performed_opens (h : m.opcode = 0x40 ∨ m.opcode = 0x58) :
    m.performed.1 = Opcode.cycles m.opcode ∧ m.performed.2.cpu.pending = m.cpu.pending ∧
      m.performed.2.cpu.budget = m.cpu.budget ∧
      (!m.performed.2.cpu.flag .interrupt) =
        (m.opcode == 0x58 || m.opcode == 0x40 && m.cpu.pull.1 &&& 0x04 == 0) := by
  rcases h with h | h
  · have hnext : m.nextInstruction = .rti := by
      rw [nextInstruction_eq, h]
      decide +kernel
    rw [performed, hnext, h]
    refine ⟨rfl, rfl, rfl, ?_⟩
    show (!((m.cpu.pull.1 ||| 0x20) &&& 0x04 != 0)) = _
    rw [pulled_bit, bne, Bool.not_not]
    rfl
  · have hnext : m.nextInstruction = .implied .cli := by
      rw [nextInstruction_eq, h]
      decide +kernel
    rw [performed, hnext, h]
    refine ⟨rfl, rfl, rfl, ?_⟩
    show (!((m.cpu.p &&& ~~~ 0x04 ||| 0x20) &&& 0x04 != 0)) = _
    rw [cleared_bit]
    rfl

/-- What CLI and RTI take, the interrupt included that they let in. -/
theorem step_opens (h : m.opcode = 0x40 ∨ m.opcode = 0x58) :
    m.step.cpu.clock = m.cpu.clock + (Opcode.cycles m.opcode + m.entryPenalty) ∧
      (m.letsIn = true ↔ m.cpu.pending = true ∧ m.step.cpu.pending = false) := by
  have hopens : m.nextInstruction.opensInterrupts = true := (Opcode.listed m.opcode).opens.mpr h
  have hjam : m.nextInstruction ≠ .jam := by
    intro hjam
    rw [hjam] at hopens
    exact Bool.false_ne_true hopens
  obtain ⟨hcost, hpending, hbudget, hmask⟩ := m.performed_opens h
  have hclock := m.clock_performed
  obtain ⟨htime, hserved⟩ := serves_iff m.performed.2.cpu m.performed.1 m.performed.2.cart
  have hlets : (!m.performed.2.cpu.flag .interrupt && m.performed.2.cpu.pending &&
      decide (m.performed.1 < m.performed.2.cpu.budget)) = m.letsIn := by
    rw [hmask, hpending, hbudget, hcost]
    rfl
  rw [hlets] at htime hserved
  rw [hpending] at hserved
  rw [m.step_performed hjam, if_pos hopens]
  refine ⟨htime.trans ?_, hserved⟩
  rw [hclock, hcost, entryPenalty]
  omega

/-- What all other instructions take. -/
theorem step_closed (hjam : m.nextInstruction ≠ .jam) (h : ¬ (m.opcode = 0x40 ∨ m.opcode = 0x58)) :
    m.step.cpu.clock = m.cpu.clock + (Opcode.cycles m.opcode + m.pagePenalty + m.branchPenalty) := by
  have hclosed : ¬ m.nextInstruction.opensInterrupts = true := mt (Opcode.listed m.opcode).opens.mp h
  rw [m.step_performed hjam, if_neg hclosed]
  show m.performed.2.cpu.clock + m.performed.1.toNat = _
  rw [m.clock_performed, m.cost_performed_eq, Int.toNat_natCast]

/-- The law of costs. An instruction takes the base cycles of its opcode, two to eight of them; one more if it is a
read at an indexed address that leaves the page of its base; one or two more if it is a branch that is taken; seven
more if it is CLI or RTI and lets a waiting interrupt in. Nothing else in the machine makes a difference. -/
theorem step_takes (h : m.opcode ∉ Opcode.stops) :
    m.step.cpu.clock =
        m.cpu.clock + (Opcode.cycles m.opcode + m.pagePenalty + m.branchPenalty + m.entryPenalty) ∧
      (2 ≤ Opcode.cycles m.opcode ∧ Opcode.cycles m.opcode ≤ 8) ∧
      (m.letsIn = true ↔
        (m.opcode = 0x40 ∨ m.opcode = 0x58) ∧ m.cpu.pending = true ∧ m.step.cpu.pending = false) := by
  have hjam : m.nextInstruction ≠ .jam := mt (Opcode.listed m.opcode).stops.mp h
  have hbounds := Opcode.cycles_bounds m.opcode h
  by_cases hopens : m.opcode = 0x40 ∨ m.opcode = 0x58
  · obtain ⟨hclock, hlets⟩ := m.step_opens hopens
    have hpage : m.pagePenalty = 0 := by
      rcases hopens with hopcode | hopcode <;> rw [pagePenalty, hopcode] <;> rfl
    have hbranch : m.branchPenalty = 0 := by
      rcases hopens with hopcode | hopcode <;> rw [branchPenalty, hopcode] <;> rfl
    exact ⟨by omega, hbounds, by rw [hlets, and_iff_right hopens]⟩
  · have hlets : m.letsIn = false := by
      rw [not_or] at hopens
      simp [letsIn, hopens]
    have hentry : m.entryPenalty = 0 := by rw [entryPenalty, hlets, if_neg Bool.false_ne_true]
    have hclock := m.step_closed hjam hopens
    exact ⟨by omega, hbounds, by simp [hlets, hopens]⟩

/-- A branch at $0000 that leads back to $FFF0 and CLI with an interrupt waiting, both from memory. -/
theorem step_takes_wrapping :
    let ram := (Memory.zero 0x800).writeList 0 [0xF0, 0xEE, 0x58]
    let back : Machine := { cpu := { ram } }
    let clear : Machine := { cpu := { ram, pc := 2, pending := true, budget := 3 } }
    back.opcode ∉ Opcode.stops ∧ back.step.cpu.clock = 4 ∧ clear.opcode ∉ Opcode.stops ∧
      clear.step.cpu.clock = 9 := by
  intro ram back clear
  have hback : back.opcode ∉ Opcode.stops := by decide +kernel
  have hclear : clear.opcode ∉ Opcode.stops := by decide +kernel
  refine ⟨hback, (step_takes back hback).1.trans ?_, hclear, (step_takes clear hclear).1.trans ?_⟩
  · decide +kernel
  · decide +kernel

end Machine

end Famicom
