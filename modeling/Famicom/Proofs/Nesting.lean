import Famicom.Proofs.BaseBlock
import Famicom.Proofs.Opcodes
import Famicom.Proofs.Split

/-!
Interrupts, calls and saved registers nest. Each of them puts something on the stack that its counterpart takes off
again, whatever else has come and gone in between:

    NMI, IRQ     high byte, low byte of PC, P without B          RTI
    BRK          high byte, low byte of PC + 2, P with B         RTI
    JSR          high byte, low byte of PC + 2                   RTS, which goes on behind it
    PHA          A                                               PLA
    PHP          P with B                                        PLP

The stack pointer is a byte that wraps, so that all 256 bytes of the stack page can be in use, wherever it starts. The
bytes in use are kept here as a list with the last one first (`Cpu.Keeps`), and what is still to be taken off as a list
of what put it there (`Machine.Nested`).
-/

namespace Famicom

/-! ### The stack as a list -/

namespace Cpu

/-- Where the stack pointer is after so many bytes, from `s` on. -/
def below (s : UInt8) (depth : Nat) : UInt8 := s - UInt8.ofNat depth

/-- The address at which the byte with so many others before it lies. -/
def cell (s : UInt8) (depth : Nat) : Nat := 0x100 + (below s depth).toNat

/-- The bytes on the stack from `s` down, the last one first. -/
def Holds (s : UInt8) (ram : Memory 0x800) : List UInt8 → Prop
  | [] => True
  | b :: bytes => ram.read (cell s bytes.length) = b ∧ Holds s ram bytes

/-- Work that leaves the stack and the rest of RAM alone. -/
structure Spares (c d : Cpu) : Prop where
  pointer : d.s = c.s
  ram : d.ram = c.ram
  jammed : d.jammed = c.jammed
  pending : d.pending = c.pending

/-- From the processor `c` on, these bytes have been put on the stack, and only the `limit` bytes down from its stack
pointer may have changed. -/
structure Keeps (c : Cpu) (limit : Nat) (bytes : List UInt8) (d : Cpu) : Prop where
  pointer : d.s = below c.s bytes.length
  holds : Holds c.s d.ram bytes
  frame : ∀ address < 0x800, (∀ i < limit, address ≠ cell c.s i) → d.ram.read address = c.ram.read address
  jammed : d.jammed = c.jammed
  pending : d.pending = c.pending

variable {c d e : Cpu} {s b : UInt8} {w : UInt16} {limit : Nat} {bytes : List UInt8}

theorem below_zero (s : UInt8) : below s 0 = s := UInt8.sub_zero s

theorem below_succ (s : UInt8) (depth : Nat) : below s (depth + 1) = below s depth - 1 := by
  have hnext : UInt8.ofNat (depth + 1) = UInt8.ofNat depth + 1 := UInt8.ofNat_add depth 1
  rw [below, below, hnext]
  grind

/-- No two of 256 bytes share a cell. -/
theorem cell_injective {i j : Nat} (hi : i < 0x100) (hj : j < 0x100) (h : cell s i = cell s j) : i = j := by
  have hbelow : s - UInt8.ofNat i = s - UInt8.ofNat j := UInt8.toNat_inj.mp (Nat.add_left_cancel h)
  have hoffset : UInt8.ofNat i = UInt8.ofNat j := by grind
  have hnat := congrArg UInt8.toNat hoffset
  rwa [UInt8.toNat_ofNat_of_lt' hi, UInt8.toNat_ofNat_of_lt' hj] at hnat

theorem cell_lt (s : UInt8) (depth : Nat) : cell s depth < 0x800 := by
  have hbelow := (below s depth).toNat_lt
  rw [cell]
  omega

/-- A write above the bytes on the stack leaves them alone. -/
theorem Holds.write {ram : Memory 0x800} {depth : Nat} (h : Holds s ram bytes) (hdepth : bytes.length ≤ depth)
    (hlow : depth < 0x100) (value : UInt8) : Holds s (ram.write (cell s depth) value) bytes := by
  induction bytes with
  | nil => trivial
  | cons b bytes ih =>
    rw [List.length_cons] at hdepth
    have hcell : cell s depth ≠ cell s bytes.length := fun heq => by
      have := cell_injective hlow (by omega) heq
      omega
    have hmod : cell s depth % 0x800 ≠ cell s bytes.length % 0x800 := by
      rwa [Nat.mod_eq_of_lt (cell_lt s _), Nat.mod_eq_of_lt (cell_lt s _)]
    exact ⟨(ram.read_write_of_ne value hmod).trans h.1, ih h.2 (by omega)⟩

namespace Keeps

theorem refl (c : Cpu) (limit : Nat) : Keeps c limit [] c :=
  ⟨(below_zero c.s).symm, trivial, fun _ _ _ => rfl, rfl, rfl⟩

theorem spares (h : Keeps c limit bytes d) (hspares : Spares d e) : Keeps c limit bytes e := by
  obtain ⟨pointer, ram, jammed, pending⟩ := hspares
  exact ⟨pointer.trans h.pointer, ram ▸ h.holds, ram ▸ h.frame, jammed.trans h.jammed, pending.trans h.pending⟩

theorem mono (h : Keeps c limit bytes d) {used : Nat} (hle : limit ≤ used) : Keeps c used bytes d :=
  { h with frame := fun address haddress hcells =>
      h.frame address haddress fun i hi => hcells i (Nat.lt_of_lt_of_le hi hle) }

theorem advance (h : Keeps c limit bytes d) (count : UInt16) : Keeps c limit bytes (d.advance count) :=
  h.spares ⟨rfl, rfl, rfl, rfl⟩

theorem spend (h : Keeps c limit bytes d) (cycles : Int) : Keeps c limit bytes (d.spend cycles) :=
  h.spares ⟨rfl, rfl, rfl, rfl⟩

theorem charge (h : Keeps c limit bytes d) (cycles : Int) : Keeps c limit bytes (d.charge cycles) :=
  h.spares ⟨rfl, rfl, rfl, rfl⟩

theorem push (h : Keeps c limit bytes d) (hlimit : limit ≤ 0x100) (hfit : bytes.length < limit) (value : UInt8) :
    Keeps c limit (value :: bytes) (d.push value) := by
  have hram : (d.push value).ram = d.ram.write (cell c.s bytes.length) value := by
    rw [cell, ← h.pointer]
    rfl
  refine ⟨?_, ?_, ?_, h.jammed, h.pending⟩
  · rw [List.length_cons, below_succ, ← h.pointer]
    rfl
  · rw [hram]
    exact ⟨d.ram.read_write_self (by decide) _ value, h.holds.write (Nat.le_refl _) (by omega) value⟩
  · intro address haddress hcells
    have hmod : cell c.s bytes.length % 0x800 ≠ address % 0x800 := by
      rw [Nat.mod_eq_of_lt (cell_lt _ _), Nat.mod_eq_of_lt haddress]
      exact (hcells _ hfit).symm
    rw [hram, d.ram.read_write_of_ne value hmod]
    exact h.frame address haddress hcells

/-- What was put on the stack last comes off first. -/
theorem pull (h : Keeps c limit (b :: bytes) d) : d.pull.1 = b ∧ Keeps c limit bytes d.pull.2 := by
  have hpointer : d.s + 1 = below c.s bytes.length := by
    rw [h.pointer, List.length_cons, below_succ]
    exact UInt8.sub_add_cancel _ _
  refine ⟨?_, hpointer, h.holds.2, h.frame, h.jammed, h.pending⟩
  rw [← h.holds.1, cell, ← hpointer]
  rfl

end Keeps

/-- A word on the stack, its low byte last. -/
def stackedWord (w : UInt16) : List UInt8 := [w.toUInt8, (w >>> 8).toUInt8]

theorem Keeps.pushWord (h : Keeps c limit bytes d) (hlimit : limit ≤ 0x100) (hfit : bytes.length + 2 ≤ limit)
    (w : UInt16) : Keeps c limit (stackedWord w ++ bytes) (d.pushWord w) :=
  (h.push hlimit (by omega) (w >>> 8).toUInt8).push hlimit hfit w.toUInt8

theorem Keeps.pullWord (h : Keeps c limit (stackedWord w ++ bytes) d) :
    d.pullWord.1 = w ∧ Keeps c limit bytes d.pullWord.2 := by
  obtain ⟨hlo, hlow⟩ := h.pull
  obtain ⟨hhi, hhigh⟩ := hlow.pull
  refine ⟨?_, hhigh⟩
  show (d.pull.2.pull.1.toUInt16 <<< 8) ||| d.pull.1.toUInt16 = w
  rw [hlo, hhi]
  exact Snapshot.word_wordBytes w

/-! ### Interrupts and calls -/

/-- The status as it is put on the stack: hardware clears the break flag, a program sets it. -/
def stackedStatus (hardware : Bool) (p : UInt8) : UInt8 :=
  (if hardware then p &&& ~~~ Flag.break.mask else p ||| Flag.break.mask) ||| Flag.unused.mask

theorem stackedStatus_or_unused (hardware : Bool) (p : UInt8) :
    stackedStatus hardware p ||| Flag.unused.mask = stackedStatus hardware p := by
  rw [stackedStatus, UInt8.or_assoc, UInt8.or_self]

theorem stackedStatus_and_break (hardware : Bool) (p : UInt8) :
    stackedStatus hardware p &&& Flag.break.mask = if hardware then 0 else Flag.break.mask := by
  have hunused : Flag.unused.mask &&& Flag.break.mask = 0 := rfl
  have hcleared : ~~~ Flag.break.mask &&& Flag.break.mask = 0 := rfl
  rw [stackedStatus, or_and_distrib, hunused, UInt8.or_zero]
  cases hardware with
  | true => rw [if_pos rfl, if_pos rfl, UInt8.and_assoc, hcleared, UInt8.and_zero]
  | false => rw [if_neg Bool.false_ne_true, if_neg Bool.false_ne_true, or_and_self]

namespace Keeps

variable (h : Keeps c limit bytes d) (hlimit : limit ≤ 0x100) (cart : Cartridge)
include h hlimit

theorem enter (hfit : bytes.length + 3 ≤ limit) (vector : UInt16) :
    Keeps c limit (stackedStatus true d.p :: stackedWord d.pc ++ bytes) (d.enter cart vector) := by
  have hword := h.pushWord hlimit (by omega) d.pc
  exact (hword.push hlimit hfit (stackedStatus true d.p)).spares ⟨rfl, rfl, rfl, rfl⟩

theorem brk (hfit : bytes.length + 3 ≤ limit) :
    Keeps c limit (stackedStatus false d.p :: stackedWord (d.pc + 1) ++ bytes) (d.brk cart) := by
  have hword := h.pushWord hlimit (by omega) (d.pc + 1)
  exact (hword.push hlimit hfit (stackedStatus false d.p)).spares ⟨rfl, rfl, rfl, rfl⟩

theorem jsr (hfit : bytes.length + 2 ≤ limit) :
    Keeps c limit (stackedWord (d.pc + 1) ++ bytes) (d.jsr cart) :=
  (h.pushWord hlimit hfit (d.pc + 1)).spares ⟨rfl, rfl, rfl, rfl⟩

end Keeps

theorem Keeps.rti (h : Keeps c limit (b :: stackedWord w ++ bytes) d) :
    d.rti.pc = w ∧ d.rti.p = b ||| Flag.unused.mask ∧ Keeps c limit bytes d.rti := by
  obtain ⟨hstatus, hword⟩ := h.pull
  obtain ⟨hpc, hkeeps⟩ := hword.pullWord
  exact ⟨hpc, congrArg (· ||| Flag.unused.mask) hstatus, hkeeps.spares ⟨rfl, rfl, rfl, rfl⟩⟩

theorem Keeps.rts (h : Keeps c limit (stackedWord w ++ bytes) d) :
    d.rts.pc = w + 1 ∧ Keeps c limit bytes d.rts := by
  obtain ⟨hpc, hkeeps⟩ := h.pullWord
  exact ⟨congrArg (· + 1) hpc, hkeeps.spares ⟨rfl, rfl, rfl, rfl⟩⟩

theorem Keeps.pla (h : Keeps c limit (b :: bytes) d) :
    (Implied.pla.apply d).a = b ∧ Keeps c limit bytes (Implied.pla.apply d) := by
  obtain ⟨ha, hkeeps⟩ := h.pull
  exact ⟨ha, hkeeps.spares ⟨rfl, rfl, rfl, rfl⟩⟩

theorem Keeps.plp (h : Keeps c limit (b :: bytes) d) :
    (Implied.plp.apply d).p = b ||| Flag.unused.mask ∧ Keeps c limit bytes (Implied.plp.apply d) := by
  obtain ⟨hp, hkeeps⟩ := h.pull
  exact ⟨congrArg (· ||| Flag.unused.mask) hp, hkeeps.spares ⟨rfl, rfl, rfl, rfl⟩⟩

end Cpu

/-! ### What is put on the stack -/

/-- What puts something on the stack. -/
inductive Save where
  | nmi | irq | brk | jsr | pha | php
  deriving DecidableEq, Repr

namespace Save

open Machine

/-- The opcode of the counterpart: RTI, RTS, PLA or PLP. -/
def counterpart : Save → UInt8
  | .nmi | .irq | .brk => 0x40
  | .jsr => 0x60
  | .pha => 0x68
  | .php => 0x28

/-- When it may happen: an NMI at any time, a request while interrupts are open, an instruction at its opcode. -/
def Occurs (save : Save) (m : Machine) : Prop :=
  match save with
  | .nmi => True
  | .irq => m.cpu.flag .interrupt = false
  | .brk => m.opcode = 0x00
  | .jsr => m.opcode = 0x20
  | .pha => m.opcode = 0x48
  | .php => m.opcode = 0x08

/-- The machine after it. -/
def after (save : Save) (m : Machine) : Machine :=
  match save with
  | .nmi => m.mapCpu (·.nmi m.cart)
  | .irq => m.mapCpu (·.irq m.cart)
  | .brk | .jsr | .pha | .php => m.step

/-- The hardware's own, as against a program's. -/
def isHardware : Save → Bool
  | .nmi | .irq => true
  | .brk | .jsr | .pha | .php => false

/-- The status as it is put on the stack. -/
def status (save : Save) (p : UInt8) : UInt8 := Cpu.stackedStatus save.isHardware p

/-- The bytes that it puts on the stack of a machine, the last one first. -/
def bytes (save : Save) (m : Machine) : List UInt8 :=
  match save with
  | .nmi | .irq => save.status m.cpu.p :: Cpu.stackedWord m.cpu.pc
  | .brk => save.status m.cpu.p :: Cpu.stackedWord (m.cpu.pc + 2)
  | .jsr => Cpu.stackedWord (m.cpu.pc + 2)
  | .pha => [m.cpu.a]
  | .php => [save.status m.cpu.p]

theorem length_bytes_le (save : Save) (m : Machine) : (save.bytes m).length ≤ 3 := by
  cases save <;> simp [bytes, Cpu.stackedWord]

/-- What was put on the stack in the machine `m` is back in the machine `n`. -/
def Returns (save : Save) (m n : Machine) : Prop :=
  match save with
  | .nmi | .irq => n.cpu.pc = m.cpu.pc ∧ n.cpu.p = save.status m.cpu.p
  | .brk => n.cpu.pc = m.cpu.pc + 2 ∧ n.cpu.p = save.status m.cpu.p
  | .jsr => n.cpu.pc = m.cpu.pc + 3
  | .pha => n.cpu.a = m.cpu.a
  | .php => n.cpu.p = save.status m.cpu.p

end Save

namespace Machine

variable {m n k : Machine} {c : Cpu} {save : Save} {limit used : Nat} {below : List UInt8} {b : UInt8} {w : UInt16}

/-! ### One instruction on the stack -/

/-- The opcodes that use the stack. -/
theorem decode_stack : Instruction.decode 0x00 = .brk ∧ Instruction.decode 0x08 = .implied .php ∧
    Instruction.decode 0x20 = .jsr ∧ Instruction.decode 0x28 = .implied .plp ∧ Instruction.decode 0x40 = .rti ∧
    Instruction.decode 0x48 = .implied .pha ∧ Instruction.decode 0x60 = .rts ∧
    Instruction.decode 0x68 = .implied .pla := by
  decide +kernel

/-- Without an interrupt that waits, such an instruction does its work on the processor and is paid for. -/
theorem step_cpu {i : Instruction} {cost : Int} (d : Cpu) (hpending : m.cpu.pending = false) (hopcode : m.opcode = b)
    (hdecode : Instruction.decode b = i) (hjam : i ≠ .jam) (htarget : i.target (m.cpu.advance 1) m.cart = none)
    (hperform : (m.mapCpu (·.advance 1)).perform i = (cost, { m with cpu := d })) : m.step.cpu = d.spend cost := by
  have hnext : m.nextInstruction = i := by rw [nextInstruction_eq, hopcode, hdecode]
  have hjams : m.jams = false := beq_eq_false_iff_ne.mpr (ne_of_eq_of_ne hnext hjam)
  have htransfers : m.transfers = false := by
    rw [transfers, hnext, htarget]
    rfl
  rw [step_spend hpending hjams htransfers, performed, hnext, hperform]
  rfl

/-- Whatever puts something on the stack puts its bytes there. -/
theorem keeps_after (h : c.Keeps limit below m.cpu) (hlimit : limit ≤ 0x100)
    (hfit : (save.bytes m ++ below).length ≤ limit) (hjammed : m.cpu.jammed = false)
    (hpending : m.cpu.pending = false) (hoccurs : save.Occurs m) :
    c.Keeps limit (save.bytes m ++ below) (save.after m).cpu := by
  obtain ⟨hbrk, hphp, hjsr, -, -, hpha, -, -⟩ := decode_stack
  -- the opcode has been fetched when an instruction does its work
  have hpc : (m.cpu.advance 1).pc + 1 = m.cpu.pc + 2 := UInt16.add_assoc _ _ _
  have hnext : c.Keeps limit below (m.cpu.advance 1) := h.advance 1
  cases save with
  | nmi =>
    have hnmi : (Save.nmi.after m).cpu = (m.cpu.enter m.cart Cpu.nmiVector).charge Cpu.interruptCycles :=
      if_neg (Bool.eq_false_iff.mp hjammed)
    rw [hnmi]
    exact (h.enter hlimit m.cart hfit Cpu.nmiVector).charge _
  | irq =>
    have hirq : (Save.irq.after m).cpu = (m.cpu.enter m.cart Cpu.irqVector).charge Cpu.interruptCycles :=
      (if_neg (Bool.eq_false_iff.mp hjammed)).trans (if_neg (Bool.eq_false_iff.mp hoccurs))
    rw [hirq]
    exact (h.enter hlimit m.cart hfit Cpu.irqVector).charge _
  | brk =>
    have hcpu := step_cpu ((m.cpu.advance 1).brk m.cart) hpending hoccurs hbrk Instruction.noConfusion rfl rfl
    have hkeeps := hnext.brk hlimit m.cart hfit
    rw [hpc] at hkeeps
    rw [Save.after, hcpu]
    exact hkeeps.spend _
  | jsr =>
    have hcpu := step_cpu ((m.cpu.advance 1).jsr m.cart) hpending hoccurs hjsr Instruction.noConfusion rfl rfl
    have hkeeps := hnext.jsr hlimit m.cart hfit
    rw [hpc] at hkeeps
    rw [Save.after, hcpu]
    exact hkeeps.spend _
  | pha =>
    have hcpu := step_cpu ((m.cpu.advance 1).push m.cpu.a) hpending hoccurs hpha Instruction.noConfusion rfl rfl
    rw [Save.after, hcpu]
    exact (hnext.push hlimit hfit m.cpu.a).spend _
  | php =>
    have hcpu := step_cpu ((m.cpu.advance 1).push (Save.php.status m.cpu.p)) hpending hoccurs hphp
      Instruction.noConfusion rfl rfl
    rw [Save.after, hcpu]
    exact (hnext.push hlimit hfit (Save.php.status m.cpu.p)).spend _

theorem step_rti (h : c.Keeps limit (b :: Cpu.stackedWord w ++ below) m.cpu) (hpending : m.cpu.pending = false)
    (hopcode : m.opcode = 0x40) : c.Keeps limit below m.step.cpu ∧ m.step.cpu.pc = w ∧
      m.step.cpu.p = b ||| Flag.unused.mask := by
  have hnext : c.Keeps limit (b :: Cpu.stackedWord w ++ below) (m.cpu.advance 1) := h.advance 1
  obtain ⟨hpc, hp, hkeeps⟩ := hnext.rti
  rw [step_cpu (m.cpu.advance 1).rti hpending hopcode decode_stack.2.2.2.2.1 Instruction.noConfusion rfl rfl]
  exact ⟨hkeeps.spend _, hpc, hp⟩

/-- The counterpart takes the bytes off again and gives back what they say. -/
theorem keeps_counterpart (h : c.Keeps limit (save.bytes k ++ below) m.cpu) (hpending : m.cpu.pending = false)
    (hopcode : m.opcode = save.counterpart) : c.Keeps limit below m.step.cpu ∧ save.Returns k m.step := by
  obtain ⟨-, -, -, hplp, -, -, hrts, hpla⟩ := decode_stack
  have hnext : c.Keeps limit (save.bytes k ++ below) (m.cpu.advance 1) := h.advance 1
  have hunused := Cpu.stackedStatus_or_unused save.isHardware k.cpu.p
  cases save with
  | nmi | irq | brk =>
    obtain ⟨hkeeps, hpc, hp⟩ := step_rti h hpending hopcode
    exact ⟨hkeeps, hpc, hp.trans hunused⟩
  | jsr =>
    obtain ⟨hpc, hkeeps⟩ := hnext.rts
    have hcpu := step_cpu (m.cpu.advance 1).rts hpending hopcode hrts Instruction.noConfusion rfl rfl
    have hbehind : k.cpu.pc + 2 + 1 = k.cpu.pc + 3 := UInt16.add_assoc _ _ _
    rw [Save.Returns, hcpu]
    exact ⟨hkeeps.spend _, hpc.trans hbehind⟩
  | pha =>
    obtain ⟨ha, hkeeps⟩ := hnext.pla
    have hcpu := step_cpu (Implied.pla.apply (m.cpu.advance 1)) hpending hopcode hpla Instruction.noConfusion rfl rfl
    rw [Save.Returns, hcpu]
    exact ⟨hkeeps.spend _, ha⟩
  | php =>
    obtain ⟨hp, hkeeps⟩ := hnext.plp
    have hcpu := step_cpu (Implied.plp.apply (m.cpu.advance 1)) hpending hopcode hplp Instruction.noConfusion rfl rfl
    rw [Save.Returns, hcpu]
    exact ⟨hkeeps.spend _, hp.trans hunused⟩

/-! ### Any nesting of them -/

/-- All bytes that are on the stack for their counterparts, the last one first. -/
def stacked (opened : List (Save × Machine)) : List UInt8 := opened.flatMap fun o => o.1.bytes o.2

/-- From the machine `m` on, things are put on the stack and taken off again in any order that is well-bracketed, with
any other work in between. Counted is the most bytes that were in use at a time. Kept is what is still to be taken off,
the last one first, each with the machine in which it happened. -/
inductive Nested (m : Machine) : Nat → Machine → List (Save × Machine) → Prop
  | start : Nested m 0 m []
  | work {used : Nat} {n k : Machine} {opened : List (Save × Machine)} (h : Nested m used n opened)
    (hspares : n.cpu.Spares k.cpu) : Nested m used k opened
  | save {used : Nat} {n : Machine} {opened : List (Save × Machine)} (save : Save) (h : Nested m used n opened)
    (hoccurs : save.Occurs n) :
    Nested m (max used (stacked ((save, n) :: opened)).length) (save.after n) ((save, n) :: opened)
  | counterpart {used : Nat} {n k : Machine} {save : Save} {opened : List (Save × Machine)}
    (h : Nested m used n ((save, k) :: opened)) (hopcode : n.opcode = save.counterpart) :
    Nested m used n.step opened

/-- Each of them has found the stack pointer where those before it left it. -/
def Based (s : UInt8) : List (Save × Machine) → Prop
  | [] => True
  | (_, k) :: opened => k.cpu.s = Cpu.below s (stacked opened).length ∧ Based s opened

theorem Nested.keeps {opened : List (Save × Machine)} (h : m.Nested used n opened) (hused : used ≤ 0x100)
    (hjammed : m.cpu.jammed = false) (hpending : m.cpu.pending = false) :
    m.cpu.Keeps used (stacked opened) n.cpu ∧ Based m.cpu.s opened := by
  -- nothing jams the processor or asks for an interrupt on the way, so that both stay as in `m`
  induction h with
  | start => exact ⟨Cpu.Keeps.refl m.cpu 0, trivial⟩
  | work _ hspares ih => exact ⟨(ih hused).1.spares hspares, (ih hused).2⟩
  | save save _ hoccurs ih =>
    obtain ⟨hkeeps, hbased⟩ := ih (Nat.le_trans (Nat.le_max_left _ _) hused)
    have hafter := keeps_after (hkeeps.mono (Nat.le_max_left _ _)) hused (Nat.le_max_right _ _)
      (hkeeps.jammed.trans hjammed) (hkeeps.pending.trans hpending) hoccurs
    exact ⟨hafter, hkeeps.pointer, hbased⟩
  | counterpart _ hopcode ih =>
    obtain ⟨hkeeps, hbased⟩ := ih hused
    exact ⟨(keeps_counterpart hkeeps (hkeeps.pending.trans hpending) hopcode).1, hbased.2⟩

/-- Hardware's copy of the status has the break flag clear, a program's has it set. -/
theorem pull_after (hjammed : m.cpu.jammed = false) (hpending : m.cpu.pending = false) (hoccurs : save.Occurs m)
    (hstatus : save ≠ .jsr ∧ save ≠ .pha) : (save.after m).cpu.pull.1 &&& Flag.break.mask =
      if save.isHardware then 0 else Flag.break.mask := by
  -- on a stack that begins here
  have hfit : (save.bytes m ++ []).length ≤ 3 := (List.append_nil _).symm ▸ save.length_bytes_le m
  have hafter := keeps_after (Cpu.Keeps.refl m.cpu 3) (by decide) hfit hjammed hpending hoccurs
  have htop : (save.after m).cpu.pull.1 = save.status m.cpu.p := by
    cases save with
    | nmi | irq | brk | php => exact hafter.pull.1
    | jsr => exact absurd rfl hstatus.1
    | pha => exact absurd rfl hstatus.2
  rw [htop]
  exact Cpu.stackedStatus_and_break _ _

/-- The stack is last in, first out, wherever its pointer starts and wraps. At every point of a nesting the pointer is
as far down as there are bytes on the stack, these lie there in order, and RAM outside the cells used is as it was.
Statuses are put there with the break flag clear by hardware and set by a program. And the next counterpart gives back
what was put there last and the stack pointer from then. -/
theorem Nested.last_in_first_out {opened : List (Save × Machine)} (h : m.Nested used n opened)
    (hused : used ≤ 0x100) (hjammed : m.cpu.jammed = false) (hpending : m.cpu.pending = false) :
    n.cpu.s = Cpu.below m.cpu.s (stacked opened).length ∧
      Cpu.Holds m.cpu.s n.cpu.ram (stacked opened) ∧
      (∀ address < 0x800, (∀ i < used, address ≠ Cpu.cell m.cpu.s i) →
        n.cpu.ram.read address = m.cpu.ram.read address) ∧
      (∀ save : Save, save.Occurs n → save ≠ .jsr ∧ save ≠ .pha →
        (save.after n).cpu.pull.1 &&& Flag.break.mask = if save.isHardware then 0 else Flag.break.mask) ∧
      ∀ save k rest, opened = (save, k) :: rest → n.opcode = save.counterpart →
        save.Returns k n.step ∧ n.step.cpu.s = k.cpu.s := by
  obtain ⟨hkeeps, hbased⟩ := h.keeps hused hjammed hpending
  have hquiet : n.cpu.pending = false := hkeeps.pending.trans hpending
  refine ⟨hkeeps.pointer, hkeeps.holds, hkeeps.frame, ?_, ?_⟩
  · intro save hoccurs hstatus
    exact pull_after (hkeeps.jammed.trans hjammed) hquiet hoccurs hstatus
  · rintro save k rest rfl hopcode
    obtain ⟨hrest, hreturns⟩ := keeps_counterpart hkeeps hquiet hopcode
    exact ⟨hreturns, hrest.pointer.trans hbased.1.symm⟩

/-- PHA with the stack pointer at 1, then an NMI, whose bytes wrap around the end of the page. -/
theorem last_in_first_out_wrapping :
    let ram := (Memory.zero 0x800).writeList 0x200 [0x48, 0x68, 0x40]
    let m : Machine := { cpu := { ram, a := 0x7B, s := 1, pc := 0x200 } }
    let n := Save.pha.after m
    let k := (Save.nmi.after n).mapCpu fun c => { c with pc := 0x202 }
    n.cpu.s = 0 ∧ k.cpu.s = 0xFD ∧ k.step.cpu.pc = n.cpu.pc ∧ k.step.cpu.s = n.cpu.s ∧
      k.step.step.cpu.a = m.cpu.a ∧ k.step.step.cpu.s = m.cpu.s := by
  intro ram m n k
  have hmoved (c : Cpu) (pc : UInt16) : c.Spares { c with pc } := ⟨rfl, rfl, rfl, rfl⟩
  have hpha : m.opcode = 0x48 := by decide +kernel
  have hrti : k.opcode = 0x40 := by decide +kernel
  have hpla : k.step.opcode = 0x68 := by decide +kernel
  have hk := ((Nested.start.save .pha hpha).save .nmi trivial).work (k := k) (hmoved (Save.nmi.after n).cpu 0x202)
  have hl := hk.counterpart hrti
  obtain ⟨-, -, -, -, hinner⟩ := hk.last_in_first_out (by decide) rfl rfl
  obtain ⟨-, -, -, -, houter⟩ := hl.last_in_first_out (by decide) rfl rfl
  have hnmi : Save.nmi.Returns n k.step ∧ k.step.cpu.s = n.cpu.s := hinner .nmi n _ rfl hrti
  have hpulled : Save.pha.Returns m k.step.step ∧ k.step.step.cpu.s = m.cpu.s := houter .pha m _ rfl hpla
  exact ⟨by decide +kernel, by decide +kernel, hnmi.1.1, hnmi.2, hpulled.1, hpulled.2⟩

end Machine

end Famicom
