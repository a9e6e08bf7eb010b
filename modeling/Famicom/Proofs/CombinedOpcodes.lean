import Famicom.Proofs.BaseBlock
import Famicom.Proofs.Opcodes

/-!
The undocumented read-modify-write opcodes do what two documented ones do one after the other at the same address.

    SLO = ASL, ORA      SRE = LSR, EOR      DCP = DEC, CMP
    RLA = ROL, AND      RRA = ROR, ADC      ISB = INC, SBC

In the opcode matrix they stand two columns behind the second of them and one behind the first, and find their
operand as these do. The second one reads what the first has written and takes its carry over. The flags of the
result it sets anew, so that nothing is left of what DEC and INC say of theirs.
-/

namespace Famicom

/-! ### Flags that are set again -/

namespace Flag

variable (flag : Flag) (p : UInt8)

/-- A status with one flag set or cleared. -/
def put (flag : Flag) (p : UInt8) (value : Bool) : UInt8 :=
  (if value then p ||| flag.mask else p &&& ~~~ flag.mask) ||| unused.mask

theorem getElem_put (value : Bool) {i : Nat} (hi : i < 8) : (flag.put p value).toBitVec[i] =
    ((bif flag.mask.toBitVec[i] then value else p.toBitVec[i]) || unused.mask.toBitVec[i]) := by
  cases value <;>
  · simp only [put, if_true, if_false, Bool.false_eq_true, UInt8.toBitVec_or, UInt8.toBitVec_and,
      UInt8.toBitVec_not, BitVec.getElem_or, BitVec.getElem_and, BitVec.getElem_not]
    cases p.toBitVec[i] <;> cases flag.mask.toBitVec[i] <;> rfl

theorem put_put (v w : Bool) : flag.put (flag.put p v) w = flag.put p w := by
  apply UInt8.toBitVec_inj.mp
  ext i hi
  simp only [getElem_put]
  cases flag.mask.toBitVec[i] <;> simp

/-- Flags are bits of their own. -/
theorem mask_disjoint {f g : Flag} (h : f ≠ g) {i : Nat} (hi : i < 8) :
    f.mask.toBitVec[i] = false ∨ g.mask.toBitVec[i] = false := by
  have hand : f.mask &&& g.mask = 0 := by
    cases f <;> cases g <;> first | exact absurd rfl h | rfl
  have hbit : (f.mask &&& g.mask).toBitVec[i] = false := by
    rw [hand]
    exact BitVec.getElem_zero hi
  rw [UInt8.toBitVec_and, BitVec.getElem_and] at hbit
  exact Bool.and_eq_false_iff.mp hbit

theorem put_comm {f g : Flag} (h : f ≠ g) (v w : Bool) : f.put (g.put p w) v = g.put (f.put p v) w := by
  apply UInt8.toBitVec_inj.mp
  ext i hi
  simp only [getElem_put]
  rcases mask_disjoint h hi with hf | hg
  · simp only [hf, cond_false]
    cases g.mask.toBitVec[i] <;> simp
  · simp only [hg, cond_false]
    cases f.mask.toBitVec[i] <;> simp

/-- A flag is read as it was, whatever other flag is set. -/
theorem put_and {f g : Flag} (h : g ≠ f) (hunused : g ≠ unused) (v : Bool) :
    f.put p v &&& g.mask = p &&& g.mask := by
  apply UInt8.toBitVec_inj.mp
  ext i hi
  simp only [UInt8.toBitVec_and, BitVec.getElem_and, getElem_put]
  cases hg : g.mask.toBitVec[i] with
  | false => simp
  | true =>
    have hf := (mask_disjoint h hi).resolve_left (ne_of_eq_of_ne hg Bool.noConfusion)
    have hu := (mask_disjoint hunused hi).resolve_left (ne_of_eq_of_ne hg Bool.noConfusion)
    simp [hf, hu]

end Flag

namespace Cpu

variable (c : Cpu)

theorem setFlag_eq (flag : Flag) (value : Bool) : c.setFlag flag value = { c with p := flag.put c.p value } := rfl

theorem setResult_eq (value : UInt8) : c.setResult value =
    { c with p := Flag.negative.put (Flag.zero.put c.p (value == 0)) (value &&& 0x80 != 0) } := rfl

/-- A second result leaves nothing of the first one's flags. -/
theorem setResult_setResult (v w : UInt8) : (c.setResult v).setResult w = c.setResult w := by
  simp only [setResult_eq]
  rw [Flag.put_comm _ (f := .zero) (g := .negative) (by decide), Flag.put_put, Flag.put_put]

/-- The flags of a result may as well be set after another flag. -/
theorem setFlag_setResult {flag : Flag} (hzero : flag ≠ .zero) (hnegative : flag ≠ .negative) (value : Bool)
    (result : UInt8) : (c.setResult result).setFlag flag value = (c.setFlag flag value).setResult result := by
  simp only [setResult_eq, setFlag_eq]
  rw [Flag.put_comm _ hnegative, Flag.put_comm _ hzero]

theorem flag_carry_setResult (value : UInt8) : (c.setResult value).flag .carry = c.flag .carry := by
  simp only [flag, setResult_eq]
  rw [Flag.put_and _ (by decide) (by decide), Flag.put_and _ (by decide) (by decide)]

/-- A comparison sets all flags of the result that came before it. -/
theorem compare_setResult (result register value : UInt8) :
    (c.setResult result).compare register value = c.compare register value := by
  rw [compare, compare, setFlag_setResult c (by decide) (by decide), setResult_setResult]

/-- An addition sets all flags of the result that came before it. -/
theorem adc_setResult (result value : UInt8) : (c.setResult result).adc value = c.adc value := by
  have hset (d : Cpu) (out : UInt8) : (d.setResult result).setA out = d.setA out :=
    setResult_setResult { d with a := out } result out
  have ha : (c.setResult result).a = c.a := rfl
  simp only [adc, flag_carry_setResult, ha]
  rw [setFlag_setResult c (by decide) (by decide), setFlag_setResult _ (by decide) (by decide), hset]

/-! ### At an address of RAM -/

/-- A byte of RAM read, changed and written back. -/
def modifyRam (c : Cpu) (op : Modify) (address : Nat) : Cpu :=
  let r := op.apply c (c.ram.read address)
  { r.2 with ram := r.2.ram.write address r.1 }

/-- A byte of RAM read into the registers. -/
def loadRam (c : Cpu) (op : Load) (address : Nat) : Cpu := op.apply c (c.ram.read address)

/-- Loading what was just written back. -/
theorem loadRam_modifyRam (op : Modify) (next : Load) (address : Nat) :
    (c.modifyRam op address).loadRam next address =
      next.apply (c.modifyRam op address) (op.apply c (c.ram.read address)).1 := by
  have hread := Memory.read_write_self (op.apply c (c.ram.read address)).2.ram (by decide) address
    (op.apply c (c.ram.read address)).1
  exact congrArg (next.apply (c.modifyRam op address)) hread

end Cpu

/-! ### The undocumented opcodes -/

/-- The undocumented instructions that read, change, write back and go on with the result. -/
inductive Combined where
  | slo | rla | sre | rra | dcp | isb
  deriving DecidableEq, Repr

namespace Combined

/-- What one of them does as a single instruction. -/
def op : Combined → Modify
  | .slo => .slo
  | .rla => .rla
  | .sre => .sre
  | .rra => .rra
  | .dcp => .dcp
  | .isb => .isb

/-- The documented instruction that changes the byte. -/
def first : Combined → Modify
  | .slo => .asl
  | .rla => .rol
  | .sre => .lsr
  | .rra => .ror
  | .dcp => .dec
  | .isb => .inc

/-- The documented instruction that goes on with the result. -/
def second : Combined → Load
  | .slo => .ora
  | .rla => .and
  | .sre => .eor
  | .rra => .adc
  | .dcp => .cmp
  | .isb => .sbc

/-- Where its block of the opcode matrix begins. -/
def block : Combined → UInt8
  | .slo => 0x00
  | .rla => 0x20
  | .sre => 0x40
  | .rra => 0x60
  | .dcp => 0xC0
  | .isb => 0xE0

/-- The seven modes, and where in the block they stand. -/
def places : List (Mode × UInt8) :=
  [(.indirectX, 0x03), (.zeroPage, 0x07), (.absolute, 0x0F), (.indirectY, 0x13), (.zeroPageX, 0x17),
    (.absoluteY, 0x1B), (.absoluteX, 0x1F)]

/-- The modes of shifts, increments and decrements, and where in the block these stand. -/
def firstPlaces : List (Mode × UInt8) :=
  [(.zeroPage, 0x06), (.absolute, 0x0E), (.zeroPageX, 0x16), (.absoluteX, 0x1E)]

/-- The modes of accumulator instructions with an address, and where in the block these stand. -/
def secondPlaces : List (Mode × UInt8) :=
  [(.indirectX, 0x01), (.zeroPage, 0x05), (.absolute, 0x0D), (.indirectY, 0x11), (.zeroPageX, 0x15),
    (.absoluteY, 0x19), (.absoluteX, 0x1D)]

variable (u : Combined)

/-- The opcode matrix has all of them in their places. -/
theorem decode_places :
    (∀ place ∈ places, Instruction.decode (u.block + place.2) = .modify u.op place.1) ∧
      (∀ place ∈ firstPlaces, Instruction.decode (u.block + place.2) = .modify u.first place.1) ∧
      ∀ place ∈ secondPlaces, Instruction.decode (u.block + place.2) = .load u.second place.1 := by
  cases u <;> decide +kernel

/-- One instruction or two, the processor is the same afterwards. -/
theorem modifyRam_op (c : Cpu) (address : Nat) :
    c.modifyRam u.op address = (c.modifyRam u.first address).loadRam u.second address := by
  rw [Cpu.loadRam_modifyRam]
  cases u with
  | dcp =>
    let out := c.ram.read address - 1
    exact (Cpu.compare_setResult { c with ram := c.ram.write address out } out c.a out).symm
  | isb =>
    let out := c.ram.read address + 1
    exact (Cpu.adc_setResult { c with ram := c.ram.write address out } out (out ^^^ 0xFF)).symm
  | _ => rfl

end Combined

/-! ### Steps at an address of RAM -/

namespace Cpu

variable (c : Cpu)

/-- What a program works with: registers, flags and RAM, without its place in the program and the time. -/
def workings (c : Cpu) : Cpu := { a := c.a, x := c.x, y := c.y, p := c.p, s := c.s, ram := c.ram }

theorem workings_modifyRam (op : Modify) (address : Nat) :
    (c.modifyRam op address).workings = c.workings.modifyRam op address := by
  cases op <;> rfl

theorem workings_loadRam (op : Load) (address : Nat) :
    (c.loadRam op address).workings = c.workings.loadRam op address := by
  cases op <;> rfl

end Cpu

namespace Machine

variable {m n k : Machine}

/-- Two machines with the same registers, flags and memories, wherever their programs are. -/
structure Agrees (m n : Machine) : Prop where
  workings : n.cpu.workings = m.cpu.workings
  sram : n.cart.sram = m.cart.sram
  vram : n.cart.vram = m.cart.vram
  ppu : n.ppu = m.ppu

theorem read_low {address : UInt16} (h : address < 0x2000) :
    m.read address = (m.cpu.ram.read address.toNat, m) := if_pos h

theorem write_low {address : UInt16} (h : address < 0x2000) (value : UInt8) :
    m.write address value = m.mapCpu fun c => { c with ram := c.ram.write address.toNat value } := if_pos h

theorem effective_operand (mode : Mode) :
    (m.mapCpu (·.advance 1)).cpu.effective (m.mapCpu (·.advance 1)).cart mode = m.operand mode := rfl

/-- An instruction that changes a byte of RAM changes the processor only. -/
theorem step_modifyRam {op : Modify} {mode : Mode} (h : m.nextInstruction = .modify op mode)
    (hlow : m.operand mode < 0x2000) : m.step = m.mapCpu fun c =>
      (((c.advance 1).advance mode.size).modifyRam op (m.operand mode).toNat).spend mode.modifyCost := by
  rw [m.step_of_closed h Instruction.noConfusion rfl]
  simp only [perform, modify, effective_operand, read_low hlow, write_low hlow]
  rfl

/-- So does an instruction that loads a byte of RAM. -/
theorem step_loadRam {op : Load} {mode : Mode} (h : m.nextInstruction = .load op mode)
    (hmode : mode ≠ .immediate) (hlow : m.operand mode < 0x2000) : ∃ cycles, m.step = m.mapCpu fun c =>
      (((c.advance 1).advance mode.size).loadRam op (m.operand mode).toNat).spend cycles := by
  rw [m.step_of_closed h Instruction.noConfusion rfl]
  simp only [perform, load, if_neg hmode, effective_operand, read_low hlow]
  exact ⟨_, rfl⟩

/-- The processor's workings after each of the two kinds of instruction. -/
theorem Agrees.modifyRam {op : Modify} {mode : Mode} (hmn : m.Agrees n) (h : n.nextInstruction = .modify op mode)
    (hlow : n.operand mode < 0x2000) : (m.mapCpu (·.modifyRam op (n.operand mode).toNat)).Agrees n.step := by
  rw [step_modifyRam h hlow]
  refine ⟨?_, hmn.sram, hmn.vram, hmn.ppu⟩
  show (Cpu.modifyRam _ _ _).workings = (Cpu.modifyRam _ _ _).workings
  rw [Cpu.workings_modifyRam, Cpu.workings_modifyRam, ← hmn.workings]
  rfl

theorem Agrees.loadRam {op : Load} {mode : Mode} (hmn : m.Agrees n) (h : n.nextInstruction = .load op mode)
    (hmode : mode ≠ .immediate) (hlow : n.operand mode < 0x2000) :
    (m.mapCpu (·.loadRam op (n.operand mode).toNat)).Agrees n.step := by
  obtain ⟨cycles, hstep⟩ := step_loadRam h hmode hlow
  rw [hstep]
  refine ⟨?_, hmn.sram, hmn.vram, hmn.ppu⟩
  show (Cpu.loadRam _ _ _).workings = (Cpu.loadRam _ _ _).workings
  rw [Cpu.workings_loadRam, Cpu.workings_loadRam, ← hmn.workings]
  rfl

theorem Agrees.refl (m : Machine) : m.Agrees m := ⟨rfl, rfl, rfl, rfl⟩

theorem Agrees.symm (h : m.Agrees n) : n.Agrees m := ⟨h.workings.symm, h.sram.symm, h.vram.symm, h.ppu.symm⟩

theorem Agrees.trans (h : m.Agrees n) (h' : n.Agrees k) : m.Agrees k :=
  ⟨h'.workings.trans h.workings, h'.sram.trans h.sram, h'.vram.trans h.vram, h'.ppu.trans h.ppu⟩

/-! ### Any instruction at any address -/

/-- The machine with an instruction at an absolute address in front of it, on a cartridge that holds nothing else. -/
def staged (m : Machine) (opcode : UInt8) (address : UInt16) : Machine :=
  { m with
    cpu := { m.cpu with pc := 0x8000, pages := m.cpu.pages.put 8 ⟨.prg, 0⟩ }
    cart := { m.cart with prg := #[opcode, address.toUInt8, (address >>> 8).toUInt8] } }

theorem agrees_staged (m : Machine) (opcode : UInt8) (address : UInt16) : m.Agrees (m.staged opcode address) :=
  ⟨rfl, rfl, rfl, rfl⟩

theorem opcode_staged (m : Machine) (opcode : UInt8) (address : UInt16) :
    (m.staged opcode address).opcode = opcode := by
  simp [Machine.opcode, staged, Cpu.peek, PageTable.page_put, Cartridge.read, Cartridge.romByte]

theorem operand_staged (m : Machine) (opcode : UInt8) (address : UInt16) :
    (m.staged opcode address).operand .absolute = address := by
  have hlo : (m.staged opcode address).cpu.peek (m.staged opcode address).cart 0x8001 = address.toUInt8 := by
    simp [staged, Cpu.peek, PageTable.page_put, Cartridge.read, Cartridge.romByte]
  have hhi : (m.staged opcode address).cpu.peek (m.staged opcode address).cart 0x8002 = (address >>> 8).toUInt8 := by
    simp [staged, Cpu.peek, PageTable.page_put, Cartridge.read, Cartridge.romByte]
  have hword : (m.staged opcode address).operand .absolute =
      ((address >>> 8).toUInt8.toUInt16 <<< 8) ||| address.toUInt8.toUInt16 := by
    rw [← hlo, ← hhi]
    rfl
  rw [hword]
  exact Snapshot.word_wordBytes address

end Machine

namespace Combined

open Machine

variable {u : Combined} {m n k : Machine} {address : UInt16}

/-- From the state of `m`, the two documented instructions one after the other at an address, each in any mode that
leads there: the first on the machine `n`, the second on `k`. -/
structure InTwoSteps (u : Combined) (address : UInt16) (m n k : Machine) : Prop where
  start : m.Agrees n
  first : ∃ place ∈ firstPlaces, n.opcode = u.block + place.2 ∧ n.operand place.1 = address
  between : n.step.Agrees k
  second : ∃ place ∈ secondPlaces, k.opcode = u.block + place.2 ∧ k.operand place.1 = address

/-- There is always a program that takes the two steps. -/
theorem exists_inTwoSteps (u : Combined) (address : UInt16) (m : Machine) : ∃ n k, u.InTwoSteps address m n k := by
  let n := m.staged (u.block + 0x0E) address
  exact ⟨n, n.step.staged (u.block + 0x0D) address, m.agrees_staged _ _,
    ⟨(.absolute, 0x0E), by decide, opcode_staged _ _ _, operand_staged _ _ _⟩, n.step.agrees_staged _ _,
    ⟨(.absolute, 0x0D), by decide, opcode_staged _ _ _, operand_staged _ _ _⟩⟩

/-- What the two steps do to the processor's workings. -/
theorem InTwoSteps.agrees (h : u.InTwoSteps address m n k) (hlow : address < 0x2000) :
    (m.mapCpu fun c => (c.modifyRam u.first address.toNat).loadRam u.second address.toNat).Agrees k.step := by
  obtain ⟨hmn, ⟨place, hplace, hopcode, rfl⟩, hnk, ⟨place', hplace', hopcode', haddress⟩⟩ := h
  have hfirst : n.nextInstruction = .modify u.first place.1 := by
    rw [nextInstruction_eq, hopcode, u.decode_places.2.1 place hplace]
  have hsecond : k.nextInstruction = .load u.second place'.1 := by
    rw [nextInstruction_eq, hopcode', u.decode_places.2.2 place' hplace']
  have hmodes : ∀ place ∈ secondPlaces, place.1 ≠ .immediate := by decide
  have hmodified := (hmn.modifyRam hfirst hlow).trans hnk
  have hloaded := hmodified.loadRam hsecond (hmodes place' hplace') (haddress ▸ hlow)
  rw [haddress] at hloaded
  exact hloaded

/-- An undocumented read-modify-write opcode, in any of its seven modes, with an operand in the address space of RAM.
Its operand is found as the documented opcode of the same mode, two columns before it, finds its own. And it leaves
registers, flags and memories as the two documented instructions leave them, in whatever program and modes these are
run at the same address, of which there always is one. -/
theorem same_in_two_steps (u : Combined) {place : Mode × UInt8} (hplace : place ∈ places)
    (hopcode : m.opcode = u.block + place.2) (hlow : m.operand place.1 < 0x2000) :
    (m.operand place.1).toNat = (m.cpu.advance 1).pointsAt m.cart place.1 ∧
      (∀ n : Machine, n.opcode = m.opcode - 2 → n.nextInstruction = .load u.second place.1 ∧
        (n.operand place.1).toNat = (n.cpu.advance 1).pointsAt n.cart place.1) ∧
      (∃ n k, u.InTwoSteps (m.operand place.1) m n k) ∧
      ∀ n k, u.InTwoSteps (m.operand place.1) m n k → m.step.Agrees k.step := by
  refine ⟨Cpu.effective_toNat _ _ _, fun n hn => ⟨?_, Cpu.effective_toNat _ _ _⟩, u.exists_inTwoSteps _ m, ?_⟩
  · have hcolumn : ∀ place ∈ places, (place.1, place.2 - 2) ∈ secondPlaces := by decide
    have hdecode := u.decode_places.2.2 (place.1, place.2 - 2) (hcolumn place hplace)
    have hadd : u.block + place.2 - 2 = u.block + (place.2 - 2) := by
      rw [UInt8.sub_eq_add_neg, UInt8.sub_eq_add_neg, UInt8.add_assoc]
    rw [nextInstruction_eq, hn, hopcode, hadd]
    exact hdecode
  · intro n k h
    have hop : m.nextInstruction = .modify u.op place.1 := by
      rw [nextInstruction_eq, hopcode, u.decode_places.1 place hplace]
    have hone := (Agrees.refl m).modifyRam hop hlow
    have htwo := h.agrees hlow
    simp only [← u.modifyRam_op] at htwo
    exact hone.symm.trans htwo

/-- SLO ($10),Y with Y = 5, its pointer $02FF: the byte at $0304. -/
theorem same_in_two_steps_indirect :
    let ram := ((Memory.zero 0x800).writeList 0x10 [0xFF, 0x02]).writeList 0x200 [0x13, 0x10]
    let m : Machine := { cpu := { ram, y := 5, pc := 0x200 } }
    m.opcode = 0x13 ∧ m.operand .indirectY = 0x304 ∧ ∃ n k, slo.InTwoSteps 0x304 m n k ∧ m.step.Agrees k.step := by
  intro ram m
  have hopcode : m.opcode = 0x13 := by decide +kernel
  have hoperand : m.operand .indirectY = 0x304 := by decide +kernel
  have hplace : (Mode.indirectY, (0x13 : UInt8)) ∈ places := by decide
  obtain ⟨-, -, ⟨n, k, hsteps⟩, hsame⟩ := same_in_two_steps slo hplace hopcode (by rw [hoperand]; decide)
  rw [hoperand] at hsteps hsame
  exact ⟨hopcode, hoperand, n, k, hsteps, hsame n k hsteps⟩

end Combined

end Famicom
