import Famicom.Proofs.Slice
import Mathlib.Data.Nat.Bitwise

/-!
What stands at the program counter. Facts about all 256 opcodes are read off the opcode matrix in one pass
(`Opcode.of_matrix`). The address that an operand stands for, which the processor computes in words, is said here in
numbers, with each place where it wraps (`Cpu.effective_toNat`):

    zp           b                              b, b' the operand bytes
    zp,X         (b + X) mod 256
    abs          b + 256 b'
    abs,X        (b + 256 b' + X) mod 65536
    (zp,X)       the word in page zero at (b + X) mod 256
    (zp),Y       (the word in page zero at b, + Y) mod 65536
-/

namespace Famicom

/-! ### Masks -/

/-- A mask takes bits out of each part. -/
theorem or_and_distrib (a b mask : UInt8) : (a ||| b) &&& mask = (a &&& mask) ||| (b &&& mask) := by
  apply UInt8.toBitVec_inj.mp
  simp only [UInt8.toBitVec_and, UInt8.toBitVec_or, BitVec.and_or_distrib_right]

/-- Bits that have been put in are there. -/
theorem or_and_self (a mask : UInt8) : (a ||| mask) &&& mask = mask := by
  apply UInt8.toBitVec_inj.mp
  ext i hi
  simp only [UInt8.toBitVec_and, UInt8.toBitVec_or, BitVec.getElem_and, BitVec.getElem_or]
  cases a.toBitVec[i] <;> cases mask.toBitVec[i] <;> rfl

/-! ### The opcode matrix -/

namespace Opcode

open Instruction (decode matrix)

/-- What the matrix holds in order is what the opcodes decode to. -/
theorem map_matrix {α : Type} (f : Instruction → α) (opcode : UInt8) :
    (matrix.toList.map f)[opcode.toNat]? = some (f (decode opcode)) := by
  have hsize : matrix.size = 256 := by decide +kernel
  have hlt : opcode.toNat < matrix.size := hsize.symm ▸ opcode.toNat_lt
  rw [List.getElem?_map, Array.getElem?_toList, decode, Array.getD_eq_getD_getElem?, Array.getElem?_eq_getElem hlt,
    Option.getD_some, Option.map_some]

/-- What agrees with the matrix from the first opcode to the last agrees with it on every opcode. -/
theorem of_matrix {α : Type} {f : Instruction → α} {g : UInt8 → α}
    (h : matrix.toList.map f = (List.range 256).map fun n => g (UInt8.ofNat n)) (opcode : UInt8) :
    f (decode opcode) = g opcode := by
  have hat := map_matrix f opcode
  rw [h, List.getElem?_map, List.getElem?_range opcode.toNat_lt, Option.map_some, UInt8.ofNat_toNat] at hat
  exact (Option.some.inj hat).symm

end Opcode

/-! ### Operands -/

/-- A word put together from two bytes. -/
theorem toNat_word (lo hi : UInt8) : ((hi.toUInt16 <<< 8) ||| lo.toUInt16).toNat = lo.toNat + 0x100 * hi.toNat := by
  have hlo := lo.toNat_lt
  have hhi := hi.toNat_lt
  have hshift : (hi.toUInt16 <<< 8).toNat = 2 ^ 8 * hi.toNat := by
    simp [UInt16.toNat_shiftLeft, Nat.shiftLeft_eq]
    omega
  rw [UInt16.toNat_or, hshift, UInt8.toNat_toUInt16, ← Nat.two_pow_add_eq_or_of_lt hlo]
  omega

namespace Cpu

variable (c : Cpu) (cart : Cartridge)

/-- The word at an address of page zero, whose last byte is followed by its first. -/
def zeroPageAt (c : Cpu) (address : Nat) : Nat :=
  (c.ram.read (address % 0x100)).toNat + 0x100 * (c.ram.read ((address + 1) % 0x100)).toNat

/-- Where an operand at the program counter points, in numbers. -/
def pointsAt (c : Cpu) (cart : Cartridge) (mode : Mode) : Nat :=
  let b := (c.peek cart c.pc).toNat
  let word := b + 0x100 * (c.peek cart (c.pc + 1)).toNat
  match mode with
  | .immediate => c.pc.toNat
  | .zeroPage => b
  | .zeroPageX => (b + c.x.toNat) % 0x100
  | .zeroPageY => (b + c.y.toNat) % 0x100
  | .absolute => word
  | .absoluteX => (word + c.x.toNat) % 0x10000
  | .absoluteY => (word + c.y.toNat) % 0x10000
  | .indirectX => c.zeroPageAt (b + c.x.toNat)
  | .indirectY => (c.zeroPageAt b + c.y.toNat) % 0x10000

theorem peekWord_toNat (address : UInt16) : (c.peekWord cart address).toNat =
    (c.peek cart address).toNat + 0x100 * (c.peek cart (address + 1)).toNat :=
  toNat_word _ _

theorem zeroPageWord_toNat (b : UInt8) {address : Nat} (h : b.toNat = address % 0x100) :
    (c.zeroPageWord b).toNat = c.zeroPageAt address := by
  have hnext : (b + 1).toNat = (address + 1) % 0x100 := by
    rw [UInt8.toNat_add, h, UInt8.toNat_one]
    omega
  rw [zeroPageWord, toNat_word, h, hnext, zeroPageAt]

/-- The effective address is where the operand points. -/
theorem effective_toNat (mode : Mode) : (c.effective cart mode).toNat = c.pointsAt cart mode := by
  have hb := (c.peek cart c.pc).toNat_lt
  cases mode with
  | immediate => rfl
  | zeroPage => exact UInt8.toNat_toUInt16 _
  | zeroPageX => simp [effective, pointsAt]
  | zeroPageY => simp [effective, pointsAt]
  | absolute => exact c.peekWord_toNat cart c.pc
  | absoluteX => simp [effective, pointsAt, peekWord_toNat]
  | absoluteY => simp [effective, pointsAt, peekWord_toNat]
  | indirectX => exact c.zeroPageWord_toNat _ (UInt8.toNat_add _ _)
  | indirectY =>
    have hword := c.zeroPageWord_toNat (c.peek cart c.pc) (Nat.mod_eq_of_lt hb).symm
    simp [effective, pointsAt, hword]

end Cpu

namespace Machine

variable (m : Machine)

/-- The opcode at the program counter. -/
def opcode (m : Machine) : UInt8 := m.cpu.peek m.cart m.cpu.pc

theorem nextInstruction_eq : m.nextInstruction = Instruction.decode m.opcode := rfl

/-- An instruction after which no interrupt is let in: its cost is spent, and that is all. -/
theorem step_of_closed {i : Instruction} (h : m.nextInstruction = i) (hjam : i ≠ .jam)
    (hclosed : i.opensInterrupts = false) : m.step =
      ((m.mapCpu (·.advance 1)).perform i).2.mapCpu (·.spend ((m.mapCpu (·.advance 1)).perform i).1) := by
  rw [m.step_performed (ne_of_eq_of_ne h hjam), performed, h, hclosed, if_neg Bool.false_ne_true]

/-- The address that the operand after the opcode stands for. -/
def operand (m : Machine) (mode : Mode) : UInt16 := (m.cpu.advance 1).effective m.cart mode

end Machine

end Famicom
