import Famicom.Cpu.Instruction

/-!
What instructions do to the registers. Every function here is a plain map of registers and flags; memory is
the machine's business. There is no decimal arithmetic: the flag exists, the adder ignores it.
-/

namespace Famicom

namespace Cpu

/-! ### Results in the accumulator -/

/-- Loads the accumulator and sets the result flags. -/
def setA (c : Cpu) (value : UInt8) : Cpu := { c with a := value }.setResult value

/-- Loads X and sets the result flags. -/
def setX (c : Cpu) (value : UInt8) : Cpu := { c with x := value }.setResult value

/-- Loads Y and sets the result flags. -/
def setY (c : Cpu) (value : UInt8) : Cpu := { c with y := value }.setResult value

/-- Adds a value and the carry to the accumulator. -/
def adc (c : Cpu) (value : UInt8) : Cpu :=
  let carry : Nat := if c.flag .carry then 1 else 0
  let sum := c.a.toNat + value.toNat + carry
  let out := UInt8.ofNat sum
  let overflow := (c.a ^^^ out) &&& (value ^^^ out) &&& 0x80 != 0
  ((c.setFlag .carry (sum > 0xFF)).setFlag .overflow overflow).setA out

/-- Subtracts a value and the missing carry from the accumulator: an addition of the complement. -/
def sbc (c : Cpu) (value : UInt8) : Cpu := c.adc (value ^^^ 0xFF)

/-- Compares a register with a value: carry for not less, and the flags of the difference. -/
def compare (c : Cpu) (register value : UInt8) : Cpu :=
  (c.setFlag .carry (register ≥ value)).setResult (register - value)

/-- Tests bits of a value against the accumulator. -/
def bit (c : Cpu) (value : UInt8) : Cpu :=
  ((c.setFlag .zero (c.a &&& value == 0)).setFlag .negative (value &&& 0x80 != 0)).setFlag
    .overflow (value &&& 0x40 != 0)

/-! ### Shifts: the shifted byte and the flags it leaves -/

/-- Shifts left, the high bit into the carry. -/
def asl (c : Cpu) (value : UInt8) : UInt8 × Cpu :=
  let out := value <<< 1
  (out, (c.setFlag .carry (value &&& 0x80 != 0)).setResult out)

/-- Shifts right, the low bit into the carry. -/
def lsr (c : Cpu) (value : UInt8) : UInt8 × Cpu :=
  let out := value >>> 1
  (out, (c.setFlag .carry (value &&& 0x01 != 0)).setResult out)

/-- Rotates left through the carry. -/
def rol (c : Cpu) (value : UInt8) : UInt8 × Cpu :=
  let out := (value <<< 1) ||| (if c.flag .carry then 1 else 0)
  (out, (c.setFlag .carry (value &&& 0x80 != 0)).setResult out)

/-- Rotates right through the carry. -/
def ror (c : Cpu) (value : UInt8) : UInt8 × Cpu :=
  let out := (value >>> 1) ||| (if c.flag .carry then 0x80 else 0)
  (out, (c.setFlag .carry (value &&& 0x01 != 0)).setResult out)

/-- One less, with the result flags. -/
def dec (c : Cpu) (value : UInt8) : UInt8 × Cpu := (value - 1, c.setResult (value - 1))

/-- One more, with the result flags. -/
def inc (c : Cpu) (value : UInt8) : UInt8 × Cpu := (value + 1, c.setResult (value + 1))

end Cpu

/-- The effect of a loaded value on the registers. -/
def Load.apply (op : Load) (c : Cpu) (value : UInt8) : Cpu :=
  match op with
  | .lda => c.setA value
  | .ldx => c.setX value
  | .ldy => c.setY value
  | .lax => { c with a := value, x := value }.setResult value
  | .las =>
    let v := value &&& c.s
    { c with s := v, a := v, x := v }.setResult v
  | .ora => c.setA (c.a ||| value)
  | .and => c.setA (c.a &&& value)
  | .eor => c.setA (c.a ^^^ value)
  | .adc => c.adc value
  | .sbc => c.sbc value
  | .cmp => c.compare c.a value
  | .cpx => c.compare c.x value
  | .cpy => c.compare c.y value
  | .bit => c.bit value
  | .anc =>
    let c := c.setA (c.a &&& value)
    c.setFlag .carry (c.a &&& 0x80 != 0)
  | .asr =>
    let (out, c) := c.lsr (c.a &&& value)
    { c with a := out }
  | .arr =>
    let out := ((c.a &&& value) >>> 1) ||| (if c.flag .carry then 0x80 else 0)
    ((c.setA out).setFlag .carry (out &&& 0x40 != 0)).setFlag .overflow
      (((out >>> 6) ^^^ (out >>> 5)) &&& 1 != 0)
  | .ane => c.setA ((c.a ||| 0xEE) &&& c.x &&& value)
  | .lxa =>
    let v := (c.a ||| 0xEE) &&& value
    { c with a := v, x := v }.setResult v
  | .sbx =>
    let both := c.a &&& c.x
    (c.setFlag .carry (both ≥ value)).setX (both - value)

/-- The byte that a store writes at an address, and the registers afterwards. The unstable stores write
their register masked by the high byte of the address plus one. -/
def Store.value (op : Store) (c : Cpu) (address : UInt16) : UInt8 × Cpu :=
  let mask := (address >>> 8).toUInt8 + 1
  match op with
  | .sta => (c.a, c)
  | .stx => (c.x, c)
  | .sty => (c.y, c)
  | .sax => (c.a &&& c.x, c)
  | .sha => (c.a &&& c.x &&& mask, c)
  | .shx => (c.x &&& mask, c)
  | .shy => (c.y &&& mask, c)
  | .shs =>
    let c := { c with s := c.a &&& c.x }
    (c.s &&& mask, c)

/-- The byte written back by a read-modify-write, and the registers afterwards. -/
def Modify.apply (op : Modify) (c : Cpu) (value : UInt8) : UInt8 × Cpu :=
  match op with
  | .asl => c.asl value
  | .rol => c.rol value
  | .lsr => c.lsr value
  | .ror => c.ror value
  | .dec => c.dec value
  | .inc => c.inc value
  | .slo =>
    let (out, c) := c.asl value
    (out, Load.ora.apply c out)
  | .rla =>
    let (out, c) := c.rol value
    (out, Load.and.apply c out)
  | .sre =>
    let (out, c) := c.lsr value
    (out, Load.eor.apply c out)
  | .rra =>
    let (out, c) := c.ror value
    (out, c.adc out)
  | .dcp => (value - 1, c.compare c.a (value - 1))
  | .isb => (value + 1, c.sbc (value + 1))

/-- The effect of an instruction without an operand. -/
def Implied.apply (op : Implied) (c : Cpu) : Cpu :=
  match op with
  | .clc => c.setFlag .carry false
  | .sec => c.setFlag .carry true
  | .cli => c.setFlag .interrupt false
  | .sei => c.setFlag .interrupt true
  | .cld => c.setFlag .decimal false
  | .sed => c.setFlag .decimal true
  | .clv => c.setFlag .overflow false
  | .tax => c.setX c.a
  | .tay => c.setY c.a
  | .txa => c.setA c.x
  | .tya => c.setA c.y
  | .tsx => c.setX c.s
  | .txs => { c with s := c.x }
  | .inx => c.setX (c.x + 1)
  | .iny => c.setY (c.y + 1)
  | .dex => c.setX (c.x - 1)
  | .dey => c.setY (c.y - 1)
  | .pha => c.push c.a
  | .php => c.push (c.p ||| Flag.break.mask ||| Flag.unused.mask)
  | .pla =>
    let (v, c) := c.pull
    c.setA v
  | .plp =>
    let (v, c) := c.pull
    { c with p := v ||| Flag.unused.mask }

end Famicom
