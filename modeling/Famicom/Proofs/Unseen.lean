import Famicom.Proofs.BusTime

/-!
What programs do not see. Registers, flags and the stack know nothing of the accounts of time, nor of what
no access shows. A change of the machine that stays hidden from the bus is one that instructions carry
along (`Machine.Unseen.perform`):

     m ── perform ──▶ n
     │ φ              │ φ        reading no address that shows the change,
     ▼                ▼          writing none that meets it
    φ m ─ perform ─▶ φ n
-/

namespace Famicom

/-- A change of the accounts of time. The clock itself is not in it, since the picture unit looks at it. -/
structure Cpu.Retime where
  pending : Bool → Bool := id
  jammed : Bool → Bool := id
  owed : Int → Int := id
  budget : Int → Int := id

/-- The address that an instruction reads over the bus, its operand bytes being at the program counter. -/
def Instruction.source (i : Instruction) (c : Cpu) (cart : Cartridge) : Option UInt16 :=
  match i with
  | .load _ mode => if mode = .immediate then none else some (c.effective cart mode)
  | .modify _ mode => some (c.effective cart mode)
  | _ => none

/-! ### Registers -/

namespace Cpu

variable (c : Cpu) (r : Retime)

/-- The processor with other accounts. -/
def retime (c : Cpu) (r : Retime) : Cpu :=
  { c with
    pending := r.pending c.pending
    jammed := r.jammed c.jammed
    owed := r.owed c.owed
    budget := r.budget c.budget }

theorem effective_retime (cart : Cartridge) (mode : Mode) :
    (c.retime r).effective cart mode = c.effective cart mode := by cases mode <;> rfl

theorem crossed_retime (mode : Mode) (address : UInt16) :
    (c.retime r).crossed mode address = c.crossed mode address := by cases mode <;> rfl

theorem load_retime (op : Load) (value : UInt8) :
    op.apply (c.retime r) value = (op.apply c value).retime r := by cases op <;> rfl

theorem store_retime (op : Store) (address : UInt16) :
    op.value (c.retime r) address = ((op.value c address).1, (op.value c address).2.retime r) := by
  cases op <;> rfl

theorem modify_retime (op : Modify) (value : UInt8) :
    op.apply (c.retime r) value = ((op.apply c value).1, (op.apply c value).2.retime r) := by
  cases op <;> rfl

theorem modifyAccumulator_retime (op : Modify) :
    Machine.modifyAccumulator op (c.retime r) = (Machine.modifyAccumulator op c).retime r := by
  cases op <;> rfl

theorem implied_retime (op : Implied) : op.apply (c.retime r) = (op.apply c).retime r := by
  cases op <;> rfl

theorem branch_retime (offset : UInt8) (taken : Bool) :
    (c.retime r).branch offset taken =
      ((c.branch offset taken).1, (c.branch offset taken).2.retime r) := by
  unfold branch
  split <;> rfl

/-- A software interrupt up to its jump. -/
def brkEntry (c : Cpu) : Cpu :=
  let c := c.advance 1
  let c := c.pushWord c.pc
  let c := { c with p := c.p ||| Flag.break.mask }
  let c := c.push (c.p ||| Flag.unused.mask)
  c.setFlag .interrupt true

theorem brk_eq (cart : Cartridge) :
    c.brk cart = { c.brkEntry with pc := c.brkEntry.peekWord cart irqVector } := rfl

theorem brk_retime (cart : Cartridge) : (c.retime r).brk cart = (c.brk cart).retime r := by
  have hentry : (c.retime r).brkEntry = c.brkEntry.retime r := rfl
  rw [brk_eq, brk_eq, hentry]
  rfl

theorem jsr_retime (cart : Cartridge) : (c.retime r).jsr cart = (c.jsr cart).retime r := rfl

theorem rti_retime : (c.retime r).rti = c.rti.retime r := rfl

theorem rts_retime : (c.retime r).rts = c.rts.retime r := rfl

end Cpu

/-! ### Instructions -/

/-- A change that the processor meets in its accounts only, and the bus only at some addresses: reads of
`shown` addresses may tell it, and writes to `met` ones may break it. -/
structure Machine.Unseen (φ : Machine → Machine) (r : Cpu.Retime) (shown met : UInt16 → Prop) :
    Prop where
  cpu (m : Machine) : (φ m).cpu = m.cpu.retime r
  cart (m : Machine) : (φ m).cart = m.cart
  setCpu (m : Machine) (c : Cpu) : (φ m).mapCpu (fun _ => c.retime r) = φ (m.mapCpu fun _ => c)
  read (m : Machine) (address : UInt16) (h : ¬ shown address) :
    (φ m).read address = ((m.read address).1, φ (m.read address).2)
  write (m : Machine) (address : UInt16) (value : UInt8) (h : ¬ met address) :
    (φ m).write address value = φ (m.write address value)

namespace Machine.Unseen

variable {φ : Machine → Machine} {r : Cpu.Retime} {shown met : UInt16 → Prop}

/-- A change of registers that does not look at the accounts. -/
theorem mapCpu (h : Unseen φ r shown met) (m : Machine) {f g : Cpu → Cpu}
    (hfg : g (m.cpu.retime r) = (f m.cpu).retime r) : (φ m).mapCpu g = φ (m.mapCpu f) := by
  have hset := h.setCpu m (f m.cpu)
  rw [← hfg, ← h.cpu] at hset
  exact hset

/-- An instruction that changes registers only. -/
theorem registers (h : Unseen φ r shown met) (m : Machine) (cost : Int) {f g : Cpu → Cpu}
    (hfg : g (m.cpu.retime r) = (f m.cpu).retime r) :
    (cost, (φ m).mapCpu g) = (cost, φ (m.mapCpu f)) := by
  rw [h.mapCpu m hfg]

theorem load (h : Unseen φ r shown met) (m : Machine) (op : Load) (mode : Mode)
    (hread : mode ≠ .immediate → ¬ shown (m.cpu.effective m.cart mode)) :
    (φ m).load op mode = ((m.load op mode).1, φ (m.load op mode).2) := by
  have hadvance : (φ m).mapCpu (·.advance mode.size) = φ (m.mapCpu (·.advance mode.size)) :=
    h.mapCpu m rfl
  simp only [Machine.load, h.cpu m, h.cart m, Cpu.effective_retime, Cpu.crossed_retime, hadvance]
  split
  · generalize m.mapCpu (·.advance mode.size) = n
    simp only [h.cpu, h.cart]
    refine h.registers n _ ?_
    exact Cpu.load_retime n.cpu r op _
  case isFalse hmode =>
    rw [h.read _ _ (hread hmode)]
    generalize (m.mapCpu (·.advance mode.size)).read _ = s
    simp only
    refine h.registers s.2 _ ?_
    exact Cpu.load_retime s.2.cpu r op s.1

theorem store (h : Unseen φ r shown met) (m : Machine) (op : Store) (mode : Mode)
    (hwrite : ¬ met (m.cpu.effective m.cart mode)) :
    (φ m).store op mode = ((m.store op mode).1, φ (m.store op mode).2) := by
  have heq (k : Machine) (address : UInt16) (s : UInt8 × Cpu) :
      (mode.storeCost, { k with cpu := s.2 }.write address s.1) =
        (mode.storeCost, (k.mapCpu fun _ => s.2).write address s.1) := rfl
  have hvalue := Cpu.store_retime (m.cpu.advance mode.size) r op (m.cpu.effective m.cart mode)
  have hadvance : (m.cpu.retime r).advance mode.size = (m.cpu.advance mode.size).retime r := rfl
  simp only [Machine.store, heq]
  rw [h.cpu, h.cart, Cpu.effective_retime, hadvance, hvalue, h.setCpu, h.write _ _ _ hwrite]

theorem modify (h : Unseen φ r shown met) (m : Machine) (op : Modify) (mode : Mode)
    (hread : ¬ shown (m.cpu.effective m.cart mode)) (hwrite : ¬ met (m.cpu.effective m.cart mode)) :
    (φ m).modify op mode = ((m.modify op mode).1, φ (m.modify op mode).2) := by
  have heq (k : Machine) (address : UInt16) (s : UInt8 × Cpu) :
      (mode.modifyCost, { k with cpu := s.2 }.write address s.1) =
        (mode.modifyCost, (k.mapCpu fun _ => s.2).write address s.1) := rfl
  have hadvance : (φ m).mapCpu (·.advance mode.size) = φ (m.mapCpu (·.advance mode.size)) :=
    h.mapCpu m rfl
  simp only [Machine.modify, heq]
  rw [h.cpu, h.cart, Cpu.effective_retime, hadvance, h.read _ _ hread]
  generalize (m.mapCpu (·.advance mode.size)).read _ = s
  simp only
  rw [h.cpu, Cpu.modify_retime, h.setCpu, h.write _ _ _ hwrite]

theorem branch (h : Unseen φ r shown met) (m : Machine) (flag : Flag) (value : Bool) :
    (φ m).perform (.branch flag value) =
      ((m.perform (.branch flag value)).1, φ (m.perform (.branch flag value)).2) := by
  have heq (k : Machine) : k.perform (.branch flag value) =
      (((k.cpu.advance 1).branch (k.cpu.peek k.cart k.cpu.pc) (k.cpu.flag flag == value)).1,
        k.mapCpu fun c => ((c.advance 1).branch (c.peek k.cart c.pc) (c.flag flag == value)).2) := rfl
  have hbranch := Cpu.branch_retime (m.cpu.advance 1) r (m.cpu.peek m.cart m.cpu.pc)
    (m.cpu.flag flag == value)
  obtain ⟨hcost, hjump⟩ := Prod.mk.inj hbranch
  rw [heq, heq, h.cart]
  refine Prod.ext ?_ ?_
  · simp only [h.cpu]
    exact hcost
  · simp only
    refine h.mapCpu m ?_
    exact hjump

/-- Instructions carry an unseen change along. -/
theorem perform (h : Unseen φ r shown met) (m : Machine) (i : Instruction)
    (hread : ∀ address, i.source m.cpu m.cart = some address → ¬ shown address)
    (hwrite : ∀ address, i.target m.cpu m.cart = some address → ¬ met address) :
    (φ m).perform i = ((m.perform i).1, φ (m.perform i).2) := by
  cases i with
  | load op mode => exact h.load m op mode fun hmode => hread _ (if_neg hmode)
  | store op mode => exact h.store m op mode (hwrite _ rfl)
  | modify op mode => exact h.modify m op mode (hread _ rfl) (hwrite _ rfl)
  | accumulator op => exact h.registers m 2 (Cpu.modifyAccumulator_retime m.cpu r op)
  | implied op => exact h.registers m op.cost (Cpu.implied_retime m.cpu r op)
  | branch flag value => exact h.branch m flag value
  | brk =>
    simp only [Machine.perform, h.cart]
    refine h.registers m 7 ?_
    exact Cpu.brk_retime m.cpu r m.cart
  | jsr =>
    simp only [Machine.perform, h.cart]
    refine h.registers m 6 ?_
    exact Cpu.jsr_retime m.cpu r m.cart
  | rti => exact h.registers m 6 (Cpu.rti_retime m.cpu r)
  | rts => exact h.registers m 6 (Cpu.rts_retime m.cpu r)
  | jmp =>
    simp only [Machine.perform, h.cart]
    exact h.registers m 3 rfl
  | jmpIndirect =>
    simp only [Machine.perform, h.cart]
    exact h.registers m 5 rfl
  | skip operands cost =>
    simp only [Machine.perform]
    exact h.registers m cost rfl
  | jam => rfl

end Machine.Unseen

end Famicom
