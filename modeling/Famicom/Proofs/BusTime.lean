import Famicom.Proofs.Layout

/-!
Who reaches into the accounts of time. Reads, writes and boards leave them alone; only a write to the
sprite transfer register owes cycles and ends the slice. An instruction takes no time by itself either:
it has a cost, which is spent after it.

    perform ──▶ (cost, machine)        2 ≤ cost ≤ 8, JAM apart
       └─ target = $4014 ? owed + 513, budget := 0 : same accounts
-/

namespace Famicom

namespace Machine

variable (m : Machine)

/-! ### The bus -/

theorem cpu_drainNotes : m.drainNotes.cpu = m.cpu := by
  unfold drainNotes
  split <;> rfl

theorem cpu_read (address : UInt16) : (m.read address).2.cpu = m.cpu := by
  unfold read
  split_ifs
  case pos => rfl
  case pos => rfl
  case pos => simp only [cpu_drainNotes]
  all_goals rfl

/-- A board's wishes take no time, interrupts apart. -/
theorem sameTime_obey (s : Signal) (h : s ≠ .irq) : Cpu.SameTime m.cpu (m.obey s).cpu := by
  cases s with
  | irq => exact absurd rfl h
  | _ => exact ⟨rfl, rfl, rfl⟩

theorem sameTime_obeyAll (signals : List Signal) (h : ∀ s ∈ signals, s ≠ .irq) :
    Cpu.SameTime m.cpu (m.obeyAll signals).cpu := by
  induction signals generalizing m with
  | nil => exact Cpu.SameTime.refl _
  | cons s signals ih =>
    have hs : s ≠ .irq := h s List.mem_cons_self
    exact (m.sameTime_obey s hs).trans (ih (m.obey s) fun t ht => h t (List.mem_cons_of_mem s ht))

theorem ne_irq_of_fits {number : UInt8} {s : Signal} (h : s.Fits number) : s ≠ .irq := by
  rintro rfl
  exact h

theorem sameTime_withBoard (act : Board → Board × List Signal) (fits : ∀ b, AllFit b.number (act b).2) :
    Cpu.SameTime m.cpu (m.withBoard act).cpu := by
  unfold withBoard
  split
  · exact Cpu.SameTime.refl _
  case h_2 b _ =>
    exact sameTime_obeyAll { m with board := some (act b).1 } _ fun s hs => ne_irq_of_fits (fits b s hs)

theorem sameTime_poke (address : UInt16) (value : UInt8) :
    Cpu.SameTime m.cpu (m.poke address value).cpu := by
  simp only [poke]
  split <;> exact ⟨rfl, rfl, rfl⟩

theorem sameTime_writeCartridge (address : UInt16) (value : UInt8) :
    Cpu.SameTime m.cpu (m.writeCartridge address value).cpu := by
  simp only [writeCartridge]
  split
  · exact Cpu.SameTime.refl _
  · exact m.sameTime_withBoard _ fun b => b.write_fits _ address value
  · split
    · exact Cpu.SameTime.refl _
    · exact m.sameTime_poke address value

/-- A write takes no time of its own, sprite transfers apart. -/
theorem sameTime_write (address : UInt16) (value : UInt8) (h : address ≠ 0x4014) :
    Cpu.SameTime m.cpu (m.write address value).cpu := by
  unfold write
  split_ifs
  · exact ⟨rfl, rfl, rfl⟩
  · simp only [cpu_drainNotes]
    exact Cpu.SameTime.refl _
  · exact Cpu.SameTime.refl _
  · exact m.sameTime_withBoard (fun b => (b, b.strobe value)) fun b => b.strobe_fits value
  · exact Cpu.SameTime.refl _
  · exact m.sameTime_writeCartridge address value

theorem write_transfer (value : UInt8) : m.write 0x4014 value = m.transferSprites value := by
  rw [write, if_neg (by decide), if_neg (by decide), if_pos rfl]

end Machine

/-! ### Costs -/

namespace Instruction

/-- The address that an instruction writes, its operand bytes being at the program counter. -/
def target (i : Instruction) (c : Cpu) (cart : Cartridge) : Option UInt16 :=
  match i with
  | .store _ mode | .modify _ mode => some (c.effective cart mode)
  | _ => none

/-- Instructions that skip over operands take two to four cycles. -/
def skipsInTime : Instruction → Bool
  | .skip _ cost => 2 ≤ cost ∧ cost ≤ 4
  | _ => true

theorem matrix_skipsInTime : ∀ i ∈ matrix, i.skipsInTime := by
  have h : matrix.all skipsInTime = true := by decide +kernel
  simpa only [Array.all_eq_true_iff_forall_mem] using h

theorem decode_skipsInTime (opcode : UInt8) : (decode opcode).skipsInTime := by
  unfold decode
  by_cases h : opcode.toNat < matrix.size
  · rw [Array.getD_eq_getD_getElem?, Array.getElem?_eq_getElem h]
    exact matrix_skipsInTime _ (Array.getElem_mem h)
  · rw [Array.getD_eq_getD_getElem?, Array.getElem?_eq_none (Nat.le_of_not_lt h)]
    rfl

end Instruction

theorem Cpu.cost_branch (c : Cpu) (offset : UInt8) (taken : Bool) :
    2 ≤ (c.branch offset taken).1 ∧ (c.branch offset taken).1 ≤ 4 := by
  unfold branch
  split
  · simp
  · simp only
    split <;> simp

namespace Machine

variable (m : Machine)

/-- Every instruction but a JAM takes two to eight cycles. -/
theorem cost_perform (i : Instruction) (hjam : i ≠ .jam) (hskip : i.skipsInTime) :
    2 ≤ (m.perform i).1 ∧ (m.perform i).1 ≤ 8 := by
  cases i with
  | load op mode =>
    have hcost : 2 ≤ mode.loadCost ∧ mode.loadCost ≤ 6 := by cases mode <;> decide
    have hcrossed : (m.perform (.load op mode)).1 =
        mode.loadCost + if m.cpu.crossed mode (m.cpu.effective m.cart mode) then 1 else 0 := by
      simp only [perform, load]
      split <;> rfl
    rw [hcrossed]
    split <;> omega
  | store op mode =>
    show 2 ≤ mode.storeCost ∧ mode.storeCost ≤ 8
    cases mode <;> decide
  | modify op mode =>
    show 2 ≤ mode.modifyCost ∧ mode.modifyCost ≤ 8
    cases mode <;> decide
  | implied op =>
    show 2 ≤ op.cost ∧ op.cost ≤ 8
    cases op <;> decide
  | branch flag value =>
    have hbranch :=
      (m.cpu.advance 1).cost_branch (m.cpu.peek m.cart m.cpu.pc) (m.cpu.flag flag == value)
    simp only [perform]
    omega
  | skip operands cost =>
    simp only [Instruction.skipsInTime, decide_eq_true_eq] at hskip
    simp only [perform]
    omega
  | jam => exact absurd rfl hjam
  | _ =>
    simp only [perform]
    omega

/-- What an instruction writes, it writes over the bus and without taking time for itself. -/
theorem perform_writes (i : Instruction) (address : UInt16) (h : i.target m.cpu m.cart = some address) :
    ∃ (n : Machine) (value : UInt8),
      Cpu.SameTime m.cpu n.cpu ∧ (m.perform i).2 = n.write address value := by
  cases i with
  | store op mode =>
    obtain rfl : m.cpu.effective m.cart mode = address := Option.some.inj h
    refine ⟨_, _, ?_, rfl⟩
    exact ((Cpu.steady_advance _ _).trans (Cpu.steady_store op _ _)).sameTime
  | modify op mode =>
    obtain rfl : m.cpu.effective m.cart mode = address := Option.some.inj h
    have hread := cpu_read (m.mapCpu (·.advance mode.size)) (m.cpu.effective m.cart mode)
    simp only [perform, modify]
    generalize read (m.mapCpu (·.advance mode.size)) (m.cpu.effective m.cart mode) = r at hread ⊢
    refine ⟨{ r.2 with cpu := (op.apply r.2.cpu r.1).2 }, _, ?_, rfl⟩
    refine Cpu.SameTime.trans ?_ (Cpu.steady_modify op _ _).sameTime
    rw [hread]
    exact (Cpu.steady_advance _ _).sameTime
  | _ => exact absurd h (Option.some_ne_none _).symm

/-- An instruction that writes nothing takes no time for itself. -/
theorem sameTime_perform (i : Instruction) (h : i.target m.cpu m.cart = none) :
    Cpu.SameTime m.cpu (m.perform i).2.cpu := by
  cases i with
  | load op mode =>
    show Cpu.SameTime m.cpu (m.load op mode).2.cpu
    simp only [load]
    split
    · exact ((Cpu.steady_advance _ _).trans (Cpu.steady_load op _ _)).sameTime
    · refine Cpu.SameTime.trans ?_ (Cpu.steady_load op _ _).sameTime
      rw [cpu_read]
      exact (Cpu.steady_advance _ _).sameTime
  | store op mode => exact absurd h (Option.some_ne_none _)
  | modify op mode => exact absurd h (Option.some_ne_none _)
  | accumulator op =>
    have hsteady := (Cpu.steady_modify op m.cpu m.cpu.a).sameTime
    exact ⟨hsteady.owed, hsteady.budget, hsteady.clock⟩
  | implied op => exact (Cpu.steady_implied op _).sameTime
  | branch flag value => exact ((Cpu.steady_advance _ _).trans (Cpu.steady_branch _ _ _)).sameTime
  | brk => exact (Cpu.steady_brk _ _).sameTime
  | jsr => exact (Cpu.steady_jsr _ _).sameTime
  | rti => exact (Cpu.steady_rti _).sameTime
  | rts => exact (Cpu.steady_rts _).sameTime
  | jmp => exact (Cpu.steady_jump _ _).sameTime
  | jmpIndirect => exact (Cpu.steady_jump _ _).sameTime
  | skip operands cost => exact (Cpu.steady_advance _ _).sameTime
  | jam => exact Cpu.SameTime.refl _

/-- An instruction that does not write to the transfer register takes no time for itself. -/
theorem sameTime_perform_of_ne (i : Instruction) (h : i.target m.cpu m.cart ≠ some 0x4014) :
    Cpu.SameTime m.cpu (m.perform i).2.cpu := by
  cases htarget : i.target m.cpu m.cart with
  | none => exact m.sameTime_perform i htarget
  | some address =>
    obtain ⟨n, value, hn, hwrite⟩ := m.perform_writes i address htarget
    have hne : address ≠ 0x4014 := fun heq => h (htarget.trans (congrArg some heq))
    rw [hwrite]
    exact hn.trans (n.sameTime_write address value hne)

/-- An instruction that writes to the transfer register owes the transfer and ends the slice. -/
theorem perform_transfer (i : Instruction) (h : i.target m.cpu m.cart = some 0x4014) :
    (m.perform i).2.cpu.owed = m.cpu.owed + 513 ∧ (m.perform i).2.cpu.budget = 0 ∧
      (m.perform i).2.cpu.clock = m.cpu.clock := by
  obtain ⟨n, value, hn, hwrite⟩ := m.perform_writes i 0x4014 h
  rw [hwrite, write_transfer]
  exact ⟨congrArg (· + 513) hn.owed, rfl, hn.clock⟩

end Machine

end Famicom
