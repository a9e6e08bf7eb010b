import Famicom.Machine.Execute
import Mathlib.Tactic.SplitIfs

/-!
What the processor leaves alone. Registers, flags and the stack are all that an instruction changes by
itself: the windows, the three accounts of time (`owed`, `budget`, `clock`) and the marks of a waiting
interrupt and of a stop stay (`Cpu.Steady`).
Interrupts come from outside and keep the windows, but charge or spend their entry.

    instruction        steady; its cost is spent afterwards
    nmi, irq           pages, budget, clock          owed + 7
    servePending       pages, owed                   budget - 7, clock + 7
-/

namespace Famicom

/-- The accounts of time are the same. -/
structure Cpu.SameTime (c c' : Cpu) : Prop where
  owed : c'.owed = c.owed
  budget : c'.budget = c.budget
  clock : c'.clock = c.clock

/-- The windows and the marks of a waiting interrupt and of a stop are the same. -/
structure Cpu.Poised (c c' : Cpu) : Prop where
  pages : c'.pages = c.pages
  pending : c'.pending = c.pending
  jammed : c'.jammed = c.jammed

/-- The windows, the accounts of time and the marks are the same. -/
structure Cpu.Steady (c c' : Cpu) : Prop where
  pages : c'.pages = c.pages
  owed : c'.owed = c.owed
  budget : c'.budget = c.budget
  clock : c'.clock = c.clock
  pending : c'.pending = c.pending
  jammed : c'.jammed = c.jammed

namespace Cpu

variable {c c' c'' : Cpu}

theorem SameTime.refl (c : Cpu) : SameTime c c := ⟨rfl, rfl, rfl⟩

theorem SameTime.trans (h : SameTime c c') (h' : SameTime c' c'') : SameTime c c'' :=
  ⟨h'.owed.trans h.owed, h'.budget.trans h.budget, h'.clock.trans h.clock⟩

theorem Steady.sameTime (h : Steady c c') : SameTime c c' := ⟨h.owed, h.budget, h.clock⟩

theorem Steady.poised (h : Steady c c') : Poised c c' := ⟨h.pages, h.pending, h.jammed⟩

theorem Poised.trans (h : Poised c c') (h' : Poised c' c'') : Poised c c'' :=
  ⟨h'.pages.trans h.pages, h'.pending.trans h.pending, h'.jammed.trans h.jammed⟩

theorem Steady.refl (c : Cpu) : Steady c c := ⟨rfl, rfl, rfl, rfl, rfl, rfl⟩

theorem Steady.trans (h : Steady c c') (h' : Steady c' c'') : Steady c c'' :=
  ⟨h'.pages.trans h.pages, h'.owed.trans h.owed, h'.budget.trans h.budget, h'.clock.trans h.clock,
    h'.pending.trans h.pending, h'.jammed.trans h.jammed⟩

/-! ### Registers, flags and the stack -/

theorem steady_status (c : Cpu) (p : UInt8) : Steady c { c with p } := ⟨rfl, rfl, rfl, rfl, rfl, rfl⟩

theorem steady_jump (c : Cpu) (pc : UInt16) : Steady c { c with pc } := ⟨rfl, rfl, rfl, rfl, rfl, rfl⟩

theorem steady_setFlag (c : Cpu) (flag : Flag) (value : Bool) : Steady c (c.setFlag flag value) :=
  ⟨rfl, rfl, rfl, rfl, rfl, rfl⟩

theorem steady_push (c : Cpu) (value : UInt8) : Steady c (c.push value) := ⟨rfl, rfl, rfl, rfl, rfl, rfl⟩

theorem steady_pushWord (c : Cpu) (value : UInt16) : Steady c (c.pushWord value) := ⟨rfl, rfl, rfl, rfl, rfl, rfl⟩

theorem steady_advance (c : Cpu) (bytes : UInt16) : Steady c (c.advance bytes) := ⟨rfl, rfl, rfl, rfl, rfl, rfl⟩

theorem steady_load (op : Load) (c : Cpu) (value : UInt8) : Steady c (op.apply c value) := by
  cases op <;> exact ⟨rfl, rfl, rfl, rfl, rfl, rfl⟩

theorem steady_store (op : Store) (c : Cpu) (address : UInt16) : Steady c (op.value c address).2 := by
  cases op <;> exact ⟨rfl, rfl, rfl, rfl, rfl, rfl⟩

theorem steady_modify (op : Modify) (c : Cpu) (value : UInt8) : Steady c (op.apply c value).2 := by
  cases op <;> exact ⟨rfl, rfl, rfl, rfl, rfl, rfl⟩

theorem steady_implied (op : Implied) (c : Cpu) : Steady c (op.apply c) := by
  cases op <;> exact ⟨rfl, rfl, rfl, rfl, rfl, rfl⟩

/-! ### Control -/

theorem steady_branch (c : Cpu) (offset : UInt8) (taken : Bool) :
    Steady c (c.branch offset taken).2 := by
  unfold branch
  split
  · exact Steady.refl c
  · exact ⟨rfl, rfl, rfl, rfl, rfl, rfl⟩

theorem steady_brk (c : Cpu) (cart : Cartridge) : Steady c (c.brk cart) :=
  (steady_advance c 1).trans <| (steady_pushWord _ _).trans <| (steady_status _ _).trans <|
    (steady_push _ _).trans <| (steady_setFlag _ _ _).trans (steady_jump _ _)

theorem steady_jsr (c : Cpu) (cart : Cartridge) : Steady c (c.jsr cart) := ⟨rfl, rfl, rfl, rfl, rfl, rfl⟩

theorem steady_rti (c : Cpu) : Steady c c.rti := ⟨rfl, rfl, rfl, rfl, rfl, rfl⟩

theorem steady_rts (c : Cpu) : Steady c c.rts := ⟨rfl, rfl, rfl, rfl, rfl, rfl⟩

/-! ### Time -/

theorem poised_spend (c : Cpu) (cycles : Int) : Poised c (c.spend cycles) := ⟨rfl, rfl, rfl⟩

theorem poised_charge (c : Cpu) (cycles : Int) : Poised c (c.charge cycles) := ⟨rfl, rfl, rfl⟩

/-! ### Interrupts -/

theorem steady_enter (c : Cpu) (cart : Cartridge) (vector : UInt16) : Steady c (c.enter cart vector) :=
  ⟨rfl, rfl, rfl, rfl, rfl, rfl⟩

theorem pages_nmi (c : Cpu) (cart : Cartridge) : (c.nmi cart).pages = c.pages := by
  unfold nmi
  split_ifs <;> rfl

theorem pages_irq (c : Cpu) (cart : Cartridge) : (c.irq cart).pages = c.pages := by
  unfold irq
  split_ifs <;> rfl

/-- A pending interrupt is taken at the price of its entry, and only while there is budget. -/
theorem servePending_cases (c : Cpu) (cart : Cartridge) :
    Steady c (c.servePending cart) ∨
      0 < c.budget ∧ (c.servePending cart).pages = c.pages ∧ (c.servePending cart).owed = c.owed ∧
        (c.servePending cart).budget = c.budget - 7 ∧ (c.servePending cart).clock = c.clock + 7 := by
  unfold servePending
  split
  case isTrue h =>
    simp only [Bool.and_eq_true, decide_eq_true_eq] at h
    exact Or.inr ⟨h.2, rfl, rfl, rfl, rfl⟩
  case isFalse => exact Or.inl (Steady.refl c)

theorem pages_servePending (c : Cpu) (cart : Cartridge) : (c.servePending cart).pages = c.pages := by
  rcases c.servePending_cases cart with h | h
  · exact h.pages
  · exact h.2.1

theorem poised_payOwed (c : Cpu) : Poised c c.payOwed := by
  unfold payOwed
  split <;> exact ⟨rfl, rfl, rfl⟩

theorem poised_idleIfJammed (c : Cpu) : Poised c c.idleIfJammed := by
  unfold idleIfJammed
  split <;> exact ⟨rfl, rfl, rfl⟩

/-! ### The accounts of time before a slice's first instruction -/

section
variable (c : Cpu)

theorem payOwed_accounts (hbudget : 0 < c.budget) (howed : 0 ≤ c.owed) :
    c.payOwed.clock = c.clock + (min c.owed c.budget).toNat ∧
      c.payOwed.owed = c.owed - min c.owed c.budget ∧
        c.payOwed.budget = c.budget - min c.owed c.budget := by
  unfold payOwed
  split
  · exact ⟨rfl, rfl, rfl⟩
  · have hnone : c.owed = 0 := by omega
    refine ⟨?_, ?_, ?_⟩ <;> omega

/-- Idling uses up what is left, and nothing else. -/
theorem idleIfJammed_accounts :
    ∃ idle : Nat, c.idleIfJammed.clock = c.clock + idle ∧ c.idleIfJammed.owed = c.owed ∧
      c.idleIfJammed.budget = c.budget - idle ∧ (idle = 0 ∨ idle = c.budget) := by
  unfold idleIfJammed
  split
  · refine ⟨c.budget.toNat, rfl, rfl, ?_, ?_⟩
    · show c.budget - c.budget = _
      omega
    · omega
  · exact ⟨0, rfl, rfl, by omega, Or.inl rfl⟩

/-- A waiting interrupt takes seven cycles of a budget that is not used up. -/
theorem servePending_accounts (cart : Cartridge) :
    ∃ taken : Nat, (c.servePending cart).clock = c.clock + taken ∧ (c.servePending cart).owed = c.owed ∧
      (c.servePending cart).budget = c.budget - taken ∧ (taken = 0 ∨ taken = 7 ∧ 0 < c.budget) := by
  rcases c.servePending_cases cart with h | ⟨hopen, -, howed, hbudget, hclock⟩
  · exact ⟨0, h.clock, h.owed, by rw [h.budget]; omega, Or.inl rfl⟩
  · exact ⟨7, hclock, howed, by omega, Or.inr ⟨rfl, hopen⟩⟩

/-- All that a slice spends before its first instruction. -/
theorem begin_accounts (cart : Cartridge) (hbudget : 0 < c.budget) (howed : 0 ≤ c.owed) :
    ∃ spent : Nat, (c.payOwed.idleIfJammed.servePending cart).clock = c.clock + spent ∧
      spent ≤ c.budget + 6 ∧
      (c.payOwed.idleIfJammed.servePending cart).owed = c.owed - min c.owed c.budget ∧
      (c.payOwed.idleIfJammed.servePending cart).budget = c.budget - spent := by
  obtain ⟨hclock₁, howed₁, hbudget₁⟩ := c.payOwed_accounts hbudget howed
  obtain ⟨idle, hclock₂, howed₂, hbudget₂, hidle⟩ := c.payOwed.idleIfJammed_accounts
  obtain ⟨taken, hclock₃, howed₃, hbudget₃, htaken⟩ :=
    c.payOwed.idleIfJammed.servePending_accounts cart
  refine ⟨(min c.owed c.budget).toNat + idle + taken, by omega, by omega, by omega, by omega⟩

end

end Cpu

end Famicom
