import Famicom.Proofs.BusTime

/-!
What a time slice costs. An instruction is one of three entries in the book of time, and a slice is a
column of them that ends with the first transfer or JAM:

    entry        clock    budget         owed
    plain        + n      - n            same       2 ≤ n, at most 7 beyond the budget
    transfer     + n      := - n         + 513
    JAM          + 2      := 0           same

    slice ──▶ owed ──▶ idle if jammed ──▶ interrupt ──▶ entry ──▶ … ──▶ budget ≤ 0
-/

namespace Famicom

namespace Machine

variable (m : Machine)

/-! ### Instructions -/

/-- The instruction at the program counter. -/
def nextInstruction (m : Machine) : Instruction := Instruction.decode (m.cpu.peek m.cart m.cpu.pc)

/-- The next instruction is a JAM. -/
def jams (m : Machine) : Bool := m.nextInstruction == .jam

/-- The next instruction writes to the sprite transfer register. -/
def transfers (m : Machine) : Bool := m.nextInstruction.target (m.cpu.advance 1) m.cart == some 0x4014

/-- What an instruction of `cycles` cycles enters into the accounts of time. -/
inductive Entry (m n : Machine) (cycles : Int) : Prop
  | plain (transfers : m.transfers = false) (owed : n.cpu.owed = m.cpu.owed)
    (budget : n.cpu.budget = m.cpu.budget - cycles)
  | transfer (transfers : m.transfers = true) (owed : n.cpu.owed = m.cpu.owed + 513)
    (budget : n.cpu.budget ≤ 0)
  | jam (jams : m.jams = true) (transfers : m.transfers = false) (owed : n.cpu.owed = m.cpu.owed)
    (budget : n.cpu.budget ≤ 0)

/-- Only instructions that write nothing let a waiting interrupt in. -/
theorem target_of_opens {i : Instruction} (h : i.opensInterrupts = true) (c : Cpu) (cart : Cartridge) :
    i.target c cart = none := by
  cases i with
  | store op mode => exact absurd h Bool.false_ne_true
  | modify op mode => exact absurd h Bool.false_ne_true
  | _ => rfl

/-- After an instruction that opened interrupts: its cost, and seven cycles more if one was waiting. -/
theorem spend_servePending (c : Cpu) (cart : Cartridge) (cost : Int) (hlow : 2 ≤ cost)
    (hhigh : cost ≤ 8) :
    ∃ cycles : Nat, ((c.spend cost).servePending cart).clock = c.clock + cycles ∧ 0 < cycles ∧
      cycles ≤ max c.budget 1 + 7 ∧ ((c.spend cost).servePending cart).owed = c.owed ∧
        ((c.spend cost).servePending cart).budget = c.budget - cycles := by
  have hbudget : (c.spend cost).budget = c.budget - cost := rfl
  have hclock : (c.spend cost).clock = c.clock + cost.toNat := rfl
  have howed : (c.spend cost).owed = c.owed := rfl
  obtain ⟨taken, hc, ho, hb, htaken⟩ := (c.spend cost).servePending_accounts cart
  exact ⟨cost.toNat + taken, by omega, by omega, by omega, by omega, by omega⟩

/-- The machine some cycles later, at most seven beyond the budget, all of them entered. -/
def Enters (m n : Machine) : Prop :=
  ∃ cycles : Nat, n.cpu.clock = m.cpu.clock + cycles ∧ 0 < cycles ∧ cycles ≤ m.cpu.budget + 7 ∧
    m.Entry n cycles

/-- The next instruction carried out, its cost still to be spent. -/
def performed (m : Machine) : Int × Machine := (m.mapCpu (·.advance 1)).perform m.nextInstruction

theorem step_jammed (h : m.nextInstruction = .jam) :
    m.step = m.jam (m.cpu.peek m.cart m.cpu.pc) m.cpu.pc := by
  rw [nextInstruction] at h
  rw [step]
  exact if_pos h

theorem step_performed (h : m.nextInstruction ≠ .jam) : m.step =
    if m.nextInstruction.opensInterrupts then
      m.performed.2.mapCpu fun c => (c.spend m.performed.1).servePending m.performed.2.cart
    else m.performed.2.mapCpu (·.spend m.performed.1) := by
  rw [nextInstruction] at h
  simp only [step, performed, nextInstruction, if_neg h]
  generalize (m.mapCpu (·.advance 1)).perform _ = r
  rfl

theorem cost_performed (h : m.nextInstruction ≠ .jam) : 2 ≤ m.performed.1 ∧ m.performed.1 ≤ 8 :=
  (m.mapCpu (·.advance 1)).cost_perform _ h (Instruction.decode_skipsInTime _)

theorem performed_transfer (h : m.transfers = true) :
    m.performed.2.cpu.owed = m.cpu.owed + 513 ∧ m.performed.2.cpu.budget = 0 ∧
      m.performed.2.cpu.clock = m.cpu.clock := by
  rw [transfers, beq_iff_eq] at h
  rw [performed]
  generalize m.nextInstruction = i at h ⊢
  exact (m.mapCpu (·.advance 1)).perform_transfer i h

theorem performed_plain (h : m.transfers = false) : Cpu.SameTime m.cpu m.performed.2.cpu := by
  rw [transfers, beq_eq_false_iff_ne] at h
  rw [performed]
  generalize m.nextInstruction = i at h ⊢
  obtain ⟨howed, hbudget, hclock⟩ := (m.mapCpu (·.advance 1)).sameTime_perform_of_ne i h
  exact ⟨howed, hbudget, hclock⟩

/-- A transfer never opens interrupts. -/
theorem closed_of_transfers (h : m.transfers = true) : ¬ m.nextInstruction.opensInterrupts = true := by
  intro hopens
  rw [transfers, target_of_opens hopens] at h
  exact absurd h Bool.false_ne_true

theorem enters_jam (h : 0 < m.cpu.budget) (hjam : m.nextInstruction = .jam) : m.Enters m.step := by
  have hjams : m.jams = true := beq_iff_eq.mpr hjam
  have htransfers : m.transfers = false := by
    rw [transfers, hjam]
    rfl
  rw [m.step_jammed hjam]
  exact ⟨2, rfl, by decide, by omega, Entry.jam hjams htransfers rfl (Int.le_refl 0)⟩

theorem enters_transfer (h : 0 < m.cpu.budget) (hjam : m.nextInstruction ≠ .jam)
    (htransfers : m.transfers = true) : m.Enters m.step := by
  obtain ⟨hlow, hhigh⟩ := m.cost_performed hjam
  obtain ⟨howed, hbudget, hclock⟩ := m.performed_transfer htransfers
  rw [m.step_performed hjam, if_neg (m.closed_of_transfers htransfers)]
  generalize m.performed = r at hlow hhigh howed hbudget hclock ⊢
  have hspent : r.2.cpu.budget - r.1 ≤ 0 := by omega
  exact ⟨r.1.toNat, congrArg (· + r.1.toNat) hclock, by omega, by omega,
    Entry.transfer htransfers howed hspent⟩

theorem enters_plain (h : 0 < m.cpu.budget) (hjam : m.nextInstruction ≠ .jam)
    (htransfers : m.transfers = false) : m.Enters m.step := by
  obtain ⟨hlow, hhigh⟩ := m.cost_performed hjam
  obtain ⟨howed, hbudget, hclock⟩ := m.performed_plain htransfers
  rw [m.step_performed hjam]
  generalize m.performed = r at hlow hhigh howed hbudget hclock ⊢
  split
  · -- a waiting interrupt may follow
    obtain ⟨cycles, hc, hpos, hle, ho, hb⟩ := spend_servePending r.2.cpu r.2.cart r.1 hlow hhigh
    exact ⟨cycles, hc.trans (congrArg (· + cycles) hclock), hpos, by omega,
      Entry.plain htransfers (ho.trans howed) (hb.trans (congrArg (· - (cycles : Int)) hbudget))⟩
  · have hspent : r.2.cpu.budget - r.1 = m.cpu.budget - r.1.toNat := by omega
    exact ⟨r.1.toNat, congrArg (· + r.1.toNat) hclock, by omega, by omega,
      Entry.plain htransfers howed hspent⟩

/-- An instruction takes time, but no more than seven cycles beyond the budget. -/
theorem enters_step (h : 0 < m.cpu.budget) : m.Enters m.step := by
  by_cases hjam : m.nextInstruction = .jam
  · exact m.enters_jam h hjam
  · cases htransfers : m.transfers with
    | true => exact m.enters_transfer h hjam htransfers
    | false => exact m.enters_plain h hjam htransfers

/-! ### Runs -/

/-- The machines at which the instructions of a run begin. -/
def trace : Nat → Machine → List Machine
  | 0, _ => []
  | fuel + 1, m => if m.cpu.budget > 0 then m :: trace fuel m.step else []

/-- The accounts of a run that began with a budget. -/
structure Column (ms : List Machine) (m n : Machine) : Prop where
  /-- The budget is used up. -/
  ended : n.cpu.budget ≤ 0
  starts : m.cpu.clock < n.cpu.clock
  /-- The last instruction overdraws by seven cycles at most. -/
  bound : n.cpu.clock ≤ m.cpu.clock + m.cpu.budget + 7
  /-- Only a JAM or a transfer leaves time unused. -/
  early : n.cpu.clock < m.cpu.clock + m.cpu.budget → ∃ k ∈ ms, k.jams ∨ k.transfers
  owed : n.cpu.owed = m.cpu.owed + 513 * ms.countP transfers
  /-- A transfer is the end of it. -/
  last : ∀ k ∈ ms.dropLast, k.transfers = false

theorem run_idle (h : m.cpu.budget ≤ 0) (fuel : Nat) : run fuel m = m := by
  cases fuel with
  | zero => rfl
  | succ fuel => exact if_neg (by omega)

theorem trace_idle (h : m.cpu.budget ≤ 0) (fuel : Nat) : trace fuel m = [] := by
  cases fuel with
  | zero => rfl
  | succ fuel => exact if_neg (by omega)

theorem run_succ (h : 0 < m.cpu.budget) (fuel : Nat) : run (fuel + 1) m = run fuel m.step := if_pos h

theorem trace_succ (h : 0 < m.cpu.budget) (fuel : Nat) :
    trace (fuel + 1) m = m :: trace fuel m.step := if_pos h

/-- A run whose first instruction uses up the budget. -/
theorem Column.single {n : Machine} {cycles : Nat} (hclock : n.cpu.clock = m.cpu.clock + cycles)
    (hpos : 0 < cycles) (hle : cycles ≤ m.cpu.budget + 7) (hentry : m.Entry n cycles)
    (hended : n.cpu.budget ≤ 0) : Column [m] m n := by
  refine ⟨hended, by omega, by omega, fun hearly => ⟨m, List.mem_singleton_self m, ?_⟩, ?_, ?_⟩
  · cases hentry with
    | plain _ _ budget => omega
    | transfer transfers => exact Or.inr transfers
    | jam jams => exact Or.inl jams
  · cases hentry with
    | plain transfers owed => simp [transfers, owed]
    | transfer transfers owed => simp [transfers, owed]
    | jam _ transfers owed => simp [transfers, owed]
  · intro k hk
    exact absurd hk (List.not_mem_nil)

/-- An instruction that leaves budget, in front of a run. -/
theorem Column.cons {n k : Machine} {ms : List Machine} {cycles : Nat}
    (hclock : n.cpu.clock = m.cpu.clock + cycles) (hentry : m.Entry n cycles) (hleft : 0 < n.cpu.budget)
    (h : Column ms n k) : Column (m :: ms) m k := by
  have hstarts := h.starts
  have hbound := h.bound
  -- a transfer or a JAM would have left no budget
  obtain ⟨htransfers, howed, hbudget⟩ : m.transfers = false ∧ n.cpu.owed = m.cpu.owed ∧
      n.cpu.budget = m.cpu.budget - cycles := by
    cases hentry with
    | plain transfers owed budget => exact ⟨transfers, owed, budget⟩
    | transfer _ _ budget => omega
    | jam _ _ _ budget => omega
  refine ⟨h.ended, by omega, by omega, fun hearly => ?_, ?_, ?_⟩
  · obtain ⟨j, hj, hcut⟩ := h.early (by omega)
    exact ⟨j, List.mem_cons_of_mem m hj, hcut⟩
  · rw [h.owed, howed, List.countP_cons_of_neg (by simp [htransfers])]
  · intro j hj
    cases ms with
    | nil => exact absurd hj List.not_mem_nil
    | cons i ms =>
      rcases List.mem_cons.mp hj with rfl | hj
      · exact htransfers
      · exact h.last j hj

/-- Enough fuel runs the whole budget. -/
theorem run_column (fuel : Nat) (h : 0 < m.cpu.budget) (hfuel : m.cpu.budget ≤ fuel) :
    Column (trace fuel m) m (run fuel m) := by
  induction fuel generalizing m with
  | zero => omega
  | succ fuel ih =>
    obtain ⟨cycles, hclock, hpos, hle, hentry⟩ := m.enters_step h
    rw [run_succ m h, trace_succ m h]
    by_cases hleft : 0 < m.step.cpu.budget
    · have hfuel' : m.step.cpu.budget ≤ fuel := by
        cases hentry with
        | plain _ _ budget => omega
        | transfer _ _ budget => omega
        | jam _ _ _ budget => omega
      exact Column.cons m hclock hentry hleft (ih m.step hleft hfuel')
    · have hended : m.step.cpu.budget ≤ 0 := by omega
      rw [run_idle _ hended, trace_idle _ hended]
      exact Column.single m hclock hpos hle hentry hended

theorem run_add (fuel more : Nat) : run (fuel + more) m = run more (run fuel m) := by
  induction fuel generalizing m with
  | zero => rw [Nat.zero_add]; rfl
  | succ fuel ih =>
    rw [Nat.add_right_comm]
    by_cases h : 0 < m.cpu.budget
    · rw [run_succ m h, run_succ m h, ih]
    · rw [run_idle m (by omega), run_idle m (by omega), run_idle m (by omega)]

/-- A run whose fuel covers the budget uses it up. -/
theorem run_ended : (run m.cpu.budget.toNat m).cpu.budget ≤ 0 := by
  by_cases h : 0 < m.cpu.budget
  · exact (m.run_column _ h (by omega)).ended
  · rw [run_idle m (by omega)]
    omega

/-- The budget is all the fuel that a run needs: with more it does the same. -/
theorem run_enough {fuel : Nat} (hfuel : m.cpu.budget ≤ fuel) :
    run fuel m = run m.cpu.budget.toNat m := by
  obtain ⟨more, rfl⟩ : ∃ more, fuel = m.cpu.budget.toNat + more := ⟨fuel - m.cpu.budget.toNat, by omega⟩
  rw [run_add]
  exact run_idle _ m.run_ended more

/-- A transfer counts once, and as the last. -/
theorem Column.countP_transfers {n : Machine} {ms : List Machine} (h : Column ms m n) :
    ms.countP transfers ≤ 1 ∧ (ms.countP transfers = 1 → ∃ k, ms.getLast? = some k ∧ k.transfers) := by
  have hlast := h.last
  rcases List.eq_nil_or_concat ms with rfl | ⟨l, k, rfl⟩
  · exact ⟨Nat.zero_le 1, fun hone => absurd hone Nat.zero_ne_one⟩
  · rw [List.concat_eq_append, List.dropLast_concat] at hlast
    have hzero : l.countP transfers = 0 :=
      List.countP_eq_zero.mpr fun j hj => Bool.eq_false_iff.mp (hlast j hj)
    rw [List.concat_eq_append, List.countP_append, hzero, Nat.zero_add, List.getLast?_concat]
    refine ⟨List.countP_le_length, fun hone => ⟨k, rfl, ?_⟩⟩
    exact List.countP_pos_iff.mp (by omega : 0 < [k].countP transfers) |>.elim fun j hj =>
      List.mem_singleton.mp hj.1 ▸ hj.2

end Machine

/-! ### Slices -/

namespace Machine

variable (m : Machine)

/-- The machine of a slice before its first instruction: what is owed is paid, a jammed processor has
idled and a waiting interrupt is taken. -/
def beginSlice (m : Machine) (slice : Int) : Machine :=
  m.mapCpu fun c => ({ c with budget := slice }.payOwed.idleIfJammed).servePending m.cart

/-- The machines at which the instructions of a slice begin. -/
def sliceTrace (m : Machine) (slice : Int) : List Machine :=
  trace (m.beginSlice slice).cpu.budget.toNat (m.beginSlice slice)

theorem execute_eq (slice : Int) :
    (m.execute slice).2 = run (m.beginSlice slice).cpu.budget.toNat (m.beginSlice slice) := rfl

theorem execute_elapsed (slice : Int) :
    (m.execute slice).1 = ((m.execute slice).2.cpu.clock - m.cpu.clock : Nat) := rfl

/-- A slice of no time begins by doing nothing. -/
theorem beginSlice_idle {slice : Int} (h : slice ≤ 0) :
    m.beginSlice slice = { m with cpu := { m.cpu with budget := slice } } := by
  have hpay : ({ m.cpu with budget := slice } : Cpu).payOwed = { m.cpu with budget := slice } :=
    if_neg fun hc => absurd hc.2 (Int.not_lt.mpr h)
  have hidle : ({ m.cpu with budget := slice } : Cpu).idleIfJammed = { m.cpu with budget := slice } :=
    if_neg fun hc => absurd hc.2 (Int.not_lt.mpr h)
  have hserve : ({ m.cpu with budget := slice } : Cpu).servePending m.cart =
      { m.cpu with budget := slice } := by
    rw [Cpu.servePending, if_neg]
    simp only [Bool.and_eq_true, decide_eq_true_eq]
    exact fun hc => absurd hc.2 (Int.not_lt.mpr h)
  simp only [beginSlice, mapCpu, hpay, hidle, hserve]

/-- What a slice spends before its first instruction. -/
theorem beginSlice_accounts {slice : Int} (h : 0 < slice) (howed : 0 ≤ m.cpu.owed) :
    ∃ spent : Nat, (m.beginSlice slice).cpu.clock = m.cpu.clock + spent ∧ spent ≤ slice + 6 ∧
      (m.beginSlice slice).cpu.owed = m.cpu.owed - min m.cpu.owed slice ∧
        (m.beginSlice slice).cpu.budget = slice - spent :=
  ({ m.cpu with budget := slice } : Cpu).begin_accounts m.cart h howed

/-- A slice of no time changes nothing but the budget. -/
theorem execute_idle {slice : Int} (h : slice ≤ 0) :
    m.execute slice = (0, { m with cpu := { m.cpu with budget := slice } }) := by
  have hrun : (m.execute slice).2 = { m with cpu := { m.cpu with budget := slice } } := by
    rw [execute_eq, beginSlice_idle m h]
    exact run_idle _ h _
  refine Prod.ext ?_ hrun
  rw [execute_elapsed, hrun]
  simp

/-- The accounts of a slice. It ends, whatever the program: its fuel never runs out. A slice of no time
does nothing. Any other elapses as far as it was asked to, up to seven cycles more, and less only where
a JAM or a sprite transfer cut it short; it pays what was owed as far as it reaches, and owes anew for
the one transfer that may have been its last instruction. -/
theorem execute_accounts (slice : Int) (howed : 0 ≤ m.cpu.owed) :
    ((m.execute slice).2.cpu.budget ≤ 0 ∧ ∀ fuel : Nat, (m.beginSlice slice).cpu.budget ≤ fuel →
        run fuel (m.beginSlice slice) = (m.execute slice).2) ∧
      (slice ≤ 0 → m.execute slice = (0, { m with cpu := { m.cpu with budget := slice } })) ∧
      (0 < slice →
        (m.execute slice).2.cpu.clock = m.cpu.clock + (m.execute slice).1 ∧
        1 ≤ (m.execute slice).1 ∧ (m.execute slice).1 ≤ slice + 7 ∧
        ((m.execute slice).1 < slice → ∃ k ∈ m.sliceTrace slice, k.jams ∨ k.transfers) ∧
        (m.execute slice).2.cpu.owed =
          m.cpu.owed - min m.cpu.owed slice + 513 * (m.sliceTrace slice).countP transfers ∧
        (m.sliceTrace slice).countP transfers ≤ 1 ∧
        ((m.sliceTrace slice).countP transfers = 1 →
          ∃ k, (m.sliceTrace slice).getLast? = some k ∧ k.transfers)) := by
  refine ⟨⟨?_, ?_⟩, m.execute_idle, fun h => ?_⟩
  · rw [execute_eq]
    exact run_ended _
  · intro fuel hfuel
    exact (m.beginSlice slice).run_enough hfuel
  · obtain ⟨spent, hclock, hspent, howed', hbudget⟩ := m.beginSlice_accounts h howed
    have hrun := m.execute_eq slice
    have helapsed := m.execute_elapsed slice
    unfold sliceTrace
    generalize m.execute slice = r at hrun helapsed ⊢
    by_cases hleft : 0 < (m.beginSlice slice).cpu.budget
    · have hcolumn :=
        (m.beginSlice slice).run_column (m.beginSlice slice).cpu.budget.toNat hleft (by omega)
      obtain ⟨hone, hlast⟩ := hcolumn.countP_transfers
      rw [← hrun] at hcolumn
      have hstarts := hcolumn.starts
      have hbound := hcolumn.bound
      refine ⟨by omega, by omega, by omega, fun hearly => hcolumn.early (by omega), ?_, hone, hlast⟩
      rw [hcolumn.owed, howed']
    · rw [run_idle _ (by omega)] at hrun
      rw [trace_idle _ (by omega), hrun]
      rw [hrun] at helapsed
      refine ⟨by omega, by omega, by omega, by omega, howed'.trans (by simp), Nat.zero_le 1,
        fun hone => ?_⟩
      exact absurd hone Nat.zero_ne_one

/-- A processor that still owes a transfer, in a slice of 600 cycles. -/
theorem execute_accounts_owing :
    0 ≤ ({ cpu := { owed := 513 } } : Machine).cpu.owed ∧
      1 ≤ (({ cpu := { owed := 513 } } : Machine).execute 600).1 ∧
      (({ cpu := { owed := 513 } } : Machine).execute 600).1 ≤ 607 ∧
      (({ cpu := { owed := 513 } } : Machine).execute 600).2.cpu.owed =
        513 * (({ cpu := { owed := 513 } } : Machine).sliceTrace 600).countP transfers := by
  have howed : 0 ≤ ({ cpu := { owed := 513 } } : Machine).cpu.owed := by decide
  obtain ⟨-, hlow, hhigh, -, hpaid, -⟩ :=
    (execute_accounts { cpu := { owed := 513 } } 600 howed).2.2 (by decide)
  refine ⟨howed, hlow, hhigh, hpaid.trans ?_⟩
  simp only
  omega

end Machine

end Famicom
