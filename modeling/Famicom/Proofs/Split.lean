import Famicom.Proofs.Slice
import Famicom.Proofs.Unseen

/-!
Where a slice is cut does not show. A program does not see its budget, so a run that has more of it left is
the same run (`Machine.run_allow`), and a slice may be cut anywhere, be it amid owed cycles or behind an
instruction that overran:

    t₁              owed ─▶ instruction ─▶ … ─▶ budget ≤ 0 ╮ first
    t - first                                              ╰▶ owed ─▶ instruction ─▶ … ─▶ budget ≤ 0
    t               owed ─▶ instruction ─▶ … ─▶ instruction ─▶ … ─────────────────────▶ budget ≤ 0
-/

namespace Famicom

/-! ### Accounts are unseen -/

namespace Machine

variable (m : Machine)

/-- The machine with other accounts of time. -/
def retime (m : Machine) (r : Cpu.Retime) : Machine := m.mapCpu (·.retime r)

section
variable (r : Cpu.Retime)

theorem drainNotes_mapCpu (f : Cpu → Cpu) : (m.mapCpu f).drainNotes = m.drainNotes.mapCpu f := by
  have hppu : (m.mapCpu f).ppu = m.ppu := rfl
  unfold drainNotes
  rw [hppu]
  split <;> rfl

theorem read_retime (address : UInt16) :
    (m.retime r).read address = ((m.read address).1, (m.read address).2.retime r) := by
  simp only [read]
  split_ifs
  case pos => rfl
  case pos => rfl
  case pos =>
    let ppu := (m.ppu.readRegister m.cart address m.cpu.clock).2
    exact Prod.ext rfl (drainNotes_mapCpu { m with ppu } (·.retime r))
  all_goals rfl

theorem obeyAll_retime (signals : List Signal) (h : ∀ s ∈ signals, s ≠ .irq) :
    (m.retime r).obeyAll signals = (m.obeyAll signals).retime r := by
  induction signals generalizing m with
  | nil => rfl
  | cons s signals ih =>
    have hs : s ≠ .irq := h s List.mem_cons_self
    have hobey : (m.retime r).obey s = (m.obey s).retime r := by
      cases s with
      | irq => exact absurd rfl hs
      | _ => rfl
    have hrest := ih (m.obey s) fun t ht => h t (List.mem_cons_of_mem s ht)
    rw [← hobey] at hrest
    exact hrest

/-- Boards that only answer accesses ask for no interrupt, and wish the same for any accounts. -/
theorem withBoard_retime (act : Board → Board × List Signal) (fits : ∀ b, AllFit b.number (act b).2) :
    (m.retime r).withBoard act = (m.withBoard act).retime r := by
  have hboard : (m.retime r).board = m.board := rfl
  simp only [withBoard, hboard]
  split
  · rfl
  case h_2 b _ =>
    exact obeyAll_retime { m with board := some (act b).1 } r _ fun s hs => ne_irq_of_fits (fits b s hs)

theorem poke_retime (address : UInt16) (value : UInt8) :
    (m.retime r).poke address value = (m.poke address value).retime r := by
  have hpages : (m.retime r).cpu.pages = m.cpu.pages := rfl
  simp only [poke, hpages]
  split <;> rfl

theorem writeCartridge_retime (address : UInt16) (value : UInt8) :
    (m.retime r).writeCartridge address value = (m.writeCartridge address value).retime r := by
  have hsound : (m.retime r).sound = m.sound := rfl
  have hboard : (m.retime r).board = m.board := rfl
  simp only [writeCartridge, hsound, hboard]
  split
  · rfl
  · exact m.withBoard_retime r _ fun b => b.write_fits _ address value
  · split
    · rfl
    · exact m.poke_retime r address value

theorem write_retime (address : UInt16) (value : UInt8) (h : address ≠ 0x4014) :
    (m.retime r).write address value = (m.write address value).retime r := by
  simp only [write]
  split_ifs
  · rfl
  · let picture := m.ppu.writeRegister m.cart address value
    exact drainNotes_mapCpu { m with ppu := picture.1, cart := picture.2 } (·.retime r)
  · rfl
  · simp only [writeStrobe]
    rw [m.withBoard_retime r (fun b => (b, b.strobe value)) fun b => b.strobe_fits value]
    rfl
  · rfl
  · exact m.writeCartridge_retime r address value

/-- Accesses do not look at the accounts; only a sprite transfer enters something. -/
theorem unseen_retime : Unseen (retime · r) r (fun _ => False) (· = 0x4014) where
  cpu _ := rfl
  cart _ := rfl
  setCpu _ _ := rfl
  read m address _ := m.read_retime r address
  write m address value h := m.write_retime r address value h

theorem nextInstruction_retime : (m.retime r).nextInstruction = m.nextInstruction := rfl

theorem jams_retime : (m.retime r).jams = m.jams := rfl

theorem transfers_retime : (m.retime r).transfers = m.transfers := by
  rw [transfers, nextInstruction_retime, transfers]
  cases m.nextInstruction with
  | store op mode => exact congrArg (some · == _) (Cpu.effective_retime (m.cpu.advance 1) r m.cart mode)
  | modify op mode => exact congrArg (some · == _) (Cpu.effective_retime (m.cpu.advance 1) r m.cart mode)
  | _ => rfl

theorem performed_retime (h : m.transfers = false) :
    (m.retime r).performed = (m.performed.1, m.performed.2.retime r) := by
  rw [transfers, beq_eq_false_iff_ne] at h
  refine (unseen_retime r).perform (m.mapCpu (·.advance 1)) m.nextInstruction (fun _ _ => id) ?_
  rintro address htarget rfl
  exact h htarget

end

/-! ### Instructions that nothing comes between -/

theorem servePending_idle {c : Cpu} (h : c.pending = false) (cart : Cartridge) :
    c.servePending cart = c := by
  rw [Cpu.servePending, h]
  simp

/-- Later in a program that nothing came between: no interrupt waits, nothing is owed anew, and the clock
gained what the budget lost. -/
structure Undisturbed (m n : Machine) : Prop where
  pending : n.cpu.pending = false
  jammed : n.cpu.jammed = m.cpu.jammed
  owed : n.cpu.owed = m.cpu.owed
  time : n.cpu.budget + n.cpu.clock = m.cpu.budget + m.cpu.clock

variable {m} in
theorem Undisturbed.trans {n k : Machine} (h : Undisturbed m n) (h' : Undisturbed n k) :
    Undisturbed m k :=
  ⟨h'.pending, h'.jammed.trans h.jammed, h'.owed.trans h.owed, h'.time.trans h.time⟩

/-- The machine with more budget, or less. -/
def allow (m : Machine) (more : Int) : Machine := m.retime { budget := (· + more) }

section
variable {m}

theorem performed_undisturbed (hpending : m.cpu.pending = false) (htransfers : m.transfers = false) :
    m.performed.2.cpu.pending = false ∧ m.performed.2.cpu.jammed = m.cpu.jammed := by
  -- a machine that is what it would be with these accounts stays so
  let r : Cpu.Retime := { pending := fun _ => false, jammed := fun _ => m.cpu.jammed }
  have hsame : m.retime r = m := by
    have hcpu : m.cpu.retime r = m.cpu := by
      simp only [Cpu.retime, r, ← hpending, id]
    rw [retime, mapCpu, hcpu]
  have hperformed := m.performed_retime r htransfers
  rw [hsame] at hperformed
  generalize m.performed = s at hperformed ⊢
  have hfixed : s.2 = s.2.retime r := (Prod.ext_iff.mp hperformed).2
  rw [hfixed]
  exact ⟨rfl, rfl⟩

/-- Without an interrupt that waits, an instruction is performed and paid for. -/
theorem step_spend (hpending : m.cpu.pending = false) (hjams : m.jams = false)
    (htransfers : m.transfers = false) : m.step = m.performed.2.mapCpu (·.spend m.performed.1) := by
  have hquiet := (performed_undisturbed hpending htransfers).1
  rw [m.step_performed (beq_eq_false_iff_ne.mp hjams)]
  generalize m.performed = s at hquiet ⊢
  have hspent : (s.2.cpu.spend s.1).pending = false := hquiet
  split
  · simp only [mapCpu, servePending_idle hspent]
  · rfl

theorem step_undisturbed (hbudget : 0 < m.cpu.budget) (hpending : m.cpu.pending = false)
    (hjams : m.jams = false) (htransfers : m.transfers = false) : Undisturbed m m.step := by
  obtain ⟨hquiet, hjammed⟩ := performed_undisturbed hpending htransfers
  obtain ⟨cycles, hclock, -, -, hentry⟩ := m.enters_step hbudget
  obtain ⟨howed, hspent⟩ : m.step.cpu.owed = m.cpu.owed ∧
      m.step.cpu.budget = m.cpu.budget - cycles := by
    cases hentry with
    | plain _ owed budget => exact ⟨owed, budget⟩
    | transfer h => exact absurd h (Bool.eq_false_iff.mp htransfers)
    | jam h => exact absurd h (Bool.eq_false_iff.mp hjams)
  have htime : m.step.cpu.budget + m.step.cpu.clock = m.cpu.budget + m.cpu.clock := by omega
  rw [step_spend hpending hjams htransfers] at howed htime ⊢
  generalize m.performed = s at hquiet hjammed howed htime ⊢
  exact ⟨hquiet, hjammed, howed, htime⟩

/-- A program does not see its budget. -/
theorem step_allow (hpending : m.cpu.pending = false) (hjams : m.jams = false)
    (htransfers : m.transfers = false) (more : Int) : (m.allow more).step = m.step.allow more := by
  have hperformed : (m.allow more).performed = (m.performed.1, m.performed.2.allow more) :=
    m.performed_retime _ htransfers
  have hallowed : (m.allow more).step =
      (m.allow more).performed.2.mapCpu (·.spend (m.allow more).performed.1) :=
    step_spend hpending ((m.jams_retime _).trans hjams) ((m.transfers_retime _).trans htransfers)
  rw [hallowed, hperformed, step_spend hpending hjams htransfers]
  generalize m.performed = s
  have hbudget : s.2.cpu.budget + more - s.1 = s.2.cpu.budget - s.1 + more := by omega
  simp only [allow, retime, mapCpu, Cpu.retime, Cpu.spend, id, hbudget]

/-! ### Runs -/

/-- The machine when its budget is used up. -/
def finish (m : Machine) : Machine := run m.cpu.budget.toNat m

/-- A run with more budget is the run with less, gone on with the rest. -/
theorem run_allow {more : Int} (hmore : 0 ≤ more) (fuel : Nat) (hpending : m.cpu.pending = false)
    (hfuel : m.cpu.budget + more ≤ fuel)
    (hquiet : ∀ k ∈ trace fuel (m.allow more), k.jams = false ∧ k.transfers = false) :
    Undisturbed m (run fuel m) ∧ run fuel (m.allow more) = ((run fuel m).allow more).finish := by
  have hbudget : (m.allow more).cpu.budget = m.cpu.budget + more := rfl
  induction fuel generalizing m with
  | zero =>
    refine ⟨⟨hpending, rfl, rfl, rfl⟩, ?_⟩
    have hnone : (m.allow more).cpu.budget ≤ 0 := by omega
    exact (run_idle _ hnone _).symm
  | succ fuel ih =>
    by_cases hleft : 0 < m.cpu.budget
    · have hallowed : 0 < (m.allow more).cpu.budget := by omega
      rw [trace_succ _ hallowed] at hquiet
      obtain ⟨hjams, htransfers⟩ := hquiet (m.allow more) List.mem_cons_self
      rw [allow, jams_retime] at hjams
      rw [allow, transfers_retime] at htransfers
      have hstep := step_allow hpending hjams htransfers more
      have hkept := step_undisturbed hleft hpending hjams htransfers
      have hspent : m.step.cpu.budget + more ≤ fuel := by
        obtain ⟨cycles, hclock, hpos, -⟩ := m.enters_step hleft
        have htime := hkept.time
        omega
      rw [hstep] at hquiet
      rw [run_succ _ hallowed, run_succ _ hleft, hstep]
      generalize m.step = n at hquiet hkept hspent ⊢
      obtain ⟨hrest, hrun⟩ :=
        ih hkept.pending hspent (fun k hk => hquiet k (List.mem_cons_of_mem _ hk)) rfl
      exact ⟨hkept.trans hrest, hrun⟩
    · rw [run_idle m (by omega)]
      exact ⟨⟨hpending, rfl, rfl, rfl⟩, run_enough _ (by omega)⟩

theorem clock_le_run (m : Machine) (fuel : Nat) : m.cpu.clock ≤ (run fuel m).cpu.clock := by
  induction fuel generalizing m with
  | zero => exact Nat.le_refl _
  | succ fuel ih =>
    by_cases h : 0 < m.cpu.budget
    · obtain ⟨cycles, hclock, -⟩ := m.enters_step h
      rw [run_succ m h]
      exact Nat.le_trans (by omega) (ih m.step)
    · exact Nat.le_of_eq (congrArg (·.cpu.clock) (run_idle m (by omega) _)).symm

end

end Machine

/-! ### Before the first instruction -/

namespace Cpu

variable (c : Cpu)

/-- The processor of a slice before its first instruction, if no interrupt waits. -/
def opened (c : Cpu) (slice : Int) : Cpu := { c with budget := slice }.payOwed.idleIfJammed

/-- What a slice spends before its first instruction: what is owed, or all of it on a jammed processor. -/
def opening (c : Cpu) (slice : Int) : Int := if c.jammed then slice else min c.owed slice

theorem opened_eq {slice : Int} (hslice : 0 ≤ slice) (howed : 0 ≤ c.owed) :
    c.opened slice = { c with
      owed := c.owed - min c.owed slice
      budget := slice - c.opening slice
      clock := c.clock + (c.opening slice).toNat } := by
  have hpay : ({ c with budget := slice } : Cpu).payOwed = { c with
      owed := c.owed - min c.owed slice
      budget := slice - min c.owed slice
      clock := c.clock + (min c.owed slice).toNat } := by
    unfold payOwed
    split
    · rfl
    case isFalse h =>
      have hnone : min c.owed slice = 0 := by
        simp only at h
        omega
      simp [hnone]
  rw [opened, hpay, idleIfJammed, opening]
  cases hjammed : c.jammed with
  | false => simp
  | true =>
    simp only [true_and, if_true]
    split
    case isTrue h =>
      have hclock : c.clock + (min c.owed slice).toNat + (slice - min c.owed slice).toNat =
          c.clock + slice.toNat := by omega
      simp [spend, hclock]
    case isFalse h =>
      have hall : min c.owed slice = slice := by omega
      simp [hall]

theorem pending_opened (slice : Int) : (c.opened slice).pending = c.pending := by
  simp only [opened, payOwed, idleIfJammed]
  split_ifs <;> rfl

theorem clock_le_opened (slice : Int) : c.clock ≤ (c.opened slice).clock := by
  simp only [opened, payOwed, idleIfJammed]
  split_ifs <;> simp only [spend] <;> omega

/-- What is owed reaches beyond the first slice, or the processor is jammed: it does nothing else. -/
theorem opened_opened {first slice : Int} (hfirst : 0 ≤ first) (hle : first ≤ slice)
    (howed : 0 ≤ c.owed) (hbusy : first ≤ c.owed ∨ c.jammed = true) :
    (c.opened first).budget = 0 ∧ (c.opened first).clock = c.clock + first.toNat ∧
      (c.opened first).opened (slice - first) = c.opened slice := by
  have hall : c.opening first = first := by
    unfold opening
    split
    · rfl
    case isFalse h => exact Int.min_eq_right (hbusy.resolve_right h)
  have hfirst' : c.opened first = { c with
      owed := c.owed - min c.owed first
      budget := 0
      clock := c.clock + first.toNat } := by
    rw [c.opened_eq hfirst howed, hall, Int.sub_self]
  generalize c.opened first = d at hfirst' ⊢
  have howed' : d.owed = c.owed - min c.owed first := by rw [hfirst']
  have hrest : d.opening (slice - first) = c.opening slice - first := by
    have hjammed : d.jammed = c.jammed := by rw [hfirst']
    rw [opening, opening, hjammed]
    split
    · rfl
    case isFalse h =>
      have hlong := hbusy.resolve_right h
      omega
  have hleft : d.owed - min d.owed (slice - first) = c.owed - min c.owed slice := by
    rcases hbusy with hlong | hjammed <;> omega
  have hbudget : slice - first - (c.opening slice - first) = slice - c.opening slice := by omega
  have hclock : d.clock + (c.opening slice - first).toNat = c.clock + (c.opening slice).toNat := by
    have hlate : first ≤ c.opening slice := by
      unfold opening
      split
      · exact hle
      case isFalse h =>
        have hlong := hbusy.resolve_right h
        omega
    rw [hfirst']
    simp only
    omega
  refine ⟨by rw [hfirst'], by rw [hfirst'], ?_⟩
  rw [opened_eq d (by omega) (by omega), hrest, hleft, hbudget, hclock, hfirst',
    c.opened_eq (Int.le_trans hfirst hle) howed]

/-- Nothing is owed and nothing stops the processor: a slice just begins. -/
theorem opened_free (howed : c.owed = 0) (hjammed : c.jammed = false) (slice : Int) :
    c.opened slice = { c with budget := slice } := by
  have hpay : ({ c with budget := slice } : Cpu).payOwed = { c with budget := slice } := by
    rw [payOwed, howed]
    rfl
  rw [opened, hpay, idleIfJammed, hjammed]
  simp

/-- The slice has paid all that is owed, and goes on to instructions. -/
theorem opened_paid {slice : Int} (hslice : 0 ≤ slice) (howed : 0 ≤ c.owed) (hpaid : c.owed < slice)
    (hjammed : c.jammed = false) :
    (c.opened slice).owed = 0 ∧ (c.opened slice).jammed = false ∧
      (c.opened slice).budget + (c.opened slice).clock = slice + c.clock := by
  have hopening : c.opening slice = min c.owed slice := by
    rw [opening, hjammed]
    rfl
  rw [c.opened_eq hslice howed, hopening]
  refine ⟨?_, hjammed, ?_⟩ <;> simp only <;> omega

/-- The first slice has paid all that is owed: a longer one has so much more budget. -/
theorem opened_allow {first slice : Int} (hfirst : 0 ≤ first) (hle : first ≤ slice)
    (howed : 0 ≤ c.owed) (hpaid : c.owed < first) (hjammed : c.jammed = false) :
    c.opened slice = { c.opened first with budget := (c.opened first).budget + (slice - first) } := by
  have hopening (t : Int) : c.opening t = min c.owed t := by
    rw [opening, hjammed]
    rfl
  have hsame : min c.owed slice = min c.owed first := by omega
  have hbudget : slice - min c.owed first = first - min c.owed first + (slice - first) := by omega
  rw [c.opened_eq (Int.le_trans hfirst hle) howed, c.opened_eq hfirst howed, hopening, hopening, hsame,
    hbudget]

end Cpu

/-! ### Slices -/

namespace Machine

variable {m : Machine}

theorem beginSlice_opened (hpending : m.cpu.pending = false) (slice : Int) :
    m.beginSlice slice = m.mapCpu (·.opened slice) := by
  have hopened : (m.cpu.opened slice).pending = false := (m.cpu.pending_opened slice).trans hpending
  exact congrArg (fun c => { m with cpu := c }) (servePending_idle hopened m.cart)

theorem clock_le_execute (m : Machine) (slice : Int) :
    m.cpu.clock ≤ (m.execute slice).2.cpu.clock := by
  obtain ⟨taken, hclock, -⟩ := (m.cpu.opened slice).servePending_accounts m.cart
  have hopened := m.cpu.clock_le_opened slice
  have hbegun : (m.beginSlice slice).cpu.clock = (m.cpu.opened slice).clock + taken := hclock
  rw [execute_eq]
  exact Nat.le_trans (by omega) (clock_le_run _ _)

/-- The first slice does nothing but pay or idle, and the second goes on with that. -/
theorem execute_opened (hpending : m.cpu.pending = false) {first slice : Int}
    (hfirst : 0 ≤ first) (hle : first ≤ slice) (howed : 0 ≤ m.cpu.owed)
    (hbusy : first ≤ m.cpu.owed ∨ m.cpu.jammed = true) :
    ((m.execute first).2.execute (slice - (m.execute first).1)).2 = (m.execute slice).2 := by
  obtain ⟨hbudget, hclock, hopened⟩ := m.cpu.opened_opened hfirst hle howed hbusy
  have hbegun : m.beginSlice first = m.mapCpu (·.opened first) := beginSlice_opened hpending first
  have hstate : (m.execute first).2 = m.mapCpu (·.opened first) := by
    rw [execute_eq, hbegun]
    exact run_idle _ (Int.le_of_eq hbudget) _
  have helapsed : (m.execute first).1 = first := by
    rw [execute_elapsed, hstate]
    show (((m.cpu.opened first).clock - m.cpu.clock : Nat) : Int) = first
    omega
  have hpending' : (m.mapCpu (·.opened first)).cpu.pending = false :=
    (m.cpu.pending_opened first).trans hpending
  have hagain : (m.mapCpu (·.opened first)).beginSlice (slice - first) = m.beginSlice slice := by
    rw [beginSlice_opened hpending', beginSlice_opened hpending]
    exact congrArg (fun c => { m with cpu := c }) hopened
  rw [helapsed, hstate, execute_eq, execute_eq, hagain]

/-- The first slice ends amid the program, and the second goes on with that. -/
theorem execute_allowed (hpending : m.cpu.pending = false) {first slice : Int}
    (hfirst : 0 ≤ first) (hle : first ≤ slice) (howed : 0 ≤ m.cpu.owed) (hpaid : m.cpu.owed < first)
    (hjammed : m.cpu.jammed = false)
    (hquiet : ∀ k ∈ m.sliceTrace slice, k.jams = false ∧ k.transfers = false) :
    ((m.execute first).2.execute (slice - (m.execute first).1)).2 = (m.execute slice).2 := by
  have hpending' := (m.cpu.pending_opened first).trans hpending
  have hlonger : m.beginSlice slice = (m.beginSlice first).allow (slice - first) := by
    rw [beginSlice_opened hpending, beginSlice_opened hpending]
    exact congrArg (fun c => { m with cpu := c })
      (m.cpu.opened_allow hfirst hle howed hpaid hjammed)
  have hwhole := m.execute_eq slice
  have hstate := m.execute_eq first
  have helapsed := m.execute_elapsed first
  have hlate := clock_le_execute m first
  rw [sliceTrace, hlonger] at hquiet
  rw [hlonger] at hwhole
  rw [hwhole]
  generalize m.execute first = s at hstate helapsed hlate ⊢
  -- `b` is the machine with all paid, at which the instructions begin
  obtain ⟨b, hb⟩ : ∃ b, m.beginSlice first = b := ⟨_, rfl⟩
  have hbegun : b = m.mapCpu (·.opened first) := hb.symm.trans (beginSlice_opened hpending first)
  rw [hb] at hquiet hstate ⊢
  have hbudget : (b.allow (slice - first)).cpu.budget = b.cpu.budget + (slice - first) := rfl
  obtain ⟨hkept, hrun⟩ := run_allow (by omega) (b.allow (slice - first)).cpu.budget.toNat
    (by rw [hbegun]; exact hpending') (by omega) hquiet
  rw [run_enough b (by omega), ← hstate] at hkept hrun
  obtain ⟨hnone, hwell, htime⟩ := m.cpu.opened_paid hfirst howed hpaid hjammed
  have hrest : slice - s.1 = s.2.cpu.budget + (slice - first) := by
    have hspent := hkept.time
    have htime' : b.cpu.budget + b.cpu.clock = first + m.cpu.clock := by rw [hbegun]; exact htime
    omega
  have hagain : s.2.beginSlice (slice - s.1) = s.2.allow (slice - first) := by
    have hfree : s.2.cpu.owed = 0 := hkept.owed.trans (by rw [hbegun]; exact hnone)
    have hwell' : s.2.cpu.jammed = false := hkept.jammed.trans (by rw [hbegun]; exact hwell)
    rw [beginSlice_opened hkept.pending, mapCpu, s.2.cpu.opened_free hfree hwell', hrest]
    rfl
  rw [hrun, execute_eq, hagain]
  rfl

/-- Where a slice is cut does not show, unless it meets a JAM or a sprite transfer: the rest of the time
ends in the same machine, and both take as long together as the whole does. -/
theorem execute_split (m : Machine) {first slice : Int} (hpending : m.cpu.pending = false)
    (howed : 0 ≤ m.cpu.owed) (hfirst : 0 ≤ first) (hle : first ≤ slice)
    (hquiet : ∀ k ∈ m.sliceTrace slice, k.jams = false ∧ k.transfers = false) :
    ((m.execute first).2.execute (slice - (m.execute first).1)).2 = (m.execute slice).2 ∧
      (m.execute first).1 + ((m.execute first).2.execute (slice - (m.execute first).1)).1 =
        (m.execute slice).1 := by
  have hsame :
      ((m.execute first).2.execute (slice - (m.execute first).1)).2 = (m.execute slice).2 := by
    by_cases hbusy : first ≤ m.cpu.owed ∨ m.cpu.jammed = true
    · exact execute_opened hpending hfirst hle howed hbusy
    · obtain ⟨hpaid, hjammed⟩ := not_or.mp hbusy
      exact execute_allowed hpending hfirst hle howed (Int.not_le.mp hpaid)
        (Bool.eq_false_iff.mpr hjammed) hquiet
  refine ⟨hsame, ?_⟩
  have hlate := clock_le_execute m first
  have hlater := clock_le_execute (m.execute first).2 (slice - (m.execute first).1)
  have hsecond := execute_elapsed (m.execute first).2 (slice - (m.execute first).1)
  rw [hsame] at hlater hsecond
  rw [hsecond, m.execute_elapsed, m.execute_elapsed]
  omega

/-- A transfer is owed, and the instruction behind it overruns the first slice: nothing is left to do in
the second. -/
theorem execute_split_owing :
    let m : Machine := { cpu := { owed := 513 } }
    (∀ k ∈ m.sliceTrace 520, k.jams = false ∧ k.transfers = false) ∧ (m.execute 514).1 = 520 ∧
      ((m.execute 514).2.execute 0).2 = (m.execute 520).2 := by
  intro m
  have hquiet : ∀ k ∈ m.sliceTrace 520, k.jams = false ∧ k.transfers = false := by decide +kernel
  have hoverrun : (m.execute 514).1 = 520 := by decide +kernel
  have hsplit := m.execute_split rfl (by decide) (by decide) (by decide : (514 : Int) ≤ 520) hquiet
  rw [hoverrun] at hsplit
  exact ⟨hquiet, hoverrun, hsplit.1⟩

end Machine

end Famicom
