import Famicom.Machine.Frame
import Mathlib.Data.List.DropRight
import Mathlib.Tactic.SplitIfs

/-!
The frame interrupt keeps time. What a slice runs over is taken from the next period, so that, however the
cycles are cut into slices, the timer runs out when a whole number of periods has elapsed since its control
byte was written:

    elapsed      0 ────────── 29829 ────────── 59658 ──── …
    left         29829 ↘ 1    29829 ↘ 1        29829 ↘
    expiries     0            1                2

The invariant is one equation, `left + elapsed = period * (expiries + 1)`, with `left` between 1 and the period.
The flag on the status register says whether the timer ran out, unmasked, since the status was last read.
-/

namespace Famicom

/-- Something that concerns the frame timer. -/
inductive TimerUse where
  /-- Cycles have elapsed, and the timer has run out or not. -/
  | elapse (cycles : Int) (ranOut : Bool)
  /-- The status has been read, which acknowledges the interrupt. -/
  | acknowledge
  deriving DecidableEq, Repr

namespace TimerUse

/-- Cycles that have elapsed. -/
def cycles : TimerUse → Int
  | .elapse cycles _ => cycles
  | .acknowledge => 0

/-- The timer has run out. -/
def ranOut : TimerUse → Bool
  | .elapse _ ranOut => ranOut
  | .acknowledge => false

/-- All cycles that have elapsed in a history, whose newest entry is the last. -/
def elapsed (history : List TimerUse) : Int := history.foldl (fun sum use => sum + use.cycles) 0

/-- How often the timer has run out. -/
def expiries (history : List TimerUse) : Nat := history.countP ranOut

/-- What has happened since the status was last read. -/
def unread (history : List TimerUse) : List TimerUse := history.rtakeWhile (· != .acknowledge)

variable (history : List TimerUse) (use : TimerUse)

theorem elapsed_concat : elapsed (history ++ [use]) = elapsed history + use.cycles := by
  simp [elapsed]

theorem expiries_concat :
    expiries (history ++ [use]) = expiries history + if use.ranOut then 1 else 0 := by
  rw [expiries, List.countP_append, List.countP_singleton, expiries]

theorem unread_acknowledge : unread (history ++ [.acknowledge]) = [] := by
  simp [unread]

theorem unread_elapse (cycles : Int) (ranOut : Bool) :
    unread (history ++ [.elapse cycles ranOut]) = unread history ++ [.elapse cycles ranOut] := by
  simp [unread]

end TimerUse

namespace FrameTimer

open TimerUse

variable {t : FrameTimer} {v : UInt8} {history : List TimerUse}

/-! ### One slice -/

/-- So many cycles use up what is left. -/
def runsOut (t : FrameTimer) (cycles : Int) : Bool := t.left ≤ cycles

/-- A timer that runs out starts the next period, and asks for an interrupt unless it is masked. -/
theorem elapse_eq (t : FrameTimer) (cycles : Int) :
    t.elapse cycles = (t.runsOut cycles && !t.masked,
      { t with
        left := t.left - cycles + if t.runsOut cycles then period else 0
        raised := t.raised || (t.runsOut cycles && !t.masked) }) := by
  by_cases hout : t.left ≤ cycles
  · have hran : t.runsOut cycles = true := decide_eq_true hout
    have hleft : ¬ t.left - cycles > 0 := by omega
    simp only [elapse, if_neg hleft, hran]
    cases t.masked <;> simp
  · have hruns : t.runsOut cycles = false := decide_eq_false hout
    have hleft : t.left - cycles > 0 := by omega
    simp only [elapse, if_pos hleft, hruns]
    simp

/-! ### Histories -/

/-- What the timer holds after a history that began with the control byte `v`. -/
structure OnTime (v : UInt8) (history : List TimerUse) (t : FrameTimer) : Prop where
  control : t.control = v
  /-- Nothing is lost between two periods. -/
  left : t.left + elapsed history = period * (expiries history + 1)
  low : 1 ≤ t.left
  high : t.left ≤ period
  raised : t.raised = (!t.masked && (unread history).any ranOut)

/-- Writing the control byte starts a period, while no interrupt is asked for. -/
theorem onTime_write (hclear : t.raised = false) (v : UInt8) : OnTime v [] (t.write v) := by
  refine ⟨rfl, ?_, ?_, ?_, ?_⟩
  · simp [write, restart, elapsed, expiries]
  · show 1 ≤ period
    decide
  · exact Int.le_refl period
  · show t.raised = _
    rw [hclear]
    simp [unread]

/-- A slice of at most a period keeps the timer on time. -/
theorem OnTime.elapse (h : OnTime v history t) {cycles : Int} (hlow : 0 ≤ cycles) (hhigh : cycles ≤ period) :
    OnTime v (history ++ [.elapse cycles (t.runsOut cycles)]) (t.elapse cycles).2 := by
  obtain ⟨control, left, low, high, raised⟩ := h
  have hmasked : (t.elapse cycles).2.masked = t.masked := by
    rw [elapse_eq]
    rfl
  have hout : t.runsOut cycles = decide (t.left ≤ cycles) := rfl
  have hleft : (t.elapse cycles).2.left = t.left - cycles + if t.runsOut cycles then period else 0 := by
    rw [elapse_eq]
  refine ⟨?_, ?_, ?_, ?_, ?_⟩
  · rw [elapse_eq]
    exact control
  · rw [hleft, elapsed_concat, expiries_concat]
    simp only [TimerUse.cycles, TimerUse.ranOut]
    unfold period at left ⊢
    cases t.runsOut cycles <;> simp only [Bool.false_eq_true, if_true, if_false] <;> omega
  · rw [hleft, hout]
    split_ifs with hran <;> rw [decide_eq_true_eq] at hran <;> omega
  · rw [hleft, hout]
    split_ifs with hran <;> rw [decide_eq_true_eq] at hran <;> omega
  · have hraised : (t.elapse cycles).2.raised = (t.raised || (t.runsOut cycles && !t.masked)) := by
      rw [elapse_eq]
    rw [hraised, hmasked, raised, unread_elapse, List.any_append]
    cases t.masked <;> simp [TimerUse.ranOut]

/-- Reading the status acknowledges the interrupt and costs the timer nothing. -/
theorem OnTime.read (h : OnTime v history t) : OnTime v (history ++ [.acknowledge]) t.read.2 := by
  obtain ⟨control, left, low, high, -⟩ := h
  refine ⟨control, ?_, low, high, ?_⟩
  · rw [elapsed_concat, expiries_concat]
    simpa [TimerUse.cycles, TimerUse.ranOut, FrameTimer.read] using left
  · rw [unread_acknowledge]
    simp [FrameTimer.read]

/-- A whole number of periods has elapsed as often as the timer ran out. -/
theorem OnTime.expiries_eq (h : OnTime v history t) : (expiries history : Int) = elapsed history / period := by
  obtain ⟨-, left, low, high, -⟩ := h
  unfold period at *
  omega

theorem masked_eq (t : FrameTimer) : t.masked = (t.control &&& 0xC0 != 0) := rfl

theorem OnTime.unmasked (h : OnTime v history t) : t.masked = false ↔ v &&& 0xC0 = 0 := by
  rw [masked_eq, h.control, bne_eq_false_iff_eq]

end FrameTimer

/-! ### The machine -/

/-- The sound unit leaves the frame interrupt's bit of the status alone. -/
theorem Sound.status_or_frame (s : Sound) (raised : Bool) :
    (s.status ||| if raised then 0x40 else 0) &&& 0x40 ≠ 0 ↔ raised = true := by
  unfold status
  generalize s.pulse1.sounding = a, s.pulse2.sounding = b, s.triangle.sounding = c, s.noise.sounding = d,
    s.sample.enabled = e, s.sample.raised = f
  revert a b c d e f raised
  decide

namespace Machine

variable {m n : Machine} {v : UInt8} {history : List TimerUse}

/-- A machine's way since some moment, as the frame timer sees it. Slices of at most a period elapse, the
status is read, and in between anything may happen that leaves the timer alone. -/
inductive TimerRun (m : Machine) : List TimerUse → Machine → Prop
  | start : TimerRun m [] m
  | elapse {history : List TimerUse} {n : Machine} (run : TimerRun m history n) (cycles : Int)
    (low : 0 ≤ cycles) (high : cycles ≤ FrameTimer.period) :
    TimerRun m (history ++ [.elapse cycles (n.timer.runsOut cycles)]) (n.elapseTimer cycles)
  | acknowledge {history : List TimerUse} {n : Machine} (run : TimerRun m history n) :
    TimerRun m (history ++ [.acknowledge]) (n.read 0x4015).2
  | aside {history : List TimerUse} {n k : Machine} (run : TimerRun m history n) (same : k.timer = n.timer) :
    TimerRun m history k

theorem timer_elapseTimer (m : Machine) (cycles : Int) :
    (m.elapseTimer cycles).timer = (m.timer.elapse cycles).2 := by
  simp only [elapseTimer]
  split <;> rfl

theorem cpu_elapseTimer (m : Machine) (cycles : Int) : (m.elapseTimer cycles).cpu =
    if m.timer.runsOut cycles && !m.timer.masked then m.cpu.irq m.cart else m.cpu := by
  simp only [elapseTimer, m.timer.elapse_eq cycles]
  split <;> rfl

theorem TimerRun.onTime (run : (m.write 0x4017 v).TimerRun history n) (hclear : m.timer.raised = false) :
    n.timer.OnTime v history := by
  induction run with
  | start => exact FrameTimer.onTime_write hclear v
  | elapse _ cycles low high ih =>
    rw [timer_elapseTimer]
    exact ih.elapse low high
  | acknowledge _ ih => exact ih.read
  | aside _ same ih => rwa [same]

/-- The status shows the frame interrupt's bit while the interrupt is not acknowledged. -/
theorem read_status_frame (m : Machine) : (m.read 0x4015).1 &&& 0x40 ≠ 0 ↔ m.timer.raised = true :=
  m.sound.status_or_frame m.timer.raised

/-- The frame interrupt keeps time. After a control byte `v` that was written while no interrupt was asked
for, and whatever slices of at most a period have elapsed since, with the status read anywhere between them:
something is left of the period, at most all of it; the timer has run out as often as whole periods have
elapsed; the next slice that makes it run out asks the processor for an interrupt, and raises the flag, unless
`v` masks it; and the status shows the flag exactly if the timer ran out, unmasked, since it was last read. -/
theorem frame_interrupt_on_time (hclear : m.timer.raised = false)
    (run : (m.write 0x4017 v).TimerRun history n) :
    (1 ≤ n.timer.left ∧ n.timer.left ≤ FrameTimer.period) ∧
      (TimerUse.expiries history : Int) = TimerUse.elapsed history / FrameTimer.period ∧
      (∀ cycles,
        (n.elapseTimer cycles).cpu =
            (if n.timer.runsOut cycles = true ∧ v &&& 0xC0 = 0 then n.cpu.irq n.cart else n.cpu) ∧
          ((n.elapseTimer cycles).timer.raised = true ↔
            n.timer.raised = true ∨ n.timer.runsOut cycles = true ∧ v &&& 0xC0 = 0)) ∧
      ((n.read 0x4015).1 &&& 0x40 ≠ 0 ↔
        v &&& 0xC0 = 0 ∧ ∃ use ∈ TimerUse.unread history, use.ranOut = true) := by
  have h := run.onTime hclear
  refine ⟨⟨h.low, h.high⟩, h.expiries_eq, fun cycles => ⟨?_, ?_⟩, ?_⟩
  · rw [cpu_elapseTimer]
    simp only [Bool.and_eq_true, Bool.not_eq_true', h.unmasked]
  · rw [timer_elapseTimer, FrameTimer.elapse_eq]
    simp only [Bool.or_eq_true, Bool.and_eq_true, Bool.not_eq_true', h.unmasked]
  · rw [read_status_frame, h.raised, Bool.and_eq_true, Bool.not_eq_true', h.unmasked, List.any_eq_true]

/-- Two slices of 20000 cycles, of which the second makes the timer run out, with a sound register written
between them. -/
theorem frame_interrupt_on_time_two_slices :
    ∃ n : Machine,
      (({} : Machine).write 0x4017 0).TimerRun [.elapse 20000 false, .elapse 20000 true] n ∧
        n.timer.left = 19658 ∧ (n.read 0x4015).1 &&& 0x40 ≠ 0 := by
  let first := (({} : Machine).write 0x4017 0).elapseTimer 20000
  have hfirst : (({} : Machine).write 0x4017 0).TimerRun [.elapse 20000 false] first :=
    TimerRun.start.elapse 20000 (by decide) (by decide)
  have hwritten := hfirst.aside (show (first.write 0x4000 0x3F).timer = first.timer from rfl)
  have hsecond := hwritten.elapse 20000 (by decide) (by decide)
  refine ⟨_, hsecond, by decide, ?_⟩
  obtain ⟨-, -, -, hstatus⟩ := frame_interrupt_on_time (m := {}) rfl hsecond
  exact hstatus.mpr ⟨rfl, .elapse 20000 true, by decide, rfl⟩

end Machine

end Famicom
