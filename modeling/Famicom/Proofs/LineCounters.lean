import Famicom.Proofs.Mmc3InStep

/-!
The line counters of the MMC3 and the RAMBO-1. A rendered line outside of vertical blank is counted. After the
latch has been set to L, the counter reloaded and interrupts turned on, it goes on like this, as long as nobody
turns it off or touches the latch or the reload port:

    phase       write        line, n < L      line, n = L
    n counted   n counted    n + 1 counted    interrupt, then  RAMBO-1: 0 counted
                                                               MMC3:    spent
    spent       0 counted    spent            spent

Writes to any other register leave the count alone (`Board.At.write`), although each of them reloads the
counter while a reload is due: then nothing has been counted yet, or the counter is spent. So interrupts come
exactly on time, on the RAMBO-1 again and again, on the MMC3 once for every write that wakes it up.
-/

namespace Famicom

namespace Access

/-- A line that a line counter counts. -/
def counts : Access → Bool
  | .write _ _ => false
  | .hblank rendering vblank => rendering && !vblank

/-- Anything but a write to the latch, the reload port and the switch that turns interrupts off. -/
def Apart : Access → Prop
  | .write address _ =>
    address &&& 0xE001 ≠ 0xC000 ∧ address &&& 0xE001 ≠ 0xC001 ∧ address &&& 0xE001 ≠ 0xE000
  | .hblank _ _ => True

/-- The end of a line. -/
def IsLine : Access → Prop
  | .write _ _ => False
  | .hblank _ _ => True

/-- How many lines a line counter counts. -/
def counted (later : List Access) : Nat := later.countP counts

/-- The latch set, the counter reloaded, interrupts on. -/
def arming (latch reload on : UInt8) : List Access :=
  [.write 0xC000 latch, .write 0xC001 reload, .write 0xE001 on]

theorem counted_cons (a : Access) (later : List Access) :
    counted (a :: later) = counted later + if a.counts then 1 else 0 :=
  List.countP_cons

theorem counts_hblank {rendering vblank : Bool} :
    (hblank rendering vblank).counts = true ↔ rendering = true ∧ vblank = false := by
  rw [counts, Bool.and_eq_true, Bool.not_eq_true']

theorem IsLine.apart {a : Access} (h : a.IsLine) : a.Apart := by
  cases a with
  | write address value => exact h.elim
  | hblank rendering vblank => trivial

end Access

/-! ### The count -/

/-- Where a line counter stands. -/
inductive Phase where
  | counted (lines : Nat)
  | spent
  deriving DecidableEq, Repr

namespace Phase

variable (rounds : Bool) (limit : UInt8)

/-- The phase after an access. A counter that goes in rounds starts over by itself. -/
def next : Phase → Access → Phase
  | .counted n, a =>
    if a.counts = true then
      if n < limit.toNat then .counted (n + 1) else if rounds then .counted 0 else .spent
    else .counted n
  | .spent, .write _ _ => .counted 0
  | .spent, .hblank _ _ => .spent

/-- The access is answered with an interrupt. -/
def asks : Phase → Access → Bool
  | .counted n, a => a.counts && n == limit.toNat
  | .spent, _ => false

variable {rounds limit}

/-- Up to the limit, lines are counted one by one. -/
theorem foldl_next (later : List Access) {n : Nat} (h : n + Access.counted later ≤ limit.toNat) :
    later.foldl (next rounds limit) (.counted n) = .counted (n + Access.counted later) := by
  induction later generalizing n with
  | nil => rfl
  | cons a later ih =>
    rw [Access.counted_cons] at h ⊢
    rw [List.foldl_cons]
    by_cases ha : a.counts = true
    · rw [if_pos ha] at h ⊢
      have hroom : n < limit.toNat := by omega
      rw [next, if_pos ha, if_pos hroom, ih (by omega), Nat.add_right_comm, Nat.add_assoc]
    · rw [if_neg ha] at h ⊢
      rw [next, if_neg ha, ih h, Nat.add_zero]

/-- A counter that goes in rounds stands at what is left of them. -/
theorem foldl_next_rounds (later : List Access) {n : Nat} (hn : n ≤ limit.toNat) :
    later.foldl (next true limit) (.counted n) =
      .counted ((n + Access.counted later) % (limit.toNat + 1)) := by
  induction later generalizing n with
  | nil => exact congrArg _ (Nat.mod_eq_of_lt (Nat.lt_succ_of_le hn)).symm
  | cons a later ih =>
    rw [Access.counted_cons, List.foldl_cons, next]
    by_cases ha : a.counts = true
    · rw [if_pos ha, if_pos ha]
      by_cases hroom : n < limit.toNat
      · rw [if_pos hroom, ih (Nat.succ_le_of_lt hroom), Nat.succ_add_eq_add_succ]
      · have hlast : n + (Access.counted later + 1) = Access.counted later + (limit.toNat + 1) := by omega
        rw [if_neg hroom, if_pos rfl, ih (Nat.zero_le _), hlast, Nat.add_mod_right, Nat.zero_add]
    · rw [if_neg ha, if_neg ha, Nat.add_zero, ih hn]

/-- No line wakes a spent counter up. -/
theorem foldl_next_spent (later : List Access) (h : ∀ a ∈ later, a.IsLine) :
    later.foldl (next rounds limit) .spent = .spent := by
  induction later with
  | nil => rfl
  | cons a later ih =>
    obtain ⟨ha, hlater⟩ := List.forall_mem_cons.mp h
    cases a with
    | write address value => exact ha.elim
    | hblank rendering vblank => exact ih hlater

/-- An interrupt leaves a counter that does not go in rounds spent. -/
theorem next_of_asks {p : Phase} {a : Access} (h : p.asks limit a = true) : p.next false limit a = .spent := by
  cases p with
  | counted n =>
    obtain ⟨ha, hn⟩ := Bool.and_eq_true_iff.mp h
    have hlast : ¬ n < limit.toNat := (Nat.le_of_eq (eq_of_beq hn).symm).not_gt
    rw [next, if_pos ha, if_neg hlast]
    rfl
  | spent => exact absurd h Bool.false_ne_true

theorem apart_of_asks {p : Phase} {a : Access} (h : p.asks limit a = true) : a.Apart := by
  cases a with
  | write address value => cases p <;> exact absurd h Bool.false_ne_true
  | hblank rendering vblank => trivial

theorem asks_counted {n : Nat} {a : Access} :
    (counted n).asks limit a = true ↔ a.counts = true ∧ n = limit.toNat := by
  simp only [asks, Bool.and_eq_true, beq_iff_eq]

end Phase

/-! ### The registers -/

/-- What counts lines on a board. -/
structure LineTimer where
  counter : Int
  latch : UInt8
  enabled : Bool
  reload : Bool
  deriving DecidableEq, Repr

def Mmc3.timer (s : Mmc3) : LineTimer := ⟨s.counter, s.latch, s.enabled, s.reload⟩

def Rambo1.timer (s : Rambo1) : LineTimer := ⟨s.counter, s.latch, s.enabled, s.reload⟩

namespace LineTimer

/-- What a write does to the four registers, before a due reload. -/
def register (t : LineTimer) (address : UInt16) (value : UInt8) : LineTimer :=
  let p := address &&& 0xE001
  if p = 0xC000 then { t with latch := value }
  else if p = 0xC001 then { t with reload := true }
  else if p = 0xE000 then { t with enabled := false }
  else if p = 0xE001 then { t with enabled := true }
  else t

/-- Reloads the counter if a reload is due. -/
def settle (t : LineTimer) : LineTimer := if t.reload then { t with counter := bank t.latch } else t

/-- One write. -/
def written (t : LineTimer) (address : UInt16) (value : UInt8) : LineTimer := (t.register address value).settle

/-- As many lines have been counted. No reload is due any more after the first of them. -/
structure Counted (t : LineTimer) (limit : UInt8) (n : Nat) : Prop where
  latch : t.latch = limit
  enabled : t.enabled = true
  counter : t.counter + n = limit.toNat
  room : n ≤ limit.toNat
  reload : t.reload = true → n = 0

/-- The counter is below zero, and the next write reloads it. -/
structure Spent (t : LineTimer) (limit : UInt8) : Prop where
  latch : t.latch = limit
  enabled : t.enabled = true
  counter : t.counter < 0
  reload : t.reload = true

variable {t : LineTimer} {limit : UInt8} {n : Nat} {address : UInt16}

theorem written_apart {value : UInt8} (h : (Access.write address value).Apart) (henabled : t.enabled = true) :
    t.written address value = t.settle := by
  obtain ⟨hlatch, hreload, hoff⟩ := h
  simp only [written, register, if_neg hlatch, if_neg hreload, if_neg hoff, ← henabled, ite_self]

/-- Reloaded, a counter that is on starts over. -/
theorem counted_reloaded (hlatch : t.latch = limit) (henabled : t.enabled = true) (due : Bool) :
    ({ t with reload := due, counter := bank t.latch } : LineTimer).Counted limit 0 := by
  have hcounter : bank t.latch + ((0 : Nat) : Int) = limit.toNat := by
    rw [hlatch, bank, Nat.cast_zero, Int.add_zero]
  exact ⟨hlatch, henabled, hcounter, Nat.zero_le _, fun _ => rfl⟩

/-- A reload that is still due sets the counter to what it is. -/
theorem Counted.written {value : UInt8} (h : t.Counted limit n) (hapart : (Access.write address value).Apart) :
    (t.written address value).Counted limit n := by
  rw [written_apart hapart h.enabled, settle]
  split
  case isTrue hdue =>
    obtain rfl : n = 0 := h.reload hdue
    exact counted_reloaded h.latch h.enabled t.reload
  case isFalse => exact h

theorem Spent.written {value : UInt8} (h : t.Spent limit) (hapart : (Access.write address value).Apart) :
    (t.written address value).Counted limit 0 := by
  rw [written_apart hapart h.enabled, settle, if_pos h.reload]
  exact counted_reloaded h.latch h.enabled t.reload

/-- Short of the latch, one more line is counted. -/
theorem Counted.more (h : t.Counted limit n) (hn : n < limit.toNat) :
    0 < t.counter ∧ ({ t with reload := false, counter := t.counter - 1 } : LineTimer).Counted limit (n + 1) := by
  have hcounter := h.counter
  have hpositive : 0 < t.counter := by omega
  have hnext : t.counter - 1 + ((n + 1 : Nat) : Int) = limit.toNat := by omega
  exact ⟨hpositive, h.latch, h.enabled, hnext, hn, fun hdue => absurd hdue Bool.false_ne_true⟩

/-- At the latch, the counter is zero. -/
theorem Counted.over (h : t.Counted limit n) (hn : ¬ n < limit.toNat) : t.counter = 0 ∧ n = limit.toNat := by
  have hcounter := h.counter
  have hroom := h.room
  omega

/-- Arming reloads the counter, whatever it was. -/
theorem counted_armed (t : LineTimer) (limit reload on : UInt8) :
    (((t.written 0xC000 limit).written 0xC001 reload).written 0xE001 on).Counted limit 0 := by
  obtain ⟨counter, latch', enabled, due⟩ := t
  cases enabled <;> cases due <;> exact ⟨rfl, rfl, rfl, Nat.zero_le _, fun _ => rfl⟩

end LineTimer

/-- The line counter of the board stands there. -/
def Board.At (limit : UInt8) : Phase → Board → Prop
  | .counted n, .mmc3 s => s.timer.Counted limit n
  | .spent, .mmc3 s => s.timer.Spent limit
  | .counted n, .rambo1 s => s.timer.Counted limit n
  | _, _ => False

namespace Mmc3

theorem timer_settle (s : Mmc3) : s.settle.timer = s.timer.settle := by
  obtain ⟨command, chrBase, prgSwap, counter, latch, enabled, reload⟩ := s
  cases reload <;> rfl

theorem timer_write (s : Mmc3) (view : View) (address : UInt16) (value : UInt8) :
    (s.write view address value).1.timer = s.timer.written address value := by
  rw [write_eq, timer_settle, LineTimer.written]
  simp only [writeRegister, LineTimer.register, setCommand]
  generalize address &&& 0xE001 = p
  by_cases hcommand : p = 0x8000
  · subst hcommand
    rw [if_pos rfl]
    split <;> rfl
  by_cases hbank : p = 0x8001
  · subst hbank
    rfl
  by_cases hwiring : p = 0xA000
  · subst hwiring
    rfl
  · simp only [if_neg hcommand, if_neg hbank, if_neg hwiring]
    split_ifs <;> rfl

variable {s : Mmc3} {limit : UInt8}

theorem hblank_uncounted (s : Mmc3) {view : View} {vblank : Bool}
    (h : (Access.hblank view.rendering vblank).counts = false) : s.hblank view vblank = (s, []) := by
  cases vblank <;> simp_all [hblank, Access.counts]

theorem hblank_last (s : Mmc3) {view : View} (hview : view.rendering = true) (hcounter : s.counter = 0)
    (henabled : s.enabled = true) : (s.hblank view false).1 = { s with reload := true, counter := -1 } := by
  simp [hblank, hview, hcounter, henabled]

/-- The end of a line while the counter is not below zero. -/
theorem hblank_counted {n : Nat} (h : s.timer.Counted limit n) (view : View) (vblank : Bool) :
    (Board.mmc3 (s.hblank view vblank).1).At limit
        ((Phase.counted n).next false limit (.hblank view.rendering vblank)) ∧
      (s.hblank view vblank).2.contains .irq =
        (Phase.counted n).asks limit (.hblank view.rendering vblank) := by
  by_cases hcounts : (Access.hblank view.rendering vblank).counts = true
  · obtain ⟨hview, rfl⟩ := Access.counts_hblank.mp hcounts
    rw [Phase.next, if_pos hcounts, s.asks_line hview, Phase.asks, hcounts, Bool.true_and]
    by_cases hn : n < limit.toNat
    · obtain ⟨hpositive, hmore⟩ := h.more hn
      rw [if_pos hn, s.hblank_running hview hpositive]
      exact ⟨hmore, by simp [show s.counter ≠ 0 from hpositive.ne', hn.ne]⟩
    · obtain ⟨hzero, hlast⟩ := h.over hn
      rw [if_neg hn, s.hblank_last hview hzero h.enabled]
      exact ⟨⟨h.latch, h.enabled, (by decide : (-1 : Int) < 0), rfl⟩, by
        simp [show s.counter = 0 from hzero, hlast, show s.enabled = true from h.enabled]⟩
  · have hrests := Bool.eq_false_of_not_eq_true hcounts
    rw [Phase.next, if_neg hcounts, s.hblank_uncounted hrests, Phase.asks, hrests, Bool.false_and]
    exact ⟨h, rfl⟩

/-- And below zero. -/
theorem hblank_spent (h : s.timer.Spent limit) (view : View) (vblank : Bool) :
    s.hblank view vblank = (s, []) := by
  have hcounter : s.counter < 0 := h.counter
  simp [hblank, hcounter]

end Mmc3

namespace Rambo1

theorem timer_settle (s : Rambo1) : s.settle.timer = s.timer.settle := by
  obtain ⟨command, chrBase, counter, latch, enabled, reload⟩ := s
  cases reload <;> rfl

theorem timer_write (s : Rambo1) (address : UInt16) (value : UInt8) :
    (s.write address value).1.timer = s.timer.written address value := by
  show (s.writeRegister address value).1.settle.timer = _
  rw [timer_settle, LineTimer.written]
  simp only [writeRegister, LineTimer.register]
  generalize address &&& 0xE001 = p
  by_cases hcommand : p = 0x8000
  · subst hcommand
    rfl
  by_cases hbank : p = 0x8001
  · subst hbank
    rfl
  by_cases hwiring : p = 0xA000
  · subst hwiring
    rfl
  · simp only [if_neg hcommand, if_neg hbank, if_neg hwiring]
    split_ifs <;> rfl

variable {s : Rambo1} {limit : UInt8}

/-- A line that is not counted forgets a due reload at most. -/
theorem hblank_uncounted (s : Rambo1) {view : View} {vblank : Bool}
    (h : (Access.hblank view.rendering vblank).counts = false) :
    s.hblank view vblank = ({ s with reload := vblank && s.reload }, []) := by
  cases vblank <;> simp_all [hblank, Access.counts]

theorem hblank_running (s : Rambo1) {view : View} (hview : view.rendering = true) (hcounter : 0 < s.counter) :
    s.hblank view false = ({ s with reload := false, counter := s.counter - 1 }, []) := by
  simp [hblank, hview, hcounter.ne']

theorem hblank_last (s : Rambo1) {view : View} (hview : view.rendering = true) (hcounter : s.counter = 0)
    (henabled : s.enabled = true) :
    s.hblank view false = ({ s with reload := true, counter := bank s.latch }, [.irq]) := by
  simp [hblank, hview, hcounter, henabled]

theorem hblank_counted {n : Nat} (h : s.timer.Counted limit n) (view : View) (vblank : Bool) :
    (Board.rambo1 (s.hblank view vblank).1).At limit
        ((Phase.counted n).next true limit (.hblank view.rendering vblank)) ∧
      (s.hblank view vblank).2.contains .irq =
        (Phase.counted n).asks limit (.hblank view.rendering vblank) := by
  by_cases hcounts : (Access.hblank view.rendering vblank).counts = true
  · obtain ⟨hview, rfl⟩ := Access.counts_hblank.mp hcounts
    rw [Phase.next, if_pos hcounts, Phase.asks, hcounts, Bool.true_and]
    by_cases hn : n < limit.toNat
    · obtain ⟨hpositive, hmore⟩ := h.more hn
      rw [if_pos hn, s.hblank_running hview hpositive]
      exact ⟨hmore, by simp [hn.ne]⟩
    · obtain ⟨hzero, hlast⟩ := h.over hn
      rw [if_neg hn, s.hblank_last hview hzero h.enabled]
      exact ⟨LineTimer.counted_reloaded h.latch h.enabled true, by simp [hlast]⟩
  · have hrests := Bool.eq_false_of_not_eq_true hcounts
    rw [Phase.next, if_neg hcounts, s.hblank_uncounted hrests, Phase.asks, hrests, Bool.false_and]
    exact ⟨⟨h.latch, h.enabled, h.counter, h.room, fun hdue => h.reload (Bool.and_eq_true_iff.mp hdue).2⟩, rfl⟩

end Rambo1

/-! ### Boards -/

namespace Board

variable {b : Board} {limit : UInt8} {p : Phase} (view : View)

/-- Interrupts come when the phase says so. -/
theorem At.asks (h : b.At limit p) (a : Access) :
    (b.answer (a.cue view)).2.contains .irq = p.asks limit a := by
  cases a with
  | write address value =>
    have hnever : p.asks limit (.write address value) = false := by cases p <;> rfl
    exact (b.write_asks view address value).trans hnever.symm
  | hblank rendering vblank =>
    match p, b, h with
    | .counted n, .mmc3 s, h => exact (Mmc3.hblank_counted h { view with rendering } vblank).2
    | .spent, .mmc3 s, h => exact congrArg (·.2.contains .irq) (Mmc3.hblank_spent h _ vblank)
    | .counted n, .rambo1 s, h => exact (Rambo1.hblank_counted h { view with rendering } vblank).2

/-- The phase goes on, whatever is written apart from the counter's ports. -/
theorem At.next (h : b.At limit p) {a : Access} (ha : a.Apart) :
    (b.answer (a.cue view)).1.At limit (p.next (b.number == 64) limit a) := by
  cases a with
  | write address value =>
    match p, b, h with
    | .counted n, .mmc3 s, h =>
      have hwritten := LineTimer.Counted.written h ha
      rwa [← s.timer_write view] at hwritten
    | .spent, .mmc3 s, h =>
      have hwritten := LineTimer.Spent.written h ha
      rwa [← s.timer_write view] at hwritten
    | .counted n, .rambo1 s, h =>
      have hwritten := LineTimer.Counted.written h ha
      rwa [← s.timer_write] at hwritten
  | hblank rendering vblank =>
    match p, b, h with
    | .counted n, .mmc3 s, h => exact (Mmc3.hblank_counted h { view with rendering } vblank).1
    | .spent, .mmc3 s, h =>
      have hrests := Mmc3.hblank_spent h { view with rendering } vblank
      show At limit .spent (.mmc3 (s.hblank { view with rendering } vblank).1)
      rw [hrests]
      exact h
    | .counted n, .rambo1 s, h => exact (Rambo1.hblank_counted h { view with rendering } vblank).1

/-- Arming starts the count, whatever the board did before. -/
theorem at_armed (h : b.number = 4 ∨ b.number = 64) (limit reload on : UInt8) (v v' v'' : View) :
    (((b.write v 0xC000 limit).1.write v' 0xC001 reload).1.write v'' 0xE001 on).1.At limit (.counted 0) := by
  rcases h with hnumber | hnumber
  · obtain ⟨s, rfl⟩ := mmc3_of_number hnumber
    show (((s.write v 0xC000 limit).1.write v' 0xC001 reload).1.write v'' 0xE001 on).1.timer.Counted limit 0
    rw [Mmc3.timer_write, Mmc3.timer_write, Mmc3.timer_write]
    exact s.timer.counted_armed limit reload on
  · obtain ⟨s, rfl⟩ := rambo1_of_number hnumber
    show (((s.write 0xC000 limit).1.write 0xC001 reload).1.write 0xE001 on).1.timer.Counted limit 0
    rw [Rambo1.timer_write, Rambo1.timer_write, Rambo1.timer_write]
    exact s.timer.counted_armed limit reload on

theorem answer_number (b : Board) (a : Access) : (b.answer (a.cue view)).1.number = b.number := by
  cases a with
  | write address value => exact b.write_number view address value
  | hblank rendering vblank => exact b.hblank_number _ vblank

end Board

/-! ### Machines -/

namespace Machine

variable {m : Machine} {number limit : UInt8} {p : Phase}

/-- The machine has a board with this number, and its line counter stands there. -/
def At (m : Machine) (number limit : UInt8) (p : Phase) : Prop :=
  ∃ b, m.board = some b ∧ b.number = number ∧ b.At limit p

/-- What the console does at the end of a line is an access. -/
theorem boardHblank_eq_access (m : Machine) (vblank : Bool) :
    m.boardHblank vblank = m.access (.hblank m.ppu.enabled vblank) := rfl

theorem boardWrite_eq_access (m : Machine) (address : UInt16) (value : UInt8) :
    m.boardWrite address value = m.access (.write address value) := rfl

theorem board_access {b : Board} (h : m.board = some b) (a : Access) :
    (m.access a).board = some (b.answer (a.cue m.view)).1 :=
  m.board_withBoard h _

theorem At.asks (h : m.At number limit p) (a : Access) : m.asks a = p.asks limit a := by
  obtain ⟨b, hboard, -, hb⟩ := h
  rw [Machine.asks, hboard, Option.any_some, hb.asks]

theorem At.access (h : m.At number limit p) {a : Access} (ha : a.Apart) :
    (m.access a).At number limit (p.next (number == 64) limit a) := by
  obtain ⟨b, hboard, rfl, hb⟩ := h
  exact ⟨_, board_access hboard a, b.answer_number _ a, hb.next _ ha⟩

theorem At.run (h : m.At number limit p) {later : List Access} (hlater : ∀ a ∈ later, a.Apart) :
    (later.foldl Machine.access m).At number limit (later.foldl (Phase.next (number == 64) limit) p) := by
  induction later generalizing m p with
  | nil => exact h
  | cons a later ih =>
    obtain ⟨ha, hrest⟩ := List.forall_mem_cons.mp hlater
    exact ih (h.access ha) hrest

theorem at_armed {b : Board} (hboard : m.board = some b) (hnumber : b.number = 4 ∨ b.number = 64)
    (limit reload on : UInt8) :
    ((Access.arming limit reload on).foldl access m).At b.number limit (.counted 0) := by
  have hwritten := board_access (board_access (board_access hboard (.write 0xC000 limit))
    (.write 0xC001 reload)) (.write 0xE001 on)
  refine ⟨_, hwritten, ?_, Board.at_armed hnumber limit reload on _ _ _⟩
  rw [Board.answer_number, Board.answer_number, Board.answer_number]

/-- Up to the first interrupt all counters go the same way. -/
theorem At.first (h : m.At number limit (.counted 0)) {later : List Access} (hlater : ∀ a ∈ later, a.Apart)
    (hcount : Access.counted later ≤ limit.toNat) (a : Access) :
    (later.foldl Machine.access m).asks a = true ↔ a.counts = true ∧ Access.counted later = limit.toNat := by
  have hrun := h.run hlater
  rw [Phase.foldl_next later (by rwa [Nat.zero_add]), Nat.zero_add] at hrun
  rw [hrun.asks, Phase.asks_counted]

/-- The RAMBO-1 goes on in rounds. -/
theorem At.rounds (h : m.At 64 limit (.counted 0)) {later : List Access} (hlater : ∀ a ∈ later, a.Apart)
    (a : Access) : (later.foldl Machine.access m).asks a = true ↔
      a.counts = true ∧ limit.toNat + 1 ∣ Access.counted later + 1 := by
  have hrun := h.run hlater
  have hphase := @Phase.foldl_next_rounds limit later 0 (Nat.zero_le _)
  rw [Nat.zero_add] at hphase
  rw [show ((64 : UInt8) == 64) = true from rfl, hphase] at hrun
  rw [hrun.asks, Phase.asks_counted, Nat.dvd_iff_mod_eq_zero, Nat.succ_mod_succ_eq_zero_iff]

/-- An interrupt of the MMC3 leaves its counter spent, and no line changes that. -/
theorem At.spent (h : m.At 4 limit p) {last : Access} (hlast : m.asks last = true) {idle : List Access}
    (hidle : ∀ a ∈ idle, a.IsLine) : (idle.foldl Machine.access (m.access last)).At 4 limit .spent := by
  rw [h.asks] at hlast
  have hspent := h.access (a := last) (Phase.apart_of_asks hlast)
  rw [show ((4 : UInt8) == 64) = false from rfl, Phase.next_of_asks hlast] at hspent
  have hrun := hspent.run fun a ha => (hidle a ha).apart
  rwa [Phase.foldl_next_spent idle hidle] at hrun

/-- Interrupts come exactly on time. After a line counter has been armed with L, the first one comes with the
counted line number L + 1. From then on the RAMBO-1 sends one every L + 1 counted lines. On the MMC3 nothing
comes after an interrupt until something is written, and then the next one comes L + 1 counted lines
after the first write. -/
theorem line_counters_on_time {b : Board} (hboard : m.board = some b)
    (hnumber : b.number = 4 ∨ b.number = 64) (limit reload on : UInt8) :
    let start := (Access.arming limit reload on).foldl access m
    (∀ pre : List Access, (∀ a ∈ pre, a.Apart) → Access.counted pre ≤ limit.toNat →
      ∀ a, (pre.foldl access start).asks a = true ↔ a.counts = true ∧ Access.counted pre = limit.toNat) ∧
    (b.number = 64 → ∀ pre : List Access, (∀ a ∈ pre, a.Apart) →
      ∀ a, (pre.foldl access start).asks a = true ↔
        a.counts = true ∧ limit.toNat + 1 ∣ Access.counted pre + 1) ∧
    (b.number = 4 → ∀ pre : List Access, (∀ a ∈ pre, a.Apart) → ∀ last : Access,
      (pre.foldl access start).asks last = true →
      let spent := (pre.foldl access start).access last
      ∀ idle : List Access, (∀ a ∈ idle, a.IsLine) →
        (∀ a, (idle.foldl access spent).asks a = false) ∧
        ∀ address value, (Access.write address value).Apart → ∀ rest : List Access, (∀ a ∈ rest, a.Apart) →
          Access.counted rest ≤ limit.toNat →
          ∀ a, (rest.foldl access ((idle.foldl access spent).access (.write address value))).asks a = true ↔
            a.counts = true ∧ Access.counted rest = limit.toNat) := by
  intro start
  have hstart : start.At b.number limit (.counted 0) := at_armed hboard hnumber limit reload on
  refine ⟨fun pre hpre hcount a => hstart.first hpre hcount a, ?_, ?_⟩
  · intro h64 pre hpre a
    rw [h64] at hstart
    exact hstart.rounds hpre a
  · intro h4 pre hpre last hlast spent idle hidle
    rw [h4] at hstart
    have hrests := (hstart.run hpre).spent hlast hidle
    refine ⟨fun a => hrests.asks a, fun address value hwrite rest hrest hcount a => ?_⟩
    exact (hrests.access hwrite).first hrest hcount a

/-- A latch of 1: the second counted line is the first one to be answered with an interrupt. The next one on the
RAMBO-1 is the fourth, on the MMC3 the second one after a write. -/
theorem line_counters_on_time_latch_one :
    let line : Access := .hblank true false
    let mmc3 : Machine := (Access.arming 1 0 0).foldl access { (default : Machine) with board := some (.mmc3 {}) }
    let rambo1 : Machine :=
      (Access.arming 1 0 0).foldl access { (default : Machine) with board := some (.rambo1 {}) }
    mmc3.asks line = false ∧ (mmc3.access line).asks line = true ∧
    ([line, line, line].foldl access mmc3).asks line = false ∧
    ([line, line, .write 0x8001 0, line].foldl access mmc3).asks line = true ∧
    ([line, line].foldl access rambo1).asks line = false ∧
    ([line, line, line].foldl access rambo1).asks line = true := by
  intro line mmc3 rambo1
  have hmmc3 : ({ (default : Machine) with board := some (.mmc3 {}) } : Machine).board = some (.mmc3 {}) := rfl
  have hrambo1 : ({ (default : Machine) with board := some (.rambo1 {}) } : Machine).board =
      some (.rambo1 {}) := rfl
  obtain ⟨hfirst, -, hagain⟩ := line_counters_on_time hmmc3 (Or.inl rfl) 1 0 0
  obtain ⟨-, hrounds, -⟩ := line_counters_on_time hrambo1 (Or.inr rfl) 1 0 0
  have hline : ∀ a ∈ [line], a.Apart := by simp [line, Access.Apart]
  have hexpires : (mmc3.access line).asks line = true := (hfirst [line] hline (by decide) line).mpr (by decide)
  have hspent := hagain rfl [line] hline line hexpires [line] (by simp [line, Access.IsLine])
  refine ⟨?_, hexpires, hspent.1 line, ?_, ?_, ?_⟩
  · have hearly := hfirst [] (List.forall_mem_nil _) (by decide) line
    exact Bool.eq_false_of_not_eq_true fun h => absurd (hearly.mp h) (by decide)
  · obtain ⟨-, hawake⟩ := hagain rfl [line] hline line hexpires [] (List.forall_mem_nil _)
    exact (hawake 0x8001 0 ⟨by decide, by decide, by decide⟩ [line] hline (by decide) line).mpr (by decide)
  · have hodd := hrounds rfl [line, line] (by simp [line, Access.Apart]) line
    exact Bool.eq_false_of_not_eq_true fun h => absurd (hodd.mp h) (by decide)
  · exact (hrounds rfl [line, line, line] (by simp [line, Access.Apart]) line).mpr (by decide)

end Machine

end Famicom
