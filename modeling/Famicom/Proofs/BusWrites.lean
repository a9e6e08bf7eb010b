import Famicom.Proofs.Circuit
import Famicom.Proofs.FrameSkip

/-!
What programs write. An instruction writes at most one byte over the bus, and last of all (`Machine.output`). So
what a slice or a frame writes is what the instructions of its trace write, in their order, and whatever every
write moves on by one can be followed through slices and frames (`Machine.Follows`):

    machine  ──instruction──▶ machine' ──▶ …        frame
       ┊                         ┊
      state  ──told the byte──▶ state' ──▶ …        fold over what the frame writes

Between two writes only the picture unit's start of a line and the board's end of a line have something to say.
-/

namespace Famicom

/-- A byte written over the bus. -/
abbrev BusWrite := UInt16 × UInt8

namespace Machine

variable (m : Machine)

/-- What an instruction writes, its operand bytes being at the program counter. -/
def outputOf (m : Machine) : Instruction → Option BusWrite
  | .store op mode =>
    let address := m.cpu.effective m.cart mode
    some (address, (op.value (m.cpu.advance mode.size) address).1)
  | .modify op mode =>
    let address := m.cpu.effective m.cart mode
    let (value, m) := m.mapCpu (·.advance mode.size) |>.read address
    some (address, (op.apply m.cpu value).1)
  | _ => none

/-- What the next instruction writes. -/
def output (m : Machine) : Option BusWrite := (m.mapCpu (·.advance 1)).outputOf m.nextInstruction

/-- What a slice writes. -/
def sliceWrites (m : Machine) (slice : Int) : List BusWrite := (m.sliceTrace slice).filterMap output

/-- What a frame writes. -/
def frameWrites (m : Machine) (draw : Bool) : List BusWrite :=
  if !m.hasCartridge || m.paused then [] else (m.frameTrace draw).filterMap output

theorem outputOf_target (i : Instruction) : (m.outputOf i).map Prod.fst = i.target m.cpu m.cart := by
  cases i <;> rfl

/-- The machines differ in nothing that a board or its windows could tell. -/
structure Rests (m n : Machine) : Prop where
  layout : n.layout = m.layout
  board : n.board = m.board

namespace Rests

variable {m} {n k : Machine}

theorem trans (h : Rests m n) (h' : Rests n k) : Rests m k :=
  ⟨h'.layout.trans h.layout, h'.board.trans h.board⟩

theorem of_cpu {c : Cpu} (h : c.pages = m.cpu.pages) : Rests m { m with cpu := c } := ⟨m.layout_cpu c h, rfl⟩

theorem read (m : Machine) (address : UInt16) : Rests m (m.read address).2 :=
  ⟨m.layout_read address, m.board_read address⟩

theorem circuit (h : Rests m n) : n.circuit = m.circuit := m.circuit_of_layout h.layout h.board

/-- A board that does not look at tiles notices no start of a line. -/
theorem lineStart (hplain : Plain m) (draw : Bool) : Rests m (m.lineStart draw) := by
  have hpass (p : Ppu) (line : Int) : (p.passLine line).shows = p.shows := by
    simp only [Ppu.passLine]
    split_ifs
    exacts [Ppu.shows_startLine _ _, rfl, rfl, rfl]
  obtain ⟨hundrawn, hboard⟩ := m.ppu.undrawn_startScanline hplain m.cart m.scanline draw m.cpu.clock
  unfold Machine.lineStart
  generalize m.ppu.startScanline m.board m.cart m.scanline draw m.cpu.clock = r at hundrawn hboard ⊢
  have hshows : r.1.shows = m.ppu.shows := (congrArg Ppu.shows hundrawn).trans (hpass m.ppu.undrawn m.scanline)
  have hpages : r.1.pages = m.ppu.pages := congrArg Prod.fst hshows
  have hpalette : r.1.palette = m.ppu.palette := congrArg (·.2.1) hshows
  refine ⟨?_, (congrArg Circuit.board (circuit_drainNotes _)).trans hboard⟩
  refine (layout_drainNotes _).trans ?_
  simp only [Machine.layout, hpages, hpalette, hboard]

end Rests

/-- A state that is told every byte written over the bus is told all that the property needs to know. -/
structure Follows {α : Type} (P : α → Machine → Prop) (told : α → BusWrite → α) : Prop where
  rest : ∀ {a : α} {m n : Machine}, Rests m n → P a m → P a n
  write : ∀ {a : α} {m : Machine} (w : BusWrite), P a m → P (told a w) (m.write w.1 w.2)
  lineStart : ∀ {a : α} {m : Machine} (draw : Bool), P a m → P a (m.lineStart draw)
  hblank : ∀ {a : α} {m : Machine} (vblank : Bool), P a m → P a (m.boardHblank vblank)

namespace Follows

variable {α : Type} {P : α → Machine → Prop} {told : α → BusWrite → α} (h : Follows P told) {a : α} {m : Machine}
include h

theorem cpu {c : Cpu} (hpages : c.pages = m.cpu.pages) (hm : P a m) : P a { m with cpu := c } :=
  h.rest (.of_cpu hpages) hm

theorem perform (i : Instruction) (hm : P a m) : P ((m.outputOf i).toList.foldl told a) (m.perform i).2 := by
  cases i with
  | store op mode =>
    have hpages := ((m.cpu.steady_advance mode.size).trans
      (Cpu.steady_store op (m.cpu.advance mode.size) (m.cpu.effective m.cart mode))).pages
    exact h.write _ (h.cpu hpages hm)
  | modify op mode =>
    have hfetched : P a (m.mapCpu (·.advance mode.size)) := h.cpu (m.cpu.steady_advance mode.size).pages hm
    have hread := h.rest (.read _ (m.cpu.effective m.cart mode)) hfetched
    simp only [outputOf, Machine.perform, Machine.modify]
    generalize Machine.read _ _ = r at hread ⊢
    exact h.write _ (h.cpu (Cpu.steady_modify op r.2.cpu r.1).pages hread)
  | load op mode =>
    have hfetched : P a (m.mapCpu (·.advance mode.size)) := h.cpu (m.cpu.steady_advance mode.size).pages hm
    simp only [Machine.perform, Machine.load]
    generalize m.mapCpu (·.advance mode.size) = n at hfetched ⊢
    split
    · exact h.cpu (Cpu.steady_load op _ _).pages hfetched
    · have hread := h.rest (.read n (m.cpu.effective m.cart mode)) hfetched
      generalize n.read (m.cpu.effective m.cart mode) = r at hread ⊢
      exact h.cpu (Cpu.steady_load op _ _).pages hread
  | accumulator op => exact h.cpu (Cpu.steady_modify op m.cpu m.cpu.a).pages hm
  | implied op => exact h.cpu (Cpu.steady_implied op _).pages hm
  | branch flag value => exact h.cpu ((m.cpu.steady_advance 1).trans (Cpu.steady_branch _ _ _)).pages hm
  | brk => exact h.cpu (Cpu.steady_brk _ _).pages hm
  | jsr => exact h.cpu (Cpu.steady_jsr _ _).pages hm
  | rti => exact h.cpu (Cpu.steady_rti _).pages hm
  | rts => exact h.cpu (Cpu.steady_rts _).pages hm
  | jmp => exact h.cpu (Cpu.steady_jump _ _).pages hm
  | jmpIndirect => exact h.cpu (Cpu.steady_jump _ _).pages hm
  | skip operands cost => exact h.cpu (m.cpu.steady_advance operands).pages hm
  | jam => exact hm

theorem step (hm : P a m) : P (m.output.toList.foldl told a) m.step := by
  by_cases hjam : m.nextInstruction = .jam
  · have hsilent : m.output = none := by
      rw [output, hjam]
      rfl
    have hjammed : Rests m (m.jam (m.cpu.peek m.cart m.cpu.pc) m.cpu.pc) := ⟨rfl, rfl⟩
    rw [hsilent, m.step_jammed hjam]
    exact h.rest hjammed hm
  · have hfetched : P a (m.mapCpu (·.advance 1)) := h.cpu (m.cpu.steady_advance 1).pages hm
    have hperformed : P (m.output.toList.foldl told a) m.performed.2 := h.perform m.nextInstruction hfetched
    rw [m.step_performed hjam]
    generalize m.performed = r at hperformed ⊢
    split
    · exact h.cpu (Cpu.pages_servePending _ _) hperformed
    · exact h.cpu rfl hperformed

theorem run (fuel : Nat) (hm : P a m) :
    P (((trace fuel m).filterMap output).foldl told a) (Machine.run fuel m) := by
  induction fuel generalizing a m with
  | zero => exact hm
  | succ fuel ih =>
    by_cases hleft : 0 < m.cpu.budget
    · have hstep := ih (h.step hm)
      rw [trace_succ _ hleft, run_succ _ hleft]
      cases houtput : m.output with
      | none =>
        rw [houtput] at hstep
        rwa [List.filterMap_cons_none houtput]
      | some w =>
        rw [houtput] at hstep
        rwa [List.filterMap_cons_some houtput]
    · have hused : m.cpu.budget ≤ 0 := Int.not_lt.mp hleft
      rw [trace_idle _ hused, run_idle _ hused]
      exact hm

theorem execute (slice : Int) (hm : P a m) : P ((m.sliceWrites slice).foldl told a) (m.execute slice).2 := by
  have hpay := ({ m.cpu with budget := slice }).poised_payOwed.trans (Cpu.poised_idleIfJammed _)
  have hbegun : P a (m.beginSlice slice) := h.cpu ((Cpu.pages_servePending _ _).trans hpay.pages) hm
  rw [execute_eq]
  exact h.run _ hbegun

theorem elapseTimer (cycles : Int) (hm : P a m) : P a (m.elapseTimer cycles) := by
  have htimer : Rests m { m with timer := (m.timer.elapse cycles).2 } := ⟨rfl, rfl⟩
  simp only [Machine.elapseTimer]
  split
  · exact h.cpu (Cpu.pages_irq _ _) (h.rest htimer hm)
  · exact h.rest htimer hm

theorem runSlice (slice : Int) (hm : P a m) : P ((m.sliceWrites slice).foldl told a) (m.runSlice slice) := by
  have hexecuted := h.execute slice hm
  unfold Machine.runSlice
  generalize m.execute slice = r at hexecuted ⊢
  have hcycles : Rests r.2 { r.2 with lineCycles := r.2.lineCycles - Float32.ofInt r.1 } := ⟨rfl, rfl⟩
  exact h.elapseTimer r.1 (h.rest hcycles hexecuted)

/-! ### Lines and frames -/

theorem lineBlank (hm : P a m) :
    P ((if m.scanline = vblankLine then m.sliceWrites nmiDelay else []).foldl told a) m.lineBlank := by
  unfold Machine.lineBlank beginVblank
  split
  · have hran := h.runSlice nmiDelay hm
    simp only
    split
    · exact h.cpu (Cpu.pages_nmi _ _) hran
    · exact hran
  · exact hm

theorem lineBoard (vblank : Bool) (hm : P a m) : P a (m.lineBoard vblank) := by
  refine h.rest ?_ (h.hblank vblank hm)
  exact ⟨rfl, rfl⟩

theorem lineSlice (hm : P a m) : P ((m.sliceWrites (wholeCycles m.lineCycles)).foldl told a) m.lineSlice :=
  h.runSlice _ hm

theorem lineEnd (hm : P a m) : P a m.lineEnd := h.rest ⟨m.layout_lineEnd, rfl⟩ hm

theorem runLine (draw vblank : Bool) (hm : P a m) :
    P (((m.lineTrace draw vblank).filterMap output).foldl told a) (m.runLine draw vblank) := by
  have hran := h.lineSlice (h.lineBoard vblank (h.lineBlank (h.lineStart draw hm)))
  have hwrites : (m.lineTrace draw vblank).filterMap output =
      (if (m.lineStart draw).scanline = vblankLine then (m.lineStart draw).sliceWrites nmiDelay else []) ++
        ((m.lineStart draw).lineBlank.lineBoard vblank).sliceWrites
          (wholeCycles ((m.lineStart draw).lineBlank.lineBoard vblank).lineCycles) := by
    rw [lineTrace, List.filterMap_append]
    congr 1
    split <;> rfl
  rw [hwrites, List.foldl_append, runLine_eq]
  exact h.lineEnd hran

theorem runLines (draw vblank : Bool) (count : Nat) (hm : P a m) :
    P (((m.linesTrace draw vblank count).filterMap output).foldl told a) (m.runLines draw vblank count) := by
  induction count generalizing a m vblank with
  | zero => exact hm
  | succ count ih =>
    simp only [linesTrace, List.filterMap_append, List.foldl_append]
    exact ih _ (h.runLine draw _ hm)

theorem runFrame (draw : Bool) (hm : P a m) : P ((m.frameWrites draw).foldl told a) (m.runFrame draw) := by
  unfold Machine.runFrame frameWrites
  split
  · exact hm
  · have hlines := h.runLines draw false (linesPerFrame - m.scanline).toNat hm
    refine h.rest ?_ hlines
    exact ⟨rfl, rfl⟩

end Follows

end Machine

end Famicom
