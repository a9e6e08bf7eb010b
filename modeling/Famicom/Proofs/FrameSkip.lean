import Famicom.Machine.Power
import Famicom.Proofs.Image
import Famicom.Proofs.Undrawn

/-!
Skipped frames. A frame is lines, a line is phases, and every phase takes machines that differ in what
drawing left behind (`Machine.Alike`) to such machines again. So a frame that is not drawn goes on like one
that is, as long as its program does not read the status register.

    line    start ─▶ [241: slice, NMI] ─▶ board ─▶ slice ─▶ end
            ▲ the only phase that draws
-/

namespace Famicom.Machine

variable (m : Machine)

/-! ### Programs -/

/-- The next instruction reads the status register of the picture unit. -/
def readsStatus (m : Machine) : Bool :=
  (m.nextInstruction.source (m.cpu.advance 1) m.cart).any fun address => decide (ShowsStatus address)

/-- No instruction that begins at these machines reads the status register. -/
def Blind (ms : List Machine) : Prop := ∀ k ∈ ms, k.readsStatus = false

theorem blind_append {ms ms' : List Machine} : Blind (ms ++ ms') ↔ Blind ms ∧ Blind ms' :=
  List.forall_mem_append

theorem readsStatus_undrawn : m.undrawn.readsStatus = m.readsStatus := rfl

theorem performed_undrawn (h : m.readsStatus = false) :
    m.undrawn.performed = (m.performed.1, m.performed.2.undrawn) := by
  refine unseen_undrawn.perform (m.mapCpu (·.advance 1)) m.nextInstruction ?_ fun _ _ => id
  intro address hsource hstatus
  have hreads : m.readsStatus = true := by
    rw [readsStatus, show m.nextInstruction.source (m.cpu.advance 1) m.cart = some address from hsource]
    exact decide_eq_true hstatus
  rw [h] at hreads
  exact Bool.false_ne_true hreads

theorem step_undrawn (h : m.readsStatus = false) : m.undrawn.step = m.step.undrawn := by
  have hnext : m.undrawn.nextInstruction = m.nextInstruction := rfl
  by_cases hjam : m.nextInstruction = .jam
  · rw [step_jammed _ (hnext.trans hjam), step_jammed _ hjam]
    rfl
  · rw [step_performed _ (hnext ▸ hjam), step_performed _ hjam, performed_undrawn m h, hnext]
    generalize m.performed = s
    split <;> rfl

theorem budget_undrawn : m.undrawn.cpu.budget = m.cpu.budget := rfl

/-- A program that does not read the status register runs alike on an undrawn machine, and does not read
it there either. -/
theorem run_undrawn (fuel : Nat) :
    (Blind (trace fuel m.undrawn) ↔ Blind (trace fuel m)) ∧
      (Blind (trace fuel m) → run fuel m.undrawn = (run fuel m).undrawn) := by
  induction fuel generalizing m with
  | zero => exact ⟨Iff.rfl, fun _ => rfl⟩
  | succ fuel ih =>
    have hbudget := m.budget_undrawn
    by_cases hleft : 0 < m.cpu.budget
    · rw [trace_succ _ hleft, trace_succ _ (hbudget ▸ hleft), run_succ _ hleft,
        run_succ _ (hbudget ▸ hleft)]
      simp only [Blind, List.forall_mem_cons, readsStatus_undrawn]
      refine ⟨and_congr_right fun hfirst => ?_, fun ⟨hfirst, hrest⟩ => ?_⟩
      · rw [step_undrawn m hfirst]
        exact (ih m.step).1
      · rw [step_undrawn m hfirst]
        exact (ih m.step).2 hrest
    · have hused : m.cpu.budget ≤ 0 := Int.not_lt.mp hleft
      rw [trace_idle _ hused, trace_idle _ (hbudget ▸ hused), run_idle _ hused,
        run_idle _ (hbudget ▸ hused)]
      exact ⟨Iff.rfl, fun _ => rfl⟩

theorem beginSlice_undrawn (slice : Int) : m.undrawn.beginSlice slice = (m.beginSlice slice).undrawn := rfl

theorem blind_undrawn (slice : Int) : Blind (m.undrawn.sliceTrace slice) ↔ Blind (m.sliceTrace slice) := by
  rw [sliceTrace, sliceTrace, beginSlice_undrawn, budget_undrawn]
  exact (run_undrawn _ _).1

theorem execute_undrawn {slice : Int} (h : Blind (m.sliceTrace slice)) :
    m.undrawn.execute slice = ((m.execute slice).1, (m.execute slice).2.undrawn) := by
  have hstate : (m.undrawn.execute slice).2 = (m.execute slice).2.undrawn := by
    rw [execute_eq, execute_eq, beginSlice_undrawn, budget_undrawn]
    exact (run_undrawn _ _).2 h
  refine Prod.ext ?_ hstate
  rw [execute_elapsed, hstate, execute_elapsed]
  rfl

theorem elapseTimer_undrawn (cycles : Int) :
    m.undrawn.elapseTimer cycles = (m.elapseTimer cycles).undrawn := by
  have htimer : m.undrawn.timer = m.timer := rfl
  simp only [elapseTimer, htimer]
  split <;> rfl

theorem runSlice_undrawn {slice : Int} (h : Blind (m.sliceTrace slice)) :
    m.undrawn.runSlice slice = (m.runSlice slice).undrawn := by
  simp only [runSlice, m.execute_undrawn h]
  generalize m.execute slice = s
  exact elapseTimer_undrawn { s.2 with lineCycles := s.2.lineCycles - Float32.ofInt s.1 } s.1

theorem beginVblank_undrawn (h : Blind (m.sliceTrace nmiDelay)) :
    m.undrawn.beginVblank = m.beginVblank.undrawn := by
  simp only [beginVblank, m.runSlice_undrawn h]
  generalize m.runSlice nmiDelay = k
  have hnmi : k.undrawn.ppu.nmiEnabled = k.ppu.nmiEnabled := rfl
  rw [hnmi]
  split <;> rfl

/-! ### The phases of a line -/

/-- The machines at which the instructions of a line begin. -/
def lineTrace (m : Machine) (draw vblank : Bool) : List Machine :=
  let started := m.lineStart draw
  let ready := started.lineBlank.lineBoard vblank
  (if started.scanline = vblankLine then started.sliceTrace nmiDelay else []) ++
    ready.sliceTrace (wholeCycles ready.lineCycles)

/-- The machines at which the instructions of the next `count` lines begin. -/
def linesTrace (m : Machine) (draw vblank : Bool) : Nat → List Machine
  | 0 => []
  | count + 1 =>
    let vblank := vblank || m.scanline = vblankLine
    m.lineTrace draw vblank ++ (m.runLine draw vblank).linesTrace draw vblank count

/-- The machines at which the instructions of a frame begin. -/
def frameTrace (m : Machine) (draw : Bool) : List Machine :=
  m.linesTrace draw false (linesPerFrame - m.scanline).toNat

/-- The machines are the same but for what drawing left behind. -/
def Alike (m n : Machine) : Prop := m.undrawn = n.undrawn

/-- The board does not look at the tiles that are drawn. -/
def Plain (m : Machine) : Prop := ∀ b, m.board = some b → b.number ≠ 9

section
variable {m} {n : Machine}

theorem board_of_moves {l l' : Layout} (h : Layout.Moves l l') : l'.board = l.board := by
  refine Layout.Moves.keeps (P := fun k => k.board = l.board) (fun hs hl => ?_) h rfl
  cases hs with
  | wish number signal => exact (Layout.obey_board _ signal).trans hl
  | backdrop | colour | level => exact hl

theorem Plain.of_moves (h : Plain m) (hmoves : Layout.Moves m.layout n.layout) : Plain n := by
  have hboard := board_of_moves hmoves
  intro b hb heq
  have hmapped : m.board.map Board.number = some b.number := by
    rw [← show n.layout.board = some b.number from by simp only [layout, hb, Option.map_some], hboard]
    rfl
  obtain ⟨b', hb', hnumber⟩ := Option.map_eq_some_iff.mp hmapped
  exact h b' hb' (hnumber.trans heq)

theorem lineStart_undrawn (h : Plain m) (draw : Bool) : (m.lineStart draw).undrawn =
    { m.undrawn with ppu := m.undrawn.ppu.passLine m.undrawn.scanline }.drainNotes := by
  obtain ⟨hppu, hboard⟩ := m.ppu.undrawn_startScanline h m.cart m.scanline draw m.cpu.clock
  simp only [lineStart, hboard]
  rw [← drainNotes_undrawn]
  exact congrArg (fun ppu => { m with ppu }.drainNotes) hppu

/-- Phases that do not draw take such machines to such machines. -/
theorem Alike.map (h : Alike m n) (f : Machine → Machine) (hm : f m.undrawn = (f m).undrawn)
    (hn : f n.undrawn = (f n).undrawn) : Alike (f m) (f n) := by
  unfold Alike at h ⊢
  rw [← hm, ← hn, h]

theorem Alike.blind (h : Alike m n) {slice : Int} (hblind : Blind (m.sliceTrace slice)) :
    Blind (n.sliceTrace slice) := by
  unfold Alike at h
  rw [← blind_undrawn, h, blind_undrawn] at hblind
  exact hblind

theorem Alike.lineStart (h : Alike m n) (hm : Plain m) (hn : Plain n) (draw draw' : Bool) :
    Alike (m.lineStart draw) (n.lineStart draw') := by
  unfold Alike at h ⊢
  rw [lineStart_undrawn hm, lineStart_undrawn hn, h]

theorem Alike.lineBlank (h : Alike m n)
    (hblind : m.scanline = vblankLine → Blind (m.sliceTrace nmiDelay)) :
    Alike m.lineBlank n.lineBlank := by
  have hline : m.scanline = n.scanline := congrArg (·.scanline) h
  unfold Machine.lineBlank
  rw [← hline]
  split
  case isTrue hv =>
    exact h.map beginVblank (beginVblank_undrawn _ (hblind hv))
      (beginVblank_undrawn _ (h.blind (hblind hv)))
  case isFalse => exact h

theorem Alike.lineBoard (h : Alike m n) (vblank : Bool) :
    Alike (m.lineBoard vblank) (n.lineBoard vblank) := by
  have hboard (k : Machine) : k.undrawn.lineBoard vblank = (k.lineBoard vblank).undrawn := by
    simp only [Machine.lineBoard, boardHblank_undrawn]
    rfl
  exact h.map (Machine.lineBoard · vblank) (hboard m) (hboard n)

theorem Alike.lineSlice (h : Alike m n) (hblind : Blind (m.sliceTrace (wholeCycles m.lineCycles))) :
    Alike m.lineSlice n.lineSlice := by
  have hcycles : m.lineCycles = n.lineCycles := congrArg (·.lineCycles) h
  unfold Machine.lineSlice
  rw [← hcycles]
  exact h.map (runSlice · (wholeCycles m.lineCycles)) (runSlice_undrawn _ hblind)
    (runSlice_undrawn _ (h.blind hblind))

theorem Alike.lineEnd (h : Alike m n) : Alike m.lineEnd n.lineEnd := by
  have hend (k : Machine) : k.undrawn.lineEnd = k.lineEnd.undrawn := by
    unfold Machine.lineEnd
    exact congrArg (fun ppu => { k with ppu, scanline := k.scanline + 1 })
      (k.ppu.finishScanline_undrawn k.scanline)
  exact h.map Machine.lineEnd (hend m) (hend n)

/-! ### Lines and frames -/

theorem Alike.runLine (h : Alike m n) (hm : Plain m) (hn : Plain n) (draw draw' vblank : Bool)
    (hblind : Blind (m.lineTrace draw vblank)) :
    Alike (m.runLine draw vblank) (n.runLine draw' vblank) := by
  obtain ⟨hblank, hslice⟩ := blind_append.mp hblind
  have hstarted := h.lineStart hm hn draw draw'
  have hblanked := hstarted.lineBlank fun hv => by rwa [if_pos hv] at hblank
  rw [runLine_eq, runLine_eq]
  exact ((hblanked.lineBoard vblank).lineSlice hslice).lineEnd

theorem Alike.runLines (h : Alike m n) (hm : Plain m) (hn : Plain n) (draw draw' vblank : Bool)
    (count : Nat) (hblind : Blind (m.linesTrace draw vblank count)) :
    Alike (m.runLines draw vblank count) (n.runLines draw' vblank count) := by
  induction count generalizing m n vblank with
  | zero => exact h
  | succ count ih =>
    have hline : m.scanline = n.scanline := congrArg (·.scanline) h
    obtain ⟨hfirst, hrest⟩ := blind_append.mp hblind
    unfold Machine.runLines
    rw [← hline]
    exact ih (h.runLine hm hn draw draw' _ hfirst) (hm.of_moves (m.moves_runLine draw _))
      (hn.of_moves (n.moves_runLine draw' _)) _ hrest

theorem Alike.runFrame (h : Alike m n) (hm : Plain m) (hn : Plain n) (draw draw' : Bool)
    (hblind : Blind (m.frameTrace draw)) : Alike (m.runFrame draw) (n.runFrame draw') := by
  have hstopped : (!m.hasCartridge || m.paused) = (!n.hasCartridge || n.paused) :=
    congrArg (fun k => !k.hasCartridge || k.paused) h
  have hline : m.scanline = n.scanline := congrArg (·.scanline) h
  unfold Machine.runFrame
  rw [← hstopped]
  split
  · exact h
  · simp only [← hline]
    have hlines := h.runLines hm hn draw draw' false (linesPerFrame - m.scanline).toNat hblind
    exact congrArg (fun k => { k with scanline := 0, frames := k.frames + 1 }) hlines

end

/-- What a waiting program and its surroundings are made of. -/
structure Situation where
  pc : UInt16
  p : UInt8
  jammed : Bool
  ram : Memory 0x800
  pages : PageTable
  cart : Cartridge
  board : Option Board
  ctrl : UInt8
  mask : UInt8
  paused : Bool

def situation (m : Machine) : Situation :=
  ⟨m.cpu.pc, m.cpu.p, m.cpu.jammed, m.cpu.ram, m.cpu.pages, m.cart, m.board, m.ppu.ctrl, m.ppu.mask,
    m.paused⟩

/-- The program jumps from an instruction to the same instruction. No interrupt reaches it, the board does
nothing by itself, and vertical blank finds it awake. -/
structure Waits (m : Machine) : Prop where
  jumps : m.nextInstruction = .jmp
  back : m.cpu.peekWord m.cart (m.cpu.pc + 1) = m.cpu.pc
  masked : m.cpu.flag .interrupt = true
  runs : m.cpu.jammed = false
  quiet : m.ppu.nmiEnabled = false
  solvent : m.cpu.owed < nmiDelay
  still : ∃ kind, m.board = some (.latch kind)

/-- Time has passed, and the situation is the same. -/
structure Passes (m n : Machine) : Prop where
  situation : n.situation = m.situation
  owed : n.cpu.owed ≤ m.cpu.owed
  scanline : n.scanline = m.scanline

section
variable {m} {n k : Machine}

theorem Passes.refl (m : Machine) : Passes m m := ⟨rfl, Int.le_refl _, rfl⟩

theorem Passes.trans (h : Passes m n) (h' : Passes n k) : Passes m k :=
  ⟨h'.situation.trans h.situation, Int.le_trans h'.owed h.owed, h'.scanline.trans h.scanline⟩

/-- A program waits on in the same situation. -/
theorem Waits.of_situation (h : Waits m) (hs : n.situation = m.situation) (howed : n.cpu.owed ≤ m.cpu.owed) :
    Waits n := by
  have hpc : n.cpu.pc = m.cpu.pc := congrArg (·.pc) hs
  have hp : n.cpu.p = m.cpu.p := congrArg (·.p) hs
  have hram : n.cpu.ram = m.cpu.ram := congrArg (·.ram) hs
  have hpages : n.cpu.pages = m.cpu.pages := congrArg (·.pages) hs
  have hcart : n.cart = m.cart := congrArg (·.cart) hs
  have hctrl : n.ppu.ctrl = m.ppu.ctrl := congrArg (·.ctrl) hs
  have hpeek (address : UInt16) : n.cpu.peek n.cart address = m.cpu.peek m.cart address := by
    simp only [Cpu.peek, hram, hpages, hcart]
  refine ⟨?_, ?_, ?_, (congrArg (·.jammed) hs).trans h.runs, ?_, Int.lt_of_le_of_lt howed h.solvent, ?_⟩
  · rw [nextInstruction, hpeek, hpc]
    exact h.jumps
  · simp only [Cpu.peekWord, hpeek, hpc]
    exact h.back
  · simp only [Cpu.flag, hp]
    exact h.masked
  · rw [Ppu.nmiEnabled, hctrl]
    exact h.quiet
  · obtain ⟨kind, hboard⟩ := h.still
    exact ⟨kind, (congrArg (·.board) hs).trans hboard⟩

theorem Waits.passes (h : Waits m) (hp : Passes m n) : Waits n := h.of_situation hp.situation hp.owed

theorem Waits.plain (h : Waits m) : Plain m := by
  obtain ⟨kind, hboard⟩ := h.still
  intro b hb
  obtain rfl : Board.latch kind = b := Option.some.inj (hboard.symm.trans hb)
  cases kind <;> decide

/-- A jump reads nothing over the bus. -/
theorem Waits.blind (h : Waits m) : m.readsStatus = false := by
  rw [readsStatus, h.jumps]
  rfl

theorem Waits.step (h : Waits m) : Passes m m.step := by
  have hperformed : m.performed = (3, m) := by
    have hback : m.cpu.peekWord m.cart (m.cpu.pc + 1) = m.cpu.pc := h.back
    rw [performed, h.jumps]
    simp only [perform, mapCpu, Cpu.advance]
    refine Prod.ext rfl (congrArg (fun pc => { m with cpu.pc := pc }) hback)
  rw [step_performed _ (h.jumps ▸ Instruction.noConfusion), hperformed, h.jumps]
  exact ⟨rfl, Int.le_refl _, rfl⟩

theorem Waits.run (h : Waits m) (fuel : Nat) : (∀ k ∈ trace fuel m, Waits k) ∧ Passes m (run fuel m) := by
  induction fuel generalizing m with
  | zero => exact ⟨fun k hk => absurd hk List.not_mem_nil, .refl m⟩
  | succ fuel ih =>
    by_cases hleft : 0 < m.cpu.budget
    · obtain ⟨hrest, hpasses⟩ := ih (h.passes h.step)
      rw [trace_succ _ hleft, run_succ _ hleft]
      exact ⟨List.forall_mem_cons.mpr ⟨h, hrest⟩, h.step.trans hpasses⟩
    · have hused : m.cpu.budget ≤ 0 := Int.not_lt.mp hleft
      rw [trace_idle _ hused, run_idle _ hused]
      exact ⟨fun k hk => absurd hk List.not_mem_nil, .refl m⟩

/-- A slice begins by paying what is owed, and with nothing else. -/
theorem Waits.beginSlice_eq (h : Waits m) (slice : Int) :
    m.beginSlice slice = m.mapCpu fun c => { c with budget := slice }.payOwed := by
  have hidle (c : Cpu) (hc : c.jammed = false) : c.idleIfJammed = c := by
    rw [Cpu.idleIfJammed, hc]
    rfl
  have hserve (c : Cpu) (hc : c.flag .interrupt = true) : c.servePending m.cart = c := by
    rw [Cpu.servePending, hc]
    rfl
  have hpaid : ({ m.cpu with budget := slice } : Cpu).payOwed.jammed = false ∧
      ({ m.cpu with budget := slice } : Cpu).payOwed.flag .interrupt = true := by
    rw [Cpu.payOwed]
    split <;> exact ⟨h.runs, h.masked⟩
  simp only [beginSlice, mapCpu, hidle _ hpaid.1, hserve _ hpaid.2]

theorem Waits.beginSlice (h : Waits m) (slice : Int) : Passes m (m.beginSlice slice) := by
  rw [h.beginSlice_eq, mapCpu, Cpu.payOwed]
  split
  case isTrue hdue =>
    refine ⟨rfl, ?_, rfl⟩
    have hbudget : 0 < slice := hdue.2
    have howed : 0 < m.cpu.owed := hdue.1
    show m.cpu.owed - min m.cpu.owed slice ≤ m.cpu.owed
    omega
  case isFalse => exact ⟨rfl, Int.le_refl _, rfl⟩

theorem Waits.sliceTrace (h : Waits m) (slice : Int) : ∀ k ∈ m.sliceTrace slice, Waits k :=
  ((h.passes (h.beginSlice slice)).run _).1

/-- What is owed leaves time for a jump at the start of vertical blank. -/
theorem Waits.sliceTrace_blank (h : Waits m) : m.sliceTrace nmiDelay ≠ [] := by
  have hleft : 0 < (m.beginSlice nmiDelay).cpu.budget := by
    have howed : m.cpu.owed < 7 := h.solvent
    rw [h.beginSlice_eq, mapCpu, Cpu.payOwed]
    split
    · show (0 : Int) < 7 - min m.cpu.owed 7
      omega
    · show (0 : Int) < 7
      decide
  rw [Machine.sliceTrace]
  obtain ⟨fuel, hfuel⟩ := Nat.exists_eq_succ_of_ne_zero (n := (m.beginSlice nmiDelay).cpu.budget.toNat)
    (by omega)
  rw [hfuel, trace_succ _ hleft]
  exact List.cons_ne_nil _ _

theorem Waits.runSlice (h : Waits m) (slice : Int) : Passes m (m.runSlice slice) := by
  have hrun : Passes m (m.execute slice).2 := by
    rw [execute_eq]
    exact (h.beginSlice slice).trans ((h.passes (h.beginSlice slice)).run _).2
  have hends := h.passes hrun
  simp only [Machine.runSlice]
  generalize m.execute slice = s at hrun hends ⊢
  have hirq : s.2.cpu.irq s.2.cart = { s.2.cpu with pending := true } := by
    rw [Cpu.irq, if_neg (Bool.eq_false_iff.mp hends.runs), if_pos hends.masked]
  refine hrun.trans ?_
  simp only [elapseTimer]
  split
  · simp only [hirq]
    exact ⟨rfl, Int.le_refl _, rfl⟩
  · exact ⟨rfl, Int.le_refl _, rfl⟩

/-! ### Its lines -/

theorem Waits.lineStart (h : Waits m) (draw : Bool) : Passes m (m.lineStart draw) := by
  have hline := lineStart_undrawn h.plain draw
  have hregisters (p : Ppu) (line : Int) :
      (p.passLine line).ctrl = p.ctrl ∧ (p.passLine line).mask = p.mask := by
    simp only [Ppu.passLine, Ppu.startLine]
    split_ifs <;> exact ⟨rfl, rfl⟩
  have hdrain (n : Machine) : n.drainNotes.situation = n.situation ∧ n.drainNotes.cpu = n.cpu ∧
      n.drainNotes.scanline = n.scanline := by
    unfold drainNotes
    split <;> exact ⟨rfl, rfl, rfl⟩
  obtain ⟨hctrl, hmask⟩ := hregisters m.undrawn.ppu m.undrawn.scanline
  generalize hpassed :
    ({ m.undrawn with ppu := m.undrawn.ppu.passLine m.undrawn.scanline } : Machine) = n at hline
  have hn : n.situation = m.situation ∧ n.cpu = m.cpu ∧ n.scanline = m.scanline := by
    rw [← hpassed]
    refine ⟨?_, rfl, rfl⟩
    simp only [Machine.situation, hctrl, hmask]
    rfl
  obtain ⟨hsituation, hcpu, hscanline⟩ := hdrain n
  rw [← hline] at hsituation hcpu hscanline
  have howed : (m.lineStart draw).cpu = m.cpu := hcpu.trans hn.2.1
  exact ⟨hsituation.trans hn.1, by rw [howed], hscanline.trans hn.2.2⟩

theorem Waits.lineBlank (h : Waits m) : Passes m m.lineBlank := by
  unfold Machine.lineBlank beginVblank
  split
  · have hslice := h.runSlice nmiDelay
    have hquiet : (m.runSlice nmiDelay).ppu.nmiEnabled = false := (h.passes hslice).quiet
    simp only [hquiet]
    exact hslice
  · exact .refl m

theorem Waits.lineBoard (h : Waits m) (vblank : Bool) : Passes m (m.lineBoard vblank) := by
  obtain ⟨kind, hboard⟩ := h.still
  have hblank : m.boardHblank vblank = m := by
    rw [boardHblank, withBoard, hboard]
    show ({ m with board := some (.latch kind) } : Machine) = m
    rw [← hboard]
  rw [Machine.lineBoard, hblank]
  exact ⟨rfl, Int.le_refl _, rfl⟩

/-- A line passes, and every instruction on it is the jump. -/
theorem Waits.runLine (h : Waits m) (draw vblank : Bool) : (∀ k ∈ m.lineTrace draw vblank, Waits k) ∧
    (m.runLine draw vblank).situation = m.situation ∧ Waits (m.runLine draw vblank) ∧
      (m.runLine draw vblank).scanline = m.scanline + 1 := by
  have hstart := h.lineStart draw
  have hblank := hstart.trans (h.passes hstart).lineBlank
  have hboard := hblank.trans ((h.passes hblank).lineBoard vblank)
  have hslice := hboard.trans ((h.passes hboard).runSlice
    (wholeCycles ((m.lineStart draw).lineBlank.lineBoard vblank).lineCycles))
  refine ⟨fun k hk => ?_, ?_⟩
  · obtain hk | hk := List.mem_append.mp hk
    · split at hk
      · exact (h.passes hstart).sliceTrace _ k hk
      · exact absurd hk List.not_mem_nil
    · exact (h.passes hboard).sliceTrace _ k hk
  · have hend (n : Machine) : n.lineEnd.situation = n.situation ∧ n.lineEnd.cpu = n.cpu := by
      unfold Machine.lineEnd Ppu.finishScanline
      split <;> exact ⟨rfl, rfl⟩
    rw [runLine_eq]
    change Passes m ((m.lineStart draw).lineBlank.lineBoard vblank).lineSlice at hslice
    generalize ((m.lineStart draw).lineBlank.lineBoard vblank).lineSlice = n at hslice ⊢
    obtain ⟨hsituation, hcpu⟩ := hend n
    have hsame := hsituation.trans hslice.situation
    refine ⟨hsame, h.of_situation hsame ?_, congrArg (· + 1) hslice.scanline⟩
    rw [hcpu]
    exact hslice.owed

theorem Waits.runLines (h : Waits m) (draw vblank : Bool) (count : Nat) :
    (∀ k ∈ m.linesTrace draw vblank count, Waits k) ∧
      (m.runLines draw vblank count).situation = m.situation ∧ Waits (m.runLines draw vblank count) := by
  induction count generalizing m vblank with
  | zero => exact ⟨fun k hk => absurd hk List.not_mem_nil, rfl, h⟩
  | succ count ih =>
    obtain ⟨hfirst, hsame, hline, -⟩ := h.runLine draw (vblank || m.scanline = vblankLine)
    obtain ⟨hrest, hlater, hend⟩ := ih hline (vblank || m.scanline = vblankLine)
    exact ⟨List.forall_mem_append.mpr ⟨hfirst, hrest⟩, hlater.trans hsame, hend⟩

/-- Lines among which vertical blank begins have an instruction. -/
theorem Waits.linesTrace_ne_nil (h : Waits m) (draw vblank : Bool) {count : Nat}
    (hbefore : m.scanline ≤ vblankLine) (hafter : vblankLine < m.scanline + count) :
    m.linesTrace draw vblank count ≠ [] := by
  induction count generalizing m vblank with
  | zero => omega
  | succ count ih =>
    rw [linesTrace]
    by_cases hblank : m.scanline = vblankLine
    · have hstart := h.lineStart draw
      rw [lineTrace, if_pos (hstart.scanline.trans hblank), List.append_assoc]
      exact List.append_ne_nil_of_left_ne_nil (h.passes hstart).sliceTrace_blank _
    · obtain ⟨-, -, hline, hscanline⟩ := h.runLine draw (vblank || m.scanline = vblankLine)
      exact List.append_ne_nil_of_right_ne_nil _ (ih hline _ (by omega) (by omega))

/-- A frame that is not held up ends at the first line of the next. -/
theorem Waits.runFrame (h : Waits m) (hgoes : m.paused = false) (draw : Bool) :
    Waits (m.runFrame draw) ∧ (m.runFrame draw).scanline = 0 ∧ (m.runFrame draw).paused = false ∧
      (m.runFrame draw).ppu.mask = m.ppu.mask := by
  obtain ⟨kind, hboard⟩ := h.still
  have hruns : ¬ (!m.hasCartridge || m.paused) = true := by
    rw [hasCartridge, hboard, hgoes]
    exact Bool.false_ne_true
  obtain ⟨-, hsame, hend⟩ := h.runLines draw false (linesPerFrame - m.scanline).toNat
  rw [Machine.runFrame, if_neg hruns]
  exact ⟨hend.of_situation rfl (Int.le_refl _), rfl, (congrArg (·.paused) hsame).trans hgoes,
    congrArg (·.mask) hsame⟩

/-- A frame from its first line on: a waiting program waits through all of it, and it does run. -/
theorem Waits.frameTrace (h : Waits m) (hline : m.scanline = 0) (draw : Bool) :
    (∀ k ∈ m.frameTrace draw, Waits k) ∧ m.frameTrace draw ≠ [] := by
  rw [Machine.frameTrace, hline]
  exact ⟨(h.runLines draw false _).1, h.linesTrace_ne_nil draw false (by rw [hline]; decide)
    (by rw [hline]; decide)⟩

end

/-- A console with an empty cartridge, and a jump to itself at the start of RAM. -/
def waiting : Machine := ((default : Machine).insert (.blank 0)).2.write 0 0x4C

theorem waiting_eq : waiting = let k := ((default : Machine).insert (.blank 0)).2
    { k with cpu.ram := k.cpu.ram.write (0 : UInt16).toNat 0x4C } := by
  have hwrite (k : Machine) : k.write 0 0x4C = { k with cpu.ram := k.cpu.ram.write (0 : UInt16).toNat 0x4C } :=
    if_pos (by decide)
  exact hwrite _

theorem waits_waiting : Waits waiting := by
  have hplugged : waiting.board = some (.latch .nrom) := by
    have hnumber : Board.ofNumber? (Cartridge.blank 0).mapper = some (.latch .nrom) := rfl
    rw [waiting_eq]
    simp only [insert, hnumber, reset]
    rfl
  have hpc : waiting.cpu.pc = 0 := by
    rw [waiting_eq]
    decide +kernel
  have hjump : waiting.cpu.peek waiting.cart 0 = 0x4C ∧ waiting.cpu.peekWord waiting.cart 1 = 0 := by
    rw [waiting_eq]
    decide +kernel
  have hshut : waiting.cpu.flag .interrupt = true ∧ waiting.cpu.jammed = false ∧
      waiting.ppu.nmiEnabled = false ∧ waiting.cpu.owed < nmiDelay := by
    rw [waiting_eq]
    decide +kernel
  refine ⟨?_, ?_, hshut.1, hshut.2.1, hshut.2.2.1, hshut.2.2.2, .nrom, hplugged⟩
  · rw [nextInstruction, hpc, hjump.1]
    decide +kernel
  · rw [hpc]
    exact hjump.2

theorem waiting_shows : waiting.paused = false ∧ waiting.ppu.mask = 0x18 := by
  rw [waiting_eq]
  decide +kernel

end Famicom.Machine
