import Famicom.Machine.Power
import Famicom.Proofs.FrameSkip
import Famicom.Proofs.SoundOutline

/-!
Consoles that differ in their sound units and their frame timers only, and in what nobody reads: the log and the
number of frames. As long as the status of the units is the same where a program reads it, and the timers go off
alike, the same happens on both consoles.

    m ── access, instruction, line, frame, reset ──▶ m'
    ┆ beside                                         ┆ beside
    n ─────────────────── the same ────────────────▶ n'

What a program reads of the status is written down on the way (`Machine.statusReads`), so that two runs can be told
to have heard the same (`Machine.Goes`).
-/

namespace Famicom

/-! ### The frame timer -/

namespace FrameTimer

/-- Timers that run out at the same time, and then both ask for an interrupt or both do not. -/
structure Like (t t' : FrameTimer) : Prop where
  left : t'.left = t.left
  raised : t'.raised = t.raised
  masked : t'.masked = t.masked

variable {t t' : FrameTimer}

theorem Like.refl (t : FrameTimer) : Like t t := ⟨rfl, rfl, rfl⟩

theorem Like.read (h : Like t t') : t'.read.1 = t.read.1 ∧ Like t.read.2 t'.read.2 := by
  refine ⟨?_, h.left, rfl, h.masked⟩
  unfold FrameTimer.read
  rw [h.raised]

theorem Like.write (h : Like t t') (value : UInt8) : Like (t.write value) (t'.write value) :=
  ⟨rfl, h.raised, rfl⟩

theorem Like.elapse (h : Like t t') (cycles : Int) :
    (t'.elapse cycles).1 = (t.elapse cycles).1 ∧ Like (t.elapse cycles).2 (t'.elapse cycles).2 := by
  unfold FrameTimer.elapse
  simp only [h.left, h.masked]
  split_ifs
  · exact ⟨rfl, rfl, h.raised, h.masked⟩
  · exact ⟨rfl, rfl, h.raised, h.masked⟩
  · exact ⟨rfl, rfl, rfl, h.masked⟩

end FrameTimer

namespace Machine

/-! ### The stages of a reset -/

/-- The console with cleared RAM, and with pattern RAM filled by a generator of bytes. -/
def filled (m : Machine) (bytes : Xorshift → Nat → List UInt8 × Xorshift) : Machine :=
  { m with
    cpu.ram := Memory.zero 0x800
    cart.vram := some (Memory.ofList 0x2000 (bytes m.prng 0x2000).1)
    prng := (bytes m.prng 0x2000).2 }

/-- The memories are wiped, if the reset is a hard one. -/
def wiped (m : Machine) (kind : Reset) : Machine := if kind = .hard then m.scramble else m

/-- The units start over, and the windows are put into their first position. -/
def restarted (m : Machine) (kind : Reset) : Machine :=
  let (ppu, prng) := m.ppu.reset (kind = .hard) m.prng
  { m with sound := m.sound.reset, ppu, prng }.resetPages

/-- The board starts over. -/
def boardInit (m : Machine) : Machine := m.withBoard (·.init m.view)

/-- The processor and the clockwork start over. -/
def timed (m : Machine) : Machine :=
  { m with
    cpu := m.cpu.reset m.cart
    scanline := 241
    lineCycles := 0
    timer := { m.timer with left := FrameTimer.period, raised := false } }

theorem reset_eq {m : Machine} (h : m.hasCartridge = true) (kind : Reset) : m.reset kind =
    ((m.wiped kind).restarted kind).boardInit.timed.note
      (if kind = .hard then "NES powered on" else "NES reset") := by
  simp only [reset, h, Bool.not_true, Bool.false_eq_true, if_false, wiped, restarted, boardInit, timed]

theorem scramble_rom {m : Machine} (h : m.cart.vram.isNone = true) :
    m.scramble = { m with cpu.ram := Memory.zero 0x800 } := if_pos h

theorem scramble_ram {m : Machine} (h : ¬ m.cart.vram.isNone = true) : m.scramble = m.filled Xorshift.bytes :=
  if_neg h

/-- The same console around another sound unit and another frame timer, with another log and another number of
frames. -/
inductive Beside (S : Sound → Sound → Prop) (m : Machine) : Machine → Prop
  | intro {sound : Sound} {timer : FrameTimer} (log : EventLog) (frames : Nat) (like : m.timer.Like timer)
    (related : S m.sound sound) : Beside S m { m with sound, timer, log, frames }

namespace Beside

variable {S : Sound → Sound → Prop} {m n : Machine}

theorem related (h : Beside S m n) : S m.sound n.sound := by
  cases h with
  | intro log frames ht hs => exact hs

theorem timer (h : Beside S m n) : m.timer.Like n.timer := by
  cases h with
  | intro log frames ht hs => exact ht

theorem cpu (h : Beside S m n) : n.cpu = m.cpu := by
  cases h
  rfl

theorem cart (h : Beside S m n) : n.cart = m.cart := by
  cases h
  rfl

theorem ppu (h : Beside S m n) : n.ppu = m.ppu := by
  cases h
  rfl

theorem board (h : Beside S m n) : n.board = m.board := by
  cases h
  rfl

theorem hasCartridge (h : Beside S m n) : n.hasCartridge = m.hasCartridge := by
  cases h
  rfl

theorem scanline (h : Beside S m n) : n.scanline = m.scanline := by
  cases h
  rfl

theorem lineCycles (h : Beside S m n) : n.lineCycles = m.lineCycles := by
  cases h
  rfl

theorem view (h : Beside S m n) : n.view = m.view := by
  cases h
  rfl

theorem mapCpu (h : Beside S m n) (f : Cpu → Cpu) : Beside S (m.mapCpu f) (n.mapCpu f) := by
  cases h with
  | intro log frames ht hs => exact .intro (m := m.mapCpu f) log frames ht hs

theorem withSound {T : Sound → Sound → Prop} {s s' : Sound} (h : Beside S m n) (hs : T s s') :
    Beside T { m with sound := s } { n with sound := s' } := by
  cases h with
  | intro log frames ht _ => exact .intro (m := { m with sound := s }) log frames ht hs

theorem note (h : Beside S m n) (message : String) : Beside S (m.note message) (n.note message) := by
  cases h with
  | intro log frames ht hs => exact .intro (m := m.note message) _ frames ht hs

theorem drainNotes (h : Beside S m n) : Beside S m.drainNotes n.drainNotes := by
  cases h with
  | intro log frames ht hs =>
    unfold Machine.drainNotes
    split
    · exact .intro log frames ht hs
    · exact .intro (m := { m with log := _, ppu := { m.ppu with notes := [] } }) _ frames ht hs

/-! ### The board -/

theorem obey (h : Beside S m n) (s : Signal) : Beside S (m.obey s) (n.obey s) := by
  cases h with
  | intro log frames ht hs =>
    cases s with
    | prg => exact .intro (m := { m with cpu.pages := _ }) log frames ht hs
    | chr => exact .intro (m := { m with ppu.pages := _ }) log frames ht hs
    | mirror => exact .intro (m := { m with ppu.pages := _ }) log frames ht hs
    | nametable => exact .intro (m := { m with ppu.pages := _ }) log frames ht hs
    | irq => exact .intro (m := { m with cpu := _ }) log frames ht hs
    | log message => exact .intro (m := m.note message) _ frames ht hs

theorem obeyAll (h : Beside S m n) (signals : List Signal) :
    Beside S (m.obeyAll signals) (n.obeyAll signals) := by
  unfold Machine.obeyAll
  induction signals generalizing m n with
  | nil => exact h
  | cons s signals ih => exact ih (h.obey s)

theorem withBoard (h : Beside S m n) (act : Board → Board × List Signal) :
    Beside S (m.withBoard act) (n.withBoard act) := by
  unfold Machine.withBoard
  rw [h.board]
  split
  · exact h
  case h_2 b _ =>
    have hnext : Beside S { m with board := some (act b).1 } { n with board := some (act b).1 } := by
      cases h with
      | intro log frames ht hs => exact .intro (m := { m with board := _ }) log frames ht hs
    exact hnext.obeyAll _

/-! ### The bus -/

/-- Chips that may differ answer the same addresses with the same bytes. -/
theorem readCartridge (hS : Sound.Covert S) (h : Beside S m n) (address : UInt16) :
    n.readCartridge address = m.readCartridge address := by
  have hchip := hS.chip_cases h.related
  unfold Machine.readCartridge
  rw [h.board, h.cpu, h.cart]
  rcases hchip with ⟨he, he'⟩ | ⟨e, e', he, he', houtline⟩
  · rw [he, he']
  · have hranges : e'.readRanges = e.readRanges := by
      rw [← e'.readRanges_outline, houtline, e.readRanges_outline]
    have hread : e'.read address = e.read address := by
      rw [← e'.read_outline, houtline, e.read_outline]
    rw [he, he']
    simp only [Option.filter_some, hranges]
    by_cases hanswers : covered e.readRanges address = true
    · simp only [hanswers, if_true, hread]
    · simp only [hanswers, if_false, Bool.false_eq_true]

/-- A read returns the same, unless it shows the status. -/
theorem read (hS : Sound.Covert S) (h : Beside S m n) (address : UInt16) :
    (address ≠ 0x4015 → (n.read address).1 = (m.read address).1) ∧
      Beside S (m.read address).2 (n.read address).2 := by
  have hcartridge := h.readCartridge hS address
  unfold Machine.read
  rw [hcartridge]
  generalize m.readCartridge address = byte
  split_ifs with hram hrom hpicture hsound hstatus
  · exact ⟨fun _ => by rw [h.cpu], h⟩
  · exact ⟨fun _ => by rw [h.cpu, h.cart], h⟩
  · cases h with
    | intro log frames ht hs =>
      refine ⟨fun _ => rfl, drainNotes ?_⟩
      exact .intro (m := { m with ppu := _ }) log frames ht hs
  · exact ⟨fun hother => by simp only [Sound.read, if_neg hother], h⟩
  · refine ⟨fun hother => absurd hstatus hother, ?_⟩
    cases h with
    | intro log frames ht hs => exact .intro (m := { m with timer := _ }) log frames ht.read.2 hs
  · cases h with
    | intro log frames ht hs => exact ⟨fun _ => rfl, .intro (m := { m with pads := _ }) log frames ht hs⟩
  · cases h with
    | intro log frames ht hs => exact ⟨fun _ => rfl, .intro (m := { m with pads := _ }) log frames ht hs⟩
  · exact ⟨fun _ => rfl, h⟩

/-- The status with the flag of the frame timer. -/
theorem read_status (m : Machine) : (m.read 0x4015).1 = m.sound.status ||| m.timer.read.1 := rfl

/-- Units that show the same status are read alike. -/
theorem read_candid (hcandid : Sound.Candid S) (h : Beside S m n) : (n.read 0x4015).1 = (m.read 0x4015).1 := by
  rw [read_status, read_status, hcandid h.related, h.timer.read.1]

/-- A read returns the same, if the status does where it is read. -/
theorem read_value (hS : Sound.Covert S) (h : Beside S m n) {address : UInt16}
    (hbyte : address = 0x4015 → (n.read 0x4015).1 = (m.read 0x4015).1) :
    (n.read address).1 = (m.read address).1 := by
  by_cases hstatus : address = 0x4015
  · rw [hstatus]
    exact hbyte hstatus
  · exact (h.read hS address).1 hstatus

theorem boardWrite (h : Beside S m n) (address : UInt16) (value : UInt8) :
    Beside S (m.boardWrite address value) (n.boardWrite address value) := by
  unfold Machine.boardWrite
  rw [h.view]
  exact h.withBoard _

theorem poke (h : Beside S m n) (address : UInt16) (value : UInt8) :
    Beside S (m.poke address value) (n.poke address value) := by
  cases h with
  | intro log frames ht hs =>
    simp only [Machine.poke]
    split
    · exact .intro (m := { m with cpu := _ }) log frames ht hs
    · exact .intro (m := { m with cart := _ }) log frames ht hs

theorem writeCartridge (hS : Sound.Covert S) (h : Beside S m n) (address : UInt16) (value : UInt8) :
    Beside S (m.writeCartridge address value) (n.writeCartridge address value) := by
  have hlistens : n.board.filter (fun b => covered b.writeRanges address) =
      m.board.filter fun b => covered b.writeRanges address := by rw [h.board]
  have hwrite := h.boardWrite address value
  have hpoke := h.poke address value
  unfold Machine.writeCartridge
  rw [hlistens]
  generalize m.board.filter (fun b => covered b.writeRanges address) = listening
  rcases hS.chip_cases h.related with ⟨he, he'⟩ | ⟨e, e', he, he', houtline⟩
  · rw [he, he', Option.filter_none]
    cases listening with
    | some b => exact hwrite
    | none =>
      simp only
      split
      · exact h
      · exact hpoke
  · have hranges : e'.writeRanges = e.writeRanges := by
      rw [← e'.writeRanges_outline, houtline, e.writeRanges_outline]
    rw [he, he']
    simp only [Option.filter_some, hranges]
    by_cases htakes : covered e.writeRanges address = true
    · simp only [htakes, if_true]
      refine h.withSound (hS.chip ?_ h.related)
      rw [← e'.outline_write, houtline, e.outline_write]
    · simp only [htakes, if_false, Bool.false_eq_true]
      cases listening with
      | some b => exact hwrite
      | none =>
        simp only
        split
        · exact h
        · exact hpoke

theorem write (hS : Sound.Covert S) (h : Beside S m n) (address : UInt16) (value : UInt8) :
    Beside S (m.write address value) (n.write address value) := by
  have hcartridge := h.writeCartridge hS address value
  have hstrobe := h.withBoard fun board => (board, board.strobe value)
  have hsound := hS.write address value h.related
  unfold Machine.write
  split_ifs
  · exact h.mapCpu fun c => { c with ram := c.ram.write address.toNat value }
  · cases h with
    | intro log frames ht hs => exact drainNotes (.intro (m := { m with ppu := _, cart := _ }) log frames ht hs)
  · cases h with
    | intro log frames ht hs => exact .intro (m := m.transferSprites value) log frames ht hs
  · exact h.withSound hsound
  · unfold Machine.writeStrobe
    generalize m.withBoard (fun board => (board, board.strobe value)) = k at hstrobe ⊢
    generalize n.withBoard (fun board => (board, board.strobe value)) = k' at hstrobe ⊢
    cases hstrobe with
    | intro log frames ht hs => exact .intro (m := { k with pads := _ }) log frames ht hs
  · cases h with
    | intro log frames ht hs => exact .intro (m := { m with timer := _ }) log frames (ht.write value) hs
  · exact hcartridge

/-! ### Programs -/

theorem branch (h : Beside S m n) (flag : Flag) (value : Bool) :
    (n.perform (.branch flag value)).1 = (m.perform (.branch flag value)).1 ∧
      Beside S (m.perform (.branch flag value)).2 (n.perform (.branch flag value)).2 := by
  have heq (k : Machine) (s : Int × Cpu)
      (hs : (k.cpu.advance 1).branch (k.cpu.peek k.cart k.cpu.pc) (k.cpu.flag flag == value) = s) :
      k.perform (.branch flag value) = (s.1, k.mapCpu fun _ => s.2) := by
    rw [← hs]
    rfl
  rw [heq m _ rfl, heq n _ rfl, h.cpu, h.cart]
  exact ⟨rfl, h.mapCpu fun _ => _⟩

section
variable (hS : Sound.Covert S)
include hS

theorem load (h : Beside S m n) (op : Load) (mode : Mode)
    (hbyte : (Instruction.load op mode).source m.cpu m.cart = some 0x4015 →
      (n.read 0x4015).1 = (m.read 0x4015).1) :
    (n.load op mode).1 = (m.load op mode).1 ∧ Beside S (m.load op mode).2 (n.load op mode).2 := by
  have hfetched := h.mapCpu (·.advance mode.size)
  have hshown (k : Machine) : ((k.mapCpu (·.advance mode.size)).read 0x4015).1 = (k.read 0x4015).1 := rfl
  rw [← hshown n, ← hshown m] at hbyte
  unfold Machine.load
  simp only [h.cpu, h.cart]
  generalize m.mapCpu (·.advance mode.size) = k at hfetched hbyte ⊢
  generalize n.mapCpu (·.advance mode.size) = k' at hfetched hbyte ⊢
  split
  · rw [hfetched.cpu, hfetched.cart]
    exact ⟨rfl, hfetched.mapCpu (op.apply · _)⟩
  case isFalse hmemory =>
    have hread := (hfetched.read hS (m.cpu.effective m.cart mode)).2
    rw [hfetched.read_value hS fun heq => hbyte (by rw [Instruction.source, if_neg hmemory, heq])]
    exact ⟨rfl, hread.mapCpu (op.apply · _)⟩

omit hS in
theorem store (hS : Sound.Covert S) (h : Beside S m n) (op : Store) (mode : Mode) :
    (n.store op mode).1 = (m.store op mode).1 ∧ Beside S (m.store op mode).2 (n.store op mode).2 := by
  have heq (k : Machine) (s : UInt8 × Cpu)
      (hs : op.value (k.cpu.advance mode.size) (k.cpu.effective k.cart mode) = s) : k.store op mode =
        (mode.storeCost, (k.mapCpu fun _ => s.2).write (k.cpu.effective k.cart mode) s.1) := by
    rw [← hs]
    rfl
  rw [heq m _ rfl, heq n _ rfl, h.cpu, h.cart]
  exact ⟨rfl, (h.mapCpu fun _ => _).write hS _ _⟩

theorem modify (h : Beside S m n) (op : Modify) (mode : Mode)
    (hbyte : (Instruction.modify op mode).source m.cpu m.cart = some 0x4015 →
      (n.read 0x4015).1 = (m.read 0x4015).1) :
    (n.modify op mode).1 = (m.modify op mode).1 ∧ Beside S (m.modify op mode).2 (n.modify op mode).2 := by
  have heq (k : Machine) (r : UInt8 × Machine)
      (hr : (k.mapCpu (·.advance mode.size)).read (k.cpu.effective k.cart mode) = r) : k.modify op mode =
        (mode.modifyCost, (r.2.mapCpu fun _ => (op.apply r.2.cpu r.1).2).write (k.cpu.effective k.cart mode)
          (op.apply r.2.cpu r.1).1) := by
    rw [← hr]
    rfl
  have hfetched := h.mapCpu (·.advance mode.size)
  have hread := (hfetched.read hS (m.cpu.effective m.cart mode)).2
  have hvalue : ((n.mapCpu (·.advance mode.size)).read (m.cpu.effective m.cart mode)).1 =
      ((m.mapCpu (·.advance mode.size)).read (m.cpu.effective m.cart mode)).1 :=
    hfetched.read_value hS fun haddress => hbyte (congrArg some haddress)
  rw [heq m _ rfl, heq n _ rfl, h.cpu, h.cart, hvalue, hread.cpu]
  exact ⟨rfl, (hread.mapCpu fun _ => _).write hS _ _⟩

/-- An instruction takes the same time, and does the same. -/
theorem perform (h : Beside S m n) (i : Instruction)
    (hbyte : i.source m.cpu m.cart = some 0x4015 → (n.read 0x4015).1 = (m.read 0x4015).1) :
    (n.perform i).1 = (m.perform i).1 ∧ Beside S (m.perform i).2 (n.perform i).2 := by
  cases i with
  | load op mode => exact h.load hS op mode hbyte
  | store op mode => exact h.store hS op mode
  | modify op mode => exact h.modify hS op mode hbyte
  | accumulator op => exact ⟨rfl, h.mapCpu (modifyAccumulator op)⟩
  | implied op => exact ⟨rfl, h.mapCpu op.apply⟩
  | branch flag value => exact h.branch flag value
  | brk =>
    simp only [Machine.perform, h.cart]
    exact ⟨trivial, h.mapCpu (·.brk m.cart)⟩
  | jsr =>
    simp only [Machine.perform, h.cart]
    exact ⟨trivial, h.mapCpu (·.jsr m.cart)⟩
  | jmp =>
    simp only [Machine.perform, h.cart]
    exact ⟨trivial, h.mapCpu fun c => { c with pc := c.peekWord m.cart c.pc }⟩
  | jmpIndirect =>
    simp only [Machine.perform, h.cart]
    exact ⟨trivial, h.mapCpu fun c => { c with pc := c.indirectTarget m.cart }⟩
  | rti => exact ⟨rfl, h.mapCpu (·.rti)⟩
  | rts => exact ⟨rfl, h.mapCpu (·.rts)⟩
  | skip operands cost => exact ⟨rfl, h.mapCpu (·.advance operands)⟩
  | jam => exact ⟨rfl, h⟩

end

end Beside

/-! ### What programs hear -/

/-- The next instruction reads the status. -/
def readsSound (m : Machine) : Bool := m.nextInstruction.source (m.cpu.advance 1) m.cart == some 0x4015

/-- What the next instruction reads of the status, if it does. -/
def probe (m : Machine) : Option UInt8 := if m.readsSound then some (m.read 0x4015).1 else none

/-- What the instructions that begin at these machines read of the status. -/
def statusReads (ms : List Machine) : List UInt8 := ms.filterMap probe

/-- The machines at which the instructions of a frame begin, if there is anything to run. -/
def playedTrace (m : Machine) (draw : Bool) : List Machine :=
  if !m.hasCartridge || m.paused then [] else m.frameTrace draw

theorem statusReads_append (ms ms' : List Machine) :
    statusReads (ms ++ ms') = statusReads ms ++ statusReads ms' :=
  List.filterMap_append

/-- Two runs that heard these bytes of the status. As long as the bytes are the same, so is everything else. -/
structure Goes (S : Sound → Sound → Prop) (bytes bytes' : List UInt8) (m n : Machine) : Prop where
  candid : Sound.Candid S → bytes' = bytes
  quiet : bytes = [] → bytes' = []
  /-- Whatever was heard afterwards: the bytes of the two runs are told apart from it. -/
  on : ∀ {later later'}, bytes' ++ later' = bytes ++ later → later' = later ∧ Beside S m n

section
variable {S : Sound → Sound → Prop} {bytes bytes' more more' : List UInt8} {m n k k' : Machine}

namespace Goes

theorem silent (h : Beside S m n) : Goes S [] [] m n := ⟨fun _ => rfl, fun _ => rfl, fun heq => ⟨heq, h⟩⟩

theorem beside (h : Goes S bytes bytes' m n) (hsame : bytes' = bytes) : Beside S m n :=
  (h.on (congrArg (· ++ []) hsame)).2

theorem append (h : Goes S bytes bytes' m n) (hnext : Beside S m n → Goes S more more' k k') :
    Goes S (bytes ++ more) (bytes' ++ more') k k' := by
  refine ⟨fun hcandid => ?_, fun hnone => ?_, fun {later later'} heq => ?_⟩
  · have hsame := h.candid hcandid
    rw [hsame, (hnext (h.beside hsame)).candid hcandid]
  · obtain ⟨hfirst, hrest⟩ := List.append_eq_nil_iff.mp hnone
    have hquiet := h.quiet hfirst
    rw [hquiet, (hnext (h.beside (hquiet.trans hfirst.symm))).quiet hrest, List.append_nil]
  · rw [List.append_assoc, List.append_assoc] at heq
    obtain ⟨hrest, hbeside⟩ := h.on heq
    exact (hnext hbeside).on hrest

theorem map (h : Goes S bytes bytes' m n) (hnext : Beside S m n → Beside S k k') : Goes S bytes bytes' k k' :=
  ⟨h.candid, h.quiet, fun heq => ⟨(h.on heq).1, hnext (h.on heq).2⟩⟩

end Goes

namespace Beside

theorem readsSound (h : Beside S m n) : n.readsSound = m.readsSound := by
  simp only [Machine.readsSound, nextInstruction, h.cpu, h.cart]

/-- A byte of the status, read on both consoles. -/
theorem reads (h : Beside S m n) (hnext : (n.read 0x4015).1 = (m.read 0x4015).1 → Beside S k k') :
    Goes S [(m.read 0x4015).1] [(n.read 0x4015).1] k k' := by
  refine ⟨fun hcandid => by rw [h.read_candid hcandid], fun hnone => absurd hnone (List.cons_ne_nil _ _),
    fun heq => ?_⟩
  obtain ⟨hbyte, hlater⟩ := List.cons.inj heq
  exact ⟨hlater, hnext hbyte⟩

variable (hS : Sound.Covert S)
include hS

/-- An instruction, with what it reads of the status. -/
theorem step (h : Beside S m n) : Goes S (statusReads [m]) (statusReads [n]) m.step n.step := by
  have hnext : ((m.readsSound = true → (n.read 0x4015).1 = (m.read 0x4015).1)) → Beside S m.step n.step := by
    intro hbyte
    unfold Machine.step
    rw [h.cpu, h.cart]
    simp only
    split
    · unfold jam
      exact (h.mapCpu _).note _
    · obtain ⟨hcost, hperformed⟩ := (h.mapCpu (·.advance 1)).perform hS
        (Instruction.decode (m.cpu.peek m.cart m.cpu.pc)) fun hsource => hbyte (beq_iff_eq.mpr hsource)
      rw [hcost]
      generalize (m.mapCpu (·.advance 1)).perform _ = r at hperformed ⊢
      generalize ((n.mapCpu (·.advance 1)).perform _).2 = k' at hperformed ⊢
      have hspent := hperformed.mapCpu (·.spend r.1)
      split
      · rw [hspent.cart]
        exact hspent.mapCpu _
      · exact hspent
  by_cases hreads : m.readsSound = true
  · have hheard (k : Machine) (hk : k.readsSound = true) : statusReads [k] = [(k.read 0x4015).1] := by
      simp only [statusReads, List.filterMap_cons, List.filterMap_nil, probe, hk, if_true]
    rw [hheard m hreads, hheard n (h.readsSound.trans hreads)]
    exact h.reads fun hbyte => hnext fun _ => hbyte
  · have hheard (k : Machine) (hk : ¬ k.readsSound = true) : statusReads [k] = [] := by
      simp only [statusReads, List.filterMap_cons, List.filterMap_nil, probe, if_neg hk]
    rw [hheard m hreads, hheard n fun hn => hreads (h.readsSound.symm.trans hn)]
    exact .silent (hnext fun hk => absurd hk hreads)

theorem run (h : Beside S m n) (fuel : Nat) :
    Goes S (statusReads (trace fuel m)) (statusReads (trace fuel n)) (Machine.run fuel m)
      (Machine.run fuel n) := by
  induction fuel generalizing m n with
  | zero => exact .silent h
  | succ fuel ih =>
    by_cases hleft : 0 < m.cpu.budget
    · have hleft' : 0 < n.cpu.budget := by rwa [h.cpu]
      rw [trace_succ _ hleft, trace_succ _ hleft', run_succ _ hleft, run_succ _ hleft', ← List.singleton_append,
        ← List.singleton_append (l := trace fuel n.step), statusReads_append, statusReads_append]
      exact (h.step hS).append ih
    · have hused : m.cpu.budget ≤ 0 := Int.not_lt.mp hleft
      have hused' : n.cpu.budget ≤ 0 := by rwa [h.cpu]
      rw [trace_idle _ hused, trace_idle _ hused', run_idle _ hused, run_idle _ hused']
      exact .silent h

/-- A slice of any program. -/
theorem execute (h : Beside S m n) (slice : Int) :
    Goes S (statusReads (m.sliceTrace slice)) (statusReads (n.sliceTrace slice)) (m.execute slice).2
      (n.execute slice).2 := by
  have hbegun : Beside S (m.beginSlice slice) (n.beginSlice slice) := by
    unfold beginSlice
    rw [h.cart]
    exact h.mapCpu _
  have hrun := hbegun.run hS (m.beginSlice slice).cpu.budget.toNat
  unfold sliceTrace
  rw [execute_eq, execute_eq, hbegun.cpu]
  exact hrun

/-! ### Frames -/

omit hS in
theorem elapseTimer (h : Beside S m n) (cycles : Int) :
    Beside S (m.elapseTimer cycles) (n.elapseTimer cycles) := by
  cases h with
  | intro log frames ht hs =>
    obtain ⟨hasks, helapsed⟩ := ht.elapse cycles
    simp only [Machine.elapseTimer, hasks]
    split
    · exact .intro (m := { m with timer := _, cpu := m.cpu.irq m.cart }) log frames helapsed hs
    · exact .intro (m := { m with timer := _ }) log frames helapsed hs

theorem runSlice (h : Beside S m n) (slice : Int) :
    Goes S (statusReads (m.sliceTrace slice)) (statusReads (n.sliceTrace slice)) (m.runSlice slice)
      (n.runSlice slice) := by
  refine (h.execute hS slice).map fun hexecuted => ?_
  have helapsed : (n.execute slice).1 = (m.execute slice).1 := by
    rw [execute_elapsed, execute_elapsed, hexecuted.cpu, h.cpu]
  unfold Machine.runSlice
  simp only [helapsed]
  refine elapseTimer ?_ _
  generalize (n.execute slice).2 = k' at hexecuted ⊢
  cases hexecuted with
  | intro log frames ht hs => exact .intro (m := { (m.execute slice).2 with lineCycles := _ }) log frames ht hs

theorem beginVblank (h : Beside S m n) :
    Goes S (statusReads (m.sliceTrace nmiDelay)) (statusReads (n.sliceTrace nmiDelay)) m.beginVblank
      n.beginVblank := by
  refine (h.runSlice hS nmiDelay).map fun hslice => ?_
  unfold Machine.beginVblank
  generalize m.runSlice nmiDelay = k at hslice ⊢
  generalize n.runSlice nmiDelay = k' at hslice ⊢
  cases hslice with
  | intro log frames ht hs =>
    simp only
    split
    · exact .intro (m := { k with cpu := k.cpu.nmi k.cart }) log frames ht hs
    · exact .intro log frames ht hs

theorem lineBlank (h : Beside S m n) :
    Goes S (statusReads (if m.scanline = vblankLine then m.sliceTrace nmiDelay else []))
      (statusReads (if n.scanline = vblankLine then n.sliceTrace nmiDelay else [])) m.lineBlank n.lineBlank := by
  unfold Machine.lineBlank
  rw [h.scanline]
  split
  · exact h.beginVblank hS
  · exact .silent h

omit hS in
theorem lineStart (h : Beside S m n) (draw : Bool) : Beside S (m.lineStart draw) (n.lineStart draw) := by
  unfold Machine.lineStart
  cases h with
  | intro log frames ht hs => exact drainNotes (.intro (m := { m with ppu := _, board := _ }) log frames ht hs)

omit hS in
theorem lineBoard (h : Beside S m n) (vblank : Bool) : Beside S (m.lineBoard vblank) (n.lineBoard vblank) := by
  have hboard := h.withBoard (·.hblank m.view vblank)
  unfold Machine.lineBoard boardHblank
  rw [h.view]
  generalize m.withBoard _ = k at hboard ⊢
  generalize n.withBoard _ = k' at hboard ⊢
  cases hboard with
  | intro log frames ht hs => exact .intro (m := { k with lineCycles := _ }) log frames ht hs

theorem lineSlice (h : Beside S m n) :
    Goes S (statusReads (m.sliceTrace (wholeCycles m.lineCycles)))
      (statusReads (n.sliceTrace (wholeCycles n.lineCycles))) m.lineSlice n.lineSlice := by
  unfold Machine.lineSlice
  rw [h.lineCycles]
  exact h.runSlice hS _

omit hS in
theorem lineEnd (h : Beside S m n) : Beside S m.lineEnd n.lineEnd := by
  cases h with
  | intro log frames ht hs => exact .intro (m := m.lineEnd) log frames ht hs

theorem runLine (h : Beside S m n) (draw vblank : Bool) :
    Goes S (statusReads (m.lineTrace draw vblank)) (statusReads (n.lineTrace draw vblank)) (m.runLine draw vblank)
      (n.runLine draw vblank) := by
  rw [runLine_eq, runLine_eq, lineTrace, lineTrace, statusReads_append, statusReads_append]
  exact ((h.lineStart draw).lineBlank hS).append fun hblank =>
    ((hblank.lineBoard vblank).lineSlice hS).map lineEnd

theorem runLines (h : Beside S m n) (draw vblank : Bool) (count : Nat) :
    Goes S (statusReads (m.linesTrace draw vblank count)) (statusReads (n.linesTrace draw vblank count))
      (m.runLines draw vblank count) (n.runLines draw vblank count) := by
  induction count generalizing m n vblank with
  | zero => exact .silent h
  | succ count ih =>
    unfold Machine.runLines linesTrace
    rw [h.scanline, statusReads_append, statusReads_append]
    exact (h.runLine hS draw _).append fun hline => ih hline _

/-- A frame of any program. -/
theorem runFrame (h : Beside S m n) (draw : Bool) :
    Goes S (statusReads (m.playedTrace draw)) (statusReads (n.playedTrace draw)) (m.runFrame draw)
      (n.runFrame draw) := by
  have hstopped : (!n.hasCartridge || n.paused) = (!m.hasCartridge || m.paused) := by
    cases h
    rfl
  have hlines := h.runLines hS draw false (linesPerFrame - m.scanline).toNat
  unfold Machine.runFrame playedTrace frameTrace
  rw [hstopped, h.scanline]
  split
  · exact .silent h
  · refine hlines.map fun hend => ?_
    simp only
    generalize m.runLines draw false _ = k at hend ⊢
    generalize n.runLines draw false _ = k' at hend ⊢
    cases hend with
    | intro log frames ht hs => exact .intro (m := { k with scanline := 0, frames := _ }) log _ ht hs

end Beside

end

namespace Beside

variable {S : Sound → Sound → Prop} {m n : Machine}

/-! ### Resets -/

theorem scramble (h : Beside S m n) : Beside S m.scramble n.scramble := by
  cases h with
  | @intro sound timer log frames ht hs =>
    by_cases hk : m.cart.vram.isNone = true
    · rw [scramble_rom hk, @scramble_rom { m with sound, timer, log, frames } hk]
      exact .intro (m := { m with cpu.ram := Memory.zero 0x800 }) log frames ht hs
    · -- whatever the generator draws, so that no step looks into it
      have hfilled (bytes : Xorshift → Nat → List UInt8 × Xorshift) :
          Beside S (m.filled bytes) (({ m with sound, timer, log, frames } : Machine).filled bytes) :=
        .intro (m := m.filled bytes) log frames ht hs
      rw [scramble_ram hk, @scramble_ram { m with sound, timer, log, frames } hk]
      exact hfilled Xorshift.bytes

theorem restarted {T : Sound → Sound → Prop} (h : Beside S m n) (kind : Reset)
    (hT : ∀ {s s'}, S s s' → T s.reset s'.reset) : Beside T (m.restarted kind) (n.restarted kind) := by
  have hreset : T m.sound.reset n.sound.reset := hT h.related
  unfold Machine.restarted
  generalize m.sound.reset = s at hreset ⊢
  generalize n.sound.reset = s' at hreset ⊢
  cases h with
  | intro log frames ht _ =>
    simp only
    generalize m.ppu.reset (decide (kind = .hard)) m.prng = r
    simp only [resetPages]
    exact .intro (m := { m with cpu.pages := _, ppu := { r.1 with pages := _ }, sound := s, prng := r.2 })
      log frames ht hreset

theorem timed (h : Beside S m n) : Beside S m.timed n.timed := by
  cases h with
  | intro log frames ht hs => exact .intro (m := m.timed) log frames ⟨rfl, rfl, ht.masked⟩ hs

/-- A reset starts the sound unit over as well. -/
theorem reset {T : Sound → Sound → Prop} (h : Beside S m n) (kind : Reset)
    (hT : ∀ {s s'}, S s s' → T s.reset s'.reset) (hcartridge : m.hasCartridge = true) :
    Beside T (m.reset kind) (n.reset kind) := by
  have hplugged : n.hasCartridge = true := h.hasCartridge.trans hcartridge
  have hwiped : Beside S (m.wiped kind) (n.wiped kind) := by
    unfold Machine.wiped
    split
    · exact h.scramble
    · exact h
  have hrestarted := hwiped.restarted kind hT
  have hstarted := hrestarted.withBoard (·.init ((m.wiped kind).restarted kind).view)
  rw [reset_eq hcartridge, reset_eq hplugged, boardInit, boardInit, hrestarted.view]
  exact hstarted.timed.note _

end Beside

end Machine

end Famicom
