import Famicom.Proofs.LowWindows
import Famicom.Proofs.Renewal

/-!
Starting over against starting out. A machine with a past is reset, another one has the same cartridge plugged in
just now. Both show the same windows, and as long as both are told the same they go on doing so and are
interrupted at the same cues.

    plugged in ──past──▶ used ──reset──▶ again ──cue──▶ … ──cue──▶
                                           ║                         same windows, same interrupts
                            plugged in ──▶ fresh ──cue──▶ … ──cue──▶

Left out are the windows below the ROM on board 42, which a reset does not move back; what the boards show later
that keep registers (`Board.StartsOver`, `Machine.reset_keeps_banks`); and the interrupts of board 25, whose line
counter a reset spares (`Machine.reset_keeps_counter`).
-/

namespace Famicom

/-! ### Windows -/

namespace Circuit

/-- The second circuit shows what the first one does; on board 42 the low windows do not count. -/
structure Shows (number : UInt8) (c d : Circuit) : Prop where
  picture : d.ppu = c.ppu
  program : ∀ w < 16, (number = 42 → w ≠ 6 ∧ w ≠ 7) → d.cpu.page w = c.cpu.page w

variable {c d : Circuit}

/-- Wishes either decide what a window shows, or leave it alone. -/
theorem page_decided (hrom : d.rom = c.rom) (signals : List Signal) {w : Nat} (hw : w < 16) :
    (signals.foldl obey d).cpu.page w = (signals.foldl obey c).cpu.page w ∨
      ((signals.foldl obey d).cpu.page w = d.cpu.page w ∧
        (signals.foldl obey c).cpu.page w = c.cpu.page w) := by
  induction signals generalizing c d with
  | nil => exact Or.inr ⟨rfl, rfl⟩
  | cons s signals ih =>
    rw [List.foldl_cons, List.foldl_cons]
    have hrom' : (d.obey s).rom = (c.obey s).rom := by rw [rom_obey, rom_obey, hrom]
    have hfirst : (d.obey s).cpu.page w = (c.obey s).cpu.page w ∨
        ((d.obey s).cpu.page w = d.cpu.page w ∧ (c.obey s).cpu.page w = c.cpu.page w) := by
      cases s with
      | prg kb address bank =>
        simp only [obey]
        rw [PageTable.page_mapPrg _ _ _ _ _ hw, PageTable.page_mapPrg _ _ _ _ _ hw, hrom]
        split
        · exact Or.inl rfl
        · exact Or.inr ⟨rfl, rfl⟩
      | _ => exact Or.inr (by simp only [obey, and_self])
    rcases hfirst with hsame | ⟨hd, hc⟩
    · exact Or.inl (page_obeyAll hrom' signals hw hsame)
    · rcases ih hrom' with hsame | ⟨hd', hc'⟩
      · exact Or.inl hsame
      · exact Or.inr ⟨hd'.trans hd, hc'.trans hc⟩

theorem picture_obey (hrom : d.rom = c.rom) (s : Signal) (h : d.ppu = c.ppu) :
    (d.obey s).ppu = (c.obey s).ppu := by
  cases s <;> simp only [obey, hrom, h]

theorem picture_obeyAll (hrom : d.rom = c.rom) (signals : List Signal) (h : d.ppu = c.ppu) :
    (signals.foldl obey d).ppu = (signals.foldl obey c).ppu :=
  @obeyAll_keeps c (fun c d => d.ppu = c.ppu) (fun s hrom h => picture_obey hrom s h) d hrom signals h

/-- Machines that show the same go on doing so while their boards wish the same. -/
theorem Shows.obeyAll {number : UInt8} (h : Shows number c d) (hrom : d.rom = c.rom)
    (signals : List Signal) : Shows number (signals.foldl obey c) (signals.foldl obey d) where
  picture := picture_obeyAll hrom signals h.picture
  program := fun _ hw hspared => page_obeyAll hrom signals hw (h.program _ hw hspared)

end Circuit

/-! ### The first position -/

/-- The first position of the nametable windows covers whatever they showed. -/
theorem page_initialTables (c : Cartridge) (t t' : PageTable) {w : Nat} (hlo : 8 ≤ w) (hw : w < 16) :
    (Machine.initialPicturePages c t).page w = (Machine.initialPicturePages c t').page w := by
  have hmirror : ∀ (t t' : PageTable) (i j k l : Nat), (t.mirror i j k l).page w = (t'.mirror i j k l).page w := by
    intro t t' i j k l
    rw [PageTable.page_mirror _ _ _ _ _ hw, PageTable.page_mirror _ _ _ _ _ hw, if_neg (by omega),
      if_neg (by omega)]
  have hram : ∀ t : PageTable, t.mapVram.page w = t.page w := fun t => by
    rw [PageTable.page_mapVram _ hw, if_neg (by omega)]
  unfold Machine.initialPicturePages
  by_cases hfour : c.fourScreen = true
  · simp only [if_pos hfour]
    split
    · exact hmirror _ _ _ _ _ _
    · rw [hram, hram]
      exact hmirror _ _ _ _ _ _
  · simp only [if_neg hfour]
    split
    · split <;> exact hmirror _ _ _ _ _ _
    · rw [hram, hram]
      split <;> exact hmirror _ _ _ _ _ _

namespace Circuit

variable {c d : Circuit}

theorem picture_placed (hrom : d.rom = c.rom) : d.placed.ppu = c.placed.ppu := by
  apply PageTable.ext_page
  intro w hw
  simp only [placed, hrom]
  rcases Nat.lt_or_ge w 8 with hlow | hhigh
  · exact Layout.page_initialPicture c.rom d.ppu c.ppu hlow
  · exact page_initialTables c.rom d.ppu c.ppu hhigh hw

theorem page_placed_high (hrom : d.rom = c.rom) {w : Nat} (hlo : 8 ≤ w) (hw : w < 16) :
    d.placed.cpu.page w = c.placed.cpu.page w := by
  simp only [placed, hrom]
  exact Layout.page_initialProgram c.rom d.cpu c.cpu hlo hw

theorem page_placed_low {w : Nat} (hw : w < 8) : c.placed.cpu.page w = c.cpu.page w := by
  have h8 : (0x8000 : UInt16).toNat / 0x1000 = 8 := rfl
  have h12 : (0xC000 : UInt16).toNat / 0x1000 = 12 := rfl
  have hw16 : w < 16 := by omega
  simp only [placed, Machine.initialProgramPages, PageTable.page_mapPrg _ _ _ _ _ hw16, h8, h12]
  rw [if_neg (by omega), if_neg (by omega)]

/-! ### A past -/

/-- The circuit has just been started with a board. -/
def Started (f : Circuit) (b₀ : Board) : Prop := ∃ (c : Circuit) (view : View),
  c.board = some b₀ ∧ view.Of c.rom ∧ f = c.placed.act (·.init view)

/-- What any past leaves of a circuit that was started: the ROM, the kind of board, and the windows below those
that it moves. -/
structure Descends (f : Circuit) (b₀ : Board) (c : Circuit) : Prop where
  rom : c.rom = f.rom
  board : ∃ b, c.board = some b ∧ b.renewed = b₀.renewed
  low : ∀ w < lowestMoved b₀.number, c.cpu.page w = f.cpu.page w

variable {f : Circuit} {b₀ : Board}

theorem Started.descends (h : f.Started b₀) : Descends f b₀ f := by
  obtain ⟨c, view, hb, -, hf⟩ := h
  have hplaced : c.placed.board = some b₀ := by simpa only [placed] using hb
  have hboard : f.board = some (b₀.init view).1 := by rw [hf, act_some hplaced, board_obeyAll]
  exact ⟨rfl, ⟨_, hboard, b₀.renewed_init view⟩, fun _ _ => rfl⟩

theorem Descends.hear (h : Descends f b₀ c) (cue : Cue) : Descends f b₀ (c.hear cue) := by
  obtain ⟨b, hb, hkind⟩ := h.board
  have hnumber : b.number = b₀.number := by rw [← b.number_renewed, hkind, b₀.number_renewed]
  refine ⟨?_, ⟨(b.answer cue).1, ?_, ?_⟩, fun w hw => ?_⟩
  · rw [Circuit.hear, rom_act, h.rom]
  · rw [Circuit.hear, act_some hb, board_obeyAll]
  · rw [b.renewed_answer, hkind]
  · rw [low_hear hb cue (hnumber ▸ hw), h.low w hw]

/-- Started anew after any past, a circuit shows what it did when it was started first. -/
theorem Descends.shows (hf : f.Started b₀) (h : Descends f b₀ c) {view : View} (hview : view.Of c.rom) :
    Shows b₀.number f (c.placed.act (·.init view)) := by
  obtain ⟨b, hb, hkind⟩ := h.board
  obtain ⟨c₀, view₀, hb₀, hview₀, rfl⟩ := hf
  have hrom : c.rom = c₀.rom := by rw [h.rom, rom_act, placed]
  have hwishes : (b.init view).2 = (b₀.init view₀).2 := by
    rw [b.init_wishes, hkind, ← b₀.init_wishes, b₀.init_congr (hrom ▸ hview) hview₀]
  have hlow := h.low
  have hact : ∀ {c : Circuit} {b : Board} (view : View), c.board = some b → c.placed.act (·.init view) =
      (b.init view).2.foldl obey { c.placed with board := some (b.init view).1 } :=
    fun view hb => act_some (by simpa only [placed] using hb) _
  rw [hact view₀ hb₀] at hlow ⊢
  rw [hact view hb, hwishes]
  generalize hd : ({ c.placed with board := some (b.init view).1 } : Circuit) = d
  generalize hd₀ : ({ c₀.placed with board := some (b₀.init view₀).1 } : Circuit) = d₀ at hlow ⊢
  have hrom' : d.rom = d₀.rom := by simpa only [← hd, ← hd₀, placed] using hrom
  have hpicture : d.ppu = d₀.ppu := by simpa only [← hd, ← hd₀] using picture_placed hrom
  refine ⟨picture_obeyAll hrom' _ hpicture, fun w hw hspared => ?_⟩
  rcases Nat.lt_or_ge w 8 with hlo | hhi
  · have hmoved : w < lowestMoved b₀.number := by
      unfold lowestMoved
      split
      case isTrue h42 => have hother := hspared h42; omega
      case isFalse => exact hlo
    -- either the power-on decides the window, or it shows what it has shown all along
    rcases page_decided hrom' (b₀.init view₀).2 hw with hsame | ⟨hd', -⟩
    · exact hsame
    · have hstays : d.cpu.page w = c.cpu.page w := by
        simpa only [← hd] using page_placed_low hlo
      rw [hd', hstays, hlow w hmoved]
  · refine page_obeyAll hrom' _ hw ?_
    simpa only [← hd, ← hd₀] using page_placed_high hrom hhi hw

/-- So a restart is part of a past as well. -/
theorem Descends.restart (hf : f.Started b₀) (h : Descends f b₀ c) {view : View} (hview : view.Of c.rom) :
    Descends f b₀ (c.placed.act (·.init view)) := by
  have hshows := h.shows hf hview
  obtain ⟨b, hb, hkind⟩ := h.board
  have hplaced : c.placed.board = some b := by simpa only [placed] using hb
  refine ⟨?_, ⟨(b.init view).1, ?_, ?_⟩, fun w hw => ?_⟩
  · rw [rom_act, placed, h.rom]
  · rw [act_some hplaced, board_obeyAll]
  · rw [b.renewed_init, hkind]
  · have hle := (lowestMoved_le b₀.number).2
    refine hshows.program w (by omega) fun h42 => ?_
    rw [lowestMoved, if_pos h42] at hw
    omega

/-! ### In step -/

/-- The boards of both circuits are alike to a view of boards. -/
def BoardsBy (view : Board → Board) (c d : Circuit) : Prop :=
  ∃ b b', c.board = some b ∧ d.board = some b' ∧ view b' = view b

/-- A view that answers depend on goes on being the same. -/
theorem BoardsBy.hear {view : Board → Board} (h : BoardsBy view c d) (cue : Cue)
    (hview : ∀ b, view (b.answer cue).1 = view ((view b).answer cue).1) :
    BoardsBy view (c.hear cue) (d.hear cue) := by
  obtain ⟨b, b', hb, hb', hsame⟩ := h
  refine ⟨(b.answer cue).1, (b'.answer cue).1, ?_, ?_, ?_⟩
  · rw [Circuit.hear, act_some hb, board_obeyAll]
  · rw [Circuit.hear, act_some hb', board_obeyAll]
  · rw [hview b', hsame, ← hview b]

/-- Started anew, a board is alike to a view that power-on restores. -/
theorem Descends.boardsBy {φ : Board → Board} (hf : f.Started b₀) (h : Descends f b₀ c) {view : View}
    (hview : view.Of c.rom)
    (hφ : ∀ b : Board, b.number = b₀.number → φ (b.init view).1 = φ (b.renewed.init view).1) :
    BoardsBy φ f (c.placed.act (·.init view)) := by
  obtain ⟨b, hb, hkind⟩ := h.board
  obtain ⟨c₀, view₀, hb₀, hview₀, rfl⟩ := hf
  have hrom : c.rom = c₀.rom := by rw [h.rom, rom_act, placed]
  have hplaced : c.placed.board = some b := by simpa only [placed] using hb
  have hplaced₀ : c₀.placed.board = some b₀ := by simpa only [placed] using hb₀
  have hnumber : b.number = b₀.number := by rw [← b.number_renewed, hkind, b₀.number_renewed]
  refine ⟨(b₀.init view₀).1, (b.init view).1, ?_, ?_, ?_⟩
  · rw [act_some hplaced₀, board_obeyAll]
  · rw [act_some hplaced, board_obeyAll]
  · rw [hφ b hnumber, hkind, ← hφ b₀ rfl, b₀.init_congr (hrom ▸ hview) hview₀]

/-- Boards of one essence keep the circuits showing the same. -/
theorem Shows.hear {number : UInt8} (h : Shows number c d) (hrom : d.rom = c.rom)
    (hboards : BoardsBy Board.essence c d) (cue : Cue) : Shows number (c.hear cue) (d.hear cue) := by
  obtain ⟨b, b', hb, hb', hsame⟩ := hboards
  have hwishes : (b'.answer cue).2 = (b.answer cue).2 := by
    rw [(b'.answer_essence cue).1, hsame, ← (b.answer_essence cue).1]
  rw [Circuit.hear, Circuit.hear, act_some hb, act_some hb', hwishes]
  have hanswered : Shows number { c with board := some (b.answer cue).1 }
      { d with board := some (b'.answer cue).1 } := ⟨h.picture, h.program⟩
  exact hanswered.obeyAll hrom _

theorem Shows.hearAll {number : UInt8} (h : Shows number c d) (hrom : d.rom = c.rom)
    (hboards : BoardsBy Board.essence c d) (later : List Cue) :
    Shows number (later.foldl Circuit.hear c) (later.foldl Circuit.hear d) := by
  induction later generalizing c d with
  | nil => exact h
  | cons cue later ih =>
    have hrom' : (d.hear cue).rom = (c.hear cue).rom := by
      rw [Circuit.hear, Circuit.hear, rom_act, rom_act, hrom]
    exact ih (h.hear hrom hboards cue) hrom' (hboards.hear cue fun b => (b.answer_essence cue).2)

theorem BoardsBy.hearAll (h : BoardsBy Board.clockwork c d) (later : List Cue) :
    BoardsBy Board.clockwork (later.foldl Circuit.hear c) (later.foldl Circuit.hear d) := by
  induction later generalizing c d with
  | nil => exact h
  | cons cue later ih => exact ih (h.hear cue fun b => (b.answer_clockwork cue).2)

/-- The board of the circuit answers a cue with an interrupt. -/
def interrupts (c : Circuit) (cue : Cue) : Bool := c.board.any (·.interrupts cue)

theorem BoardsBy.interrupts (h : BoardsBy Board.clockwork c d) (cue : Cue) :
    d.interrupts cue = c.interrupts cue := by
  obtain ⟨b, b', hb, hb', hsame⟩ := h
  rw [Circuit.interrupts, Circuit.interrupts, hb, hb', Option.any_some, Option.any_some,
    (b'.answer_clockwork cue).1, hsame, ← (b.answer_clockwork cue).1]

/-- A cartridge with its board and the windows of a console without one. -/
def plugged (cart : Cartridge) (b : Board) : Circuit where
  rom := { cart with notes := [] }.rom
  board := some b
  cpu := Machine.poweredPages
  ppu := Ppu.powerOn.pages

end Circuit

namespace Machine

open Circuit (Descends Shows BoardsBy)

variable {cart : Cartridge} {b : Board}

/-- A reset starts the board over. -/
theorem board_reset {m : Machine} (h : m.board = some b) (kind : Reset) :
    ∃ view : View, (m.reset kind).board = some (b.init view).1 := by
  have hcartridge : m.hasCartridge = true := by rw [hasCartridge, h, Option.isSome_some]
  have hplaced : m.circuit.placed.board = some b := h
  obtain ⟨view, -, hreset⟩ := m.circuit_reset kind hcartridge
  have hboard := congrArg Circuit.board hreset
  rw [Circuit.act_some hplaced, Circuit.board_obeyAll] at hboard
  exact ⟨view, hboard⟩

/-- The console with a cartridge plugged in that has not been powered on yet. -/
def plug (m : Machine) (cart : Cartridge) (b : Board) (log : EventLog) : Machine :=
  { m with
    log
    cpu := { pages := poweredPages }
    ppu := { Ppu.powerOn with drawSprites := m.ppu.drawSprites }
    cart := { cart with notes := [] }
    sound := m.sound.setChip b.soundChip
    board := some b }

/-- Plugging in a cartridge whose board is known ends with a power-on. -/
theorem insert_eq (hb : Board.ofNumber? cart.mapper = some b) (m : Machine) :
    ∃ log, m.insert cart = (.ok (), (m.plug cart b log).reset .hard) := by
  rw [insert, hb]
  simp only
  split <;> exact ⟨_, rfl⟩

theorem insert_plugs (hb : Board.ofNumber? cart.mapper = some b) (m : Machine) :
    ∃ n : Machine, m.insert cart = (.ok (), n.reset .hard) ∧ n.circuit = Circuit.plugged cart b := by
  obtain ⟨log, hinsert⟩ := insert_eq hb m
  exact ⟨_, hinsert, rfl⟩

/-- Whatever a machine was, plugging in and powering on leave the same circuit. -/
theorem circuit_insert (hb : Board.ofNumber? cart.mapper = some b) (m : Machine) :
    ∃ view : View, view.Of (Circuit.plugged cart b).rom ∧
      (m.insert cart).2.circuit = (Circuit.plugged cart b).placed.act (·.init view) := by
  obtain ⟨n, hn, hcircuit⟩ := insert_plugs hb m
  have hboard : n.board = some b := congrArg Circuit.board hcircuit
  have hcartridge : n.hasCartridge = true := by rw [hasCartridge, hboard, Option.isSome_some]
  obtain ⟨view, hview, hreset⟩ := n.circuit_reset .hard hcartridge
  rw [hcircuit] at hview hreset
  exact ⟨view, hview, by rw [hn, hreset]⟩

theorem insert_started (hb : Board.ofNumber? cart.mapper = some b) (m : Machine) :
    (m.insert cart).2.circuit.Started b := by
  obtain ⟨view, hview, hinsert⟩ := circuit_insert hb m
  exact ⟨Circuit.plugged cart b, view, rfl, hview, hinsert⟩

theorem insert_alike (hb : Board.ofNumber? cart.mapper = some b) (m n : Machine) :
    (n.insert cart).2.circuit = (m.insert cart).2.circuit := by
  obtain ⟨view, hview, hinsert⟩ := circuit_insert hb m
  obtain ⟨view', hview', hinsert'⟩ := circuit_insert hb n
  have hplaced : (Circuit.plugged cart b).placed.board = some b := rfl
  rw [hinsert, hinsert', Circuit.act_some hplaced, Circuit.act_some hplaced, b.init_congr hview' hview]

/-! ### Happenings -/

/-- The board hears a cue directly. -/
def hear (m : Machine) (cue : Cue) : Machine := m.withBoard (·.answer cue)

/-- The board answers a cue with an interrupt. -/
def interrupts (m : Machine) (cue : Cue) : Bool := m.board.any (·.interrupts cue)

theorem circuit_hear (m : Machine) (cue : Cue) : (m.hear cue).circuit = m.circuit.hear cue :=
  m.circuit_withBoard (·.answer cue)

theorem circuit_hearAll (m : Machine) (later : List Cue) :
    (later.foldl hear m).circuit = later.foldl Circuit.hear m.circuit := by
  induction later generalizing m with
  | nil => rfl
  | cons cue later ih => rw [List.foldl_cons, List.foldl_cons, ih, circuit_hear]

end Machine

/-- Something that happens to a machine: an event, or a cue that the board hears directly. -/
inductive Happening where
  | event (e : Event)
  | cue (c : Cue)

/-- Neither kind takes a snapshot over. -/
def Happening.isNative : Happening → Bool
  | .event e => e.isNative
  | .cue _ => true

/-- The machine after a happening. -/
def Machine.meet (m : Machine) : Happening → Machine
  | .event e => m.after e
  | .cue c => m.hear c

namespace Machine

open Circuit (Descends Shows BoardsBy)

variable {f : Circuit} {b : Board} {m : Machine}

/-- Whatever happens leaves what every past leaves. -/
theorem descends_meet (hf : f.Started b) {h : Happening} (hnative : h.isNative = true)
    (hm : Descends f b m.circuit) : Descends f b (m.meet h).circuit := by
  cases h with
  | event e => exact m.after_circuit hnative (fun _ hc => hc.hear _) (fun hview hc => hc.restart hf hview) hm
  | cue c =>
    rw [meet, circuit_hear]
    exact hm.hear c

theorem descends_past (hf : f.Started b) {past : List Happening}
    (hpast : ∀ h ∈ past, h.isNative = true) (hm : Descends f b m.circuit) :
    Descends f b (past.foldl meet m).circuit := by
  induction past generalizing m with
  | nil => exact hm
  | cons h past ih =>
    obtain ⟨hh, hrest⟩ := List.forall_mem_cons.mp hpast
    exact ih hrest (descends_meet hf hh hm)

/-- So does whatever happens after any console has had the cartridge plugged in. -/
theorem descends_insert {cart : Cartridge} (hb : Board.ofNumber? cart.mapper = some b) (host host' : Machine)
    {past : List Happening} (hpast : ∀ h ∈ past, h.isNative = true) :
    Descends (host'.insert cart).2.circuit b (past.foldl meet (host.insert cart).2).circuit := by
  have hf : (host'.insert cart).2.circuit.Started b := insert_started hb host'
  refine descends_past hf hpast ?_
  rw [insert_alike hb host' host]
  exact hf.descends

/-- Wishes change nothing that a board sees. -/
theorem view_obeyAll (m : Machine) (signals : List Signal) : (m.obeyAll signals).view = m.view := by
  have hobey : ∀ (m : Machine) (s : Signal), (m.obey s).view = m.view := fun m s => by
    cases s <;> simp only [obey, view, note, Ppu.enabled, Ppu.backgroundOn, Ppu.spritesOn]
  unfold obeyAll
  induction signals generalizing m with
  | nil => rfl
  | cons s signals ih => rw [List.foldl_cons, ih, hobey]

theorem view_withBoard (m : Machine) (act : Board → Board × List Signal) :
    (m.withBoard act).view = m.view := by
  unfold withBoard
  split
  · rfl
  · exact view_obeyAll _ _

/-- What a board sees after a reset: its ROM, something being shown, and the first line of vertical blank. -/
theorem view_reset (kind : Reset) (h : m.hasCartridge = true) : (m.reset kind).view =
    { prgSize := m.circuit.rom.prg.size, fourScreen := m.circuit.rom.fourScreen, rendering := true,
      scanline := 241 } := by
  have hrom : (m.reset kind).circuit.rom = m.circuit.rom := by
    obtain ⟨view, -, hcircuit⟩ := m.circuit_reset kind h
    rw [hcircuit, Circuit.rom_act, Circuit.placed]
  have hview : (m.reset kind).view.rendering = true ∧ (m.reset kind).view.scanline = 241 := by
    rw [reset, if_neg (by simp [h])]
    simp only
    generalize (if kind = .hard then m.scramble else m) = m₁
    have hmask : (m₁.ppu.reset (decide (kind = .hard)) m₁.prng).1.mask = 0x18 := by
      unfold Ppu.reset
      generalize Xorshift.bytes = garbage
      split <;> simp only [Ppu.resetRegisters]
    generalize m₁.ppu.reset (decide (kind = .hard)) m₁.prng = r at hmask ⊢
    generalize hm₂ : ({ m₁ with ppu := r.1, sound := _, prng := r.2 } : Machine).resetPages = m₂
    have hshown : m₂.view.rendering = true := by
      have hmask₂ : m₂.ppu.mask = 0x18 := by simpa only [← hm₂, resetPages] using hmask
      simp only [view, Ppu.enabled, Ppu.backgroundOn, Ppu.spritesOn, hmask₂]
      decide
    rw [← m₂.view_withBoard (·.init m₂.view)] at hshown
    exact ⟨hshown, rfl⟩
  have hof := (m.reset kind).view_of
  rw [hrom] at hof
  generalize (m.reset kind).view = view at hview hof ⊢
  cases view
  obtain ⟨rfl, rfl⟩ := hview
  obtain ⟨rfl, rfl⟩ := hof
  rfl

end Machine

/-- The line counter of the boards that count lines as the VRC4 does. -/
def Board.lineCounter : Board → Option VrcCounter
  | .vrc4 s => some s.line
  | _ => none

/-- Board 25 keeps all of itself. -/
theorem Board.init_board25 {b : Board} (h : b.number = 25) (view : View) : (b.init view).1 = b := by
  cases b with
  | vrc4 s =>
    obtain ⟨wiring, swapped, low, high, line⟩ := s
    cases wiring with
    | board25 => rfl
    | board21 | board22 | board23 => simp [number, Vrc4.number] at h
  | latch kind => rfl
  | _ => simp [number] at h

namespace Machine

open Circuit (Descends Shows BoardsBy)

/-- Whatever has happened to a machine since a cartridge was plugged in, a reset of either kind shows the windows of
a machine that has it plugged in just now, and lets its board see the same. From then on both show the same, however
the board is spoken to, and are interrupted at the same cues: the first if the board is one that starts over, the
second if it is not board 25, whose line counter a reset leaves as it is, and both wherever the registers of the
board are the same after the reset. -/
theorem reset_renews {cart : Cartridge} {b : Board} (hb : Board.ofNumber? cart.mapper = some b)
    (host host' : Machine) {past : List Happening} (hpast : ∀ h ∈ past, h.isNative = true) (kind : Reset) :
    let used := past.foldl meet (host.insert cart).2
    let again := used.reset kind
    let fresh := (host'.insert cart).2
    Shows cart.mapper fresh.circuit again.circuit ∧ again.view = fresh.view ∧
      (∀ later : List Cue,
        (Board.StartsOver cart.mapper ∨ again.board = fresh.board →
          Shows cart.mapper (later.foldl hear fresh).circuit (later.foldl hear again).circuit) ∧
        (cart.mapper ≠ 25 ∨ again.board = fresh.board → ∀ cue,
          (later.foldl hear again).interrupts cue = (later.foldl hear fresh).interrupts cue)) ∧
      (cart.mapper = 25 →
        again.board.bind Board.lineCounter = used.board.bind Board.lineCounter) := by
  intro used again fresh
  have hnumber : b.number = cart.mapper := Board.number_ofNumber? hb
  have hf : fresh.circuit.Started b := insert_started hb host'
  have hused : Descends fresh.circuit b used.circuit := descends_insert hb host host' hpast
  obtain ⟨b₁, hb₁, hkind⟩ := hused.board
  have hcartridge : used.hasCartridge = true := by
    rw [hasCartridge, show used.board = some b₁ from hb₁, Option.isSome_some]
  obtain ⟨view, hview, hagain⟩ := used.circuit_reset kind hcartridge
  have hrom : again.circuit.rom = fresh.circuit.rom := by
    rw [hagain, Circuit.rom_act, Circuit.placed, hused.rom]
  have hshows : Shows cart.mapper fresh.circuit again.circuit := by
    rw [← hnumber, hagain]
    exact hused.shows hf hview
  have hboards : ∀ φ : Board → Board, (∀ b' : Board, b'.number = b.number →
      φ (b'.init view).1 = φ (b'.renewed.init view).1) ∨ again.board = fresh.board →
      BoardsBy φ fresh.circuit again.circuit := by
    rintro φ (hφ | hsame)
    · rw [hagain]
      exact hused.boardsBy hf hview hφ
    · obtain ⟨b', hb', -⟩ := hf.descends.board
      exact ⟨b', b', hb', hsame.trans hb', rfl⟩
  refine ⟨hshows, ?_, fun later => ⟨fun hover => ?_, fun h25 cue => ?_⟩, fun h25 => ?_⟩
  · obtain ⟨n, hn, hcircuit⟩ := insert_plugs hb host'
    have hcartridge' : n.hasCartridge = true := by
      rw [hasCartridge, show n.board = some b from congrArg Circuit.board hcircuit, Option.isSome_some]
    have hreset : fresh = n.reset .hard := congrArg Prod.snd hn
    have hrom' : used.circuit.rom = n.circuit.rom := by
      rw [hused.rom, hreset]
      obtain ⟨view', -, hn'⟩ := n.circuit_reset .hard hcartridge'
      rw [hn', Circuit.rom_act, Circuit.placed]
    rw [hreset, view_reset kind hcartridge, view_reset .hard hcartridge', hrom']
  · rw [circuit_hearAll, circuit_hearAll]
    refine hshows.hearAll hrom (hboards Board.essence ?_) later
    exact hover.imp_left fun hover b' hb' => b'.essence_init (by rwa [hb', hnumber]) view
  · have hworks : BoardsBy Board.clockwork fresh.circuit again.circuit :=
      hboards Board.clockwork
        (h25.imp_left fun h25 b' hb' => b'.clockwork_init (by rwa [hb', hnumber]) view)
    have hstep := (hworks.hearAll later).interrupts cue
    rwa [← circuit_hearAll, ← circuit_hearAll] at hstep
  · have hboard₁ : used.board = some b₁ := hb₁
    obtain ⟨view', hreset⟩ := board_reset hboard₁ kind
    have h25₁ : b₁.number = 25 := by rw [← b₁.number_renewed, hkind, b.number_renewed, hnumber, h25]
    rw [hreset, hboard₁, b₁.init_board25 h25₁]

/-- After a game on the MMC3 has moved a bank, been reset and let lines end. -/
theorem reset_renews_mmc3 :
    let past : List Happening :=
      [.event (.write 0x8000 6), .event (.write 0x8001 1), .event (.frame true), .cue (.hblank default false)]
    let again := (past.foldl meet ((default : Machine).insert (.blank 4)).2).reset .soft
    let fresh := ((default : Machine).insert (.blank 4)).2
    Shows 4 fresh.circuit again.circuit ∧ ∀ later : List Cue,
      Shows 4 (later.foldl hear fresh).circuit (later.foldl hear again).circuit := by
  intro past again fresh
  have hnumber : Board.ofNumber? (Cartridge.blank 4).mapper = some (.mmc3 {}) := rfl
  have hpast : ∀ h ∈ past, h.isNative = true := by decide
  obtain ⟨hshows, -, hlater, -⟩ := reset_renews hnumber default default hpast .soft
  exact ⟨hshows, fun later => (hlater later).1 (Or.inl (by decide))⟩

/-- The machine has this cartridge of board 25 plugged in, with these registers. -/
structure Has25 (cart : Cartridge) (m : Machine) (s : Vrc4) : Prop where
  layout : m.layout.Native cart
  board : m.board = some (.vrc4 s)

/-- On the bus all of ROM space is the board's, for no sound chip comes with it. -/
theorem Has25.write {cart : Cartridge} {m : Machine} {s : Vrc4} (h : m.Has25 cart s) (hw : cart.WellFormed)
    (hmapper : cart.mapper = 25) {address : UInt16} (ha : 0x8000 ≤ address) (value : UInt8) :
    (m.write address value).Has25 cart (s.write address value).1 := by
  refine ⟨after_native hw h.layout (e := .write address value) rfl, ?_⟩
  rw [m.write_rom h.layout.toPlugged (by rw [hmapper]; rfl) h.board rfl ha]
  have hcircuit := m.circuit_withBoard (·.write m.view address value)
  rw [Circuit.act_some (c := m.circuit) h.board] at hcircuit
  have hboard := congrArg Circuit.board hcircuit
  rwa [Circuit.board_obeyAll] at hboard

theorem has25_insert (m : Machine) : (m.insert (.blank 25)).2.Has25 (.blank 25) { wiring := .board25 } := by
  have hnumber : Board.ofNumber? (Cartridge.blank 25).mapper = some (.vrc4 { wiring := .board25 }) := rfl
  obtain ⟨n, hn, hcircuit⟩ := insert_plugs hnumber m
  obtain ⟨view, hboard⟩ := board_reset (congrArg Circuit.board hcircuit : n.board = _) .hard
  refine ⟨insert_native (Cartridge.blank_wellFormed (by decide)) m, ?_⟩
  rw [hn, hboard]
  rfl

/-- A line counter that one game sets going outlives the reset: the next game is interrupted at the end of its first
line. -/
theorem reset_keeps_counter :
    let fresh := ((default : Machine).insert (.blank 25)).2
    let used := ((fresh.write 0xF000 15).write 0xF002 15).write 0xF001 2
    let again := used.reset .soft
    again.interrupts (.hblank again.view false) = true ∧
      fresh.interrupts (.hblank fresh.view false) = false := by
  intro fresh used again
  have hw : (Cartridge.blank 25).WellFormed := Cartridge.blank_wellFormed (by decide)
  have hfresh : fresh.Has25 (.blank 25) _ := has25_insert default
  have hused : used.Has25 (.blank 25) _ :=
    ((hfresh.write hw rfl (by decide) 15).write hw rfl (by decide) 15).write hw rfl (by decide) 2
  obtain ⟨view, hagain⟩ := board_reset hused.board .soft
  rw [interrupts, interrupts, hagain, hfresh.board]
  exact ⟨rfl, rfl⟩

/-- What the board wishes when it is written. -/
def wishes (m : Machine) (address : UInt16) (value : UInt8) : Option (List Signal) :=
  m.board.map fun b => (b.write m.view address value).2

/-- What a first write sets on a board is still set after a reset: a second write is answered otherwise than on a
machine that has the cartridge plugged in just now. -/
def KeepsRegister (number : UInt8) (first : UInt16) (value : UInt8) (second : UInt16) : Prop :=
  let fresh := ((default : Machine).insert (.blank number)).2
  ((fresh.write first value).reset .soft).wishes second 0 ≠ fresh.wishes second 0

instance (number : UInt8) (first : UInt16) (value : UInt8) (second : UInt16) :
    Decidable (KeepsRegister number first value second) := by
  unfold KeepsRegister
  infer_instance

/-- The boards that do not start over keep half of a bank number, or which window the next bank goes to, and board 42
keeps a bank in the place of battery RAM. -/
theorem reset_keeps_banks :
    let fresh := ((default : Machine).insert (.blank 42)).2
    KeepsRegister 18 0x8001 1 0x8000 ∧ KeepsRegister 21 0xB002 1 0xB000 ∧ KeepsRegister 23 0xB001 1 0xB000 ∧
      KeepsRegister 32 0x9000 2 0x8000 ∧ KeepsRegister 75 0x9000 2 0xE000 ∧
      (fresh.cpu.pages.page 6).region = .sram ∧
      (((fresh.write 0xE000 0).reset .soft).cpu.pages.page 6).region = .prg := by
  decide +kernel

end Machine

end Famicom
