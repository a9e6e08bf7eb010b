import Famicom.Proofs.Native

/-!
Boards and the windows they switch. A board hears writes, line ends, strobes and drawn tiles (`Cue`) and
answers each with its next registers and its wishes, and nothing else switches a window while a machine
runs. So what a machine does to its board and its windows (`Circuit`) is a row of cues (`Circuit.Hears`),
and what every cue keeps, every history of the machine keeps. A reset starts board and windows over.

    machine  ──operation──▶ machine'
       │circuit                │circuit
       ▼                       ▼
    circuit ──cue──▶ … ──▶ circuit'
-/

namespace Famicom

/-- Something that a board hears. -/
inductive Cue where
  | write (view : View) (address : UInt16) (value : UInt8)
  | hblank (view : View) (vblank : Bool)
  | strobe (value : UInt8)
  | drawn (base : UInt16) (tile : UInt8)
  deriving DecidableEq, Repr

/-- What a board answers: its registers from now on, and its wishes. -/
def Board.answer (b : Board) : Cue → Board × List Signal
  | .write view address value => b.write view address value
  | .hblank view vblank => b.hblank view vblank
  | .strobe value => (b, b.strobe value)
  | .drawn base tile => ((b.drawn base tile).1, ((b.drawn base tile).2.map (Signal.chr 4 base)).toList)

/-- The view shows this ROM. -/
structure View.Of (v : View) (rom : Cartridge) : Prop where
  prgSize : v.prgSize = rom.prg.size
  fourScreen : v.fourScreen = rom.fourScreen

/-- The cue can come from a console with this ROM. -/
def Cue.Fits (rom : Cartridge) : Cue → Prop
  | .write view _ _ => view.Of rom
  | .hblank view _ => view.Of rom
  | .strobe _ => True
  | .drawn base _ => base = 0 ∨ base = 0x1000

/-- A cartridge without the contents of its memories, its board, and the windows of both address spaces. -/
structure Circuit where
  rom : Cartridge
  board : Option Board
  cpu : PageTable
  ppu : PageTable

/-- The circuit of a machine. -/
def Machine.circuit (m : Machine) : Circuit where
  rom := m.cart.rom
  board := m.board
  cpu := m.cpu.pages
  ppu := m.ppu.pages

namespace Circuit

/-- Carries out one wish. -/
def obey (c : Circuit) : Signal → Circuit
  | .prg kb address bank => { c with cpu := c.cpu.mapPrg c.rom.prg.size kb address bank }
  | .chr kb address bank => { c with ppu := c.ppu.mapChr c.rom.chr.size kb address bank }
  | .mirror a b d e => { c with ppu := c.ppu.mirror a b d e }
  | .nametable window value =>
    { c with ppu := (c.ppu.put (8 + window % 4) (Machine.nametablePage c.rom value)).repeatNametables }
  | .irq | .log _ => c

/-- Lets the board act, and carries out what it wishes. -/
def act (c : Circuit) (f : Board → Board × List Signal) : Circuit :=
  match c.board with
  | none => c
  | some b => (f b).2.foldl obey { c with board := some (f b).1 }

/-- The board hears a cue. -/
def hear (c : Circuit) (cue : Cue) : Circuit := c.act (·.answer cue)

/-- The windows in their first position. -/
def placed (c : Circuit) : Circuit :=
  { c with
    cpu := Machine.initialProgramPages c.rom c.cpu
    ppu := Machine.initialPicturePages c.rom c.ppu }

/-- One cue. -/
inductive Step (c : Circuit) : Circuit → Prop
  | hear (cue : Cue) (fits : cue.Fits c.rom) : Step c (c.hear cue)

/-- Cues in a row. -/
def Hears : Circuit → Circuit → Prop := Relation.ReflTransGen Step

variable {c c' c'' : Circuit}

theorem Hears.refl (c : Circuit) : Hears c c := Relation.ReflTransGen.refl

theorem Hears.of_eq (h : c' = c) : Hears c c' := h ▸ Hears.refl c'

theorem Hears.trans (h : Hears c c') (h' : Hears c' c'') : Hears c c'' := Relation.ReflTransGen.trans h h'

theorem Step.hears (h : Step c c') : Hears c c' := Relation.ReflTransGen.single h

/-- What every cue keeps, a row of cues keeps. -/
theorem Hears.keeps {P : Circuit → Prop}
    (hear : ∀ {c : Circuit} {cue : Cue}, cue.Fits c.rom → P c → P (c.hear cue)) (h : Hears c c')
    (hc : P c) : P c' := by
  induction h with
  | refl => exact hc
  | tail _ hs ih =>
    cases hs with
    | hear cue fits => exact hear fits ih

theorem act_some {b : Board} (h : c.board = some b) (f : Board → Board × List Signal) :
    c.act f = (f b).2.foldl obey { c with board := some (f b).1 } := by
  simp only [act, h]

theorem rom_obey (c : Circuit) (s : Signal) : (c.obey s).rom = c.rom := by
  cases s <;> simp only [obey]

theorem board_obey (c : Circuit) (s : Signal) : (c.obey s).board = c.board := by
  cases s <;> simp only [obey]

theorem rom_obeyAll (c : Circuit) (signals : List Signal) : (signals.foldl obey c).rom = c.rom := by
  induction signals generalizing c with
  | nil => rfl
  | cons s signals ih => rw [List.foldl_cons, ih, rom_obey]

theorem board_obeyAll (c : Circuit) (signals : List Signal) : (signals.foldl obey c).board = c.board := by
  induction signals generalizing c with
  | nil => rfl
  | cons s signals ih => rw [List.foldl_cons, ih, board_obey]

/-! ### Two circuits with one ROM -/

/-- What every wish keeps between them, wishes in a row keep. -/
theorem obeyAll_keeps {R : Circuit → Circuit → Prop}
    (hobey : ∀ {c d : Circuit} (s : Signal), d.rom = c.rom → R c d → R (c.obey s) (d.obey s)) {d : Circuit}
    (hrom : d.rom = c.rom) (signals : List Signal) (h : R c d) :
    R (signals.foldl obey c) (signals.foldl obey d) := by
  induction signals generalizing c d with
  | nil => exact h
  | cons s signals ih => exact ih (by rw [rom_obey, rom_obey, hrom]) (hobey s hrom h)

section
variable {d : Circuit} (hrom : d.rom = c.rom)
include hrom

/-- What a program window shows in both, it goes on showing in both. -/
theorem page_obey (s : Signal) {w : Nat} (hw : w < 16)
    (h : d.cpu.page w = c.cpu.page w) : (d.obey s).cpu.page w = (c.obey s).cpu.page w := by
  cases s with
  | prg kb address bank =>
    simp only [obey]
    rw [PageTable.page_mapPrg _ _ _ _ _ hw, PageTable.page_mapPrg _ _ _ _ _ hw, hrom, h]
  | _ => simpa only [obey] using h

theorem page_obeyAll (signals : List Signal) {w : Nat} (hw : w < 16) (h : d.cpu.page w = c.cpu.page w) :
    (signals.foldl obey d).cpu.page w = (signals.foldl obey c).cpu.page w :=
  @obeyAll_keeps c (fun c d => d.cpu.page w = c.cpu.page w) (fun s hrom h => page_obey hrom s hw h) d hrom
    signals h

/-- So it does with patterns and nametables. -/
theorem picturePage_obey (s : Signal) {w : Nat} (hw : w < 12) (h : d.ppu.page w = c.ppu.page w) :
    (d.obey s).ppu.page w = (c.obey s).ppu.page w := by
  have hw16 : w < 16 := by omega
  cases s with
  | chr kb address bank =>
    simp only [obey, hrom]
    by_cases h0 : c.rom.chr.size = 0
    · rwa [h0, PageTable.mapChr_zero, PageTable.mapChr_zero]
    · rw [PageTable.page_mapChr _ h0 _ _ _ hw16, PageTable.page_mapChr _ h0 _ _ _ hw16, h]
  | mirror i j k l =>
    simp only [obey]
    rw [PageTable.page_mirror _ _ _ _ _ hw16, PageTable.page_mirror _ _ _ _ _ hw16, h]
  | nametable window value =>
    simp only [obey, hrom]
    rw [PageTable.page_repeatNametables _ hw16, PageTable.page_repeatNametables _ hw16,
      if_neg (by omega), if_neg (by omega), PageTable.page_put, PageTable.page_put, h]
  | _ => simpa only [obey] using h

theorem picturePage_obeyAll (signals : List Signal) {w : Nat} (hw : w < 12)
    (h : d.ppu.page w = c.ppu.page w) :
    (signals.foldl obey d).ppu.page w = (signals.foldl obey c).ppu.page w :=
  @obeyAll_keeps c (fun c d => d.ppu.page w = c.ppu.page w) (fun s hrom h => picturePage_obey hrom s hw h) d hrom
    signals h

end

/-- Interrupts switch nothing. -/
theorem obey_irqs (c : Circuit) (signals : List Signal) (h : ∀ s ∈ signals, s = Signal.irq) :
    signals.foldl obey c = c := by
  induction signals with
  | nil => rfl
  | cons s signals ih =>
    obtain ⟨rfl, hrest⟩ := List.forall_mem_cons.mp h
    exact ih hrest

theorem rom_act (c : Circuit) (f : Board → Board × List Signal) : (c.act f).rom = c.rom := by
  unfold act
  split
  · rfl
  · rw [rom_obeyAll]

/-- A circuit with what a picture unit shows and the board that watches it. -/
def paint (c : Circuit) (s : Ppu × Option Board) : Circuit := { c with ppu := s.1.pages, board := s.2 }

/-- A drawn tile is a cue. -/
theorem paint_drawn {cart : Cartridge} (hrom : cart.chr.size = c.rom.chr.size) (p : Ppu)
    (board : Option Board) (base : UInt16) (tile : UInt8) :
    c.paint (p.drawn board cart base tile) = (c.paint (p, board)).hear (.drawn base tile) := by
  cases board with
  | none => rfl
  | some b =>
    rw [hear, act_some (b := b) rfl]
    simp only [Ppu.drawn, Board.answer]
    cases (b.drawn base tile).2 with
    | none => rfl
    | some bank => simp [paint, obey, hrom]

theorem paint_shows (c : Circuit) {p q : Ppu} (board : Option Board) (h : q.shows = p.shows) :
    c.paint (q, board) = c.paint (p, board) := by
  have hpages : q.pages = p.pages := congrArg Prod.fst h
  simp only [paint, hpages]

/-- Whatever the picture unit does to a line is a row of cues. -/
theorem closed_paint {cart : Cartridge} (hrom : cart.chr.size = c.rom.chr.size) (clock : Nat) :
    Ppu.Closed cart clock fun s s' => Hears (c.paint s) (c.paint s') := by
  refine .of_shows Hears.trans (fun board hshows => Hears.of_eq (paint_shows c board hshows)) ?_
  intro p board tile base hbase
  rw [paint_drawn hrom]
  exact (Step.hear (c := c.paint (p, board)) (.drawn base tile) hbase).hears

end Circuit

namespace Machine

open Circuit (Hears)

variable (m : Machine)

/-! ### The bus -/

/-- A circuit is the layout's part of it, with all registers of the board. -/
theorem circuit_of_layout {n : Machine} (hlayout : n.layout = m.layout) (hboard : n.board = m.board) :
    n.circuit = m.circuit := by
  rw [circuit, circuit, Circuit.mk.injEq]
  exact ⟨congrArg Layout.rom hlayout, hboard, congrArg Layout.cpu hlayout, congrArg Layout.ppu hlayout⟩

theorem circuit_obey (s : Signal) : (m.obey s).circuit = m.circuit.obey s := by
  cases s with
  | irq => simp only [obey, circuit, Circuit.obey, Cpu.pages_irq]
  | nametable window value =>
    have hpage : nametablePage m.cart.rom value = nametablePage m.cart value := by
      simp [nametablePage, Cartridge.rom, Cartridge.hasChr]
    simp only [obey, circuit, Circuit.obey, hpage]
  | _ => simp only [obey, note, circuit, Circuit.obey, Cartridge.rom]

theorem circuit_obeyAll (signals : List Signal) :
    (m.obeyAll signals).circuit = signals.foldl Circuit.obey m.circuit := by
  induction signals generalizing m with
  | nil => rfl
  | cons s signals ih =>
    rw [List.foldl_cons, ← circuit_obey, ← ih]
    rfl

theorem circuit_withBoard (f : Board → Board × List Signal) :
    (m.withBoard f).circuit = m.circuit.act f := by
  unfold withBoard
  split
  case h_1 h => simp only [Circuit.act, circuit, h]
  case h_2 b h =>
    simp only [circuit_obeyAll]
    rw [Circuit.act_some (c := m.circuit) h]
    rfl

/-- What a board wishes changes nothing about it. -/
theorem board_withBoard {b : Board} (h : m.board = some b) (f : Board → Board × List Signal) :
    (m.withBoard f).board = some (f b).1 := by
  show (m.withBoard f).circuit.board = _
  rw [circuit_withBoard, Circuit.act_some (c := m.circuit) h, Circuit.board_obeyAll]

theorem view_of : m.view.Of m.circuit.rom := ⟨rfl, rfl⟩

theorem circuit_drainNotes : m.drainNotes.circuit = m.circuit := by
  unfold drainNotes
  split_ifs <;> rfl

theorem board_read (address : UInt16) : (m.read address).2.board = m.board := by
  unfold read drainNotes
  split_ifs
  · rfl
  · rfl
  · simp only
    split <;> rfl
  all_goals rfl

theorem circuit_read (address : UInt16) : (m.read address).2.circuit = m.circuit :=
  m.circuit_of_layout (m.layout_read address) (m.board_read address)

theorem pages_pictureWrite (p : Ppu) (cart : Cartridge) (address : UInt16) (value : UInt8) :
    (p.write cart address value).1.pages = p.pages ∧ (p.write cart address value).2.rom = cart.rom := by
  simp only [Ppu.write]
  split
  · exact ⟨rfl, rfl⟩
  · exact ⟨rfl, rom_write _ _ _ _⟩

theorem pages_storeData (p : Ppu) (cart : Cartridge) (value : UInt8) :
    (p.storeData cart value).1.pages = p.pages ∧ (p.storeData cart value).2.rom = cart.rom := by
  unfold Ppu.storeData
  split_ifs
  · exact pages_pictureWrite { p with notes := _ } cart _ _
  · exact pages_pictureWrite p cart _ _
  all_goals exact ⟨rfl, rfl⟩

/-- Writing a register of the picture unit switches nothing. -/
theorem pages_writeRegister (p : Ppu) (cart : Cartridge) (address : UInt16) (value : UInt8) :
    (p.writeRegister cart address value).1.pages = p.pages ∧
      (p.writeRegister cart address value).2.rom = cart.rom := by
  simp only [Ppu.writeRegister, Ppu.writeScroll, Ppu.writeAddress, Ppu.step]
  split
  case h_7 => exact pages_storeData { p with bus := value } cart value
  all_goals (try split_ifs) <;> exact ⟨rfl, rfl⟩

/-- Above the registers of the console a write goes to the cartridge. -/
theorem write_high {address : UInt16} (h : 0x5016 ≤ address) (value : UInt8) :
    m.write address value = m.writeCartridge address value := by
  have hne : ∀ k : UInt16, k < 0x5016 → address ≠ k := by
    rintro k hk rfl
    exact absurd h (UInt16.not_le.mpr hk)
  have hlow : ∀ k : UInt16, k < 0x5016 → ¬ address < k := fun k hk hlt =>
    absurd h (UInt16.not_le.mpr (UInt16.lt_trans hlt hk))
  rw [write, if_neg (hlow _ (by decide)), if_neg (hlow _ (by decide)), if_neg (hne _ (by decide)),
    if_neg (hlow _ (by decide)), if_neg (hne _ (by decide)), if_neg (hne _ (by decide))]

/-- Where no sound chip listens and the board does, a write goes to the board. -/
theorem write_board {address : UInt16} (haddress : 0x5016 ≤ address) {b : Board} (hb : m.board = some b)
    (hsound : m.sound.expansion.filter (fun e => covered e.writeRanges address) = none)
    (hboard : covered b.writeRanges address = true) (value : UInt8) :
    m.write address value = m.boardWrite address value := by
  have hfilter : m.board.filter (fun b => covered b.writeRanges address) = some b := by simp [hb, hboard]
  rw [m.write_high haddress]
  unfold writeCartridge
  simp only [hsound, hfilter]

/-- A cartridge that brings no sound chip along has none. -/
theorem expansion_none {cart : Cartridge} (h : m.layout.Plugged cart)
    (hsilent : (Board.ofNumber? cart.mapper).bind Board.soundChip = none) : m.sound.expansion = none :=
  Option.map_eq_none_iff.mp (h.chip.trans hsilent)

theorem le_top (address : UInt16) : address ≤ 0xFFFF :=
  UInt16.le_iff_toNat_le.mpr (Nat.le_of_lt_succ address.toNat_lt)

theorem covered_romRange {address : UInt16} (h : 0x8000 ≤ address) : covered romRange address = true := by
  simp [covered, romRange, h, le_top]

/-- Where the cartridge brings no sound chip along and the board listens to all of ROM space, so does a write
there. -/
theorem write_rom {cart : Cartridge} (h : m.layout.Plugged cart)
    (hsilent : (Board.ofNumber? cart.mapper).bind Board.soundChip = none) {b : Board} (hb : m.board = some b)
    (hranges : b.writeRanges = romRange) {address : UInt16} (ha : 0x8000 ≤ address) (value : UInt8) :
    m.write address value = m.boardWrite address value := by
  have hnone := m.expansion_none h hsilent
  exact m.write_board (UInt16.le_trans (by decide) ha) hb (by rw [hnone]; rfl)
    (hranges ▸ covered_romRange ha) value

/-- What the board hears of a write. -/
def heard (m : Machine) (address : UInt16) (value : UInt8) : Option Cue :=
  if address = 0x4016 then some (.strobe value)
  else if 0x4017 < address ∧ m.sound.expansion.filter (fun e => covered e.writeRanges address) = none ∧
      (m.board.filter fun b => covered b.writeRanges address).isSome then some (.write m.view address value)
  else none

theorem circuit_writeCartridge {address : UInt16} (h : 0x4017 < address) (value : UInt8) :
    (m.writeCartridge address value).circuit = (m.heard address value).elim m.circuit m.circuit.hear := by
  have hstrobe : address ≠ 0x4016 := by
    rintro rfl
    exact absurd h (by decide)
  have hpoke : (m.poke address value).circuit = m.circuit := by
    refine m.circuit_of_layout (m.layout_poke address value) ?_
    simp only [poke]
    split <;> rfl
  simp only [writeCartridge]
  cases hchip : m.sound.expansion.filter fun e => covered e.writeRanges address with
  | some e =>
    have hheard : m.heard address value = none := by
      rw [heard, if_neg hstrobe, if_neg fun hreached => Option.some_ne_none e (hchip.symm.trans hreached.2.1)]
    rw [hheard]
    rfl
  | none =>
    cases hboard : m.board.filter fun b => covered b.writeRanges address with
    | some b =>
      have hheard : m.heard address value = some (.write m.view address value) := by
        rw [heard, if_neg hstrobe, if_pos ⟨h, hchip, Option.isSome_of_eq_some hboard⟩]
      rw [hheard]
      exact m.circuit_withBoard (·.answer (.write m.view address value))
    | none =>
      have hheard : m.heard address value = none := by
        rw [heard, if_neg hstrobe, if_neg fun hreached => by simp [hboard] at hreached]
      rw [hheard]
      simp only
      split_ifs
      exacts [rfl, hpoke]

/-- Writing tells the board what it hears, and does nothing else to it. -/
theorem circuit_write (address : UInt16) (value : UInt8) :
    (m.write address value).circuit = (m.heard address value).elim m.circuit m.circuit.hear := by
  have hsilent : address ≤ 0x4017 → address ≠ 0x4016 → m.heard address value = none := fun hle hne => by
    rw [heard, if_neg hne, if_neg fun hreached => absurd hreached.1 (UInt16.not_lt.mpr hle)]
  have hlow : address < 0x4016 → m.heard address value = none := fun hlt =>
    hsilent (UInt16.le_of_lt (UInt16.lt_trans hlt (by decide))) (UInt16.ne_of_lt hlt)
  unfold write
  split_ifs with hram hpicture htransfer hsound hstrobe htimer
  · rw [hlow (UInt16.lt_trans hram (by decide))]
    rfl
  · obtain ⟨hpages, hrom⟩ := pages_writeRegister m.ppu m.cart address value
    rw [hlow (UInt16.lt_trans hpicture (by decide)), circuit_drainNotes]
    simp only [circuit, hpages, hrom]
    rfl
  · subst htransfer
    rw [hlow (by decide)]
    simp only [circuit, transferSprites, Ppu.transfer, Cpu.charge, Cpu.endSlice]
    rfl
  · rw [hlow hsound]
    rfl
  · subst hstrobe
    exact m.circuit_withBoard fun b => b.answer (.strobe value)
  · subst htimer
    rw [hsilent (by decide) (by decide)]
    rfl
  · have hhigh : 0x4017 < address := by
      rw [UInt16.not_lt, UInt16.le_iff_toNat_le] at hsound
      rw [← UInt16.toNat_inj] at hstrobe htimer
      rw [UInt16.lt_iff_toNat_lt]
      simp only [UInt16.reduceToNat] at hsound hstrobe htimer ⊢
      omega
    exact m.circuit_writeCartridge hhigh value

/-- Without a sound chip the board hears of a write wherever it listens. -/
theorem heard_of_silent (hsilent : m.sound.expansion = none) {b : Board} (hb : m.board = some b)
    (address : UInt16) (value : UInt8) : m.heard address value =
      if address = 0x4016 then some (.strobe value)
      else if 0x4017 < address ∧ covered b.writeRanges address then some (.write m.view address value)
      else none := by
  have hlistens : (m.board.filter fun b => covered b.writeRanges address).isSome =
      covered b.writeRanges address := by
    rw [hb, Option.filter_some]
    cases covered b.writeRanges address <;> rfl
  rw [heard, hsilent, hlistens, Option.filter_none]
  simp only [true_and]

/-- What the board hears of a write is a cue. -/
theorem heard_fits {address : UInt16} {value : UInt8} {cue : Cue} (h : m.heard address value = some cue) :
    cue.Fits m.circuit.rom := by
  unfold heard at h
  split_ifs at h
  · obtain rfl := Option.some.inj h
    trivial
  · obtain rfl := Option.some.inj h
    exact m.view_of

/-- Writing tells the board what it is told. -/
theorem hears_write (address : UInt16) (value : UInt8) :
    Hears m.circuit (m.write address value).circuit := by
  rw [circuit_write]
  cases hcue : m.heard address value with
  | none => exact Hears.refl _
  | some cue => exact (Circuit.Step.hear cue (m.heard_fits hcue)).hears

/-! ### Every operation -/

theorem hears_lineStart (draw : Bool) : Hears m.circuit (m.lineStart draw).circuit := by
  simp only [lineStart, circuit_drainNotes]
  exact (@Circuit.closed_paint m.circuit m.cart rfl _).startScanline m.ppu m.board m.scanline draw
    fun _ _ hshows => Hears.of_eq (m.circuit.paint_shows m.board hshows)

theorem hears_boardHblank (vblank : Bool) : Hears m.circuit (m.boardHblank vblank).circuit := by
  have hview : Cue.Fits m.circuit.rom (.hblank m.view vblank) := m.view_of
  rw [show m.boardHblank vblank = m.withBoard (·.answer (.hblank m.view vblank)) from rfl,
    circuit_withBoard]
  exact (Circuit.Step.hear _ hview).hears

theorem circuit_cpu {c : Cpu} (h : c.pages = m.cpu.pages) :
    { m with cpu := c }.circuit = m.circuit := by
  simp only [circuit, h]

/-- Whatever a machine does is a row of cues. -/
theorem closed_hears : Closed fun m n => Hears m.circuit n.circuit where
  refl := fun m => Hears.refl m.circuit
  trans := Hears.trans
  cpu := fun m _ h => Hears.of_eq (m.circuit_cpu h.pages)
  nmi := fun m => Hears.of_eq (m.circuit_cpu (m.cpu.pages_nmi m.cart))
  irq := fun m => Hears.of_eq (m.circuit_cpu (m.cpu.pages_irq m.cart))
  serve := fun m => Hears.of_eq (m.circuit_cpu (m.cpu.pages_servePending m.cart))
  jam := fun m _ _ => Hears.of_eq (m.circuit_cpu rfl)
  clockwork := fun m _ _ _ _ => Hears.refl m.circuit
  read := fun m address => Hears.of_eq (m.circuit_read address)
  write := hears_write
  lineStart := hears_lineStart
  hblank := hears_boardHblank
  lineEnd := fun m => Hears.of_eq (m.circuit_of_layout m.layout_lineEnd rfl)

theorem circuit_samples (count : Nat) : (m.samples count).2.circuit = m.circuit := by
  have hpages := (m.sound.render_keeps m.cpu m.cart count).pages
  simp only [samples]
  generalize m.sound.render m.cpu m.cart count = r at hpages ⊢
  simp only [circuit, hpages]

/-- A reset places the windows and lets the board start over. -/
theorem circuit_reset (kind : Reset) (h : m.hasCartridge = true) : ∃ view : View, view.Of m.circuit.rom ∧
    (m.reset kind).circuit = m.circuit.placed.act (·.init view) := by
  rw [reset, if_neg (by simp [h])]
  simp only
  generalize hm₁ : (if kind = .hard then m.scramble else m) = m₁
  have h₁ : m₁.circuit = m.circuit := by
    rw [← hm₁]
    split
    · refine m.circuit_of_layout m.layout_scramble ?_
      simp only [scramble]
      split <;> rfl
    · rfl
  have hpages := (picture_reset m₁.ppu (decide (kind = .hard)) m₁.prng).1
  generalize m₁.ppu.reset (decide (kind = .hard)) m₁.prng = r at hpages ⊢
  generalize hm₂ :
    ({ m₁ with ppu := r.1, sound := m₁.sound.reset, prng := r.2 } : Machine).resetPages = m₂
  have h₂ : m₂.circuit = m.circuit.placed := by
    rw [← hm₂, ← h₁]
    simp only [resetPages, circuit, Circuit.placed, hpages]
    rfl
  refine ⟨m₂.view, ?_, ?_⟩
  · have hrom : m₂.circuit.rom = m.circuit.rom := by rw [h₂, Circuit.placed]
    exact hrom ▸ m₂.view_of
  · rw [← h₂, ← circuit_withBoard]
    rfl

/-- What a reset establishes and every cue keeps holds after every event but a snapshot. -/
theorem after_circuit {P : Circuit → Prop} {e : Event} (he : e.isNative = true)
    (hear : ∀ {c : Circuit} {cue : Cue}, cue.Fits c.rom → P c → P (c.hear cue))
    (init : ∀ {c : Circuit} {view : View}, view.Of c.rom → P c → P (c.placed.act (·.init view)))
    (h : P m.circuit) : P (m.after e).circuit := by
  cases e with
  | reset kind =>
    by_cases hcartridge : m.hasCartridge = true
    · obtain ⟨view, hview, hreset⟩ := m.circuit_reset kind hcartridge
      exact (congrArg P hreset).mpr (init hview h)
    · have hreset : m.reset kind = m := by simp [reset, hcartridge]
      exact (congrArg (fun n : Machine => P n.circuit) hreset).mpr h
  | frame draw => exact (closed_hears.runFrame m draw).keeps hear h
  | execute slice => exact (closed_hears.execute m slice).keeps hear h
  | read address => exact (congrArg P (m.circuit_read address)).mpr h
  | write address value => exact (m.hears_write address value).keeps hear h
  | samples count => exact (congrArg P (m.circuit_samples count)).mpr h
  | restore bytes => exact absurd he Bool.false_ne_true

/-- It holds after every run without one. -/
theorem run_circuit {P : Circuit → Prop} {events : List Event}
    (hevents : ∀ e ∈ events, e.isNative = true)
    (hear : ∀ {c : Circuit} {cue : Cue}, cue.Fits c.rom → P c → P (c.hear cue))
    (init : ∀ {c : Circuit} {view : View}, view.Of c.rom → P c → P (c.placed.act (·.init view)))
    (h : P m.circuit) : P (events.foldl after m).circuit := by
  induction events generalizing m with
  | nil => exact h
  | cons e events ih =>
    obtain ⟨he, hrest⟩ := List.forall_mem_cons.mp hevents
    exact ih (m.after e) hrest (m.after_circuit he hear init h)

end Machine

end Famicom
