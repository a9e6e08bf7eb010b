import Famicom.Proofs.Restart
import Famicom.Proofs.Standstill

/-!
A stop lasts. Whatever has happened to a console since a cartridge was plugged in, its processor stops
without an interrupt waiting (`Machine.Ready`), and from then on nothing that the machine does by itself
starts it again: it only counts cycles, lines and frames.

    insert ──turn──▶ … ──turn──▶ stopped ──call──▶ … ──call──▶ stopped
                                    ║                             ║
                                 registers, memories ═══════ registers, memories

What does start it again is not a call: a reset, another cartridge.
-/

namespace Famicom

/-! ### No interrupt waits for a stopped processor -/

/-- If the processor has stopped, no interrupt is waiting. -/
def Cpu.Settled (c : Cpu) : Prop := c.jammed = true → c.pending = false

namespace Cpu

variable {c c' : Cpu}

theorem Settled.poised (hc : c.Settled) (h : Poised c c') : c'.Settled := fun hjam =>
  h.pending.trans (hc (h.jammed.symm.trans hjam))

theorem Settled.nmi (h : c.Settled) (cart : Cartridge) : (c.nmi cart).Settled := by
  unfold Cpu.nmi
  split
  · exact h
  · exact h.poised ((c.steady_enter cart nmiVector).poised.trans (poised_charge _ _))

/-- A request is kept waiting only while the processor runs. -/
theorem Settled.irq (h : c.Settled) (cart : Cartridge) : (c.irq cart).Settled := by
  unfold Cpu.irq
  split_ifs with hjam hmasked
  · exact h
  · exact fun hstopped => absurd hstopped hjam
  · exact h.poised ((c.steady_enter cart irqVector).poised.trans (poised_charge _ _))

theorem Settled.servePending (h : c.Settled) (cart : Cartridge) : (c.servePending cart).Settled := by
  unfold Cpu.servePending
  split
  · exact fun _ => rfl
  · exact h

theorem attends_settled (cart : Cartridge) : Attends cart fun c c' => c.Settled → c'.Settled where
  refl := fun _ => id
  trans := fun h h' => h' ∘ h
  charge := fun c h => h.poised (c.poised_charge 1)
  irq := fun _ h => h.irq cart

end Cpu

namespace Machine

variable {m : Machine}

theorem settled_obey (h : m.cpu.Settled) (s : Signal) : (m.obey s).cpu.Settled := by
  cases s with
  | irq => exact h.irq m.cart
  | _ => simpa only [obey, note, Cpu.Settled] using h

theorem settled_obeyAll (h : m.cpu.Settled) (signals : List Signal) :
    (m.obeyAll signals).cpu.Settled :=
  List.foldlRecOn (motive := fun m : Machine => m.cpu.Settled) signals _ h fun _ h s _ => settled_obey h s

theorem settled_withBoard (h : m.cpu.Settled) (act : Board → Board × List Signal) :
    (m.withBoard act).cpu.Settled := by
  unfold withBoard
  split
  · exact h
  case h_2 b _ => exact @settled_obeyAll { m with board := some (act b).1 } h (act b).2

theorem settled_writeCartridge (h : m.cpu.Settled) (address : UInt16) (value : UInt8) :
    (m.writeCartridge address value).cpu.Settled := by
  simp only [writeCartridge]
  split
  · exact h
  · exact settled_withBoard h _
  · split
    · exact h
    · simp only [poke]
      split
      · exact h.poised ⟨rfl, rfl, rfl⟩
      · exact h

theorem settled_write (h : m.cpu.Settled) (address : UInt16) (value : UInt8) :
    (m.write address value).cpu.Settled := by
  unfold write
  split_ifs
  · exact h.poised ⟨rfl, rfl, rfl⟩
  · simp only [cpu_drainNotes]
    exact h
  · exact h.poised ⟨rfl, rfl, rfl⟩
  · exact h
  · exact settled_withBoard h fun b => (b, b.strobe value)
  · exact h
  · exact settled_writeCartridge h address value

theorem cpu_lineStart (m : Machine) (draw : Bool) : (m.lineStart draw).cpu = m.cpu := by
  simp only [lineStart, cpu_drainNotes]

/-- Whatever a machine does, no interrupt waits for a stopped processor. -/
theorem closed_settled : Closed fun m n => m.cpu.Settled → n.cpu.Settled where
  refl := fun _ => id
  trans := fun h h' => h' ∘ h
  cpu := fun _ _ hpoised h => h.poised hpoised
  serve := fun m h => h.servePending m.cart
  jam := fun _ _ _ _ _ => rfl
  read := fun m address h => (m.cpu_read address).symm ▸ h
  write := fun _ address value h => settled_write h address value
  nmi := fun m h => h.nmi m.cart
  irq := fun m h => h.irq m.cart
  clockwork := fun _ _ _ _ _ => id
  lineStart := fun m draw h => (m.cpu_lineStart draw).symm ▸ h
  hblank := fun m vblank h => settled_withBoard h (·.hblank m.view vblank)
  lineEnd := fun _ => id

/-! ### The beam -/

theorem scanline_drainNotes (m : Machine) : m.drainNotes.scanline = m.scanline := by
  unfold drainNotes
  split <;> rfl

theorem scanline_withBoard (m : Machine) (act : Board → Board × List Signal) :
    (m.withBoard act).scanline = m.scanline :=
  congrArg View.scanline (m.view_withBoard act)

theorem scanline_read (m : Machine) (address : UInt16) : (m.read address).2.scanline = m.scanline := by
  unfold read
  split_ifs
  case pos => rfl
  case pos => rfl
  case pos => simp only [scanline_drainNotes]
  all_goals rfl

theorem scanline_write (m : Machine) (address : UInt16) (value : UInt8) :
    (m.write address value).scanline = m.scanline := by
  unfold write
  split_ifs
  · rfl
  · simp only [scanline_drainNotes]
  · rfl
  · rfl
  · exact m.scanline_withBoard fun b => (b, b.strobe value)
  · rfl
  · simp only [writeCartridge]
    split
    · rfl
    · exact m.scanline_withBoard _
    · simp only [poke]
      split_ifs <;> (try split) <;> rfl

/-- The beam rests while a program runs. -/
theorem slice_scanline : ClosedSlice fun m n => n.scanline = m.scanline where
  refl := fun _ => rfl
  trans := fun h h' => h'.trans h
  cpu := fun _ _ _ => rfl
  serve := fun _ => rfl
  jam := fun _ _ _ => rfl
  read := scanline_read
  write := scanline_write

end Machine

/-! ### Histories -/

/-- What a console may be asked to do with nobody touching its bus, its reset button or its cartridge. -/
inductive Call where
  | execute (slice : Int)
  | nmi
  | irq
  | charge (cycles : Int)
  | release
  | frame (draw : Bool)
  | samples (count : Nat)

/-- The machine after a call. -/
def Machine.call (m : Machine) : Call → Machine
  | .execute slice => (m.execute slice).2
  | .nmi => m.mapCpu (·.nmi m.cart)
  | .irq => m.mapCpu (·.irq m.cart)
  | .charge cycles => m.mapCpu (·.charge cycles)
  | .release => m.mapCpu (·.endSlice)
  | .frame draw => m.runFrame draw
  | .samples count => (m.samples count).2

/-- Whatever may become of a console: a happening, a call, another cartridge, or what its host sets. -/
inductive Turn where
  | happening (h : Happening)
  | call (c : Call)
  | insert (cart : Cartridge)
  | host (pads : Controllers) (sound : Sound) (sram : Memory 0x2000) (prng : Xorshift)
    (drawSprites paused : Bool)

namespace Machine

/-- The machine after a turn. -/
def take (m : Machine) : Turn → Machine
  | .happening h => m.meet h
  | .call c => m.call c
  | .insert cart => (m.insert cart).2
  | .host pads sound sram prng drawSprites paused =>
    { m with pads, sound, prng, paused, cart.sram := sram, ppu.drawSprites := drawSprites }

/-- What every console with a cartridge keeps. -/
structure Ready (m : Machine) : Prop where
  plugged : m.hasCartridge = true
  settled : m.cpu.Settled
  beam : m.scanline ≤ linesPerFrame

variable {m n : Machine}

/-- Boards are not unplugged by what they hear. -/
theorem plugged_hears (h : Circuit.Hears m.circuit n.circuit) (hm : m.hasCartridge = true) :
    n.hasCartridge = true := by
  refine h.keeps (P := fun c => c.board.isSome = true) (fun {c cue} _ hc => ?_) hm
  obtain ⟨b, hb⟩ := Option.isSome_iff_exists.mp hc
  rw [Circuit.hear, Circuit.act_some hb, Circuit.board_obeyAll, Option.isSome_some]

namespace Ready

theorem execute (h : m.Ready) (slice : Int) : (m.execute slice).2.Ready where
  plugged := plugged_hears (closed_hears.execute m slice) h.plugged
  settled := closed_settled.execute m slice h.settled
  beam := (slice_scanline.execute m slice).symm ▸ h.beam

theorem runFrame (h : m.Ready) (draw : Bool) : (m.runFrame draw).Ready where
  plugged := plugged_hears (closed_hears.runFrame m draw) h.plugged
  settled := closed_settled.runFrame m draw h.settled
  beam := by
    unfold Machine.runFrame
    split
    · exact h.beam
    · exact (by decide : (0 : Int) ≤ linesPerFrame)

theorem write (h : m.Ready) (address : UInt16) (value : UInt8) : (m.write address value).Ready where
  plugged := plugged_hears (m.hears_write address value) h.plugged
  settled := settled_write h.settled address value
  beam := (m.scanline_write address value).symm ▸ h.beam

theorem read (h : m.Ready) (address : UInt16) : (m.read address).2.Ready where
  plugged := (congrArg Option.isSome (m.board_read address)).trans h.plugged
  settled := (m.cpu_read address).symm ▸ h.settled
  beam := (m.scanline_read address).symm ▸ h.beam

theorem samples (h : m.Ready) (count : Nat) : (m.samples count).2.Ready where
  plugged := h.plugged
  settled := (Cpu.attends_settled m.cart).render m.sound m.cpu count h.settled
  beam := h.beam

theorem withBoard (h : m.Ready) (act : Board → Board × List Signal) : (m.withBoard act).Ready where
  plugged := by
    obtain ⟨b, hb⟩ := Option.isSome_iff_exists.mp h.plugged
    have hcircuit := congrArg Circuit.board (m.circuit_withBoard act)
    rw [Circuit.act_some (c := m.circuit) hb, Circuit.board_obeyAll] at hcircuit
    exact (congrArg Option.isSome hcircuit).trans Option.isSome_some
  settled := settled_withBoard h.settled act
  beam := (m.scanline_withBoard act).symm ▸ h.beam

theorem call (h : m.Ready) (c : Call) : (m.call c).Ready := by
  cases c with
  | execute slice => exact h.execute slice
  | nmi => exact ⟨h.plugged, h.settled.nmi m.cart, h.beam⟩
  | irq => exact ⟨h.plugged, h.settled.irq m.cart, h.beam⟩
  | charge cycles => exact ⟨h.plugged, h.settled.poised ⟨rfl, rfl, rfl⟩, h.beam⟩
  | release => exact ⟨h.plugged, h.settled.poised ⟨rfl, rfl, rfl⟩, h.beam⟩
  | frame draw => exact h.runFrame draw
  | samples count => exact h.samples count

theorem reset (hm : m.hasCartridge = true) (kind : Reset) : (m.reset kind).Ready := by
  obtain ⟨b, hb⟩ := Option.isSome_iff_exists.mp hm
  obtain ⟨view, hboard⟩ := board_reset hb kind
  have hfresh : (m.reset kind).cpu.pending = false ∧ (m.reset kind).scanline = 241 := by
    rw [Machine.reset, if_neg (by simp [hm])]
    exact ⟨rfl, rfl⟩
  exact ⟨by rw [hasCartridge, hboard, Option.isSome_some], fun _ => hfresh.1, by rw [hfresh.2]; decide⟩

/-- Plugging in a cartridge makes a console ready, whatever it was. -/
theorem insert {cart : Cartridge} {b : Board} (hb : Board.ofNumber? cart.mapper = some b) (m : Machine) :
    (m.insert cart).2.Ready := by
  obtain ⟨n, hinsert, hcircuit⟩ := insert_plugs hb m
  have hplugged : n.hasCartridge = true := congrArg (fun c : Circuit => c.board.isSome) hcircuit
  rw [hinsert]
  exact reset hplugged .hard

/-- The processor's part of a snapshot says nothing of stops. -/
theorem restoreBase (h : m.Ready) (body : List UInt8) : (Snapshot.restoreBase m body).Ready := by
  have htaken : ({ m with cpu := Snapshot.restoreCpu m.cpu body, ppu := Snapshot.restorePpu m.ppu body } :
      Machine).Ready := ⟨h.plugged, h.settled.poised ⟨rfl, rfl, rfl⟩, h.beam⟩
  have hwritten := (((htaken.write 0x2000 (body.getD 7 0)).write 0x2001 (body.getD 8 0)).write 0x2006
    (Snapshot.wordAt body Snapshot.addressOffset >>> 8).toUInt8).write 0x2006
    (Snapshot.wordAt body Snapshot.addressOffset).toUInt8
  exact ⟨hwritten.plugged, hwritten.settled, hwritten.beam⟩

theorem restoreWindows (h : m.Ready) (body : List UInt8) : (Snapshot.restoreWindows m body).Ready := by
  simp only [Snapshot.restoreWindows]
  generalize Snapshot.restoreProgram _ _ _ = program
  generalize Snapshot.restorePatterns _ _ _ = patterns
  refine ⟨?_, h.settled, h.beam⟩
  simpa only [hasCartridge, Option.isSome_map] using h.plugged

theorem restoreBlock (h : m.Ready) (b : Block) : (Snapshot.restoreBlock m b).Ready := by
  have hcart (cart : Cartridge) : ({ m with cart } : Machine).Ready := ⟨h.plugged, h.settled, h.beam⟩
  have hsound (sound : Sound) : ({ m with sound } : Machine).Ready := ⟨h.plugged, h.settled, h.beam⟩
  unfold Snapshot.restoreBlock
  split_ifs
  · exact h.restoreBase b.body
  · exact hcart _
  · exact hcart _
  · exact h.restoreWindows b.body
  · exact h
  · exact hsound _
  · exact ⟨h.plugged, h.settled, h.beam⟩

theorem restoreBlocks (h : m.Ready) (blocks : List Block) : (Snapshot.restoreBlocks m blocks).Ready := by
  have hopened : (if blocks.any (·.tag = .sram) then m
      else { m with cart := { m.cart with sram := Memory.zero 0x2000 } } : Machine).Ready := by
    split
    · exact h
    · exact ⟨h.plugged, h.settled, h.beam⟩
  have htaken := List.foldlRecOn (motive := Ready) blocks _ hopened fun _ h b _ => restoreBlock h b
  exact ⟨htaken.plugged, htaken.settled, htaken.beam⟩

theorem loadSnapshot (h : m.Ready) (bytes : List UInt8) : (m.loadSnapshot bytes).2.Ready := by
  rcases m.loadSnapshot_cases bytes with ⟨e, hload, -⟩ | ⟨blocks, -, -, hload, -⟩
  · rw [hload]
    exact h
  · rw [hload]
    exact h.restoreBlocks blocks

theorem after (h : m.Ready) (e : Event) : (m.after e).Ready := by
  cases e with
  | reset kind => exact reset h.plugged kind
  | frame draw => exact h.runFrame draw
  | execute slice => exact h.execute slice
  | read address => exact h.read address
  | write address value => exact h.write address value
  | samples count => exact h.samples count
  | restore bytes => exact h.loadSnapshot bytes

/-- Every turn leaves a console ready. -/
theorem take (h : m.Ready) (t : Turn) : (m.take t).Ready := by
  cases t with
  | happening happening =>
    cases happening with
    | event e => exact h.after e
    | cue cue => exact h.withBoard (·.answer cue)
  | call c => exact h.call c
  | insert cart =>
    cases hb : Board.ofNumber? cart.mapper with
    | none =>
      simp only [Machine.take, Machine.insert, hb]
      exact ⟨h.plugged, h.settled, h.beam⟩
    | some b => exact insert hb m
  | host pads sound sram prng drawSprites paused => exact ⟨h.plugged, h.settled, h.beam⟩

theorem history (h : m.Ready) (turns : List Turn) : (turns.foldl Machine.take m).Ready :=
  List.foldlRecOn (motive := Ready) turns _ h fun _ h t _ => h.take t

end Ready

/-! ### Calls on a stopped machine -/

end Machine

end Famicom
