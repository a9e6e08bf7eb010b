import Famicom.Proofs.BusWrites
import Famicom.Proofs.Mmc3InStep
import Mathlib.Data.List.Induction

/-!
The MMC3's fixed windows, against the commands that programs write. The board only moves the second-last bank when
the swap bit changes, and the windows still are where the last command alone would put them:

    written         $8000-9FFF    $C000-DFFF    $E000-FFFF
    nothing yet     bank 6        -2            -1
    bit 6 clear     bank 6        -2            -1
    bit 6 set       -2            bank 6        -1

The invariant links the command register to the bytes on the bus (`Machine.Commanded`), whether a host, a slice
or a frame writes them. A reset powers the board on again, with command 0.
-/

namespace Famicom

/-- Something that happens to a machine, or to its board alone. -/
inductive Incident where
  | event (e : Event)
  | access (a : Access)

namespace Incident

/-- It takes no snapshot over. -/
def isNative : Incident → Bool
  | .event e => e.isNative
  | .access _ => true

/-- It powers the board on. -/
def isReset : Incident → Bool
  | .event (.reset _) => true
  | _ => false

/-- What is written meanwhile. -/
def writes (m : Machine) : Incident → List BusWrite
  | .event (.write address value) => [(address, value)]
  | .event (.frame draw) => m.frameWrites draw
  | .event (.execute slice) => m.sliceWrites slice
  | .access (.write address value) => [(address, value)]
  | _ => []

end Incident

namespace Machine

/-- The machine after an incident. -/
def undergo (m : Machine) : Incident → Machine
  | .event e => m.after e
  | .access a => m.access a

/-- What has been written since the last power-on, these bytes before the history. -/
def written (m : Machine) (before : List BusWrite) : List Incident → List BusWrite
  | [] => before
  | i :: history => (m.undergo i).written (if i.isReset then [] else before ++ i.writes m) history

end Machine

namespace Mmc3

/-! ### Commands -/

/-- The address selects the command register. -/
def IsCommand (address : UInt16) : Prop := address &&& 0xE001 = 0x8000

instance (address : UInt16) : Decidable (IsCommand address) := inferInstanceAs (Decidable (_ = _))

/-- The last byte written to the command register, 0 if there is none. -/
def lastCommand (ws : List BusWrite) : UInt8 :=
  ((ws.filter fun w => IsCommand w.1).getLast?.map Prod.snd).getD 0

/-- The command after one more byte on the bus. -/
def told (command : UInt8) (w : BusWrite) : UInt8 := if IsCommand w.1 then w.2 else command

theorem lastCommand_append (ws later : List BusWrite) :
    lastCommand (ws ++ later) = later.foldl told (lastCommand ws) := by
  induction later using List.reverseRecOn with
  | nil => rw [List.append_nil, List.foldl_nil]
  | append_singleton later w ih =>
    rw [List.foldl_append, ← ih, ← List.append_assoc, lastCommand, List.filter_append]
    by_cases h : IsCommand w.1 <;> simp [told, h, lastCommand]

/-- The board listens wherever the command register is. -/
theorem IsCommand.inRom {address : UInt16} (h : IsCommand address) : 0x8000 ≤ address := by
  have hmasked : address.toNat &&& 0xE001 = 0x8000 := by
    rw [← show (0xE001 : UInt16).toNat = 0xE001 from rfl, ← UInt16.toNat_and, h]
    rfl
  have hle : address.toNat &&& 0xE001 ≤ address.toNat := Nat.and_le_left
  rw [UInt16.le_iff_toNat_le]
  simp only [UInt16.reduceToNat]
  omega

/-- The command after a cue. -/
def heard (command : UInt8) : Cue → UInt8
  | .write _ address value => told command (address, value)
  | _ => command

end Mmc3

open Mmc3 (IsCommand told lastCommand)

/-- The command register takes what is written there, and nothing else. -/
theorem Circuit.HasMmc3.hear_command {c : Circuit} {s : Mmc3} (h : c.HasMmc3 s) {cue : Cue}
    (hcue : cue.Fits c.rom) :
    ∃ s', (c.hear cue).HasMmc3 s' ∧ s'.command = Mmc3.heard s.command cue := by
  obtain ⟨s', h'⟩ := h.hear hcue
  have hanswer : some (Board.mmc3 s') = some ((Board.mmc3 s).answer cue).1 := by
    rw [← h'.board, Circuit.hear, act_some h.board, board_obeyAll]
  have hboard := Option.some.inj hanswer
  refine ⟨s', h', ?_⟩
  cases cue with
  | write view address value =>
    obtain rfl : s' = (s.write view address value).1 := Board.mmc3.inj hboard
    exact s.command_write view address value
  | hblank view vblank =>
    obtain rfl : s' = (s.hblank view vblank).1 := Board.mmc3.inj hboard
    exact s.command_hblank view vblank
  | strobe value => exact congrArg Mmc3.command (Board.mmc3.inj hboard)
  | drawn base tile => exact congrArg Mmc3.command (Board.mmc3.inj hboard)

namespace Machine

/-! ### Programs -/

/-- What the MMC3 hears of a write tells it the command. -/
theorem heard_told {m : Machine} {s : Mmc3} (hsilent : m.sound.expansion = none)
    (hboard : m.board = some (.mmc3 s)) (command : UInt8) (w : BusWrite) :
    (m.heard w.1 w.2).elim command (Mmc3.heard command) = told command w := by
  rw [m.heard_of_silent hsilent hboard, told]
  by_cases hport : IsCommand w.1
  · have hlow : 0x8000 ≤ w.1.toNat := UInt16.le_iff_toNat_le.mp hport.inRom
    have hstrobe : w.1 ≠ 0x4016 := fun h => absurd (h ▸ hlow) (by decide)
    have hhigh : 0x4017 < w.1 := UInt16.lt_iff_toNat_lt.mpr (Nat.lt_of_lt_of_le (by decide) hlow)
    have hlistens : covered (Board.mmc3 s).writeRanges w.1 = true := covered_romRange hport.inRom
    rw [if_neg hstrobe, if_pos ⟨hhigh, hlistens⟩]
    rfl
  · split_ifs
    · rfl
    · exact if_neg hport
    · rfl

/-- The windows `w` and `w + 1` show this bank of 8KB. -/
def ShowsProgram (m : Machine) (w bank : Nat) : Prop :=
  ∀ i < 2, m.cpu.pages.page (w + i) = ⟨.prg, bank * 0x2000 + i * 0x1000⟩

/-- The machine is powered, its board is the MMC3 with its invariants, and the command register holds this. -/
structure Commanded (cart : Cartridge) (command : UInt8) (m : Machine) : Prop where
  powered : m.layout.Powered cart
  board : ∃ s, m.circuit.HasMmc3 s ∧ s.command = command

namespace Commanded

variable {cart : Cartridge} {command : UInt8} {m n : Machine}

theorem rest (h : Commanded cart command m) (hrests : Rests m n) : Commanded cart command n :=
  ⟨hrests.layout ▸ h.powered, hrests.circuit ▸ h.board⟩

theorem plain (h : Commanded cart command m) : Plain m := by
  obtain ⟨s, hs, -⟩ := h.board
  intro b hb
  obtain rfl : Board.mmc3 s = b := Option.some.inj (hs.board.symm.trans hb)
  exact (by decide : (4 : UInt8) ≠ 9)

/-- The board hears a cue, and nothing else happens to layout and circuit. -/
theorem hear (h : Commanded cart command m) (hpowered : n.layout.Powered cart) (cue : Cue)
    (hcue : cue.Fits m.circuit.rom) (hcircuit : n.circuit = m.circuit.hear cue) :
    Commanded cart (Mmc3.heard command cue) n := by
  obtain ⟨s, hs, rfl⟩ := h.board
  exact ⟨hpowered, hcircuit ▸ hs.hear_command hcue⟩

theorem hblank (h : Commanded cart command m) (vblank : Bool) : Commanded cart command (m.boardHblank vblank) :=
  h.hear ((m.layout_boardHblank vblank).symm ▸ h.powered) (.hblank m.view vblank) m.view_of
    (m.circuit_withBoard _)

variable (hw : cart.WellFormed) (hmapper : cart.mapper = 4)
include hw hmapper

theorem write (h : Commanded cart command m) (w : BusWrite) :
    Commanded cart (told command w) (m.write w.1 w.2) := by
  obtain ⟨s, hs, -⟩ := h.board
  have hsilent : m.sound.expansion = none := m.expansion_none h.powered.toPlugged (hmapper ▸ rfl)
  have hpowered : (m.write w.1 w.2).layout.Powered cart := h.powered.moves hw (m.moves_write w.1 w.2)
  have hcircuit := m.circuit_write w.1 w.2
  rw [← heard_told hsilent hs.board command w]
  cases hcue : m.heard w.1 w.2 with
  | some cue =>
    rw [hcue] at hcircuit
    exact h.hear hpowered cue (m.heard_fits hcue) hcircuit
  | none =>
    rw [hcue] at hcircuit
    exact ⟨hpowered, hcircuit.symm ▸ h.board⟩

/-- Whatever is written over the bus, the command is the last one. -/
theorem follows : Follows (Commanded cart) told where
  rest := fun hrests h => h.rest hrests
  write := fun w h => h.write hw hmapper w
  lineStart := fun draw h => h.rest (.lineStart h.plain draw)
  hblank := fun vblank h => h.hblank vblank

omit hmapper in
theorem reset (h : Commanded cart command m) (kind : Reset) : Commanded cart 0 (m.reset kind) := by
  obtain ⟨k, hk, -, hsize⟩ := hw.prg
  obtain ⟨s, hs, -⟩ := h.board
  obtain ⟨view, -, hreset⟩ := m.circuit_reset kind h.powered.hasCartridge
  have hprg : m.circuit.rom.prg.size = k * 0x4000 := h.powered.prgSize.trans hsize
  refine ⟨reset_powered hw kind h.powered.toPlugged, {}, ?_, rfl⟩
  rw [hreset]
  exact Circuit.hasMmc3_init hk hprg hs.board view

omit hmapper in
theorem access (h : Commanded cart command m) (a : Access) :
    Commanded cart (((Incident.access a).writes m).foldl told command) (m.access a) := by
  cases a with
  | write address value =>
    exact h.hear (h.powered.moves hw (m.moves_boardWrite address value)) (.write m.view address value)
      m.view_of (m.circuit_withBoard _)
  | hblank rendering vblank =>
    let view := { m.view with rendering }
    have hlayout : (m.access (.hblank rendering vblank)).layout = m.layout := m.layout_hblank view vblank
    exact h.hear (hlayout.symm ▸ h.powered) (.hblank view vblank) ⟨rfl, rfl⟩ (m.circuit_withBoard _)

/-- An incident: the command is the last one written, and a reset makes it 0. -/
theorem undergo (h : Commanded cart command m) {i : Incident} (hi : i.isNative = true) :
    Commanded cart (if i.isReset then 0 else (i.writes m).foldl told command) (m.undergo i) := by
  cases i with
  | access a => exact h.access hw a
  | event e =>
    cases e with
    | reset kind => exact h.reset hw kind
    | frame draw => exact (follows hw hmapper).runFrame draw h
    | execute slice => exact (follows hw hmapper).execute slice h
    | read address => exact h.rest (.read m address)
    | write address value => exact h.write hw hmapper (address, value)
    | samples count =>
      exact ⟨h.powered.moves hw (m.moves_samples count), (m.circuit_samples count).symm ▸ h.board⟩
    | restore bytes => exact absurd hi Bool.false_ne_true

/-- A history. -/
theorem run (before : List BusWrite) (h : Commanded cart (lastCommand before) m) {history : List Incident}
    (hnative : ∀ i ∈ history, i.isNative = true) :
    Commanded cart (lastCommand (m.written before history)) (history.foldl Machine.undergo m) := by
  induction history generalizing m before with
  | nil => exact h
  | cons i history ih =>
    obtain ⟨hi, hrest⟩ := List.forall_mem_cons.mp hnative
    have hlast : lastCommand (if i.isReset then [] else before ++ i.writes m) =
        if i.isReset then 0 else (i.writes m).foldl told (lastCommand before) := by
      rw [← Mmc3.lastCommand_append]
      exact apply_ite lastCommand _ _ _
    exact ih _ (hlast ▸ h.undergo hw hmapper hi) hrest

omit hmapper in
/-- What the command says about the windows. -/
theorem windows (h : Commanded cart command m) :
    m.ShowsProgram 14 (cart.prg.size / 0x2000 - 1) ∧
      m.ShowsProgram (Mmc3.fixedWindow command) (cart.prg.size / 0x2000 - 2) ∧
      ∃ s, m.board = some (.mmc3 s) ∧ s.prgSwap = command &&& 0x40 := by
  obtain ⟨k, hk, -, hsize⟩ := hw.prg
  obtain ⟨s, hs, rfl⟩ := h.board
  have hprg : m.circuit.rom.prg.size = cart.prg.size := h.powered.prgSize
  have hlast := hs.shown.last
  have hsecond := hs.shown.second
  rw [hprg] at hlast hsecond
  unfold PageTable.ShowsAt at hlast hsecond
  have htwo : 2 ≤ cart.prg.size / 0x2000 := by omega
  generalize cart.prg.size / 0x2000 = banks at hlast hsecond htwo ⊢
  have hwrap : wrapBank ((banks : Int) - 2) banks = banks - 2 := by
    rw [show (banks : Int) - 2 = ((banks - 2 : Nat) : Int) by omega, wrapBank_natCast, Nat.max_eq_left (by omega),
      Nat.mod_eq_of_lt (by omega)]
  rw [Circuit.wrapBank_last (by omega)] at hlast
  rw [hwrap] at hsecond
  exact ⟨hlast, hsecond, s, hs.board, hs.tuned.prgSwap⟩

end Commanded

variable {cart : Cartridge}

theorem commanded_insert (hw : cart.WellFormed) (hmapper : cart.mapper = 4) (m₀ : Machine) :
    Commanded cart 0 (m₀.insert cart).2 :=
  ⟨insert_powered hw m₀, {}, (hasMmc3_insert hw hmapper m₀).1, rfl⟩

/-- The fixed windows of the MMC3, whatever is written by a host or by programs, however lines end, and after any
resets, each of which powers the board on with command 0: $E000-$FFFF shows the last bank of 8KB, and the
second-last one is shown where the last command puts it. -/
theorem mmc3_fixed_windows (hw : cart.WellFormed) (hmapper : cart.mapper = 4) (m₀ : Machine)
    {history : List Incident} (hnative : ∀ i ∈ history, i.isNative = true) :
    let start := (m₀.insert cart).2
    let m := history.foldl undergo start
    let command := lastCommand (start.written [] history)
    let banks := cart.prg.size / 0x2000
    m.ShowsProgram 14 (banks - 1) ∧
      (command &&& 0x40 = 0 → m.ShowsProgram 12 (banks - 2)) ∧
      (command &&& 0x40 ≠ 0 → m.ShowsProgram 8 (banks - 2)) ∧
      ∃ s, m.board = some (.mmc3 s) ∧ s.prgSwap = command &&& 0x40 := by
  intro start m command banks
  have hrun : Commanded cart command m := (commanded_insert hw hmapper m₀).run hw hmapper [] hnative
  obtain ⟨hlast, hsecond, hswap⟩ := hrun.windows hw
  refine ⟨hlast, fun hclear => ?_, fun hset => ?_, hswap⟩
  · have hwindow : Mmc3.fixedWindow command = 12 := if_pos hclear
    exact hwindow ▸ hsecond
  · have hwindow : Mmc3.fixedWindow command = 8 := if_neg hset
    exact hwindow ▸ hsecond

/-- A command through a mirror of its register, after a reset and a line, fixes the second-last bank at $8000. -/
theorem mmc3_fixed_windows_swapped :
    let history : List Incident := [.event (.write 0x8000 7), .event (.reset .soft), .access (.hblank true false),
      .event (.write 0x9FFE 0x46), .event (.write 0x8001 1)]
    let m := history.foldl undergo ((default : Machine).insert (Cartridge.blank 4)).2
    m.ShowsProgram 14 1 ∧ m.ShowsProgram 8 0 ∧ ∃ s, m.board = some (.mmc3 s) ∧ s.prgSwap = 0x40 := by
  intro history m
  have hw : (Cartridge.blank 4).WellFormed := Cartridge.blank_wellFormed (by decide)
  have hnative : ∀ i ∈ history, i.isNative = true := by simp [history, Incident.isNative, Event.isNative]
  have hcommand : lastCommand (((default : Machine).insert (Cartridge.blank 4)).2.written [] history) = 0x46 := rfl
  have hbanks : (Cartridge.blank 4).prg.size / 0x2000 = 2 := by
    rw [show (Cartridge.blank 4).prg.size = 0x4000 from Array.size_replicate]
  obtain ⟨hlast, -, hsecond, hswap⟩ := mmc3_fixed_windows hw rfl default hnative
  rw [hcommand] at hsecond hswap
  rw [hbanks] at hlast hsecond
  exact ⟨hlast, hsecond (by decide), hswap⟩

end Machine

end Famicom
