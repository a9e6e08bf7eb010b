import Famicom.Proofs.Beside
import Famicom.Proofs.Restart

/-!
Plugging in another cartridge. Processor, picture unit and board are new, and a power-on clears the sound unit's
registers and restarts the clockwork. What survives of the sound unit does not show to programs, which leaves the
control byte of the frame timer.

    sound unit    registers, notes     cleared
                  waves, levels, …     survive, unseen
    frame timer   cycles, request      restarted
                  control byte         survives
-/

namespace Famicom

/-- What the status register shows of the sample voice. -/
def SampleVoice.face (v : SampleVoice) : SampleVoice := { enabled := v.enabled, raised := v.raised }

theorem SampleVoice.outlines_face : Outlines face where
  again _ := rfl
  enabled _ := rfl
  raised _ := rfl
  writeControl _ _ := rfl
  writeLevel _ _ := rfl
  writeAddress _ _ := rfl
  writeLength _ _ := rfl
  setEnabled v enabled := by
    simp only [face, setEnabled, restart]
    split_ifs <;> rfl

namespace Sound

/-- What no register changes, all of them leave alone. -/
theorem writeAll_keeps {α : Type} (f : Sound → α) (hf : ∀ s address value, f (write s address value) = f s)
    (s : Sound) (value : Nat → UInt8) : f (s.writeAll value) = f s := by
  unfold writeAll
  rw [hf]
  generalize List.range 0x14 = ns
  induction ns generalizing s with
  | nil => rfl
  | cons n ns ih => rw [List.foldl_cons, ih, hf]

/-- With all voices off there is not more to a unit than its registers, its timing and its chip. -/
theorem outline_off (s : Sound) : (s.writeSwitches 0).outline SampleVoice.face =
    { pulse1 := { control := (s.writeSwitches 0).registers.getD 0 0 }
      pulse2 := { control := (s.writeSwitches 0).registers.getD 4 0 }
      triangle := { linear := (s.writeSwitches 0).registers.getD 8 0 }
      noise := { control := (s.writeSwitches 0).registers.getD 12 0, short := #[], register := 0 }
      timing := (s.writeSwitches 0).timing
      expansion := (s.writeSwitches 0).expansion.map Expansion.outline } := rfl

/-- So programs cannot tell what was played before a reset. -/
theorem outline_reset {s s' : Sound} (htiming : s'.timing = s.timing) (hchip : s'.expansion = s.expansion) :
    s'.reset.outline SampleVoice.face = s.reset.outline SampleVoice.face := by
  have hcleared (s : Sound) : ∃ k : Sound, s.writeAll (fun _ => 0) = k.writeSwitches 0 := ⟨_, rfl⟩
  have hall : (s'.writeAll fun _ => 0).outline SampleVoice.face =
      (s.writeAll fun _ => 0).outline SampleVoice.face := by
    obtain ⟨k, hk⟩ := hcleared s
    obtain ⟨k', hk'⟩ := hcleared s'
    rw [hk, hk', outline_off, outline_off, ← hk, ← hk', registers_writeAll, registers_writeAll,
      writeAll_keeps timing timing_write, writeAll_keeps timing timing_write,
      writeAll_keeps expansion expansion_write, writeAll_keeps expansion expansion_write, htiming, hchip]
  have hreset (s : Sound) : s.reset.outline SampleVoice.face =
      { (s.writeAll fun _ => 0).outline SampleVoice.face with
        expansion := s.expansion.map Expansion.outline } := by
    simp only [reset, outline, Option.map_map, Function.comp_def, Expansion.outline_reset,
      writeAll_keeps expansion expansion_write]
  rw [hreset, hreset, hall, hchip]

end Sound

namespace Machine

/-! ### The clockwork -/

/-- The console at another line, with another account of it and another frame timer. -/
def clocked (m : Machine) (scanline : Int) (lineCycles : Float32) (timer : FrameTimer) : Machine :=
  { m with scanline, lineCycles, timer }

section
variable (m : Machine) (scanline : Int) (lineCycles : Float32) (timer : FrameTimer)

theorem obey_clocked (s : Signal) :
    (m.clocked scanline lineCycles timer).obey s = (m.obey s).clocked scanline lineCycles timer := by
  cases s <;> rfl

theorem obeyAll_clocked (signals : List Signal) : (m.clocked scanline lineCycles timer).obeyAll signals =
    (m.obeyAll signals).clocked scanline lineCycles timer := by
  unfold obeyAll
  induction signals generalizing m with
  | nil => rfl
  | cons s signals ih => rw [List.foldl_cons, List.foldl_cons, obey_clocked, ih]

theorem scramble_clocked : (m.clocked scanline lineCycles timer).scramble =
    m.scramble.clocked scanline lineCycles timer := by
  by_cases h : m.cart.vram.isNone = true
  · rw [scramble_rom h, @scramble_rom (m.clocked scanline lineCycles timer) h]
    rfl
  · have hfilled (bytes : Xorshift → Nat → List UInt8 × Xorshift) :
        (m.clocked scanline lineCycles timer).filled bytes =
          (m.filled bytes).clocked scanline lineCycles timer := rfl
    rw [scramble_ram h, @scramble_ram (m.clocked scanline lineCycles timer) h]
    exact hfilled Xorshift.bytes

end

theorem wiped_clocked (m : Machine) (kind : Reset) (scanline : Int) (lineCycles : Float32)
    (timer : FrameTimer) : (m.clocked scanline lineCycles timer).wiped kind =
      (m.wiped kind).clocked scanline lineCycles timer := by
  unfold wiped
  split
  · exact m.scramble_clocked scanline lineCycles timer
  · rfl

theorem restarted_clocked (m : Machine) (kind : Reset) (scanline : Int) (lineCycles : Float32)
    (timer : FrameTimer) : (m.clocked scanline lineCycles timer).restarted kind =
      (m.restarted kind).clocked scanline lineCycles timer := by
  have hreset : (m.clocked scanline lineCycles timer).ppu.reset (decide (kind = .hard))
      (m.clocked scanline lineCycles timer).prng = m.ppu.reset (decide (kind = .hard)) m.prng := rfl
  unfold restarted
  rw [hreset]
  generalize m.ppu.reset (decide (kind = .hard)) m.prng = r
  rfl

/-- Whatever line it is, a board starts over in the same way. -/
theorem boardInit_clocked (m : Machine) (scanline : Int) (lineCycles : Float32) (timer : FrameTimer) :
    (m.clocked scanline lineCycles timer).boardInit = m.boardInit.clocked scanline lineCycles timer := by
  have hboard : (m.clocked scanline lineCycles timer).board = m.board := rfl
  unfold boardInit withBoard
  rw [hboard]
  split
  · rfl
  case h_2 b _ =>
    have hview := b.init_congr (m.clocked scanline lineCycles timer).view_of m.view_of
    simp only [hview]
    exact obeyAll_clocked { m with board := _ } scanline lineCycles timer _

/-- No stage of a reset but the last touches the clockwork. -/
theorem stages_clocked (m : Machine) (kind : Reset) (scanline : Int) (lineCycles : Float32)
    (timer : FrameTimer) : (((m.clocked scanline lineCycles timer).wiped kind).restarted kind).boardInit =
      ((m.wiped kind).restarted kind).boardInit.clocked scanline lineCycles timer := by
  rw [wiped_clocked, restarted_clocked, boardInit_clocked]

theorem timer_stages (m : Machine) (kind : Reset) :
    ((m.wiped kind).restarted kind).boardInit.timer = m.timer :=
  congrArg (·.timer) (m.stages_clocked kind m.scanline m.lineCycles m.timer)

/-- A reset leaves the control byte of the frame timer as it is. -/
theorem control_reset (m : Machine) (kind : Reset) : (m.reset kind).timer.control = m.timer.control := by
  by_cases h : m.hasCartridge = true
  · have hstill := m.timer_stages kind
    rw [reset_eq h]
    generalize ((m.wiped kind).restarted kind).boardInit = k at hstill ⊢
    rw [← hstill]
    rfl
  · rw [reset, if_pos (by simpa using h)]

/-- It puts all the rest of the clockwork into its first position. -/
theorem reset_clocked {m : Machine} (h : m.hasCartridge = true) (kind : Reset) (scanline : Int)
    (lineCycles : Float32) {timer : FrameTimer} (htimer : timer.control = m.timer.control) :
    (m.clocked scanline lineCycles timer).reset kind = m.reset kind := by
  have h' : (m.clocked scanline lineCycles timer).hasCartridge = true := h
  have hstill := m.timer_stages kind
  rw [reset_eq h, reset_eq h', stages_clocked]
  generalize ((m.wiped kind).restarted kind).boardInit = k at hstill ⊢
  unfold timed clocked
  simp only [hstill, htimer]

/-! ### Plugging in -/

variable {cart : Cartridge} {b : Board} {host host' : Machine}

/-- Whatever was played on two consoles with the same settings, the same cartridge makes them the same to programs. -/
theorem beside_insert (hb : Board.ofNumber? cart.mapper = some b) (hprng : host'.prng = host.prng)
    (htiming : host'.sound.timing = host.sound.timing)
    (hsprites : host'.ppu.drawSprites = host.ppu.drawSprites) (hpads : host'.pads = host.pads)
    (hpaused : host'.paused = host.paused) (hmasked : host'.timer.masked = host.timer.masked) :
    Beside (fun s s' => s'.outline SampleVoice.face = s.outline SampleVoice.face)
      (host.insert cart).2 (host'.insert cart).2 := by
  obtain ⟨log, hm⟩ := insert_eq hb host
  obtain ⟨log', hn⟩ := insert_eq hb host'
  have hclock : ((host'.plug cart b log').clocked host.scanline host.lineCycles
      { host.timer with control := host'.timer.control }).reset .hard =
        (host'.plug cart b log').reset .hard := reset_clocked rfl .hard _ _ rfl
  rw [hm, hn]
  simp only
  rw [← hclock]
  refine Beside.reset (S := fun s s' => s'.timing = s.timing ∧ s'.expansion = s.expansion) ?_ .hard
    (fun hs => Sound.outline_reset hs.1 hs.2) rfl
  have hplugged : (host'.plug cart b log').clocked host.scanline host.lineCycles
      { host.timer with control := host'.timer.control } =
      { host.plug cart b log with
        sound := host'.sound.setChip b.soundChip
        timer := { host.timer with control := host'.timer.control }
        log := log'
        frames := host'.frames } := by
    simp only [plug, clocked, hprng, hsprites, hpads, hpaused]
  rw [hplugged]
  refine .intro log' host'.frames ⟨rfl, rfl, hmasked⟩ ⟨htiming, ?_⟩
  simp only [plug, Sound.setChip, htiming]

/-- Plugging a cartridge in leaves one trace of what was played before: the control byte of the frame timer stays.
Consoles with the same settings on which it masks the interrupt, or does not, are the same to every game that is
plugged in afterwards. -/
theorem insert_forgets (hb : Board.ofNumber? cart.mapper = some b) (hprng : host'.prng = host.prng)
    (htiming : host'.sound.timing = host.sound.timing)
    (hsprites : host'.ppu.drawSprites = host.ppu.drawSprites) (hpads : host'.pads = host.pads)
    (hpaused : host'.paused = host.paused) :
    (host.insert cart).2.timer.control = host.timer.control ∧
      (host'.timer.masked = host.timer.masked → ∀ draws : List Bool,
        let m := draws.foldl runFrame (host.insert cart).2
        let n := draws.foldl runFrame (host'.insert cart).2
        n.cpu = m.cpu ∧ n.cart = m.cart ∧ n.ppu = m.ppu) := by
  refine ⟨?_, fun hmasked draws => ?_⟩
  · obtain ⟨log, hm⟩ := insert_eq hb host
    rw [hm]
    simp only
    exact control_reset (host.plug cart b log) .hard
  · have hframes : ∀ {m n : Machine},
        Beside (fun s s' => s'.outline SampleVoice.face = s.outline SampleVoice.face) m n →
        Beside (fun s s' => s'.outline SampleVoice.face = s.outline SampleVoice.face)
          (draws.foldl runFrame m) (draws.foldl runFrame n) := by
      induction draws with
      | nil => exact id
      | cons draw draws ih =>
        exact fun h => ih ((h.runFrame (Sound.covert_outline SampleVoice.outlines_face) draw).beside
          ((h.runFrame (Sound.covert_outline SampleVoice.outlines_face) draw).candid
            (Sound.candid_outline SampleVoice.outlines_face)))
    have h := hframes (beside_insert hb hprng htiming hsprites hpads hpaused hmasked)
    exact ⟨h.cpu, h.cart, h.ppu⟩

/-- A console on which all voices were switched on, and one that has just been unpacked. -/
theorem insert_forgets_voices :
    let host : Machine := {}
    let host' := (host.write 0x4017 0x3F).write 0x4015 0x1F
    ∀ draws : List Bool,
      let m := draws.foldl runFrame (host.insert (.blank 0)).2
      let n := draws.foldl runFrame (host'.insert (.blank 0)).2
      n.cpu = m.cpu ∧ n.cart = m.cart ∧ n.ppu = m.ppu := by
  have hnumber : Board.ofNumber? (Cartridge.blank 0).mapper = some (.latch .nrom) := rfl
  have hused (m : Machine) : (m.write 0x4017 0x3F).write 0x4015 0x1F =
      { m with sound := m.sound.writeSwitches 0x1F, timer := m.timer.write 0x3F } := rfl
  have hmasked (t : FrameTimer) : (t.write 0x3F).masked = false :=
    show ((0x3F : UInt8) &&& 0xC0 != 0) = false by decide
  have hforgets (m : Machine) := @insert_forgets (.blank 0) (.latch .nrom) m
    { m with sound := m.sound.writeSwitches 0x1F, timer := m.timer.write 0x3F } hnumber rfl rfl rfl rfl rfl
  intro host host'
  have hhost : host' = _ := hused host
  have hfresh : host.timer.masked = false := show FrameTimer.masked {} = false by decide
  rw [hhost]
  exact (hforgets host).2 ((hmasked host.timer).trans hfresh.symm)

end Machine

end Famicom
