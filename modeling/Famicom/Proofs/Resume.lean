import Famicom.Proofs.Container
import Famicom.Proofs.WindowsBlock

/-!
What a snapshot brings back. A machine that takes over the snapshot of another one with the same
cartridge goes on with the other's registers and memories, and sees the same program and the same
patterns.

    block    what it brings back                         what it leaves
    BASR     registers, RAM, sprites, nametables         program and pattern windows
    VRAM     pattern RAM                                 everything else
    SRAM     battery RAM, zero if the block is missing   everything else
    SOUN     the sound unit's registers                  everything else
    MPRD     program and pattern windows                 registers and memories
-/

namespace Famicom

/-- The machine goes on where the first one was: same registers, same memories, same view of the
ROMs. -/
structure Machine.Resumes (m n : Machine) : Prop where
  cpu : Cpu.SameState m.cpu n.cpu
  ppu : Ppu.SameState m.ppu n.ppu
  sram : n.cart.sram = m.cart.sram
  vram : n.cart.vram = m.cart.vram
  sound : n.sound.registers = m.sound.registers
  program : ∀ address, 0x8000 ≤ address → (n.read address).1 = (m.read address).1
  patterns : ∀ address, address < 0x2000 → n.ppu.read n.cart address = m.ppu.read m.cart address

namespace Snapshot

/-! ### Blocks -/

section
variable (n : Machine) (body : List UInt8)

theorem restoreBlock_base : restoreBlock n ⟨.base, body⟩ = restoreBase n body := if_pos rfl

theorem restoreBlock_vram :
    restoreBlock n ⟨.vram, body⟩ = { n with cart := restoreVram n.cart body } := by
  dsimp only [restoreBlock]
  rw [if_neg (by decide), if_pos rfl]

theorem restoreBlock_sram :
    restoreBlock n ⟨.sram, body⟩ = { n with cart := restoreSram n.cart body } := by
  dsimp only [restoreBlock]
  rw [if_neg (by decide), if_neg (by decide), if_pos rfl]

theorem restoreBlock_board : restoreBlock n ⟨.board, body⟩ = restoreWindows n body := by
  dsimp only [restoreBlock]
  rw [if_neg (by decide), if_neg (by decide), if_neg (by decide), if_pos rfl]

theorem restoreBlock_sound :
    restoreBlock n ⟨.sound, body⟩ = { n with sound := restoreSound n.sound body } := by
  dsimp only [restoreBlock]
  rw [if_neg (by decide), if_neg (by decide), if_neg (by decide), if_neg (by decide),
    if_neg (by decide), if_pos rfl]

end

/-- Battery RAM without a block is all zero. -/
theorem sram_of_noBlock {cart : Cartridge} (h : sramBlocks cart = []) :
    cart.sram = Memory.zero 0x2000 := by
  have hzero : ∀ b ∈ cart.sram.toList, b = 0 := by
    intro b hb
    refine Classical.byContradiction fun hne => ?_
    have hany : cart.sram.toList.any (· != 0) = true := List.any_eq_true.mpr ⟨b, hb, bne_iff_ne.mpr hne⟩
    rw [sramBlocks, if_pos hany] at h
    exact absurd h (List.cons_ne_nil _ _)
  apply Vector.toList_inj.mp
  rw [List.eq_replicate_of_mem hzero, Vector.length_toList, Memory.zero, Memory.filled,
    Vector.toList_replicate]

/-- Taking over the blocks of battery RAM, into a memory that is zero if there are none. -/
theorem foldl_sramBlocks (cart : Cartridge) (n : Machine)
    (h : sramBlocks cart = [] → n.cart.sram = Memory.zero 0x2000) :
    (sramBlocks cart).foldl restoreBlock n = { n with cart := { n.cart with sram := cart.sram } } := by
  by_cases hblocks : sramBlocks cart = []
  · rw [hblocks, sram_of_noBlock hblocks, ← h hblocks]
    rfl
  · have hone : sramBlocks cart = [⟨.sram, 1 :: cart.sram.toList⟩] := by
      unfold sramBlocks at hblocks ⊢
      split at hblocks
      case isTrue hany => exact if_pos hany
      case isFalse => exact absurd rfl hblocks
    rw [hone, List.foldl_cons, List.foldl_nil, restoreBlock_sram, restoreSram]
    simp only [List.drop_one, List.tail_cons, Memory.overlay_toList]

/-- The block of pattern RAM, where there is any. -/
def vramBlocks (cart : Cartridge) : List Block :=
  match cart.vram with
  | some vram => [⟨.vram, vram.toList⟩]
  | none => []

theorem foldl_vramBlocks (cart : Cartridge) (n : Machine) (h : n.cart.vram.isSome = cart.vram.isSome) :
    (vramBlocks cart).foldl restoreBlock n = { n with cart := { n.cart with vram := cart.vram } } := by
  unfold vramBlocks
  cases hcart : cart.vram with
  | none =>
    have hnone : n.cart.vram = none := by simpa [hcart] using h
    simp only [List.foldl_nil, ← hnone]
  | some v =>
    obtain ⟨u, hu⟩ := Option.isSome_iff_exists.mp (h.trans (by rw [hcart]; rfl))
    rw [List.foldl_cons, List.foldl_nil, restoreBlock_vram, restoreVram, hu, Option.map_some,
      Memory.overlay_toList]

/-- The machine with another one's memories of the cartridge and registers of sound. -/
def refilled (m n : Machine) : Machine :=
  { n with
    cart := { n.cart with vram := m.cart.vram, sram := m.cart.sram }
    sound := restoreSound n.sound m.sound.registers }

/-- The machine after another one's blocks, but for the remark in the log. -/
def resumed (m n : Machine) : Machine :=
  if m.cart.mapper = 0 then refilled m n else restoreWindows (refilled m n) (windowsBody m)

theorem blocks_eq (m : Machine) : blocks m =
    ⟨.base, baseBody m⟩ :: (vramBlocks m.cart ++ (sramBlocks m.cart ++ (⟨.sound, m.sound.registers⟩ ::
      if m.cart.mapper = 0 then [] else [⟨.board, windowsBody m⟩]))) := by
  cases hvram : m.cart.vram <;> simp [blocks, vramBlocks, hvram]

/-- Taking a machine's blocks over, into battery RAM that is zero if there is no block of it. -/
theorem foldl_blocks (m n : Machine) (hvram : n.cart.vram.isSome = m.cart.vram.isSome)
    (hsram : sramBlocks m.cart = [] → n.cart.sram = Memory.zero 0x2000) :
    (blocks m).foldl restoreBlock n = resumed m (restoreBase n (baseBody m)) := by
  have hcart : (restoreBase n (baseBody m)).cart = n.cart := (restoreBase_setUp n (baseBody m)).1.cart
  rw [blocks_eq, List.foldl_cons, restoreBlock_base]
  generalize restoreBase n (baseBody m) = k at hcart ⊢
  rw [← hcart] at hvram hsram
  rw [List.foldl_append, foldl_vramBlocks _ _ hvram, List.foldl_append,
    foldl_sramBlocks _ _ (by exact hsram), List.foldl_cons, restoreBlock_sound]
  unfold resumed
  split
  · rfl
  · rw [List.foldl_cons, List.foldl_nil, restoreBlock_board]
    rfl

theorem length_windowsBody (m : Machine) : (windowsBody m).length ≤ 152 := by
  have hbytes : (boardBytes m.board).length ≤ 128 := List.length_take_le _ _
  simp [windowsBody, wordBytes, List.range, List.range.loop]
  omega

/-- A machine's blocks fit into the container. -/
theorem length_blocks (m : Machine) : (blocks m).length < 0x100000000 ∧
    ∀ b ∈ blocks m, b.body.length < 0x100000000 := by
  have hvram :
      (vramBlocks m.cart).length ≤ 1 ∧ ∀ b ∈ vramBlocks m.cart, b.body.length < 0x100000000 := by
    unfold vramBlocks
    split <;> simp
  have hsram :
      (sramBlocks m.cart).length ≤ 1 ∧ ∀ b ∈ sramBlocks m.cart, b.body.length < 0x100000000 := by
    unfold sramBlocks
    split <;> simp
  have hboard :
      (if m.cart.mapper = 0 then [] else [⟨.board, windowsBody m⟩] : List Block).length ≤ 1 := by
    split <;> simp
  rw [blocks_eq]
  refine ⟨?_, fun b hb => ?_⟩
  · simp only [List.length_cons, List.length_append]
    omega
  · simp only [List.mem_cons, List.mem_append] at hb
    rcases hb with rfl | hb | hb | rfl | hb
    · simp [baseBody, wordBytes]
    · exact hvram.2 b hb
    · exact hsram.2 b hb
    · simp [Sound.registers]
    · split at hb
      · exact absurd hb List.not_mem_nil
      · obtain rfl := List.mem_singleton.mp hb
        exact Nat.lt_of_le_of_lt (length_windowsBody m) (by decide)

/-! ### Resuming -/

open Layout (Native)

/-- Same registers, same memories and the same view through the windows: the machine goes on. -/
theorem resumes_of_windows {m k : Machine} (cpu : Cpu.SameState m.cpu k.cpu)
    (ppu : Ppu.SameState m.ppu k.ppu) (sram : k.cart.sram = m.cart.sram)
    (vram : k.cart.vram = m.cart.vram) (sound : k.sound.registers = m.sound.registers)
    (hprg : k.cart.prg = m.cart.prg) (hchr : k.cart.chr = m.cart.chr)
    (hsame : SameProgram m.cart.prg.size m.cpu.pages k.cpu.pages)
    (hview : SamePatterns m.ppu.pages k.ppu.pages)
    (hshow : ∀ w < 8, ShowsPattern m.cart.chr.size w (m.ppu.pages.page w)) : m.Resumes k where
  cpu := cpu
  ppu := ppu
  sram := sram
  vram := vram
  sound := sound
  program := fun _ ha => hsame.read hprg ha
  patterns := fun _ ha => hview.read hshow hchr vram ha

/-- A machine with the same cartridge has the same ROMs, and its registers do not change them. -/
theorem rom_restoreBase {cart : Cartridge} {m n : Machine} (hm : m.layout.Plugged cart)
    (hn : n.layout.Plugged cart) : (restoreBase n (baseBody m)).cart.rom = m.cart.rom := by
  rw [(restoreBase_setUp n (baseBody m)).1.cart]
  exact hn.rom.trans hm.rom.symm

/-- Taken over, the blocks show the same program and the same patterns. -/
theorem windows_back {cart : Cartridge} {m n : Machine} (hm : m.layout.Native cart)
    (hn : n.layout.Native cart) (hw : cart.WellFormed) :
    SameProgram m.cart.prg.size m.cpu.pages (resumed m (restoreBase n (baseBody m))).cpu.pages ∧
      SamePatterns m.ppu.pages (resumed m (restoreBase n (baseBody m))).ppu.pages := by
  obtain ⟨hprogram, hpatterns⟩ := restoreBase_windows n (baseBody m)
  have hrestored := rom_restoreBase hm.toPlugged hn.toPlugged
  generalize restoreBase n (baseBody m) = k at hprogram hpatterns hrestored ⊢
  have hrom : n.cart.rom = m.cart.rom := hn.rom.trans hm.rom.symm
  have hprg : k.cart.prg = m.cart.prg := congrArg (·.prg) hrestored
  have hchr : k.cart.chr = m.cart.chr := congrArg (·.chr) hrestored
  have hsize : m.cart.prg.size = cart.prg.size := hm.prgSize
  have hchrSize : m.cart.chr.size = cart.chr.size := hm.chrSize
  have hshow : ∀ w < 8, ShowsPattern m.cart.chr.size w (m.ppu.pages.page w) :=
    hchrSize ▸ hm.picture.pattern
  unfold resumed
  split
  case isTrue h0 =>
    have hmapper : cart.mapper = 0 := (congrArg Cartridge.mapper hm.rom).symm.trans h0
    have hsame : SameProgram m.cart.prg.size m.cpu.pages k.cpu.pages := by
      rw [hprogram, hsize]
      exact sameProgram_still hm.program (hm.still hmapper) (hn.still hmapper) hrom
    exact ⟨hsame, fun w hw =>
      (hpatterns w hw).trans (samePatterns_still (hm.still hmapper) (hn.still hmapper) hrom w hw)⟩
  case isFalse =>
    have hsame : SameProgram m.cart.prg.size m.cpu.pages
        (restoreProgram k.cpu.pages k.cart.prg.size (windowsBody m)) := by
      rw [hprg, hsize]
      exact sameProgram_restore hw.prg hm.program k.cpu.pages
    have hview :
        SamePatterns m.ppu.pages (restorePatterns k.ppu.pages (refilled m k).cart (windowsBody m)) :=
      samePatterns_restore hchr (hchrSize ▸ hw.chr) hshow _
    exact ⟨hsame, hview⟩

/-- A machine that has taken over another one's blocks goes on where the other was. -/
theorem resumes_resumed {cart : Cartridge} {m n : Machine} (hm : m.layout.Native cart)
    (hn : n.layout.Native cart) (hw : cart.WellFormed) :
    m.Resumes (resumed m (restoreBase n (baseBody m))) := by
  obtain ⟨hcpu, hppu⟩ := restoreBase_same m n hm.palette
  obtain ⟨hsame, hview⟩ := windows_back hm hn hw
  have hrestored := rom_restoreBase hm.toPlugged hn.toPlugged
  generalize restoreBase n (baseBody m) = k at hcpu hppu hsame hview hrestored ⊢
  have hprg : k.cart.prg = m.cart.prg := congrArg (·.prg) hrestored
  have hchr : k.cart.chr = m.cart.chr := congrArg (·.chr) hrestored
  have hsound : (restoreSound k.sound m.sound.registers).registers = m.sound.registers :=
    Sound.registers_restored k.sound m.sound hm.level
  have hchrSize : m.cart.chr.size = cart.chr.size := hm.chrSize
  have hshow : ∀ w < 8, ShowsPattern m.cart.chr.size w (m.ppu.pages.page w) :=
    hchrSize ▸ hm.picture.pattern
  unfold resumed at hsame hview ⊢
  split at hsame
  case isTrue h0 =>
    rw [if_pos h0] at hview ⊢
    exact resumes_of_windows (k := refilled m k) hcpu hppu rfl rfl hsound hprg hchr hsame hview hshow
  case isFalse h0 =>
    rw [if_neg h0] at hview ⊢
    exact resumes_of_windows (k := restoreWindows (refilled m k) (windowsBody m)) (hcpu.withPages _)
      (hppu.withPages _) rfl rfl hsound hprg hchr hsame hview hshow

/-- A cartridge with the memories of another one that has the same ROM. -/
theorem rom_refilled {cart cart' : Cartridge} (h : cart'.rom = cart.rom) :
    { cart' with vram := cart.vram, sram := cart.sram }.rom = cart.rom := by
  show { cart'.rom with vram := cart.rom.vram } = cart.rom
  rw [h]

/-- Taken over, the blocks leave the same ROMs, and the board with what the other one kept. -/
theorem board_back {cart : Cartridge} {m n : Machine} (hm : m.layout.Plugged cart)
    (hn : n.layout.Plugged cart) (hmapper : cart.mapper ≠ 0) {b : Board} (hb : n.board = some b) :
    (resumed m (restoreBase n (baseBody m))).board = some (b.load (keptByte m)) ∧
      (resumed m (restoreBase n (baseBody m))).cart.rom = m.cart.rom := by
  have hboard : (restoreBase n (baseBody m)).board = some b :=
    (restoreBase_setUp n (baseBody m)).1.board.trans hb
  have hrestored := rom_restoreBase hm hn
  have hnumber : m.cart.mapper ≠ 0 := by rwa [show m.cart.mapper = cart.mapper from congrArg (·.mapper) hm.rom]
  generalize restoreBase n (baseBody m) = k at hboard hrestored ⊢
  rw [resumed, if_neg hnumber]
  refine ⟨?_, rom_refilled hrestored⟩
  show k.board.map _ = _
  rw [hboard, Option.map_some]
  rfl

theorem any_sram {m : Machine} (h : sramBlocks m.cart = []) :
    (blocks m).any (·.tag = .sram) = false := by
  have hvram : (vramBlocks m.cart).any (·.tag = .sram) = false := by
    unfold vramBlocks
    split <;> rfl
  rw [blocks_eq, h, List.nil_append, List.any_cons, List.any_append, hvram]
  split <;> rfl

theorem isSome_vram {cart : Cartridge} {m : Machine} (h : m.layout.Plugged cart) :
    m.cart.vram.isSome = cart.vram.isSome := by
  have hvram := h.vram
  simpa [Machine.layout, Cartridge.rom] using hvram

/-- A remark in the log changes nothing. -/
theorem resumes_note {m k : Machine} (h : m.Resumes k) (message : String) :
    m.Resumes (k.note message) where
  cpu := h.cpu
  ppu := h.ppu
  sram := h.sram
  vram := h.vram
  sound := h.sound
  program := fun address ha => by
    rw [← h.program address ha, read_rom _ ha, read_rom _ ha]
    rfl
  patterns := h.patterns

/-- One native machine accepts the snapshot of another with the same cartridge: it takes the blocks over,
with its battery RAM cleared first if there is no block of it. -/
theorem restore_resumed {cart : Cartridge} {m n : Machine} (hm : m.layout.Native cart)
    (hn : n.layout.Native cart) : ∃ (start : Machine) (remark : String), start.layout = n.layout ∧
      start.board = n.board ∧
      n.restore m.save = .ok ((resumed m (restoreBase start (baseBody m))).note remark) := by
  obtain ⟨hcount, hlength⟩ := length_blocks m
  have hdecode : Block.decodeAll m.save = .ok (blocks m) := Block.decodeAll_encodeAll _ hcount hlength
  have hrestore : n.restore m.save = .ok (restoreBlocks n (blocks m)) :=
    Machine.restore_eq hn.hasCartridge hdecode
  unfold restoreBlocks at hrestore
  generalize hstart : (if (blocks m).any (·.tag = .sram) then n
    else { n with cart := { n.cart with sram := Memory.zero 0x2000 } }) = start at hrestore
  have hkept : start.layout = n.layout ∧ start.cart.vram = n.cart.vram ∧ start.board = n.board := by
    rw [← hstart]
    split
    · exact ⟨rfl, rfl, rfl⟩
    · exact ⟨rfl, rfl, rfl⟩
  have hsram : sramBlocks m.cart = [] → start.cart.sram = Memory.zero 0x2000 := by
    intro hnone
    rw [← hstart, any_sram hnone]
    rfl
  have hvram : start.cart.vram.isSome = m.cart.vram.isSome := by
    rw [hkept.2.1, isSome_vram hn.toPlugged, isSome_vram hm.toPlugged]
  simp only [foldl_blocks m start hvram hsram] at hrestore
  exact ⟨start, _, hkept.1, hkept.2.2, hrestore⟩

/-- One native machine accepts the snapshot of another with the same cartridge, and resumes it. -/
theorem restore_native {cart : Cartridge} (hw : cart.WellFormed) {m n : Machine}
    (hm : m.layout.Native cart) (hn : n.layout.Native cart) :
    ∃ k, n.restore m.save = .ok k ∧ m.Resumes k := by
  obtain ⟨start, remark, hlayout, -, hrestore⟩ := restore_resumed hm hn
  exact ⟨_, hrestore, resumes_note (resumes_resumed hm (hlayout.symm ▸ hn) hw) remark⟩

end Snapshot

/-- Snapshots round-trip. Whatever two machines with one cartridge have been through, short of taking
snapshots over, either accepts a snapshot of the other, and then goes on where the other was. -/
theorem Machine.restore_save {bytes : Array UInt8} {name : String} {cart : Cartridge}
    (hparse : Image.parse bytes name = .ok cart) (m₀ n₀ : Machine) {events others : List Event}
    (hevents : ∀ e ∈ events, e.isNative = true) (hothers : ∀ e ∈ others, e.isNative = true) :
    let m := events.foldl after (m₀.insert cart).2
    let n := others.foldl after (n₀.insert cart).2
    ∃ k, n.restore m.save = .ok k ∧ m.Resumes k := by
  intro m n
  have hw := Image.parse_wellFormed hparse
  have hm : m.layout.Native cart := run_native hw (insert_native hw m₀) events hevents
  have hn : n.layout.Native cart := run_native hw (insert_native hw n₀) others hothers
  exact Snapshot.restore_native hw hm hn

/-- A machine that has been run takes over the snapshot of one that has just been reset. -/
theorem Machine.restore_save_mmc1 : ∃ cart, Image.parse (Image.blank 0x10) "" = .ok cart ∧
    let m := [Event.write 0x8000 1, .reset .soft].foldl after ((default : Machine).insert cart).2
    let n := [Event.frame true, .execute 1000].foldl after ((default : Machine).insert cart).2
    ∃ k, n.restore m.save = .ok k ∧ m.Resumes k := by
  obtain ⟨cart, hparse, -⟩ := @Image.parse_blank 0x10 (by decide) (by decide)
  exact ⟨cart, hparse, restore_save hparse default default (by decide) (by decide)⟩

end Famicom
