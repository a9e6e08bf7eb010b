import Famicom.Proofs.Mmc1Serial
import Famicom.Proofs.OutsideRom

/-!
Snapshots of the MMC1. Six bytes are kept of the board: its four registers, the latch, and how many bits that
holds. Which register the bits are meant for is not among them, and what takes the snapshot over has register 0
for it:

    bits for register 0     kept, and go on being for register 0
    no bits                 nothing is meant for any register
    bits for another one    the next write of that register starts from scratch,
                            the next write of register 0 goes on from bits that are not its own

So the two go on showing the same windows exactly if there are no bits, or they are for register 0
(`Machine.keepsUp_iff`). Five writes to register 0 tell all other cases apart, for bit 0 of what they commit
is the first bit that has been collected, and the third nametable window shows it.
-/

namespace Famicom

/-! ### Windows -/

namespace Circuit

/-- The second circuit shows the same bytes of the program ROM, the same patterns and the same nametables. -/
structure SameWindows (c d : Circuit) : Prop where
  program : Snapshot.SameProgram c.rom.prg.size c.cpu d.cpu
  picture : ∀ w < 12, d.ppu.page w = c.ppu.page w

variable {c d : Circuit}

/-- A bank that is switched in is the same in both. -/
theorem sameProgram_obey (h : Snapshot.SameProgram c.rom.prg.size c.cpu d.cpu) (hrom : d.rom = c.rom)
    (s : Signal) : Snapshot.SameProgram (c.obey s).rom.prg.size (c.obey s).cpu (d.obey s).cpu := by
  cases s with
  | prg kb address bank =>
    intro w hlo hhi
    simp only [Circuit.obey, hrom, PageTable.page_mapPrg _ _ _ _ _ hhi]
    split
    · exact ⟨_, _, rfl, rfl, rfl⟩
    · exact h w hlo hhi
  | _ => simpa only [Circuit.obey] using h

/-- Wishes show the same in both, whatever the boards are. -/
theorem SameWindows.obeyAll (h : SameWindows c d) (hrom : d.rom = c.rom) (signals : List Signal) :
    SameWindows (signals.foldl Circuit.obey c) (signals.foldl Circuit.obey d) :=
  ⟨@obeyAll_keeps c (fun c d => Snapshot.SameProgram c.rom.prg.size c.cpu d.cpu)
      (fun s hrom h => sameProgram_obey h hrom s) d hrom signals h.program,
    fun w hw => picturePage_obeyAll hrom signals hw (h.picture w hw)⟩

end Circuit

/-! ### The registers out of a snapshot -/

namespace Mmc1

variable {s : Mmc1}

/-- What comes back of a board's registers. -/
def reloaded (s : Mmc1) : Mmc1 := { s with target := 0 }

theorem load_save (h : s.Partial) {fresh : Mmc1} (hfresh : fresh.target = 0) {bytes : Nat → UInt8}
    (hbytes : ∀ i < 6, bytes i = s.save.getD i 0) : fresh.load bytes = s.reloaded := by
  have hcount : min s.count 4 = s.count := if_pos h.count
  simp only [load, hbytes 0 (by omega), hbytes 1 (by omega), hbytes 2 (by omega), hbytes 3 (by omega),
    hbytes 4 (by omega), hbytes 5 (by omega), hfresh, save, reloaded]
  simp [hcount]

/-- Without bits to lose, the registers come back up to what no answer depends on. -/
theorem essence_reloaded (h : s.Partial) (hkept : s.count = 0 ∨ s.target = 0) :
    s.reloaded.essence = s.essence := by
  rcases hkept with hcount | htarget
  · have hlatch : s.latch = 0 := by
      have hlt := h.latch
      rw [hcount] at hlt
      exact UInt8.toNat_inj.mp (Nat.lt_one_iff.mp hlt)
    have hempty : s.latch = 0 ∧ s.count = 0 := ⟨hlatch, hcount⟩
    exact (if_pos hempty).trans (if_pos hempty).symm
  · rw [reloaded, ← htarget]

/-- Bits that come later do not change the first one. -/
theorem first_collect (h : s.Partial) (hcount : 0 < s.count.toNat) (value : UInt8) :
    (s.collect value).latch.toNat % 2 = s.latch.toNat % 2 := by
  obtain ⟨n, hn⟩ := Nat.exists_eq_succ_of_ne_zero hcount.ne'
  rw [toNat_collect h, hn, Nat.pow_succ', Nat.mul_assoc, Nat.add_mul_mod_self_left]

/-- The MMC1 sees no more of a console than the size of its ROM. -/
theorem write_congr (s : Mmc1) {v v' : View} (h : v.prgSize = v'.prgSize) (address : UInt16) (value : UInt8) :
    s.write v address value = s.write v' address value := by
  simp only [write, commit, group, View.prg16, h]

/-- What is committed to the control register shows its bit 0 in the third nametable window. -/
theorem page_control (s : Mmc1) (view : View) (value : UInt8) (c : Circuit) :
    ((s.commit view 0 value).foldl Circuit.obey c).ppu.page 10 = ⟨.nametable, value.toNat % 2 * 0x400⟩ := by
  have hbit : (value &&& 1).toNat = value.toNat % 2 := by
    rw [UInt8.toNat_and]
    exact Nat.and_one_is_mod _
  have hone : value &&& 1 = 0 ∨ value &&& 1 = 1 := by
    rcases Nat.mod_two_eq_zero_or_one value.toNat with h | h
    · exact Or.inl (UInt8.toNat_inj.mp (hbit.trans h))
    · exact Or.inr (UInt8.toNat_inj.mp (hbit.trans h))
  rw [← hbit]
  rcases hone with h | h <;> rw [commit, if_pos rfl, h] <;> split <;>
    simp [Circuit.obey, Signal.single, Signal.horizontalIf, Signal.horizontal, Signal.vertical,
      PageTable.page_mirror]

end Mmc1

/-! ### Two machines -/

namespace Machine

variable {cart : Cartridge} {m k : Machine} {s t : Mmc1}

/-- A write to the address space of the ROM, on the bus. -/
def busWrite (m : Machine) (w : RomWrite) : Machine := m.write w.address w.value

/-- The machine has this MMC1 cartridge plugged in, with these registers. -/
structure HasMmc1 (cart : Cartridge) (m : Machine) (s : Mmc1) : Prop where
  layout : m.layout.Powered cart
  board : m.board = some (.mmc1 s)
  bits : s.Partial

/-- After any writes to the address space of the ROM the second machine shows the same windows. -/
def KeepsUp (m k : Machine) : Prop := ∀ later : List RomWrite,
  (later.foldl busWrite m).circuit.SameWindows (later.foldl busWrite k).circuit

section
variable (hw : cart.WellFormed) (hmapper : cart.mapper = 1)
include hmapper

/-- On the bus such a write is the board's, for no sound chip comes with it. -/
theorem HasMmc1.busWrite_eq (h : m.HasMmc1 cart s) (w : RomWrite) : m.busWrite w = m.romWrite w :=
  m.write_rom h.layout.toPlugged (by rw [hmapper]; rfl) h.board rfl w.inRom w.value

include hw

theorem HasMmc1.busWrite (h : m.HasMmc1 cart s) (w : RomWrite) :
    (m.busWrite w).HasMmc1 cart (s.write m.view w.address w.value).1 where
  layout := m.after_powered hw h.layout (.write w.address w.value)
  board := by rw [h.busWrite_eq hmapper, board_romWrite h.board]
  bits := h.bits.write _ _ _

/-- Boards of one essence keep up with each other. -/
theorem keepsUp_of_essence (hm : m.HasMmc1 cart s) (hk : k.HasMmc1 cart t) (hsame : t.essence = s.essence)
    (hwindows : m.circuit.SameWindows k.circuit) : m.KeepsUp k := by
  intro later
  induction later generalizing m k s t with
  | nil => exact hwindows
  | cons w later ih =>
    have hview : k.view.prgSize = m.view.prgSize := hk.layout.prgSize.trans hm.layout.prgSize.symm
    have hrom : k.circuit.rom = m.circuit.rom := hk.layout.rom.trans hm.layout.rom.symm
    obtain ⟨hwishes, hregisters⟩ := s.write_essence m.view w.address w.value
    obtain ⟨hwishes', hregisters'⟩ := t.write_essence m.view w.address w.value
    rw [hsame] at hwishes' hregisters'
    have hwrite := t.write_congr hview w.address w.value
    refine ih (hm.busWrite hw hmapper w) (hk.busWrite hw hmapper w) ?_ ?_
    · rw [hwrite, hregisters', hregisters]
    · rw [hm.busWrite_eq hmapper, hk.busWrite_eq hmapper, circuit_romWrite hm.board, circuit_romWrite hk.board,
        hwrite, hwishes', ← hwishes]
      have hanswered : Circuit.SameWindows
          { m.circuit with board := some (.mmc1 (s.write m.view w.address w.value).1) }
          { k.circuit with board := some (.mmc1 (t.write m.view w.address w.value).1) } :=
        ⟨hwindows.program, hwindows.picture⟩
      exact hanswered.obeyAll hrom _

end

/-! ### Five writes to the control register -/

/-- Bits are being collected for the control register, the first of which is known. -/
def Collecting (cart : Cartridge) (m : Machine) (bit count : Nat) : Prop :=
  ∃ s, m.HasMmc1 cart s ∧ s.target = 0 ∧ s.count.toNat = count ∧ s.latch.toNat % 2 = bit

/-- The bit shows, and others have been collected since then. -/
def Showing (cart : Cartridge) (m : Machine) (bit count : Nat) : Prop :=
  ∃ s, m.HasMmc1 cart s ∧ s.target = 0 ∧ s.count.toNat = count ∧
    m.ppu.pages.page 10 = ⟨.nametable, bit * 0x400⟩

section
variable (hw : cart.WellFormed) (hmapper : cart.mapper = 1) {w : RomWrite} (hfeeds : w.feeds 0 = true)
  {bit count : Nat}
include hfeeds

theorem register_of_feeds : Mmc1.register w.address = 0 ∧ (w.value &&& 0x80 != 0) = false := by
  obtain ⟨hclear, hregister⟩ := Bool.and_eq_true_iff.mp hfeeds
  rw [Bool.not_eq_true'] at hclear
  exact ⟨eq_of_beq hregister, hclear⟩

include hw hmapper

/-- A bit that is not the fifth is collected, and switches nothing. -/
theorem HasMmc1.collects (h : m.HasMmc1 cart s) (hroom : (s.turn 0).count ≠ 4) :
    (m.busWrite w).HasMmc1 cart ((s.turn 0).collect w.value) ∧ (m.busWrite w).ppu.pages = m.ppu.pages := by
  obtain ⟨hregister, hclear⟩ := register_of_feeds hfeeds
  have hwrite := s.write_collects m.view hclear (hregister.symm ▸ hroom)
  have hnext := h.busWrite hw hmapper w
  have hcircuit := circuit_romWrite h.board w
  rw [← h.busWrite_eq hmapper w] at hcircuit
  rw [hwrite, hregister] at hnext hcircuit
  exact ⟨hnext, congrArg Circuit.ppu hcircuit⟩

/-- The fifth shows the first one. -/
theorem HasMmc1.completes (h : m.HasMmc1 cart s) (htarget : s.target = 0) (hfull : s.count = 4) :
    Showing cart (m.busWrite w) (s.latch.toNat % 2) 0 := by
  obtain ⟨hregister, hclear⟩ := register_of_feeds hfeeds
  have hturn : s.turn 0 = s := htarget ▸ s.turn_target
  have hwrite := s.write_completes m.view hclear (hregister.symm ▸ hturn.symm ▸ hfull)
  have hnext := h.busWrite hw hmapper w
  have hcircuit := circuit_romWrite h.board w
  rw [← h.busWrite_eq hmapper w] at hcircuit
  simp only [hregister, hturn, Mmc1.discard_store_collect] at hwrite
  rw [hwrite] at hnext hcircuit
  have hpage := congrArg (fun c : Circuit => c.ppu.page 10) hcircuit
  have hcount : 0 < s.count.toNat := by
    rw [hfull]
    decide
  rw [Mmc1.page_control, Mmc1.first_collect h.bits hcount] at hpage
  exact ⟨_, hnext, htarget, rfl, hpage⟩

/-- Another register's bits are discarded first. -/
theorem HasMmc1.turns (h : m.HasMmc1 cart s) (htarget : s.target ≠ 0) :
    Collecting cart (m.busWrite w) (w.value.toNat % 2) 1 := by
  have hempty : s.turn 0 = { s.discard with target := 0 } := Mmc1.turn_of_ne htarget
  have hpartial : (s.turn 0).Partial := h.bits.turn 0
  have hfew : (s.turn 0).count ≠ 4 := by
    rw [hempty]
    exact (by decide : (0 : UInt8) ≠ 4)
  obtain ⟨hnext, -⟩ := h.collects hw hmapper hfeeds hfew
  refine ⟨_, hnext, s.target_turn 0, ?_, ?_⟩
  · rw [Mmc1.toNat_count_collect hpartial, hempty]
    rfl
  · rw [Mmc1.toNat_collect hpartial, hempty]
    show (0 + 1 * (w.value.toNat % 2)) % 2 = _
    omega

/-- Its own are added to. -/
theorem HasMmc1.adds (h : m.HasMmc1 cart s) (htarget : s.target = 0) (hcount : s.count.toNat = count)
    (hroom : count < 4) : (m.busWrite w).HasMmc1 cart (s.collect w.value) ∧
      (s.collect w.value).count.toNat = count + 1 ∧ (m.busWrite w).ppu.pages = m.ppu.pages := by
  have hturn : s.turn 0 = s := htarget ▸ s.turn_target
  have hfew : (s.turn 0).count ≠ 4 := by
    rw [hturn]
    rintro hfull
    rw [← hcount, hfull] at hroom
    exact absurd hroom (by decide)
  obtain ⟨hnext, hpages⟩ := h.collects hw hmapper hfeeds hfew
  rw [hturn] at hnext
  exact ⟨hnext, by rw [Mmc1.toNat_count_collect h.bits, hcount], hpages⟩

theorem Collecting.next (h : Collecting cart m bit count) (hfirst : 0 < count) (hroom : count < 4) :
    Collecting cart (m.busWrite w) bit (count + 1) := by
  obtain ⟨s, hs, htarget, hcount, rfl⟩ := h
  obtain ⟨hnext, hmore, -⟩ := hs.adds hw hmapper hfeeds htarget hcount hroom
  exact ⟨_, hnext, htarget, hmore, Mmc1.first_collect hs.bits (hcount ▸ hfirst) w.value⟩

theorem Collecting.last (h : Collecting cart m bit 4) : Showing cart (m.busWrite w) bit 0 := by
  obtain ⟨s, hs, htarget, hcount, rfl⟩ := h
  exact hs.completes hw hmapper hfeeds htarget (UInt8.toNat_inj.mp hcount)

theorem Showing.next (h : Showing cart m bit count) (hroom : count < 4) :
    Showing cart (m.busWrite w) bit (count + 1) := by
  obtain ⟨s, hs, htarget, hcount, hpage⟩ := h
  obtain ⟨hnext, hmore, hpages⟩ := hs.adds hw hmapper hfeeds htarget hcount hroom
  exact ⟨_, hnext, htarget, hmore, hpages ▸ hpage⟩

theorem Collecting.run (h : Collecting cart m bit count) (hfirst : 0 < count) (more : Nat)
    (hroom : count + more ≤ 4) :
    Collecting cart ((List.replicate more w).foldl busWrite m) bit (count + more) := by
  induction more generalizing m count with
  | zero => exact h
  | succ more ih =>
    rw [List.replicate_succ, List.foldl_cons, ← Nat.succ_add_eq_add_succ]
    exact ih (h.next hw hmapper hfeeds hfirst (by omega)) (Nat.succ_pos count) (by omega)

theorem Showing.run (h : Showing cart m bit count) (more : Nat) (hroom : count + more ≤ 4) :
    Showing cart ((List.replicate more w).foldl busWrite m) bit (count + more) := by
  induction more generalizing m count with
  | zero => exact h
  | succ more ih =>
    rw [List.replicate_succ, List.foldl_cons, ← Nat.succ_add_eq_add_succ]
    exact ih (h.next hw hmapper hfeeds (by omega)) (by omega)

/-- Five writes show the first bit, and leave as many behind as there were. -/
theorem Collecting.five (h : Collecting cart m bit count) (hfirst : 0 < count) (hfew : count ≤ 4) :
    Showing cart ((List.replicate 5 w).foldl busWrite m) bit count := by
  have hsplit : List.replicate 5 w = List.replicate (4 - count) w ++ w :: List.replicate count w := by
    rw [← List.replicate_succ, ← List.replicate_add]
    congr 1
    omega
  have hfull := h.run hw hmapper hfeeds hfirst (4 - count) (by omega)
  rw [Nat.add_sub_cancel' hfew] at hfull
  have hshown := (hfull.last hw hmapper hfeeds).run hw hmapper hfeeds count (by omega)
  rw [Nat.zero_add] at hshown
  rwa [hsplit, List.foldl_append, List.foldl_cons]

/-- After those of another register, five writes show their own first bit. -/
theorem HasMmc1.five (h : m.HasMmc1 cart s) (htarget : s.target ≠ 0) :
    Showing cart ((List.replicate 5 w).foldl Machine.busWrite m) (w.value.toNat % 2) 0 := by
  have hfull := (h.turns hw hmapper hfeeds htarget).run hw hmapper hfeeds Nat.one_pos 3 (Nat.le_refl 4)
  exact hfull.last hw hmapper hfeeds

end

/-- There is a write to the control register with the other bit. -/
theorem exists_feeds_other (n : Nat) : ∃ w : RomWrite, w.feeds 0 = true ∧ w.value.toNat % 2 ≠ n % 2 := by
  rcases Nat.mod_two_eq_zero_or_one n with h | h
  · exact ⟨⟨0x8000, 1, by decide⟩, by decide, by rw [h]; decide⟩
  · exact ⟨⟨0x8000, 0, by decide⟩, by decide, by rw [h]; decide⟩

/-- When a machine with reloaded registers keeps up with the one that they come from. -/
theorem keepsUp_iff (hw : cart.WellFormed) (hmapper : cart.mapper = 1) (hm : m.HasMmc1 cart s)
    (hk : k.HasMmc1 cart s.reloaded) (hwindows : m.circuit.SameWindows k.circuit) :
    m.KeepsUp k ↔ s.count = 0 ∨ s.target = 0 := by
  constructor
  · intro hkeeps
    by_contra hlost
    obtain ⟨hcount, htarget⟩ := not_or.mp hlost
    obtain ⟨w, hfeeds, hother⟩ := exists_feeds_other s.latch.toNat
    have hfirst : 0 < s.count.toNat := Nat.pos_of_ne_zero fun h => hcount (UInt8.toNat_inj.mp h)
    have hfew : s.count.toNat ≤ 4 := UInt8.le_iff_toNat_le.mp hm.bits.count
    -- the second machine goes on from the bits that it has been left
    have hkept : Collecting cart k (s.latch.toNat % 2) s.count.toNat := ⟨_, hk, rfl, rfl, rfl⟩
    obtain ⟨_, -, -, -, hback⟩ := hkept.five hw hmapper hfeeds hfirst hfew
    -- the first one starts from scratch
    obtain ⟨_, -, -, -, hshows⟩ := hm.five hw hmapper hfeeds htarget
    have hpage := (hkeeps (List.replicate 5 w)).picture 10 (by decide)
    have hsame := (hback.symm.trans hpage).trans hshows
    have hbits := congrArg Page.offset hsame
    exact hother (Nat.eq_of_mul_eq_mul_right (by decide) hbits).symm
  · intro hkept
    exact keepsUp_of_essence hw hmapper hm hk (Mmc1.essence_reloaded hm.bits hkept) hwindows

/-! ### The snapshot -/

/-- Only writes move the registers. -/
theorem answer_mmc1 (h : s.Partial) (cue : Cue) :
    ∃ s', ((Board.mmc1 s).answer cue).1 = .mmc1 s' ∧ s'.Partial := by
  cases cue with
  | write view address value => exact ⟨_, rfl, h.write view address value⟩
  | hblank view vblank => exact ⟨s, rfl, h⟩
  | strobe value => exact ⟨s, rfl, h⟩
  | drawn base tile => exact ⟨s, rfl, h⟩

/-- A freshly plugged-in MMC1 cartridge. -/
theorem hasMmc1_insert (hw : cart.WellFormed) (hmapper : cart.mapper = 1) (m₀ : Machine) :
    (m₀.insert cart).2.HasMmc1 cart { control := 0x0C } := by
  have hboard : Board.ofNumber? cart.mapper = some (.mmc1 {}) := by
    rw [hmapper]
    rfl
  obtain ⟨view, -, hinsert⟩ := circuit_insert hboard m₀
  have hplaced : (Circuit.plugged cart (.mmc1 {})).placed.board = some (.mmc1 {}) := rfl
  have hinit := congrArg Circuit.board hinsert
  rw [Circuit.act_some hplaced, Circuit.board_obeyAll] at hinit
  exact ⟨(insert_native hw m₀).toPowered, hinit, .of_empty rfl rfl⟩

/-- Its latch is never full, short of taking snapshots over. -/
theorem hasMmc1_run (hw : cart.WellFormed) (hmapper : cart.mapper = 1) (m₀ : Machine) {events : List Event}
    (hevents : ∀ e ∈ events, e.isNative = true) :
    ∃ s, (events.foldl after (m₀.insert cart).2).HasMmc1 cart s := by
  have hfresh := hasMmc1_insert hw hmapper m₀
  -- along the run: the board is an MMC1 with bits to spare
  let P : Circuit → Prop := fun c => ∃ s, c.board = some (.mmc1 s) ∧ s.Partial
  have hhear : ∀ {c : Circuit} {cue : Cue}, cue.Fits c.rom → P c → P (c.hear cue) := by
    rintro c cue - ⟨s, hs, hpartial⟩
    obtain ⟨s', hs', hpartial'⟩ := answer_mmc1 hpartial cue
    exact ⟨s', by rw [Circuit.hear, Circuit.act_some hs, Circuit.board_obeyAll, hs'], hpartial'⟩
  have hinit : ∀ {c : Circuit} {view : View}, view.Of c.rom → P c → P (c.placed.act (·.init view)) := by
    rintro c view - ⟨s, hs, -⟩
    have hplaced : c.placed.board = some (.mmc1 s) := by simpa only [Circuit.placed] using hs
    refine ⟨(s.init view).1, ?_, .init s view⟩
    rw [Circuit.act_some hplaced, Circuit.board_obeyAll]
    rfl
  obtain ⟨s, hs, hpartial⟩ := run_circuit _ hevents hhear hinit ⟨_, hfresh.board, hfresh.bits⟩
  exact ⟨s, (run_native hw (insert_native hw m₀) events hevents).toPowered, hs, hpartial⟩

open Snapshot in
/-- A fresh machine takes over the snapshot of another one with the same MMC1 cartridge. -/
theorem restore_mmc1 (hw : cart.WellFormed) (hmapper : cart.mapper = 1) (hm : m.HasMmc1 cart s)
    (hnative : m.layout.Native cart) {n : Machine} (hn : n.layout.Native cart) {fresh : Mmc1}
    (hfresh : n.board = some (.mmc1 fresh)) (htarget : fresh.target = 0) :
    ∃ k, n.restore m.save = .ok k ∧ k.HasMmc1 cart s.reloaded ∧ m.circuit.SameWindows k.circuit := by
  obtain ⟨start, remark, hlayout, hboard, hrestore⟩ := restore_resumed hnative hn
  have hstart : start.layout.Native cart := hlayout.symm ▸ hn
  have hmapped : cart.mapper ≠ 0 := by
    rw [hmapper]
    decide
  obtain ⟨hkept, -⟩ := board_back hnative.toPlugged hstart.toPlugged hmapped (hboard.trans hfresh)
  obtain ⟨hprogram, hpatterns⟩ := windows_back hnative hstart hw
  have htables : ∀ w < 4, ShowsTable cart.mapper cart.chr.size (m.ppu.pages.page (8 + w)) :=
    hnative.picture.tables
  have hremembered := (windows_resumed m start htables).2
  have hload : fresh.load (keptByte m) = s.reloaded :=
    Mmc1.load_save hm.bits htarget fun i hi => keptByte_eq hm.board hi (Nat.lt_trans hi (by decide))
  have hregisters : (Board.mmc1 fresh).load (keptByte m) = .mmc1 s.reloaded := congrArg Board.mmc1 hload
  rw [hregisters] at hkept
  refine ⟨_, hrestore, ⟨restore_powered hw hn.toPowered hrestore, hkept, hm.bits.count, hm.bits.latch⟩,
    hprogram, fun w hw12 => ?_⟩
  rcases Nat.lt_or_ge w 8 with hlow | hhigh
  · exact hpatterns w hlow
  · obtain ⟨v, rfl⟩ := Nat.exists_eq_add_of_le hhigh
    have hv : v < 4 := by omega
    -- only board 19 points such a window elsewhere
    have hregion : (m.ppu.pages.page (8 + v)).region = .nametable := by
      rcases htables v hv with ⟨t, -, htable⟩ | ⟨h19, -⟩
      · rw [htable]
      · rw [hmapper] at h19
        exact absurd h19 (by decide)
    exact (hremembered v hv).trans (if_pos hregion)

/-- When snapshots of the MMC1 keep a half-written register. A fresh machine always accepts the snapshot, shows the
same windows, and has all registers back but the target of the bits in the latch. It goes on showing the same
windows, whatever is written to the address space of the ROM, exactly if the latch was empty or its bits were meant
for register 0. -/
theorem mmc1_resumes_iff {bytes : Array UInt8} {name : String} (hparse : Image.parse bytes name = .ok cart)
    (hmapper : cart.mapper = 1) (m₀ n₀ : Machine) {events : List Event}
    (hevents : ∀ e ∈ events, e.isNative = true) :
    let m := events.foldl after (m₀.insert cart).2
    ∃ s k, m.board = some (.mmc1 s) ∧ (n₀.insert cart).2.restore m.save = .ok k ∧
      k.board = some (.mmc1 { s with target := 0 }) ∧ m.circuit.SameWindows k.circuit ∧
      (m.KeepsUp k ↔ s.count = 0 ∨ s.target = 0) := by
  intro m
  have hw := Image.parse_wellFormed hparse
  have hnative : m.layout.Native cart := run_native hw (insert_native hw m₀) events hevents
  obtain ⟨s, hs⟩ := hasMmc1_run hw hmapper m₀ hevents
  have hfresh := hasMmc1_insert hw hmapper n₀
  obtain ⟨k, hrestore, hk, hwindows⟩ :=
    restore_mmc1 hw hmapper hs hnative (insert_native hw n₀) hfresh.board rfl
  exact ⟨s, k, hs.board, hrestore, hk.board, hwindows, keepsUp_iff hw hmapper hs hk hwindows⟩

/-- The snapshot of a machine that has just been told the first bit for its program register does not keep it. -/
theorem mmc1_forgets_target : ∃ cart, Image.parse (Image.blank 0x10) "" = .ok cart ∧ cart.mapper = 1 ∧
    let m := ((default : Machine).insert cart).2.write 0xE000 1
    ∃ k, ((default : Machine).insert cart).2.restore m.save = .ok k ∧ ¬ m.KeepsUp k := by
  obtain ⟨cart, hparse, hmapper⟩ := @Image.parse_blank 0x10 (by decide) (by decide)
  have hw := Image.parse_wellFormed hparse
  obtain ⟨s, k, hs, hrestore, -, -, hkeeps⟩ :=
    mmc1_resumes_iff hparse hmapper default default (by decide : ∀ e ∈ [Event.write 0xE000 1], e.isNative = true)
  refine ⟨cart, hparse, hmapper, k, hrestore, fun h => ?_⟩
  have hwritten := (hasMmc1_insert hw hmapper default).busWrite hw hmapper ⟨0xE000, 1, by decide⟩
  have hregisters := hs.symm.trans hwritten.board
  rw [Option.some.injEq, Board.mmc1.injEq] at hregisters
  have hcount : s.count = 1 := by
    rw [hregisters]
    rfl
  have htarget : s.target = 3 := by
    rw [hregisters]
    rfl
  rcases hkeeps.mp h with hempty | hzero
  · exact absurd (hcount.symm.trans hempty) (by decide)
  · exact absurd (htarget.symm.trans hzero) (by decide)

end Machine

end Famicom
