import Famicom.Proofs.Resume
import Famicom.Proofs.SoundReplay

/-!
Taking a snapshot over twice. Each block overwrites its own part of the machine, so whatever order they stand
in and however often one is repeated, the second time finds everything as the first time left it.

    BASR  registers, RAM, sprites, nametables and their windows      windows 12-15 repeat 8-11
    MPRD  program and pattern windows, the board's registers         windows 12-15 repeat 8-11
    VRAM  as much of pattern RAM as the body is long
    SRAM  as much of battery RAM as the body is long; a missing block counts as one of zeros
    SOUN  the sound unit's registers, and what they set going

    A B … Z A B … Z  =  B … Z A B … Z  =  … Z A B … Z  =  …  =  A B … Z

The one exception are several SOUN blocks: one that leaves the short noise and one that enters it draw new
noise each time. The log, which remembers every load, is left out (`unlogged`).
-/

namespace Famicom

/-! ### Steps that overwrite -/

/-- Taken again, a step changes nothing; taken again later, nothing is left of the first time. -/
structure Overwrites {σ β : Type} (step : σ → β → σ) (l : List β) : Prop where
  again : ∀ b ∈ l, ∀ s, step (step s b) b = step s b
  later : ∀ b ∈ l, ∀ c ∈ l, ∀ s, step (step (step s b) c) b = step (step s c) b

namespace Overwrites

variable {σ β : Type} {step : σ → β → σ} {l : List β}

/-- Any number of steps later, nothing is left of the first time. -/
theorem foldl_later (h : Overwrites step l) {b : β} (hb : b ∈ l) {w : List β} (hw : ∀ c ∈ w, c ∈ l)
    (s : σ) : step (w.foldl step (step s b)) b = step (w.foldl step s) b := by
  induction w generalizing s with
  | nil => exact h.again b hb s
  | cons c w ih =>
    have hrest : ∀ c ∈ w, c ∈ l := fun e he => hw e (List.mem_cons_of_mem c he)
    have hc : c ∈ l := hw c List.mem_cons_self
    calc step (w.foldl step (step (step s b) c)) b
        = step (w.foldl step (step (step (step s b) c) b)) b := (ih hrest _).symm
      _ = step (w.foldl step (step (step s c) b)) b := by rw [h.later b hb c hc]
      _ = step (w.foldl step (step s c)) b := ih hrest _

/-- Steps that come again after others can be left out the first time. -/
theorem foldl_append (h : Overwrites step l) {w : List β} (hw : ∀ c ∈ w, c ∈ l) (between : List β)
    (hbetween : ∀ c ∈ between, c ∈ l) (s : σ) :
    (between ++ w).foldl step (w.foldl step s) = (between ++ w).foldl step s := by
  induction w generalizing between s with
  | nil => rfl
  | cons b w ih =>
    have hb : b ∈ l := hw b List.mem_cons_self
    have hrest : ∀ c ∈ w, c ∈ l := fun c hc => hw c (List.mem_cons_of_mem b hc)
    have hnext : ∀ c ∈ between ++ [b], c ∈ l := by
      intro c hc
      rcases List.mem_append.mp hc with hc | hc
      · exact hbetween c hc
      · exact List.mem_singleton.mp hc ▸ hb
    have hothers : ∀ c ∈ w ++ between, c ∈ l := by
      intro c hc
      rcases List.mem_append.mp hc with hc | hc
      · exact hrest c hc
      · exact hbetween c hc
    have hfirst := h.foldl_later hb hothers s
    have hmoved := ih hrest (between ++ [b]) hnext s
    simp only [List.foldl_append, List.foldl_cons, List.foldl_nil] at hfirst hmoved ⊢
    rw [hfirst, hmoved]

/-- All steps a second time change nothing. -/
theorem foldl_again (h : Overwrites step l) (s : σ) : l.foldl step (l.foldl step s) = l.foldl step s :=
  h.foldl_append (fun _ hb => hb) [] (fun _ hb => (List.not_mem_nil hb).elim) s

end Overwrites

/-- The same of a way to write bodies over a state. -/
structure Overlays {α σ : Type} (f : α → σ → σ) : Prop where
  again : ∀ a s, f a (f a s) = f a s
  later : ∀ a c s, f a (f c (f a s)) = f a (f c s)

/-- Bodies of which the last one alone counts. -/
theorem Overlays.of_last {α σ : Type} {f : α → σ → σ} (h : ∀ a c s, f a (f c s) = f a s) : Overlays f :=
  ⟨fun a s => h a a s, fun a c s => by rw [h, h, h]⟩

/-- Blocks with one tag write in one way, blocks with another tag in another. -/
def byTag {σ : Type} (τ τ' : Tag) (f g : List UInt8 → σ → σ) (s : σ) (b : Block) : σ :=
  if b.tag = τ then f b.body s else if b.tag = τ' then g b.body s else s

/-- Blocks of two kinds that write over different parts. -/
theorem Overlays.overwrites {σ : Type} {f g : List UInt8 → σ → σ} (hf : Overlays f) (hg : Overlays g)
    (hcomm : ∀ a c s, f a (g c s) = g c (f a s)) (τ τ' : Tag) (l : List Block) :
    Overwrites (byTag τ τ' f g) l := by
  have hkinds : ∀ b : Block, (∀ s, byTag τ τ' f g s b = f b.body s) ∨
      (∀ s, byTag τ τ' f g s b = g b.body s) ∨ ∀ s, byTag τ τ' f g s b = s := by
    intro b
    by_cases hb : b.tag = τ
    · exact Or.inl fun s => if_pos hb
    · by_cases hb' : b.tag = τ'
      · exact Or.inr (Or.inl fun s => (if_neg hb).trans (if_pos hb'))
      · exact Or.inr (Or.inr fun s => (if_neg hb).trans (if_neg hb'))
  constructor
  · intro b _ s
    rcases hkinds b with hb | hb | hb <;> simp only [hb, hf.again, hg.again]
  · intro b _ c _ s
    rcases hkinds b with hb | hb | hb <;> rcases hkinds c with hc | hc | hc <;>
      simp only [hb, hc, hf.again, hg.again, hf.later, hg.later, hcomm]

/-! ### The machine without its log -/

namespace Machine

/-- The machine but for its log. -/
def unlogged (m : Machine) : Machine := { m with log := {} }

theorem unlogged_note (m : Machine) (message : String) : (m.note message).unlogged = m.unlogged := rfl

theorem unlogged_drainNotes (m : Machine) :
    m.drainNotes.unlogged = { m with ppu := { m.ppu with notes := [] }, log := {} } := by
  unfold drainNotes
  split
  case isTrue hempty =>
    have hsame : ({ m.ppu with notes := [] } : Ppu) = m.ppu := by
      rw [← List.isEmpty_iff.mp hempty]
    rw [hsame]
    rfl
  case isFalse => rfl

section
variable {m n : Machine} (h : m.unlogged = n) (value : UInt8)
include h

theorem unlogged_writeCtrl : (m.write 0x2000 value).unlogged =
    { n with ppu := { n.ppu with
        bus := value, ctrl := value, notes := []
        scroll := (value &&& 3).toUInt16 <<< 10 ||| (n.ppu.scroll &&& 0xF3FF) } } :=
  h ▸ unlogged_drainNotes _

theorem unlogged_writeMask : (m.write 0x2001 value).unlogged =
    { n with ppu := { n.ppu with bus := value, mask := value, notes := [] } } :=
  h ▸ unlogged_drainNotes _

theorem unlogged_writeAddress : (m.write 0x2006 value).unlogged =
    { n with ppu := { { n.ppu with bus := value }.writeAddress value with notes := [] } } :=
  h ▸ unlogged_drainNotes _

theorem unlogged_writeHigh (hfirst : n.ppu.toggle = false) : (m.write 0x2006 value).unlogged =
    { n with ppu := { n.ppu with
        bus := value, toggle := true, notes := []
        scroll := (value.toUInt16 &&& 0x3F) <<< 8 ||| (n.ppu.scroll &&& 0x00FF) } } := by
  rw [unlogged_writeAddress h, Ppu.writeAddress, if_pos (by simp [hfirst])]

theorem unlogged_writeLow (hsecond : n.ppu.toggle = true) : (m.write 0x2006 value).unlogged =
    { n with ppu := { n.ppu with
        bus := value, toggle := false, notes := []
        scroll := value.toUInt16 ||| (n.ppu.scroll &&& 0xFF00)
        vramAddress := value.toUInt16 ||| (n.ppu.scroll &&& 0xFF00) } } := by
  rw [unlogged_writeAddress h, Ppu.writeAddress, if_neg (by simp [hsecond])]

theorem unlogged_setAddress (address : UInt16) : ({ m with ppu.vramAddress := address } : Machine).unlogged =
    { n with ppu := { n.ppu with vramAddress := address } } := h ▸ rfl

end

end Machine

namespace Snapshot

open Machine

/-- The scroll address that both writes of a picture address leave. -/
def scrollOf (address : UInt16) : UInt16 :=
  address.toUInt8.toUInt16 ||| (((address >>> 8).toUInt8.toUInt16 &&& 0x3F) <<< 8 &&& 0xFF00)

/-- The picture unit after a body was taken over. -/
def picture (body : List UInt8) (p : Ppu) : Ppu :=
  { restorePpu p body with
    bus := (wordAt body addressOffset).toUInt8
    scroll := scrollOf (wordAt body addressOffset)
    vramAddress := wordAt body addressOffset
    notes := [] }

/-- The low byte of the scroll address is overwritten. -/
theorem scroll_low (low high old : UInt16) :
    low ||| ((high ||| (old &&& 0x00FF)) &&& 0xFF00) = low ||| (high &&& 0xFF00) := by
  have hzero : old.toBitVec &&& 0x00FF#16 &&& 0xFF00#16 = 0#16 := by
    rw [BitVec.and_assoc, show 0x00FF#16 &&& 0xFF00#16 = 0#16 by decide, BitVec.and_zero]
  apply UInt16.toBitVec_inj.mp
  show _ ||| (_ ||| old.toBitVec &&& 0x00FF#16) &&& 0xFF00#16 = _
  rw [BitVec.and_or_distrib_right, hzero, BitVec.or_zero]
  rfl

theorem unlogged_restoreBase (m : Machine) (body : List UInt8) :
    (restoreBase m body).unlogged =
      { m with cpu := restoreCpu m.cpu body, ppu := picture body m.ppu, log := {} } := by
  have hctrl := unlogged_writeCtrl (rfl : (unpacked m body).unlogged = _) (body.getD 7 0)
  have hmask := unlogged_writeMask hctrl (body.getD 8 0)
  have hhigh := unlogged_writeHigh hmask (wordAt body addressOffset >>> 8).toUInt8 rfl
  have hlow := unlogged_writeLow hhigh (wordAt body addressOffset).toUInt8 rfl
  refine (unlogged_setAddress hlow (wordAt body addressOffset)).trans ?_
  simp only [scroll_low]
  rfl

/-! ### The parts of the machine -/

/-- The processor after a body of windows. -/
def programs (prgSize : Nat) (body : List UInt8) (c : Cpu) : Cpu :=
  { c with pages := restoreProgram c.pages prgSize body }

/-- The picture unit after a body of windows. -/
def patterns (cart : Cartridge) (body : List UInt8) (p : Ppu) : Ppu :=
  { p with pages := restorePatterns p.pages cart body }

/-- The board after a body of windows. -/
def boardAfter (board : Option Board) (b : Block) : Option Board :=
  if b.tag = .board then
    board.map (·.load fun i => (((b.body.drop boardOffset).take boardSize).toArray).getD i 0)
  else board

/-- The sound unit after a block. -/
def soundAfter (s : Sound) (b : Block) : Sound := if b.tag = .sound then restoreSound s b.body else s

/-- The processor after a block. -/
def cpuAfter (prgSize : Nat) : Cpu → Block → Cpu :=
  byTag .base .board (fun body c => restoreCpu c body) (programs prgSize)

/-- The picture unit after a block. -/
def ppuAfter (cart : Cartridge) : Ppu → Block → Ppu := byTag .base .board picture (patterns cart)

/-- The cartridge after a block. -/
def cartAfter : Cartridge → Block → Cartridge :=
  byTag .vram .sram (fun body cart => restoreVram cart body) (fun body cart => restoreSram cart body)

/-- Takes a block over, but for the log. -/
def takeOver (m : Machine) (b : Block) : Machine :=
  { m with
    cpu := cpuAfter m.cart.prg.size m.cpu b
    ppu := ppuAfter m.cart m.ppu b
    cart := cartAfter m.cart b
    board := boardAfter m.board b
    sound := soundAfter m.sound b
    log := {} }

theorem unlogged_restoreBlock (m : Machine) (b : Block) : (restoreBlock m b).unlogged = takeOver m b := by
  obtain ⟨tag, body⟩ := b
  by_cases hknown : tag = .base ∨ tag = .vram ∨ tag = .sram ∨ tag = .board ∨ tag = .sound
  · rcases hknown with rfl | rfl | rfl | rfl | rfl
    all_goals simp only [restoreBlock_base, unlogged_restoreBase, restoreBlock_vram, restoreBlock_sram,
      restoreBlock_board, restoreBlock_sound, restoreWindows]
    all_goals simp +decide only [unlogged, takeOver, cpuAfter, ppuAfter, cartAfter, boardAfter, soundAfter,
      byTag, programs, patterns, if_true, if_false]
  · simp only [not_or] at hknown
    obtain ⟨hbase, hvram, hsram, hboard, hsound⟩ := hknown
    have hlog : (restoreBlock m ⟨tag, body⟩).unlogged = m.unlogged := by
      simp only [restoreBlock, if_neg hbase, if_neg hvram, if_neg hsram, if_neg hboard, if_neg hsound]
      split <;> rfl
    rw [hlog]
    simp only [unlogged, takeOver, cpuAfter, ppuAfter, cartAfter, byTag, boardAfter, soundAfter,
      if_neg hbase, if_neg hvram, if_neg hsram, if_neg hboard, if_neg hsound]

/-- Taking blocks over goes by the machine without its log. -/
theorem unlogged_foldl (blocks : List Block) (m : Machine) :
    (blocks.foldl restoreBlock m).unlogged = blocks.foldl takeOver m.unlogged := by
  induction blocks generalizing m with
  | nil => rfl
  | cons b blocks ih =>
    rw [List.foldl_cons, List.foldl_cons, ih, unlogged_restoreBlock]
    rfl

/-! ### Processor and picture unit -/

theorem overlays_restoreCpu : Overlays fun body c => restoreCpu c body := .of_last fun _ _ _ => rfl

theorem restoreProgram_restoreProgram (t : PageTable) (prgSize : Nat) (body body' : List UInt8) :
    restoreProgram (restoreProgram t prgSize body) prgSize body' = restoreProgram t prgSize body' := by
  apply PageTable.ext_page
  intro w hw
  by_cases hlow : w < 8
  · simp only [page_restoreProgram_low _ _ _ hlow]
  · obtain ⟨k, i, hk, hi, rfl⟩ := exists_half (Nat.not_lt.mp hlow) hw
    simp only [page_restoreProgram _ _ _ hk hi]

theorem overlays_programs (prgSize : Nat) : Overlays (programs prgSize) :=
  .of_last fun _ _ _ => by simp only [programs, restoreProgram_restoreProgram]

theorem windowsOf_windowsOf (t : PageTable) (body body' : List UInt8) :
    windowsOf (windowsOf t body) body' = windowsOf t body' := by
  apply PageTable.ext_page
  intro w hw
  simp only [windowsOf, PageTable.page_mirror _ _ _ _ _ hw]
  split <;> rfl

theorem overlays_picture : Overlays picture :=
  .of_last fun _ _ _ => by simp only [picture, restorePpu, windowsOf_windowsOf]

/-- The four highest windows repeat the nametable windows after a body of windows. -/
theorem page_restorePatterns_high (t : PageTable) (cart : Cartridge) (body : List UInt8) {w : Nat}
    (hlo : 12 ≤ w) (hhi : w < 16) : (restorePatterns t cart body).page w = t.page (w - 4) := by
  rw [← page_restorePatterns_table t cart body (show 8 ≤ w - 4 by omega) (by omega)]
  simp only [restorePatterns]
  rw [PageTable.page_repeatNametables _ hhi, if_pos hlo,
    PageTable.page_repeatNametables _ (show w - 4 < 16 by omega), if_neg (show ¬ 12 ≤ w - 4 by omega)]

theorem restorePatterns_restorePatterns (t : PageTable) (cart : Cartridge) (body body' : List UInt8) :
    restorePatterns (restorePatterns t cart body) cart body' = restorePatterns t cart body' := by
  apply PageTable.ext_page
  intro w hw
  rcases (by omega : w < 8 ∨ (8 ≤ w ∧ w < 12) ∨ 12 ≤ w) with h | ⟨hlo, hhi⟩ | h
  · simp only [page_restorePatterns _ _ _ h]
  · simp only [page_restorePatterns_table _ _ _ hlo hhi]
  · simp only [page_restorePatterns_high _ _ _ h hw,
      page_restorePatterns_table _ _ _ (show 8 ≤ w - 4 by omega) (show w - 4 < 12 by omega)]

theorem overlays_patterns (cart : Cartridge) : Overlays (patterns cart) :=
  .of_last fun _ _ _ => by simp only [patterns, restorePatterns_restorePatterns]

/-- The nametable windows and the pattern windows meet in the four highest ones, which repeat the former. -/
theorem windowsOf_restorePatterns (t : PageTable) (cart : Cartridge) (body body' : List UInt8) :
    windowsOf (restorePatterns t cart body') body = restorePatterns (windowsOf t body) cart body' := by
  apply PageTable.ext_page
  intro w hw
  rcases (by omega : w < 8 ∨ (8 ≤ w ∧ w < 12) ∨ 12 ≤ w) with h | ⟨hlo, hhi⟩ | h
  · rw [page_restorePatterns _ _ _ h, windowsOf, PageTable.page_mirror _ _ _ _ _ hw, if_pos h,
      page_restorePatterns _ _ _ h]
  · rw [page_restorePatterns_table _ _ _ hlo hhi, windowsOf, windowsOf, PageTable.page_mirror _ _ _ _ _ hw,
      PageTable.page_mirror _ _ _ _ _ hw, if_neg (by omega), if_neg (by omega)]
  · rw [page_restorePatterns_high _ _ _ h hw, windowsOf, windowsOf, PageTable.page_mirror _ _ _ _ _ hw,
      PageTable.page_mirror _ _ _ _ _ (by omega), if_neg (by omega), if_neg (by omega),
      show (w - 4) % 4 = w % 4 by omega]

theorem overwrites_cpuAfter (prgSize : Nat) (l : List Block) : Overwrites (cpuAfter prgSize) l :=
  overlays_restoreCpu.overwrites (overlays_programs prgSize) (fun _ _ _ => rfl) _ _ l

theorem overwrites_ppuAfter (cart : Cartridge) (l : List Block) : Overwrites (ppuAfter cart) l := by
  refine overlays_picture.overwrites (overlays_patterns cart) (fun _ _ _ => ?_) _ _ l
  simp only [picture, restorePpu, patterns, windowsOf_restorePatterns]

end Snapshot

/-! ### Cartridge and board -/

namespace Memory

variable {n : Nat}

theorem read_ofList (bytes : List UInt8) {a : Nat} (ha : a < n) :
    (ofList n bytes).read a = bytes.getD a 0 := by
  have hwrap : a % n = a := Nat.mod_eq_of_lt ha
  have hcell : (ofList n bytes).read a = (bytes.take n ++ List.replicate (n - bytes.length) 0).getD a 0 := by
    simp only [read, ofList, hwrap, List.getD_eq_getElem?_getD, Array.getD_eq_getD_getElem?,
      List.getElem?_toArray]
  rw [hcell, List.getD_eq_getElem?_getD, List.getD_eq_getElem?_getD, List.getElem?_append]
  by_cases h : a < bytes.length
  · rw [if_pos (by rw [List.length_take]; omega), List.getElem?_take_of_lt ha]
  · rw [if_neg (by rw [List.length_take]; omega), List.getElem?_eq_none (Nat.not_lt.mp h)]
    rw [List.getElem?_replicate]
    split <;> rfl

/-- Overlaid bytes cover as much as they are long. -/
theorem read_overlay (m : Memory n) (bytes : List UInt8) {a : Nat} (ha : a < n) :
    (m.overlay bytes).read a = if a < bytes.length then bytes.getD a 0 else m.read a := by
  have hwrap : a % n = a := Nat.mod_eq_of_lt ha
  rw [overlay, read_ofList _ ha, List.getD_eq_getElem?_getD, List.getElem?_append]
  split_ifs with hin hlong hlong
  · rw [List.getElem?_take_of_lt ha, List.getD_eq_getElem?_getD]
  · rw [List.length_take] at hin
    omega
  · rw [List.length_take] at hin
    omega
  · rw [List.getElem?_drop, List.length_take, Nat.min_eq_right (by omega), Nat.add_sub_cancel' (by omega)]
    simp [read, hwrap]

theorem overlays_overlay : Overlays fun bytes (m : Memory n) => m.overlay bytes where
  again bytes m := ext_read fun a ha => by
    simp only [read_overlay _ _ ha]
    split <;> rfl
  later bytes other m := ext_read fun a ha => by
    simp only [read_overlay _ _ ha]
    split_ifs <;> rfl

end Memory

/-- What a board keeps of its past when it takes bytes over, it keeps for good. -/
theorem Board.load_load (board : Board) (bytes bytes' : Nat → UInt8) :
    (board.load bytes).load bytes' = board.load bytes' := by
  cases board with
  | vrc4 s => cases hwiring : s.wiring <;> simp [load, Vrc4.load, hwiring, VrcCounter.load]
  | _ => rfl

/-! ### All blocks -/

namespace Snapshot

theorem overlays_restoreVram : Overlays fun body cart => restoreVram cart body where
  again body cart := by
    simp only [restoreVram, Option.map_map, Function.comp_def, Memory.overlays_overlay.again]
  later body other cart := by
    simp only [restoreVram, Option.map_map, Function.comp_def, Memory.overlays_overlay.later]

theorem overlays_restoreSram : Overlays fun body cart => restoreSram cart body where
  again body cart := by simp only [restoreSram, Memory.overlays_overlay.again]
  later body other cart := by simp only [restoreSram, Memory.overlays_overlay.later]

theorem overwrites_cartAfter (l : List Block) : Overwrites cartAfter l :=
  overlays_restoreVram.overwrites overlays_restoreSram (fun _ _ _ => rfl) _ _ l

theorem overwrites_boardAfter (l : List Block) : Overwrites boardAfter l := by
  constructor
  · intro b _ board
    by_cases hb : b.tag = .board
    · simp only [boardAfter, if_pos hb, Option.map_map, Function.comp_def, Board.load_load]
    · simp only [boardAfter, if_neg hb]
  · intro b _ c _ board
    by_cases hb : b.tag = .board
    · by_cases hc : c.tag = .board
      · simp only [boardAfter, if_pos hb, if_pos hc, Option.map_map, Function.comp_def, Board.load_load]
      · simp only [boardAfter, if_pos hb, if_neg hc, Option.map_map, Function.comp_def, Board.load_load]
    · simp only [boardAfter, if_neg hb]

/-- A list with at most one of a kind has no two different ones. -/
theorem eq_of_countP_le_one {α : Type} {p : α → Bool} {l : List α} (h : l.countP p ≤ 1) {a b : α}
    (ha : a ∈ l) (hb : b ∈ l) (hpa : p a = true) (hpb : p b = true) : a = b := by
  rw [List.countP_eq_length_filter] at h
  have ha' : a ∈ l.filter p := List.mem_filter.mpr ⟨ha, hpa⟩
  have hb' : b ∈ l.filter p := List.mem_filter.mpr ⟨hb, hpb⟩
  match hfound : l.filter p with
  | [] => simp [hfound] at ha'
  | [x] =>
    rw [hfound, List.mem_singleton] at ha' hb'
    rw [ha', hb']
  | x :: y :: rest => simp [hfound] at h

theorem soundAfter_again (s : Sound) (b : Block) : soundAfter (soundAfter s b) b = soundAfter s b := by
  by_cases hb : b.tag = .sound
  · simp only [soundAfter, if_pos hb, restoreSound, Sound.writeAll_again]
  · simp only [soundAfter, if_neg hb]

theorem overwrites_soundAfter {l : List Block} (h : l.countP (·.tag = .sound) ≤ 1) :
    Overwrites soundAfter l := by
  refine ⟨fun b _ s => soundAfter_again s b, fun b hb c hc s => ?_⟩
  by_cases hbs : b.tag = .sound
  · by_cases hcs : c.tag = .sound
    · have hsame : b = c := eq_of_countP_le_one h hb hc (by simpa using hbs) (by simpa using hcs)
      rw [hsame, soundAfter_again]
    · have hidle : ∀ s, soundAfter s c = s := fun s => if_neg hcs
      rw [hidle, hidle, soundAfter_again]
  · have hidle : ∀ s, soundAfter s b = s := fun s => if_neg hbs
    rw [hidle, hidle, hidle]

/-- Blocks change no ROM. -/
theorem roms_cartAfter (cart : Cartridge) (b : Block) :
    (cartAfter cart b).prg = cart.prg ∧ (cartAfter cart b).chr = cart.chr := by
  unfold cartAfter byTag
  split
  · exact ⟨rfl, rfl⟩
  · split <;> exact ⟨rfl, rfl⟩

theorem patterns_congr {cart cart' : Cartridge} (h : cart'.chr = cart.chr) :
    patterns cart' = patterns cart := by
  cases cart
  cases cart'
  cases h
  rfl

theorem overwrites_takeOver {l : List Block} (h : l.countP (·.tag = .sound) ≤ 1) :
    Overwrites takeOver l := by
  have hprg : ∀ (cart : Cartridge) (b : Block), (cartAfter cart b).prg = cart.prg := by
    intro cart b
    exact (roms_cartAfter cart b).1
  have hppu : ∀ (cart : Cartridge) (b : Block), ppuAfter (cartAfter cart b) = ppuAfter cart := by
    intro cart b
    rw [ppuAfter, patterns_congr (roms_cartAfter cart b).2, ppuAfter]
  constructor
  · intro b hb m
    simp only [takeOver, hprg, hppu, (overwrites_cpuAfter _ l).again b hb,
      (overwrites_ppuAfter _ l).again b hb, (overwrites_cartAfter l).again b hb,
      (overwrites_boardAfter l).again b hb, (overwrites_soundAfter h).again b hb]
  · intro b hb c hc m
    simp only [takeOver, hprg, hppu, (overwrites_cpuAfter _ l).later b hb c hc,
      (overwrites_ppuAfter _ l).later b hb c hc, (overwrites_cartAfter l).later b hb c hc,
      (overwrites_boardAfter l).later b hb c hc, (overwrites_soundAfter h).later b hb c hc]

/-- Blocks with one of zeros in front, if battery RAM is missing. -/
def completed (blocks : List Block) : List Block :=
  if blocks.any (·.tag = .sram) then blocks
  else ⟨.sram, 0 :: (Memory.zero 0x2000).toList⟩ :: blocks

theorem unlogged_restoreBlocks (m : Machine) (blocks : List Block) :
    (restoreBlocks m blocks).unlogged = (completed blocks).foldl takeOver m.unlogged := by
  rw [restoreBlocks, Machine.unlogged_note, unlogged_foldl, completed]
  split
  · rfl
  · rw [List.foldl_cons, ← unlogged_restoreBlock, restoreBlock_sram, restoreSram]
    simp only [List.drop_one, List.tail_cons, Memory.overlay_toList]
    rfl

theorem hasCartridge_restoreBlocks (m : Machine) (blocks : List Block) :
    (restoreBlocks m blocks).hasCartridge = m.hasCartridge := by
  have hfold : ∀ (l : List Block) (k : Machine), (l.foldl takeOver k).hasCartridge = k.hasCartridge := by
    intro l
    induction l with
    | nil => exact fun _ => rfl
    | cons b l ih =>
      intro k
      rw [List.foldl_cons, ih]
      show (boardAfter k.board b).isSome = k.board.isSome
      unfold boardAfter
      split
      · exact Option.isSome_map
      · rfl
  show (restoreBlocks m blocks).unlogged.hasCartridge = _
  rw [unlogged_restoreBlocks, hfold]
  rfl

end Snapshot

open Snapshot

/-- Taking a snapshot over a second time leaves the machine, its log apart, as the first time did. -/
theorem Machine.restore_again {m n : Machine} {bytes : List UInt8} {blocks : List Block}
    (hblocks : Block.decodeAll bytes = .ok blocks) (hsound : blocks.countP (·.tag = .sound) ≤ 1)
    (h : m.restore bytes = .ok n) : ∃ k, n.restore bytes = .ok k ∧ { k with log := n.log } = n := by
  obtain ⟨hslot, read, hread, rfl⟩ := of_restore h
  obtain rfl : blocks = read := Except.ok.inj (hblocks.symm.trans hread)
  refine ⟨restoreBlocks (restoreBlocks m blocks) blocks, ?_, ?_⟩
  · exact restore_eq (by rw [hasCartridge_restoreBlocks, hslot]) hblocks
  · have hcompleted : (completed blocks).countP (·.tag = .sound) ≤ 1 := by
      unfold completed
      split
      · exact hsound
      · rwa [List.countP_cons_of_neg (by decide)]
    have hsame : (restoreBlocks (restoreBlocks m blocks) blocks).unlogged =
        (restoreBlocks m blocks).unlogged := by
      rw [unlogged_restoreBlocks, unlogged_restoreBlocks, (overwrites_takeOver hcompleted).foldl_again]
    exact congrArg (fun k : Machine => { k with log := (restoreBlocks m blocks).log }) hsame

/-- Repeated, short and unknown blocks, taken over twice by a console with an MMC1. -/
theorem Machine.restore_again_mmc1 :
    let blocks : List Block := [⟨.board, [0, 1, 0, 2]⟩, ⟨.base, [1, 2, 3]⟩, ⟨.sound, [0xBF, 0x08]⟩,
      ⟨.vram, [7, 7]⟩, ⟨.board, []⟩, ⟨#v[0x3F, 0x3F, 0x3F, 0x3F], [9]⟩, ⟨.vram, [8]⟩, ⟨.base, []⟩]
    let m := ((default : Machine).insert (.blank 1)).2
    Block.decodeAll (Block.encodeAll blocks) = .ok blocks ∧ blocks.countP (·.tag = .sound) ≤ 1 ∧
      ∃ n, m.restore (Block.encodeAll blocks) = .ok n ∧
        ∃ k, n.restore (Block.encodeAll blocks) = .ok k ∧ { k with log := n.log } = n := by
  intro blocks m
  have hblocks : Block.decodeAll (Block.encodeAll blocks) = .ok blocks :=
    Block.decodeAll_encodeAll blocks (by decide) (by decide)
  have hsound : blocks.countP (·.tag = .sound) ≤ 1 := by decide
  have hslot : m.hasCartridge = true :=
    (insert_native (Cartridge.blank_wellFormed (by decide)) default).hasCartridge
  have hfirst : m.restore (Block.encodeAll blocks) = .ok (restoreBlocks m blocks) := restore_eq hslot hblocks
  exact ⟨hblocks, hsound, _, hfirst, restore_again hblocks hsound hfirst⟩

end Famicom
