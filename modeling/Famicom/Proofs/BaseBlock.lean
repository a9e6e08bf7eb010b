import Famicom.Proofs.Native

/-!
The block of the processor and the picture unit, taken apart where it was put together.

    baseHead │ RAM │ sprite memory │ nametables │ colours │ baseTail
    0        9     0809            0909         1909      1929       address at 192D

Restoring unpacks the body (`unpacked`) and then writes the picture unit's registers again, which
changes nothing that the body has set (`SetUp`). The palette loses its marks in the body; a marked one
gets them back.
-/

namespace Famicom

/-- The processor's registers and its RAM are the same. -/
structure Cpu.SameState (c d : Cpu) : Prop where
  a : d.a = c.a
  x : d.x = c.x
  y : d.y = c.y
  p : d.p = c.p
  s : d.s = c.s
  pc : d.pc = c.pc
  ram : d.ram = c.ram

theorem Cpu.SameState.withPages {c d : Cpu} (h : SameState c d) (pages : PageTable) :
    SameState c { d with pages } :=
  ⟨h.a, h.x, h.y, h.p, h.s, h.pc, h.ram⟩

/-- The picture unit's memories and the registers that a snapshot holds are the same. -/
structure Ppu.SameState (p q : Ppu) : Prop where
  ctrl : q.ctrl = p.ctrl
  mask : q.mask = p.mask
  oam : q.oam = p.oam
  nametables : q.nametables = p.nametables
  palette : q.palette = p.palette
  vramAddress : q.vramAddress = p.vramAddress
  oamAddress : q.oamAddress = p.oamAddress
  fineX : q.fineX = p.fineX

theorem Ppu.SameState.withPages {p q : Ppu} (h : SameState p q) (pages : PageTable) :
    SameState p { q with pages } :=
  ⟨h.ctrl, h.mask, h.oam, h.nametables, h.palette, h.vramAddress, h.oamAddress, h.fineX⟩

namespace Snapshot

/-! ### Bytes and words -/

theorem getD_add (body : List UInt8) (offset i : Nat) :
    body.getD (offset + i) 0 = (body.drop offset).getD i 0 := by
  simp [List.getD_eq_getElem?_getD, List.getElem?_drop]

/-- The word that two bytes were made from. -/
theorem word_wordBytes (w : UInt16) : (w >>> 8).toUInt8.toUInt16 <<< 8 ||| w.toUInt8.toUInt16 = w := by
  have hw := w.toNat_lt
  have hhigh : ((w >>> 8).toUInt8.toUInt16 <<< 8).toNat = 2 ^ 8 * (w.toNat / 256) := by
    simp [UInt16.toNat_shiftLeft, UInt16.toNat_shiftRight, Nat.shiftRight_eq_div_pow, Nat.shiftLeft_eq]
    omega
  have hlow : w.toUInt8.toUInt16.toNat = w.toNat % 256 := by simp
  apply UInt16.toNat.inj
  rw [UInt16.toNat_or, hhigh, hlow, ← Nat.two_pow_add_eq_or_of_lt (by omega)]
  omega

theorem wordAt_of_drop {body rest : List UInt8} {w : UInt16} {offset : Nat}
    (h : body.drop offset = wordBytes w ++ rest) : wordAt body offset = w := by
  have h0 : body.getD offset 0 = (w >>> 8).toUInt8 := by
    rw [← Nat.add_zero offset, getD_add, h]
    rfl
  have h1 : body.getD (offset + 1) 0 = w.toUInt8 := by
    rw [getD_add, h]
    rfl
  rw [wordAt, h0, h1, word_wordBytes]

/-! ### The block of the processor and the picture unit -/

section
variable (m : Machine)

/-- The body up to RAM. -/
def baseHead : List UInt8 :=
  [m.cpu.a, m.cpu.x, m.cpu.y, m.cpu.p, m.cpu.s] ++ wordBytes m.cpu.pc ++ [m.ppu.ctrl, m.ppu.mask]

/-- The body behind the palette. -/
def baseTail : List UInt8 :=
  (List.range 4).map (windowByte m.ppu.pages) ++
    (wordBytes m.ppu.vramAddress ++ [m.ppu.oamAddress, m.ppu.fineX])

theorem baseBody_eq : baseBody m = baseHead m ++ (m.cpu.ram.toList ++ (m.ppu.oam.toList ++
    (m.ppu.nametables.toList ++ ((m.ppu.palette.map (· &&& colourMask)).toList ++ baseTail m)))) := by
  simp only [baseBody, baseHead, baseTail, List.append_assoc, Vector.toList_map]

theorem drop_ram : (baseBody m).drop ramOffset = m.cpu.ram.toList ++ (m.ppu.oam.toList ++
    (m.ppu.nametables.toList ++ ((m.ppu.palette.map (· &&& colourMask)).toList ++ baseTail m))) := by
  rw [baseBody_eq]
  exact List.drop_left' rfl

theorem drop_oam : (baseBody m).drop oamOffset = m.ppu.oam.toList ++
    (m.ppu.nametables.toList ++ ((m.ppu.palette.map (· &&& colourMask)).toList ++ baseTail m)) := by
  rw [show oamOffset = ramOffset + 0x800 from rfl, ← List.drop_drop, drop_ram]
  exact List.drop_left' Vector.length_toList

theorem drop_nametables : (baseBody m).drop nametableOffset =
    m.ppu.nametables.toList ++ ((m.ppu.palette.map (· &&& colourMask)).toList ++ baseTail m) := by
  rw [show nametableOffset = oamOffset + 0x100 from rfl, ← List.drop_drop, drop_oam]
  exact List.drop_left' Vector.length_toList

theorem drop_palette : (baseBody m).drop paletteOffset =
    (m.ppu.palette.map (· &&& colourMask)).toList ++ baseTail m := by
  rw [show paletteOffset = nametableOffset + 0x1000 from rfl, ← List.drop_drop, drop_nametables]
  exact List.drop_left' Vector.length_toList

theorem drop_address : (baseBody m).drop addressOffset =
    wordBytes m.ppu.vramAddress ++ [m.ppu.oamAddress, m.ppu.fineX] := by
  rw [show addressOffset = paletteOffset + (32 + 4) from rfl, ← List.drop_drop, drop_palette,
    ← List.drop_drop, List.drop_left' Vector.length_toList]
  exact List.drop_left' (by simp)

end

/-- All that writing the setup registers again leaves as it is. -/
structure SetUp (m n : Machine) : Prop where
  cpu : n.cpu = m.cpu
  cart : n.cart = m.cart
  sound : n.sound = m.sound
  board : n.board = m.board
  ctrl : n.ppu.ctrl = m.ppu.ctrl
  mask : n.ppu.mask = m.ppu.mask
  oam : n.ppu.oam = m.ppu.oam
  nametables : n.ppu.nametables = m.ppu.nametables
  palette : n.ppu.palette = m.ppu.palette
  pages : n.ppu.pages = m.ppu.pages
  oamAddress : n.ppu.oamAddress = m.ppu.oamAddress
  fineX : n.ppu.fineX = m.ppu.fineX

section
variable {m n k : Machine}

theorem SetUp.trans (h : SetUp m n) (h' : SetUp n k) : SetUp m k :=
  ⟨h'.cpu.trans h.cpu, h'.cart.trans h.cart, h'.sound.trans h.sound, h'.board.trans h.board,
    h'.ctrl.trans h.ctrl, h'.mask.trans h.mask, h'.oam.trans h.oam, h'.nametables.trans h.nametables,
    h'.palette.trans h.palette, h'.pages.trans h.pages, h'.oamAddress.trans h.oamAddress,
    h'.fineX.trans h.fineX⟩

theorem setUp_drainNotes (m : Machine) : SetUp m m.drainNotes := by
  unfold Machine.drainNotes
  split <;> exact ⟨rfl, rfl, rfl, rfl, rfl, rfl, rfl, rfl, rfl, rfl, rfl, rfl⟩

/-- Writing the control byte again. -/
theorem setUp_ctrl {value : UInt8} (h : m.ppu.ctrl = value) : SetUp m (m.write 0x2000 value) := by
  refine SetUp.trans ?_ (setUp_drainNotes _)
  exact ⟨rfl, rfl, rfl, rfl, h.symm, rfl, rfl, rfl, rfl, rfl, rfl, rfl⟩

/-- Writing the mask again. -/
theorem setUp_mask {value : UInt8} (h : m.ppu.mask = value) : SetUp m (m.write 0x2001 value) := by
  refine SetUp.trans ?_ (setUp_drainNotes _)
  exact ⟨rfl, rfl, rfl, rfl, rfl, h.symm, rfl, rfl, rfl, rfl, rfl, rfl⟩

/-- Writing one half of the picture address. -/
theorem setUp_address (m : Machine) (value : UInt8) : SetUp m (m.write 0x2006 value) := by
  refine SetUp.trans ?_ (setUp_drainNotes _)
  show SetUp m { m with ppu := { m.ppu with bus := value }.writeAddress value }
  simp only [Ppu.writeAddress]
  split <;> exact ⟨rfl, rfl, rfl, rfl, rfl, rfl, rfl, rfl, rfl, rfl, rfl, rfl⟩

end

/-- The machine with a body's registers and memories, before the picture unit's registers are written
again. -/
def unpacked (m : Machine) (body : List UInt8) : Machine :=
  { m with cpu := restoreCpu m.cpu body, ppu := restorePpu m.ppu body }

/-- A body is taken over as it is unpacked; the address is put in place at the end. -/
theorem restoreBase_setUp (m : Machine) (body : List UInt8) :
    SetUp (unpacked m body) (restoreBase m body) ∧
      (restoreBase m body).ppu.vramAddress = wordAt body addressOffset := by
  have h₁ : SetUp (unpacked m body) ((unpacked m body).write 0x2000 (body.getD 7 0)) := setUp_ctrl rfl
  have h₂ : SetUp (unpacked m body) (((unpacked m body).write 0x2000 (body.getD 7 0)).write 0x2001
    (body.getD 8 0)) := h₁.trans (setUp_mask h₁.mask)
  have h₃ := h₂.trans (setUp_address _ (wordAt body addressOffset >>> 8).toUInt8)
  have h₄ := h₃.trans (setUp_address _ (wordAt body addressOffset).toUInt8)
  unfold restoreBase
  unfold unpacked at h₄ ⊢
  simp only
  generalize Machine.write _ _ _ = n at h₄ ⊢
  exact ⟨h₄.trans ⟨rfl, rfl, rfl, rfl, rfl, rfl, rfl, rfl, rfl, rfl, rfl, rfl⟩, trivial⟩

/-! ### Registers and memories -/

/-- The colours of a marked palette are enough to bring it back. -/
theorem paletteOf_marked {m : Machine} (h : Marked m.ppu.palette) :
    paletteOf (baseBody m) = m.ppu.palette := by
  have hcolours : Memory.ofList 32 ((baseBody m).drop paletteOffset) =
      m.ppu.palette.map (· &&& colourMask) := by
    rw [drop_palette, Memory.ofList_append]
  apply Memory.ext_read
  intro a ha
  unfold paletteOf
  simp only [hcolours]
  rw [Ppu.read_setBackdrop _ _ ha, h a ha, Memory.read_map _ (by decide), Memory.read_map _ (by decide)]

/-- The block of the processor and the picture unit brings their registers and memories back. -/
theorem restoreBase_same (m m' : Machine) (h : Marked m.ppu.palette) :
    Cpu.SameState m.cpu (restoreBase m' (baseBody m)).cpu ∧
      Ppu.SameState m.ppu (restoreBase m' (baseBody m)).ppu := by
  obtain ⟨hset, haddress⟩ := restoreBase_setUp m' (baseBody m)
  have hword : wordAt (baseBody m) 5 = m.cpu.pc := wordAt_of_drop rfl
  constructor
  · rw [hset.cpu]
    simp only [unpacked, restoreCpu, hword, drop_ram, Memory.ofList_append]
    exact ⟨rfl, rfl, rfl, rfl, rfl, rfl, rfl⟩
  · refine ⟨hset.ctrl.trans ?_, hset.mask.trans ?_, hset.oam.trans ?_, hset.nametables.trans ?_,
      hset.palette.trans ?_, haddress.trans (wordAt_of_drop (drop_address m)), hset.oamAddress.trans ?_,
      hset.fineX.trans ?_⟩
    all_goals simp only [unpacked, restorePpu]
    · rfl
    · rfl
    · rw [drop_oam, Memory.ofList_append]
    · rw [drop_nametables, Memory.ofList_append]
    · exact paletteOf_marked h
    · rw [getD_add, drop_address]
      rfl
    · rw [getD_add, drop_address]
      rfl

/-- It moves none but nametable windows. -/
theorem restoreBase_windows (m' : Machine) (body : List UInt8) :
    (restoreBase m' body).cpu.pages = m'.cpu.pages ∧
      ∀ w < 8, (restoreBase m' body).ppu.pages.page w = m'.ppu.pages.page w := by
  obtain ⟨hset, -⟩ := restoreBase_setUp m' body
  refine ⟨by rw [hset.cpu]; rfl, fun w hw => ?_⟩
  rw [hset.pages]
  show (windowsOf m'.ppu.pages body).page w = _
  simp only [windowsOf]
  rw [PageTable.page_mirror _ _ _ _ _ (by omega), if_pos hw]

end Snapshot

end Famicom
