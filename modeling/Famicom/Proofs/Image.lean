import Famicom.Proofs.Format

/-!
Cartridges out of images: the ROMs are whole banks, pattern RAM is there exactly when pattern ROM is
not, and a board exists.

    header ── counts ──▶ prg = n · 16KB, n > 0        chr = k · 8KB, RAM instead when k = 0
           └─ mapper ──▶ one of the supported numbers
-/

namespace Famicom

/-- What an image promises of its cartridge: whole banks, pattern RAM in place of missing pattern ROM,
and a board. -/
structure Cartridge.WellFormed (c : Cartridge) : Prop where
  prg : ∃ n, 0 < n ∧ n < 256 ∧ c.prg.size = n * 0x4000
  chr : ∃ n, n < 256 ∧ c.chr.size = n * 0x2000
  vram : c.vram.isSome = true ↔ c.chr.size = 0
  board : Mapper.isSupported c.mapper = true

/-- The parts of an image are as long as its header says. -/
theorem Image.wellFormed_cartridge {bytes : Array UInt8} {name : String} (h : InFormat bytes) :
    (cartridge bytes name).WellFormed := by
  have hfit : patternStart bytes ≤ bytes.size := Nat.le_trans (Nat.le_add_right _ _) h.whole
  have hprg : (cartridge bytes name).prg.size = byte bytes 4 * 0x4000 := by
    simp only [cartridge, Array.size_extract, Nat.min_eq_left hfit]
    rw [patternStart]
    omega
  have hchr : (cartridge bytes name).chr.size = byte bytes 5 * 0x2000 := by
    simp only [cartridge, Array.size_extract, Nat.min_eq_left h.whole]
    rw [imageEnd]
    omega
  refine ⟨⟨_, Nat.pos_of_ne_zero h.banks, UInt8.toNat_lt _, hprg⟩, ⟨_, UInt8.toNat_lt _, hchr⟩, ?_,
    (isSupported_iff h.header).mpr h.board⟩
  have hvram : (cartridge bytes name).vram.isSome = true ↔ byte bytes 5 = 0 := by simp [cartridge]
  rw [hvram, hchr]
  omega

/-- An accepted image yields a well-formed cartridge. -/
theorem Image.parse_wellFormed {bytes : Array UInt8} {name : String} {c : Cartridge}
    (h : parse bytes name = .ok c) : c.WellFormed := by
  have hformat := inFormat_of_parse h
  rw [parse_of_inFormat name hformat] at h
  exact Except.ok.inj h ▸ wellFormed_cartridge hformat

/-- A cartridge with one program bank of zeros and pattern RAM. -/
def Cartridge.blank (mapper : UInt8) : Cartridge where
  prg := Array.replicate 0x4000 0
  vram := some (Memory.zero 0x2000)
  mapper := mapper

theorem Cartridge.blank_wellFormed {mapper : UInt8} (h : Mapper.isSupported mapper = true) :
    (Cartridge.blank mapper).WellFormed where
  prg := ⟨1, by decide, by decide, Array.size_replicate⟩
  chr := ⟨0, by decide, rfl⟩
  vram := iff_of_true rfl rfl
  board := h

/-! ### Images that are accepted -/

namespace Image

/-- An image without a trainer that holds all the banks its header counts is accepted. -/
theorem parse_whole {bytes : Array UInt8} (name : String) (hmagic : (bytes.extract 0 4).toList = magic)
    (hboard : Mapper.isSupported (header bytes).mapper = true)
    (htrainer : (header bytes).trainer = false)
    (hbanks : (header bytes).prgCount ≠ 0)
    (hlong : headerSize + (header bytes).prgSize + (header bytes).chrSize ≤ bytes.size) :
    ∃ c, parse bytes name = .ok c ∧ c.mapper = (header bytes).mapper := by
  have hstart : headerSize = programStart bytes := by simpa [htrainer] using @programStart_eq bytes
  rw [hstart, prgSize_header, chrSize_header] at hlong
  have hsize : 16 ≤ bytes.size := by
    have : headerSize ≤ imageEnd bytes := by
      rw [hstart, imageEnd, patternStart]
      omega
    exact Nat.le_trans this hlong
  have hformat : InFormat bytes :=
    ⟨hsize, hmagic, fun h0 => hbanks (UInt8.toNat.inj h0), (isSupported_iff hsize).mp hboard, hlong⟩
  exact ⟨_, parse_of_inFormat name hformat, rfl⟩

/-- One program bank of zeros under a header with the given control byte. -/
def blank (control : UInt8) : Array UInt8 :=
  #[0x4E, 0x45, 0x53, 0x1A, 1, 0, control, 0, 0, 0, 0, 0, 0, 0, 0, 0] ++ Array.replicate 0x4000 0

theorem header_blank (control : UInt8) :
    header (blank control) = ⟨1, 0, control, 0, List.replicate 8 0⟩ := by
  simp [header, blank, headerSize, Array.getD]

theorem parse_blank {control : UInt8} (hboard : Mapper.isSupported (control >>> 4) = true)
    (htrainer : control &&& 4 = 0) :
    ∃ c, parse (blank control) "" = .ok c ∧ c.mapper = control >>> 4 := by
  have hheader := header_blank control
  have hmapper : (header (blank control)).mapper = control >>> 4 := by
    rw [hheader]
    simp [Header.mapper]
  have hmagic : ((blank control).extract 0 4).toList = magic := by simp [blank, magic]
  have hsize : (blank control).size = 16400 := by simp [blank]
  have h := parse_whole "" hmagic (hmapper ▸ hboard) (by simp [hheader, Header.trainer, htrainer])
    (by simp [hheader])
    (by simp [hheader, hsize, headerSize, Header.prgSize, Header.chrSize, Cartridge.prgBankSize])
  rwa [hmapper] at h

end Image

end Famicom
