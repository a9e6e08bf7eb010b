import Famicom.Cartridge.Image

/-!
The image format as a statement about the bytes alone, and the reader accepts exactly it.

    0        16          programStart     patternStart     imageEnd
    │ header │ trainer?  │ p · 16KB       │ c · 8KB        │ whatever follows
    4: p   5: c   6: low nybble of the board, bit 2 the trainer   7: high nybble, unless signed

Sizes and places are sums over the counts of the header, so a reader that carries a cursor is compared
with places that nobody carried.
-/

namespace Famicom.Image

variable {bytes : Array UInt8} {name : String} {c : Cartridge}

/-! ### The format -/

/-- A byte of an image as a number; zero past its end. -/
def byte (bytes : Array UInt8) (i : Nat) : Nat := (bytes.getD i 0).toNat

/-- Number of trainers, at most one. -/
def trainers (bytes : Array UInt8) : Nat := byte bytes 6 / 4 % 2

/-- Bytes 7 to 15 spell `DiskDude!`. -/
def Signed (bytes : Array UInt8) : Prop :=
  (bytes.extract 7 16).toList = [0x44, 0x69, 0x73, 0x6B, 0x44, 0x75, 0x64, 0x65, 0x21]

instance : Decidable (Signed bytes) := inferInstanceAs (Decidable (_ = _))

/-- The number of the board, from two nybbles or from the low one alone. -/
def boardNumber (bytes : Array UInt8) : Nat :=
  byte bytes 6 / 16 + if Signed bytes then 0 else 16 * (byte bytes 7 / 16)

/-- Where program ROM starts. -/
def programStart (bytes : Array UInt8) : Nat := 16 + 512 * trainers bytes

/-- Where pattern ROM starts. -/
def patternStart (bytes : Array UInt8) : Nat := programStart bytes + 16384 * byte bytes 4

/-- Where the last bank ends. -/
def imageEnd (bytes : Array UInt8) : Nat := patternStart bytes + 8192 * byte bytes 5

/-- A string of bytes that is an image. -/
structure InFormat (bytes : Array UInt8) : Prop where
  header : 16 ≤ bytes.size
  magic : (bytes.extract 0 4).toList = [0x4E, 0x45, 0x53, 0x1A]
  banks : byte bytes 4 ≠ 0
  board : ∃ number ∈ Mapper.supported, number.toNat = boardNumber bytes
  whole : imageEnd bytes ≤ bytes.size

/-- A cartridge with the memories that an image describes. -/
structure Holds (bytes : Array UInt8) (c : Cartridge) : Prop where
  prg : c.prg = bytes.extract (programStart bytes) (patternStart bytes)
  chr : c.chr = bytes.extract (patternStart bytes) (imageEnd bytes)
  /-- Zero but for the trainer. -/
  sram : ∀ i < 0x2000, c.sram.read i =
    if trainers bytes = 1 ∧ 0x1000 ≤ i ∧ i < 0x1200 then bytes.getD (16 + (i - 0x1000)) 0 else 0
  /-- Pattern RAM starts out as zeros. -/
  vram : c.vram = if byte bytes 5 = 0 then some (Memory.zero 0x2000) else none
  mapper : c.mapper.toNat = boardNumber bytes

/-! ### The header's fields are what the format says -/

theorem header_trainer : (header bytes).trainer = decide (trainers bytes = 1) := by
  have hbit : ∀ n < 256, n &&& 4 = if n / 4 % 2 = 1 then 4 else 0 := by decide +kernel
  have h : ((header bytes).control &&& 4).toNat = if trainers bytes = 1 then 4 else 0 := by
    rw [UInt8.toNat_and]
    exact hbit _ (UInt8.toNat_lt _)
  rw [Header.trainer]
  split at h
  case isTrue ht =>
    have h4 : (header bytes).control &&& 4 = 4 := UInt8.toNat.inj h
    simp [h4, ht]
  case isFalse ht =>
    have h0 : (header bytes).control &&& 4 = 0 := UInt8.toNat.inj h
    simp [h0, ht]

theorem header_signed (h : 16 ≤ bytes.size) : (header bytes).signed = decide (Signed bytes) := by
  have h7 : 7 < bytes.size := by omega
  have hfirst : (bytes.extract 7 16).toList = bytes.getD 7 0 :: (bytes.extract 8 16).toList := by
    simp [Array.toList_extract, List.drop_eq_getElem_cons (l := bytes.toList) h7, h7]
  apply Bool.eq_iff_iff.mpr
  simp only [Header.signed, Signed, hfirst]
  simp [header, headerSize]

theorem nybbles (low high : UInt8) :
    (low >>> 4 ||| high &&& 0xF0).toNat = low.toNat / 16 + 16 * (high.toNat / 16) := by
  have hmask : ∀ n < 256, n &&& 0xF0 = 2 ^ 4 * (n / 16) := by decide +kernel
  have hlow : low.toNat / 16 < 2 ^ 4 := by have := low.toNat_lt; omega
  rw [UInt8.toNat_or, UInt8.toNat_and, UInt8.toNat_shiftRight, Nat.shiftRight_eq_div_pow, Nat.or_comm]
  change (high.toNat &&& 0xF0) ||| (low.toNat / 16) = _
  rw [hmask _ high.toNat_lt, ← Nat.two_pow_add_eq_or_of_lt hlow, Nat.add_comm]

theorem header_mapper (h : 16 ≤ bytes.size) : (header bytes).mapper.toNat = boardNumber bytes := by
  -- a signature is not clean, so the reader's test for both comes down to the signature
  have hdirty : (header bytes).signed = true → (header bytes).clean = false := by
    intro hsigned
    have hreserved := (Bool.and_eq_true_iff.mp hsigned).2
    rw [Header.clean, eq_of_beq hreserved]
    rfl
  rw [boardNumber, Header.mapper]
  by_cases hs : Signed bytes
  · have hsigned : (header bytes).signed = true := by rw [header_signed h, decide_eq_true hs]
    rw [hdirty hsigned, hsigned, if_pos hs]
    simp [header, byte, Nat.shiftRight_eq_div_pow]
  · have hsigned : (header bytes).signed = false := by rw [header_signed h, decide_eq_false hs]
    rw [hsigned, if_neg hs, Bool.and_false]
    exact nybbles (header bytes).control (header bytes).control2

/-! ### The reader -/

theorem slice_eq_some_iff {part : Array UInt8} {start size : Nat} :
    slice bytes start size = some part ↔
      start + size ≤ bytes.size ∧ bytes.extract start (start + size) = part := by
  simp [slice]

/-- The cartridge in an image, from the places of its parts. -/
def cartridge (bytes : Array UInt8) (name : String) : Cartridge where
  prg := bytes.extract (programStart bytes) (patternStart bytes)
  chr := bytes.extract (patternStart bytes) (imageEnd bytes)
  sram := if trainers bytes = 1 then
      (Memory.zero 0x2000).writeList trainerOffset (bytes.extract 16 528).toList
    else Memory.zero 0x2000
  vram := if byte bytes 5 = 0 then some (Memory.zero 0x2000) else none
  mapper := (header bytes).mapper
  mirroring := if (header bytes).control &&& 1 != 0 then .vertical else .horizontal
  battery := (header bytes).control &&& 2 != 0
  trainer := (header bytes).trainer
  fourScreen := (header bytes).control &&& 8 != 0
  versus := (header bytes).mapper == 99
  name := name
  notes := (header bytes).notes ++
    (if (header bytes).trainer then ["Read in trainer at $7000"] else [])

theorem isSupported_iff (h : 16 ≤ bytes.size) :
    Mapper.isSupported (header bytes).mapper = true ↔
      ∃ number ∈ Mapper.supported, number.toNat = boardNumber bytes := by
  rw [← header_mapper h, Mapper.isSupported, List.contains_iff_mem]
  constructor
  · intro hboard
    exact ⟨_, hboard, rfl⟩
  · rintro ⟨number, hnumber, heq⟩
    rwa [← UInt8.toNat.inj heq]

theorem programStart_eq :
    headerSize + (if (header bytes).trainer then trainerSize else 0) = programStart bytes := by
  have ht : trainers bytes < 2 := Nat.mod_lt _ (by decide)
  rw [header_trainer, programStart]
  rcases Nat.lt_succ_iff_lt_or_eq.mp ht with h0 | h1
  · simp [Nat.lt_one_iff.mp h0, headerSize]
  · simp [h1, headerSize, trainerSize]

theorem prgSize_header : (header bytes).prgSize = 16384 * byte bytes 4 := Nat.mul_comm _ _

theorem chrSize_header : (header bytes).chrSize = 8192 * byte bytes 5 := Nat.mul_comm _ _

/-- An image in the format is read. -/
theorem parse_of_inFormat (name : String) (h : InFormat bytes) :
    parse bytes name = .ok (cartridge bytes name) := by
  have hsize : ¬ bytes.size < headerSize := Nat.not_lt.mpr h.header
  have hmagic : (bytes.extract 0 4).toList = magic := h.magic
  have hboard := (isSupported_iff h.header).mpr h.board
  have hbanks : (header bytes).prgCount ≠ 0 := fun h0 => h.banks (congrArg UInt8.toNat h0)
  have hfit : patternStart bytes ≤ imageEnd bytes := Nat.le_add_right _ _
  have hprg : slice bytes (programStart bytes) (header bytes).prgSize =
      some (bytes.extract (programStart bytes) (patternStart bytes)) := by
    rw [slice_eq_some_iff, prgSize_header]
    exact ⟨Nat.le_trans hfit h.whole, rfl⟩
  have hchr : slice bytes (programStart bytes + (header bytes).prgSize) (header bytes).chrSize =
      some (bytes.extract (patternStart bytes) (imageEnd bytes)) := by
    rw [slice_eq_some_iff, prgSize_header, chrSize_header]
    exact ⟨h.whole, rfl⟩
  have hcount : (header bytes).chrCount = 0 ↔ byte bytes 5 = 0 :=
    ⟨congrArg UInt8.toNat, fun h0 => UInt8.toNat.inj h0⟩
  simp only [parse, bind, Except.bind, pure, Except.pure, hsize, hmagic, hboard, hbanks,
    if_false, ne_eq, not_true, Bool.not_true, Bool.false_eq_true, programStart_eq, hprg, hchr]
  by_cases ht : trainers bytes = 1
  · have htrainer : slice bytes headerSize trainerSize = some (bytes.extract 16 528) := by
      have hstart : programStart bytes = 528 := by rw [programStart, ht]
      have hfirst : programStart bytes ≤ patternStart bytes := Nat.le_add_right _ _
      rw [slice_eq_some_iff]
      exact ⟨by simp only [headerSize, trainerSize]; have := h.whole; omega, rfl⟩
    simp [header_trainer, ht, htrainer, cartridge, hcount]
  · simp [header_trainer, ht, cartridge, hcount]

/-- What is read is in the format. -/
theorem inFormat_of_parse (h : parse bytes name = .ok c) : InFormat bytes := by
  unfold parse at h
  simp only [bind, Except.bind, throw, throwThe, MonadExceptOf.throw, pure, Except.pure] at h
  -- every refusal contradicts `h`; what is left are an image with a trainer and one without
  repeat' split at h
  all_goals first | (exfalso; simp only [reduceCtorEq] at h) | skip
  all_goals
    have hsize : 16 ≤ bytes.size := Nat.not_lt.mp ‹¬ bytes.size < headerSize›
    have hboard : Mapper.isSupported (header bytes).mapper = true := by
      simpa using ‹¬(!Mapper.isSupported _) = true›
    rename_i hbanks _ prg hprg _ chr hchr _ _
    have hstart := @programStart_eq bytes
    simp only [*, if_true, Bool.false_eq_true, if_false] at hstart
    have hwhole : imageEnd bytes ≤ bytes.size := by
      rw [hstart, slice_eq_some_iff, prgSize_header, chrSize_header] at hchr
      exact hchr.1
    exact ⟨hsize, Decidable.not_not.mp ‹_›, fun h0 => hbanks (UInt8.toNat.inj h0),
      (isSupported_iff hsize).mp hboard, hwhole⟩

/-! ### What the cartridge holds -/

theorem holds_cartridge (name : String) (h : InFormat bytes) : Holds bytes (cartridge bytes name) where
  prg := rfl
  chr := rfl
  vram := rfl
  mapper := header_mapper h.header
  sram := by
    intro i hi
    have hzero : (Memory.zero 0x2000).read i = 0 := Memory.read_filled (by decide) _ _
    by_cases ht : trainers bytes = 1
    · have hsize : 528 ≤ bytes.size := by
        have := h.whole
        simp only [imageEnd, patternStart, programStart, ht] at this
        omega
      have hlength : (bytes.extract 16 528).toList.length = 512 := by
        rw [Array.length_toList, Array.size_extract]
        omega
      have htrainer : ∀ k < 512, (bytes.extract 16 528).toList.getD k 0 = bytes.getD (16 + k) 0 := by
        intro k hk
        simp [List.getD_eq_getElem?_getD, hk]
      simp only [cartridge, if_pos ht, trainerOffset]
      rw [Memory.read_writeList _ _ _ hi (by omega), hlength, hzero]
      by_cases hin : 0x1000 ≤ i ∧ i < 0x1200
      · rw [if_pos hin, if_pos ⟨ht, hin⟩, htrainer _ (by omega)]
      · rw [if_neg hin, if_neg (fun h => hin h.2)]
    · rw [if_neg (fun hin => ht hin.1)]
      simp only [cartridge, if_neg ht, hzero]

/-! ### Whatever follows the last bank -/

theorem getD_append (rest : Array UInt8) {i : Nat} (hi : i < bytes.size) :
    (bytes ++ rest).getD i 0 = bytes.getD i 0 := by
  rw [Array.getD_eq_getD_getElem?, Array.getD_eq_getD_getElem?, Array.getElem?_append_left hi]

theorem extract_append (rest : Array UInt8) (start : Nat) {stop : Nat} (h : stop ≤ bytes.size) :
    (bytes ++ rest).extract start stop = bytes.extract start stop := by
  rw [Array.extract_append, Nat.sub_eq_zero_of_le h]
  simp

/-- An image and a longer one are read alike, as every byte that counts is in the first. -/
theorem cartridge_append (rest : Array UInt8) (name : String) (h : InFormat bytes) :
    InFormat (bytes ++ rest) ∧ cartridge (bytes ++ rest) name = cartridge bytes name := by
  have hsize := h.header
  have hbyte : ∀ i < 16, byte (bytes ++ rest) i = byte bytes i := by
    intro i hi
    rw [byte, getD_append rest (by omega), byte]
  have hheader : header (bytes ++ rest) = header bytes := by
    simp only [header, headerSize]
    rw [getD_append rest (by omega), getD_append rest (by omega), getD_append rest (by omega),
      getD_append rest (by omega), extract_append rest 8 hsize]
  have htrainers : trainers (bytes ++ rest) = trainers bytes := by
    rw [trainers, hbyte 6 (by decide), trainers]
  have hstart : programStart (bytes ++ rest) = programStart bytes := by
    rw [programStart, htrainers, programStart]
  have hpattern : patternStart (bytes ++ rest) = patternStart bytes := by
    rw [patternStart, hstart, hbyte 4 (by decide), patternStart]
  have hend : imageEnd (bytes ++ rest) = imageEnd bytes := by
    rw [imageEnd, hpattern, hbyte 5 (by decide), imageEnd]
  have hlonger : bytes.size ≤ (bytes ++ rest).size := by
    rw [Array.size_append]
    exact Nat.le_add_right _ _
  constructor
  · refine ⟨Nat.le_trans hsize hlonger, ?_, ?_, ?_, hend ▸ Nat.le_trans h.whole hlonger⟩
    · rw [extract_append rest 0 (by omega), h.magic]
    · rw [hbyte 4 (by decide)]
      exact h.banks
    · rw [← header_mapper (Nat.le_trans hsize hlonger), hheader, header_mapper hsize]
      exact h.board
  · have hprg : patternStart bytes ≤ bytes.size := Nat.le_trans (Nat.le_add_right _ _) h.whole
    have htrainer : trainers bytes = 1 → (bytes ++ rest).extract 16 528 = bytes.extract 16 528 := by
      intro ht
      refine extract_append rest 16 (Nat.le_trans ?_ hprg)
      rw [patternStart, programStart, ht]
      exact Nat.le_add_right _ _
    simp only [cartridge, hheader, htrainers, hstart, hpattern, hend, hbyte 5 (by decide),
      extract_append rest _ hprg, extract_append rest _ h.whole]
    split
    case isTrue ht => rw [htrainer ht]
    case isFalse => rfl

/-- The reader accepts the images of the format and no other string of bytes, hands out the memories
that the image describes, and never looks behind the last bank. -/
theorem reads_exactly_the_format (bytes : Array UInt8) (name : String) :
    ((∃ c, parse bytes name = .ok c) ↔ InFormat bytes) ∧
      ∀ c, parse bytes name = .ok c →
        Holds bytes c ∧ ∀ rest : Array UInt8, parse (bytes ++ rest) name = .ok c := by
  refine ⟨⟨fun ⟨_, h⟩ => inFormat_of_parse h, fun h => ⟨_, parse_of_inFormat name h⟩⟩, ?_⟩
  intro c hc
  have h := inFormat_of_parse hc
  obtain rfl : cartridge bytes name = c := Except.ok.inj ((parse_of_inFormat name h).symm.trans hc)
  refine ⟨holds_cartridge name h, fun rest => ?_⟩
  obtain ⟨hformat, hsame⟩ := cartridge_append rest name h
  rw [parse_of_inFormat name hformat, hsame]

/-- A signed header that counts a bank of each kind and a trainer, and asks for the first board. -/
def signedHeader : Array UInt8 :=
  #[0x4E, 0x45, 0x53, 0x1A, 1, 1, 0x14, 0x44, 0x69, 0x73, 0x6B, 0x44, 0x75, 0x64, 0x65, 0x21]

/-- The shortest image under that header. -/
def signedImage : Array UInt8 :=
  signedHeader ++ (Array.replicate 512 0xAA ++ Array.replicate 16384 1 ++ Array.replicate 8192 2)

theorem reads_signed_image : ∃ c, parse signedImage "dude" = .ok c ∧ Holds signedImage c ∧
    c.mapper = 1 ∧ c.sram.read 0x1000 = 0xAA ∧ parse (signedImage ++ #[1, 2, 3]) "dude" = .ok c := by
  have hbyte : ∀ i < 16, byte signedImage i = byte signedHeader i := by
    intro i hi
    rw [byte, signedImage, getD_append _ hi, byte]
  have hsigned : Signed signedImage := by simp [Signed, signedImage, signedHeader]
  have hboard : boardNumber signedImage = 1 := by
    rw [boardNumber, if_pos hsigned, hbyte 6 (by decide)]
    rfl
  have htrainer : trainers signedImage = 1 := by
    rw [trainers, hbyte 6 (by decide)]
    rfl
  have hend : imageEnd signedImage = signedImage.size := by
    rw [imageEnd, patternStart, programStart, htrainer, hbyte 4 (by decide), hbyte 5 (by decide)]
    simp [signedImage, signedHeader, byte]
  have hformat : InFormat signedImage := by
    refine ⟨by simp [signedImage], by simp [signedImage, signedHeader], ?_,
      ⟨1, by decide, hboard.symm⟩, Nat.le_of_eq hend⟩
    rw [hbyte 4 (by decide)]
    decide
  obtain ⟨hreads, hholds⟩ := reads_exactly_the_format signedImage "dude"
  obtain ⟨c, hc⟩ := hreads.mpr hformat
  obtain ⟨hc', hrest⟩ := hholds c hc
  refine ⟨c, hc, hc', UInt8.toNat.inj (hc'.mapper.trans hboard), ?_, hrest _⟩
  rw [hc'.sram _ (by decide), if_pos ⟨htrainer, by decide⟩]
  simp [signedImage, signedHeader]

end Famicom.Image
