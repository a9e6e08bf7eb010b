import Famicom.Ppu.Register
import Famicom.Proofs.Bitfields

/-!
Blocks of picture memory, moved through the address port and the data port.

    $2002  read          the write pair starts over
    $2006  high, low     the address
    $2007  write …       one byte each, the address moves on by 1 or 32
    $2006  high, low     the address again
    $2007  read          what the buffer held before; the first byte is fetched
    $2007  read …        one byte each, fetched by the read before

Several addresses may show one cell. A write to the upper copy of the nametables goes through the upper
windows, a read of it through the lower ones; they meet in the same cell because the windows repeat.
-/

namespace Famicom

/-- A byte of nametable RAM or of pattern RAM. -/
inductive Cell where
  | nametable (index : Fin 0x1000)
  | vram (index : Fin 0x2000)
  deriving DecidableEq, Repr

namespace Ppu

/-- The cell that the windows show at an address, if they show nametable RAM or existing pattern RAM. -/
def cell? (p : Ppu) (cart : Cartridge) (address : Nat) : Option Cell :=
  let page := p.pages.page (address / 0x400)
  let index := page.offset + address % 0x400
  match page.region with
  | .nametable => some (.nametable (Fin.ofNat 0x1000 index))
  | .vram => if cart.vram.isSome then some (.vram (Fin.ofNat 0x2000 index)) else none
  | _ => none

/-- The byte in a cell. -/
def cellByte (s : Ppu × Cartridge) : Cell → UInt8
  | .nametable index => s.1.nametables.read index
  | .vram index => s.2.read .vram index

/-- The addresses of a block of `count` bytes. -/
def targets (p : Ppu) (start : UInt16) (count : Nat) : List Nat :=
  List.range' start.toNat count p.increment.toNat

/-! ### Programs of register accesses -/

/-- An access of the processor to a register. -/
inductive RegisterAccess where
  | read (register : UInt16)
  | write (register : UInt16) (value : UInt8)
  deriving DecidableEq, Repr

/-- Accesses one after the other: the bytes that were read, and unit and cartridge afterwards. -/
def serve (clock : Nat) (s : Ppu × Cartridge) : List RegisterAccess → List UInt8 × Ppu × Cartridge
  | [] => ([], s)
  | .read register :: rest =>
    let (value, p) := s.1.readRegister s.2 register clock
    let (values, s) := serve clock (p, s.2) rest
    (value :: values, s)
  | .write register value :: rest => serve clock (s.1.writeRegister s.2 register value) rest

/-- Points the data port at an address. -/
def point (address : UInt16) : List RegisterAccess :=
  [.write 0x2006 (address >>> 8).toUInt8, .write 0x2006 address.toUInt8]

/-- Writes a block and reads it back. -/
def transferProgram (start : UInt16) (block : List UInt8) : List RegisterAccess :=
  .read 0x2002 :: (point start ++ (block.map (.write 0x2007) ++ (point start ++
    .read 0x2007 :: List.replicate block.length (.read 0x2007))))

/-- Accesses that read nothing lead to those that follow. -/
theorem serve_append {clock : Nat} {s : Ppu × Cartridge} {first : List RegisterAccess}
    (hsilent : (serve clock s first).1 = []) (second : List RegisterAccess) :
    serve clock s (first ++ second) = serve clock (serve clock s first).2 second := by
  induction first generalizing s with
  | nil => rfl
  | cons access rest ih =>
    cases access with
    | read register => simp [serve] at hsilent
    | write register value => exact ih hsilent

/-! ### One access -/

/-- Between two accesses of a transfer: windows, settings and memories in place are those of the unit and
cartridge it began with, and the data port points at an address. -/
structure Points (p : Ppu) (cart : Cartridge) (s : Ppu × Cartridge) (address : Nat) : Prop where
  pages : s.1.pages = p.pages
  increment : s.1.increment = p.increment
  free : s.1.busy = false
  toggle : s.1.toggle = false
  vram : s.2.vram.isSome = cart.vram.isSome
  address : s.1.vramAddress.toNat = address

section
variable {p : Ppu} {cart : Cartridge} {s : Ppu × Cartridge} {t : Nat} {c : Cell}

theorem Points.cell? (h : Points p cart s t) (address : Nat) : s.1.cell? s.2 address = p.cell? cart address := by
  simp only [Ppu.cell?, h.pages, h.vram]

theorem increment_le (p : Ppu) : p.increment.toNat ≤ 32 := by
  unfold increment
  split <;> decide

/-- Below the palette the address moves on without a wrap. -/
theorem toNat_step {q : Ppu} (h : q.vramAddress.toNat < 0x3F00) :
    ((q.vramAddress + q.increment) &&& 0x3FFF).toNat = q.vramAddress.toNat + q.increment.toNat := by
  have hincrement := q.increment_le
  have hmask : ∀ n < 0x4000, n &&& 0x3FFF = n := fun n hn =>
    (Nat.and_two_pow_sub_one_eq_mod n 14).trans (Nat.mod_eq_of_lt hn)
  rw [UInt16.toNat_and, UInt16.toNat_add, Nat.mod_eq_of_lt (by omega)]
  exact hmask _ (by omega)

/-- The windows read the byte in the cell that they show. -/
theorem read_cell {q : Ppu} {address : UInt16} (h : q.cell? cart address.toNat = some c) :
    q.read cart address = cellByte (q, cart) c := by
  unfold Ppu.cell? at h
  unfold Ppu.read
  generalize q.pages.page (address.toNat / 0x400) = page at h ⊢
  obtain ⟨region, offset⟩ := page
  cases region with
  | nametable =>
    obtain rfl := Option.some.inj h
    exact (q.nametables.read_mod _).symm
  | vram =>
    simp only [Option.ite_none_right_eq_some, Option.some.injEq] at h
    obtain ⟨hvram, rfl⟩ := h
    obtain ⟨v, hv⟩ := Option.isSome_iff_exists.mp hvram
    simp only [cellByte, Cartridge.read, hv, Fin.ofNat]
    exact (v.read_mod _).symm
  | dead | ram | prg | chr | sram => simp at h

/-- They write to that cell and to no other. -/
theorem write_cell {q : Ppu} {address : UInt16} (h : q.cell? cart address.toNat = some c) (value : UInt8)
    (c' : Cell) :
    cellByte (q.write cart address value) c' = if c' = c then value else cellByte (q, cart) c' := by
  unfold Ppu.cell? at h
  unfold Ppu.write
  generalize q.pages.page (address.toNat / 0x400) = page at h ⊢
  obtain ⟨region, offset⟩ := page
  cases region with
  | nametable =>
    obtain rfl := Option.some.inj h
    cases c' with
    | nametable index =>
      simp only [cellByte, Memory.read_write _ (by decide : 0 < 0x1000), Nat.mod_eq_of_lt index.isLt,
        Cell.nametable.injEq, Fin.ext_iff, Fin.ofNat, eq_comm]
    | vram index => rfl
  | vram =>
    simp only [Option.ite_none_right_eq_some, Option.some.injEq] at h
    obtain ⟨hvram, rfl⟩ := h
    obtain ⟨v, hv⟩ := Option.isSome_iff_exists.mp hvram
    cases c' with
    | nametable index => rfl
    | vram index =>
      simp only [cellByte, Cartridge.read, Cartridge.write, hv, Option.map_some,
        Memory.read_write _ (by decide : 0 < 0x2000), Nat.mod_eq_of_lt index.isLt,
        Cell.vram.injEq, Fin.ext_iff, Fin.ofNat, eq_comm]
  | dead | ram | prg | chr | sram => simp at h

/-- A write through the windows changes memories alone. -/
theorem write_keeps (q : Ppu) (cart : Cartridge) (address : UInt16) (value : UInt8) :
    ∃ nametables, (q.write cart address value).1 = { q with nametables } ∧
      (q.write cart address value).2.vram.isSome = cart.vram.isSome := by
  unfold Ppu.write
  generalize q.pages.page (address.toNat / 0x400) = page
  obtain ⟨region, offset⟩ := page
  cases region with
  | nametable => exact ⟨_, rfl, rfl⟩
  | vram => exact ⟨_, rfl, Option.isSome_map⟩
  | dead | ram | prg | chr | sram => exact ⟨_, rfl, rfl⟩

/-- A write to the data port stores its byte in the cell that the port points at. -/
theorem Points.writeData (h : Points p cart s t) (hlow : t < 0x3F00) (hcell : p.cell? cart t = some c)
    (value : UInt8) :
    let s' := s.1.writeRegister s.2 0x2007 value
    Points p cart s' (t + p.increment.toNat) ∧ s'.1.readBuffer = s.1.readBuffer ∧
      ∀ c', cellByte s' c' = if c' = c then value else cellByte s c' := by
  intro s'
  obtain ⟨q, k⟩ := s
  let q₁ : Ppu := { q with bus := value }
  have haddress : q₁.vramAddress.toNat = t := h.address
  have hbelow : q₁.vramAddress < 0x3F00 := UInt16.lt_iff_toNat_lt.mpr (haddress ▸ hlow)
  have hfree : ¬ q₁.busy = true := Bool.eq_false_iff.mp h.free
  have hstore : q₁.storeData k value = q₁.write k q₁.vramAddress value := by
    rw [storeData, if_pos hbelow, if_neg hfree]
  have hs' : s' = ((q₁.write k q₁.vramAddress value).1.step, (q₁.write k q₁.vramAddress value).2) := by
    show ((q₁.storeData k value).1.step, (q₁.storeData k value).2) = _
    rw [hstore]
  have hshown : q₁.cell? k q₁.vramAddress.toNat = some c := by
    rw [haddress]
    exact (h.cell? t).trans hcell
  have hbytes := write_cell hshown value
  obtain ⟨nametables, hunit, hvram⟩ := q₁.write_keeps k q₁.vramAddress value
  rw [hs']
  refine ⟨⟨?_, ?_, ?_, ?_, hvram.trans h.vram, ?_⟩, ?_, hbytes⟩
  all_goals rw [hunit]
  · exact h.pages
  · exact h.increment
  · exact h.free
  · exact h.toggle
  · refine (toNat_step (q := q₁) (by omega)).trans ?_
    rw [haddress]
    exact congrArg (t + UInt16.toNat ·) h.increment
  · rfl

/-- The address that a read goes to shows the same cell, also in the upper copy of the nametables. -/
theorem cell?_lowered (hmirror : ∀ i < 4, p.pages.page (12 + i) = p.pages.page (8 + i)) {address : UInt16}
    (h : address.toNat < 0x3F00) :
    p.cell? cart (if address ≥ 0x3000 then address - 0x1000 else address).toNat = p.cell? cart address.toNat := by
  split
  case isFalse => rfl
  case isTrue hhigh =>
    have hhigh' : 0x3000 ≤ address.toNat := UInt16.le_iff_toNat_le.mp hhigh
    have hlowered : (address - 0x1000).toNat = address.toNat - 0x1000 :=
      UInt16.toNat_sub_of_le _ _ (UInt16.le_iff_toNat_le.mpr (by show 0x1000 ≤ _; omega))
    have hwindow := hmirror (address.toNat / 0x400 - 12) (by omega)
    have hupper : 12 + (address.toNat / 0x400 - 12) = address.toNat / 0x400 := by omega
    have hlower : 8 + (address.toNat / 0x400 - 12) = (address.toNat - 0x1000) / 0x400 := by omega
    have hoffset : (address.toNat - 0x1000) % 0x400 = address.toNat % 0x400 := by omega
    rw [hupper, hlower] at hwindow
    simp only [Ppu.cell?, hlowered, hwindow, hoffset]

/-- A read of the data port returns what was fetched before and fetches from where the port points. -/
theorem Points.readData (h : Points p cart s t) (clock : Nat) :
    let r := s.1.readRegister s.2 0x2007 clock
    r.1 = s.1.readBuffer ∧ (∀ c', cellByte (r.2, s.2) c' = cellByte s c') ∧
      (t < 0x3F00 → Points p cart (r.2, s.2) (t + p.increment.toNat)) ∧
      ((∀ i < 4, p.pages.page (12 + i) = p.pages.page (8 + i)) → t < 0x3F00 → p.cell? cart t = some c →
        r.2.readBuffer = cellByte s c) := by
  intro r
  obtain ⟨q, k⟩ := s
  let q₁ : Ppu := { q with bus := q.readBuffer }
  let address := if q.vramAddress ≥ 0x3000 then q.vramAddress - 0x1000 else q.vramAddress
  have hfree : ¬ q₁.busy = true := Bool.eq_false_iff.mp h.free
  have hr : r = (q.readBuffer, { q₁ with readBuffer := q₁.read k address }.step) := by
    show q.readData k = _
    unfold Ppu.readData
    simp only [q₁] at hfree
    simp only [hfree]
    rfl
  rw [hr]
  refine ⟨rfl, ?_, fun hlow => ?_, fun hmirror hlow hcell => ?_⟩
  · intro c'
    cases c' <;> rfl
  · refine ⟨h.pages, h.increment, h.free, h.toggle, h.vram, ?_⟩
    refine (toNat_step (q := q₁) (by rw [← h.address] at hlow; exact hlow)).trans ?_
    rw [show q₁.vramAddress.toNat = t from h.address]
    exact congrArg (t + UInt16.toNat ·) h.increment
  · have hshown : q₁.cell? k address.toNat = some c := by
      have hbelow : q.vramAddress.toNat < 0x3F00 := by
        rw [← h.address] at hlow
        exact hlow
      have hlowered : p.cell? cart address.toNat = p.cell? cart q.vramAddress.toNat := cell?_lowered hmirror hbelow
      refine (h.cell? _).trans (hlowered.trans ?_)
      rw [← hcell]
      exact congrArg _ h.address
    exact read_cell hshown

/-- The low byte that a new address leaves of the old one is overwritten by its own. -/
theorem address_halves (scroll : UInt16) {address : UInt16} (h : address < 0x4000) :
    address.toUInt8.toUInt16 |||
      (((address >>> 8).toUInt8.toUInt16 &&& 0x3F) <<< 8 ||| (scroll &&& 0x00FF)) &&& 0xFF00 = address := by
  have hsmall : address.toNat < 0x4000 := UInt16.lt_iff_toNat_lt.mp h
  have hlow : address.toUInt8.toUInt16.toNat = address.toNat % 256 := by simp
  have hhigh : (((address >>> 8).toUInt8.toUInt16 &&& 0x3F) <<< 8).toNat = (address.toNat / 256) <<< 8 := by
    have hshift : (address >>> 8).toNat = address.toNat / 256 := by
      rw [UInt16.toNat_shiftRight]
      exact Nat.shiftRight_eq_div_pow _ 8
    have hmask : (address.toNat / 256) &&& 0x3F = address.toNat / 256 :=
      (Nat.and_two_pow_sub_one_eq_mod _ 6).trans (Nat.mod_eq_of_lt (by omega))
    rw [UInt16.toNat_shiftLeft, UInt16.toNat_and, UInt8.toNat_toUInt16, UInt16.toNat_toUInt8, hshift,
      Nat.mod_eq_of_lt (by omega : address.toNat / 256 < 2 ^ 8)]
    show ((address.toNat / 256 &&& 0x3F) <<< 8) % 2 ^ 16 = _
    rw [hmask, Nat.shiftLeft_eq]
    exact Nat.mod_eq_of_lt (by omega)
  have hold : (scroll &&& 0x00FF).toNat < 2 ^ 8 := by
    rw [UInt16.toNat_and]
    exact Nat.lt_of_le_of_lt Nat.and_le_right (by decide)
  have hfield : (address.toNat / 256 * 2 ^ 8 + (scroll &&& 0x00FF).toNat) / 2 ^ 8 % 2 ^ 8 =
      address.toNat / 256 := by omega
  apply UInt16.toNat_inj.mp
  rw [UInt16.toNat_or, toNat_and_field _ 8 8 rfl, UInt16.toNat_or, hlow, hhigh,
    ← Nat.shiftLeft_add_eq_or_of_lt hold, Nat.shiftLeft_eq, Nat.or_comm, hfield, ← Nat.shiftLeft_eq,
    ← Nat.shiftLeft_add_eq_or_of_lt (Nat.mod_lt _ (by decide)), Nat.shiftLeft_eq]
  omega

/-- Two writes to the address port point the data port. -/
theorem serve_point (clock : Nat) {address : UInt16} (h : Points p cart s t) (hlow : address < 0x4000) :
    let r := serve clock s (point address)
    r.1 = [] ∧ Points p cart r.2 address.toNat ∧ r.2.1.readBuffer = s.1.readBuffer ∧
      ∀ c', cellByte r.2 c' = cellByte s c' := by
  intro r
  obtain ⟨q, k⟩ := s
  have hfirst : (!q.toggle) = true := by rw [show q.toggle = false from h.toggle]; rfl
  have hr : r = ([], { q with
      bus := address.toUInt8, scroll := address, vramAddress := address, toggle := false }, k) := by
    show ([], ({ ({ q with bus := (address >>> 8).toUInt8 }.writeAddress (address >>> 8).toUInt8) with
      bus := address.toUInt8 }.writeAddress address.toUInt8, k)) = _
    simp only [writeAddress, hfirst, if_true, Bool.not_true, Bool.false_eq_true, if_false, address_halves q.scroll hlow]
  rw [hr]
  refine ⟨rfl, ⟨h.pages, h.increment, h.free, rfl, h.vram, rfl⟩, rfl, fun c' => ?_⟩
  cases c' <;> rfl

/-! ### Runs -/

/-- A block that is written ends up in the cells of its addresses, if they are distinct, and nowhere else. -/
theorem serve_writes (clock : Nat) (d : List UInt8) {cells : List Cell} (h : Points p cart s t)
    (hlow : ∀ address ∈ List.range' t d.length p.increment.toNat, address < 0x3F00)
    (hcells : (List.range' t d.length p.increment.toNat).map (p.cell? cart) = cells.map some)
    (hdistinct : cells.Nodup) :
    let r := serve clock s (d.map (.write 0x2007))
    r.1 = [] ∧ (∃ t', Points p cart r.2 t') ∧ r.2.1.readBuffer = s.1.readBuffer ∧
      cells.map (cellByte r.2) = d ∧ ∀ c ∉ cells, cellByte r.2 c = cellByte s c := by
  induction d generalizing s t cells with
  | nil =>
    obtain rfl := List.map_eq_nil_iff.mp hcells.symm
    exact ⟨rfl, ⟨t, h⟩, rfl, rfl, fun c _ => rfl⟩
  | cons value d ih =>
    rw [List.length_cons, List.range'_succ] at hlow hcells
    obtain ⟨c, cells, rfl⟩ : ∃ c cells', cells = c :: cells' := by
      cases cells with
      | nil => simp at hcells
      | cons c cells => exact ⟨c, cells, rfl⟩
    obtain ⟨hcell, hrest⟩ := List.cons_eq_cons.mp hcells
    obtain ⟨hfresh, hdistinct⟩ := List.nodup_cons.mp hdistinct
    obtain ⟨hnext, hbuffer, hbytes⟩ := h.writeData (hlow t List.mem_cons_self) hcell value
    obtain ⟨hnone, hpoints, hbuffer', hblock, hothers⟩ :=
      ih hnext (fun address ha => hlow address (List.mem_cons_of_mem t ha)) hrest hdistinct
    refine ⟨hnone, hpoints, hbuffer'.trans hbuffer, ?_, fun c' hc' => ?_⟩
    · rw [List.map_cons]
      refine List.cons_eq_cons.mpr ⟨?_, hblock⟩
      exact (hothers c hfresh).trans ((hbytes c).trans (if_pos rfl))
    · obtain ⟨hne, hout⟩ := not_or.mp fun hor => hc' (List.mem_cons.mpr hor)
      exact (hothers c' hout).trans ((hbytes c').trans (if_neg hne))

/-- Reads return the byte that was fetched, then those of the cells that follow; nothing changes. -/
theorem serve_reads (clock : Nat) (hmirror : ∀ i < 4, p.pages.page (12 + i) = p.pages.page (8 + i))
    {cells : List Cell} (h : Points p cart s t) (hfetched : s.1.readBuffer = cellByte s c)
    (hlow : ∀ address ∈ List.range' t cells.length p.increment.toNat, address < 0x3F00)
    (hcells : (List.range' t cells.length p.increment.toNat).map (p.cell? cart) = cells.map some) :
    let r := serve clock s (List.replicate (cells.length + 1) (.read 0x2007))
    r.1 = (c :: cells).map (cellByte s) ∧ ∀ c', cellByte r.2 c' = cellByte s c' := by
  induction cells generalizing s t c with
  | nil =>
    obtain ⟨hvalue, hbytes, -, -⟩ := h.readData (c := c) clock
    refine ⟨?_, hbytes⟩
    exact congrArg (fun value => [value]) (hvalue.trans hfetched)
  | cons c₁ cells ih =>
    rw [List.length_cons, List.range'_succ] at hlow hcells
    obtain ⟨hcell, hrest⟩ := List.cons_eq_cons.mp hcells
    obtain ⟨hvalue, hbytes, hnext, hfetch⟩ := h.readData (c := c₁) clock
    have hbelow := hlow t List.mem_cons_self
    obtain ⟨hvalues, hbytes'⟩ := ih (hnext hbelow) ((hfetch hmirror hbelow hcell).trans (hbytes c₁).symm)
      (fun address ha => hlow address (List.mem_cons_of_mem t ha)) hrest
    refine ⟨?_, fun c' => (hbytes' c').trans (hbytes c')⟩
    rw [List.map_congr_left fun c' _ => hbytes c'] at hvalues
    exact List.cons_eq_cons.mpr ⟨hvalue.trans hfetched, hvalues⟩

/-- From a fresh address on, the first read fetches and the others return the block's cells in order. -/
theorem serve_readBack (clock : Nat) (hmirror : ∀ i < 4, p.pages.page (12 + i) = p.pages.page (8 + i))
    {cells : List Cell} (h : Points p cart s t)
    (hlow : ∀ address ∈ List.range' t cells.length p.increment.toNat, address < 0x3F00)
    (hcells : (List.range' t cells.length p.increment.toNat).map (p.cell? cart) = cells.map some) :
    let r := serve clock s (.read 0x2007 :: List.replicate cells.length (.read 0x2007))
    r.1 = s.1.readBuffer :: cells.map (cellByte s) ∧ ∀ c, cellByte r.2 c = cellByte s c := by
  cases cells with
  | nil =>
    obtain ⟨hvalue, hbytes, -, -⟩ := h.readData (c := .nametable 0) clock
    exact ⟨congrArg (fun value => [value]) hvalue, hbytes⟩
  | cons c cells =>
    rw [List.length_cons, List.range'_succ] at hlow hcells
    obtain ⟨hcell, hrest⟩ := List.cons_eq_cons.mp hcells
    obtain ⟨hvalue, hbytes, hnext, hfetch⟩ := h.readData (c := c) clock
    have hbelow := hlow t List.mem_cons_self
    obtain ⟨hvalues, hbytes'⟩ := serve_reads clock hmirror (hnext hbelow)
      ((hfetch hmirror hbelow hcell).trans (hbytes c).symm)
      (fun address ha => hlow address (List.mem_cons_of_mem t ha)) hrest
    rw [List.map_congr_left fun c' _ => hbytes c'] at hvalues
    exact ⟨List.cons_eq_cons.mpr ⟨hvalue, hvalues⟩, fun c' => (hbytes' c').trans (hbytes c')⟩

end

/-- A block written to picture memory and read back is the block, one read late, and no cell outside of it has
changed. -/
theorem block_transfer (p : Ppu) (cart : Cartridge) (clock : Nat) (start : UInt16) (d : List UInt8)
    (cells : List Cell) (hfree : p.enabled = false ∨ p.unlocked = true)
    (hmirror : ∀ i < 4, p.pages.page (12 + i) = p.pages.page (8 + i)) (hstart : start < 0x3F00)
    (hlow : ∀ address ∈ p.targets start d.length, address < 0x3F00)
    (hcells : (p.targets start d.length).map (p.cell? cart) = cells.map some) (hdistinct : cells.Nodup) :
    let (answers, after) := serve clock (p, cart) (transferProgram start d)
    answers = (p.readStatus clock).1 :: p.readBuffer :: d ∧ cells.map (cellByte after) = d ∧
      ∀ c ∉ cells, cellByte after c = cellByte (p, cart) c := by
  have hcount : cells.length = d.length := by
    have hlengths := congrArg List.length hcells
    simpa [targets] using hlengths.symm
  have hbelow : start < 0x4000 := UInt16.lt_trans hstart (by decide)
  have hfree : p.busy = false := by
    rcases hfree with hoff | hopen
    · simp [busy, hoff]
    · simp [busy, hopen]
  -- One state after each stage: status, address, block, address again, reading back.
  let s₀ : Ppu × Cartridge := ((p.readStatus clock).2, cart)
  let s₁ := (serve clock s₀ (point start)).2
  let s₂ := (serve clock s₁ (d.map (.write 0x2007))).2
  let s₃ := (serve clock s₂ (point start)).2
  let back := serve clock s₃ (.read 0x2007 :: List.replicate d.length (.read 0x2007))
  have h₀ : Points p cart s₀ p.vramAddress.toNat := ⟨rfl, rfl, hfree, rfl, rfl, rfl⟩
  obtain ⟨hnone₁, h₁, hbuffer₁, hbytes₁⟩ := serve_point clock h₀ hbelow
  obtain ⟨hnone₂, ⟨_, h₂⟩, hbuffer₂, hblock, hothers⟩ := serve_writes clock d h₁ hlow hcells hdistinct
  obtain ⟨hnone₃, h₃, hbuffer₃, hbytes₃⟩ := serve_point clock h₂ hbelow
  obtain ⟨hvalues, hbytes⟩ : back.1 = s₃.1.readBuffer :: cells.map (cellByte s₃) ∧
      ∀ c, cellByte back.2 c = cellByte s₃ c := by
    have hback := serve_readBack clock hmirror h₃ (hcount ▸ hlow) (hcount ▸ hcells)
    rwa [hcount] at hback
  have hrest : serve clock s₀ ((transferProgram start d).drop 1) = back :=
    (serve_append hnone₁ _).trans ((serve_append hnone₂ _).trans (serve_append hnone₃ _))
  have hrun : serve clock (p, cart) (transferProgram start d) = ((p.readStatus clock).1 :: back.1, back.2) := by
    rw [← hrest]
    rfl
  have hheld : ∀ c, cellByte back.2 c = cellByte s₂ c := fun c => (hbytes c).trans (hbytes₃ c)
  rw [hrun]
  refine ⟨?_, ?_, fun c hc => ?_⟩
  · rw [hvalues, hbuffer₃.trans (hbuffer₂.trans hbuffer₁), List.map_congr_left fun c _ => hbytes₃ c, hblock]
    rfl
  · rw [List.map_congr_left fun c _ => hheld c]
    exact hblock
  · calc cellByte back.2 c = cellByte s₂ c := hheld c
      _ = cellByte s₁ c := hothers c hc
      _ = cellByte s₀ c := hbytes₁ c
      _ = cellByte (p, cart) c := by cases c <;> rfl

/-- Two bytes across the end of the nametables: the second goes through the copy of the first window. -/
theorem block_transfer_across :
    let cells : List Cell := [.nametable 0x7FF, .nametable 0]
    Ppu.powerOn.targets 0x2FFF 2 = [0x2FFF, 0x3000] ∧
      [0x2FFF, 0x3000].map (Ppu.powerOn.cell? Cartridge.empty) = cells.map some ∧
      let (answers, after) := serve 0 (Ppu.powerOn, Cartridge.empty) (transferProgram 0x2FFF [0x12, 0x34])
      answers = [0, 0, 0x12, 0x34] ∧ cells.map (cellByte after) = [0x12, 0x34] ∧
        ∀ c ∉ cells, cellByte after c = cellByte (Ppu.powerOn, Cartridge.empty) c :=
  ⟨by decide, by decide, block_transfer Ppu.powerOn Cartridge.empty 0 0x2FFF [0x12, 0x34]
    [.nametable 0x7FF, .nametable 0] (.inr rfl) (by decide) (by decide) (by decide) (by decide) (by decide)⟩

end Ppu

end Famicom
