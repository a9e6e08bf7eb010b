import Famicom.Proofs.Container
import Famicom.Proofs.Powered

/-!
Which bytes are a snapshot. Every block says how long it is, so the place of each follows from those in
front of it (`Block.start`), and bytes are accepted exactly if all places lie inside (`Block.Framed`):

    0       4       8 = start 0          start 1              start n
    S N S S │ n     │ header │ body 0    │ header │ body 1  … │ ignored

What is accepted is read block by block from these places, and nothing behind the last one matters. Bytes
that are refused leave the machine alone.
-/

namespace Famicom

namespace Block

/-- How many blocks a snapshot announces. -/
def announced (bytes : List UInt8) : Nat := number ((bytes.drop 4).take 4)

/-- The length that the header at an offset announces for its body. -/
def bodyLength (bytes : List UInt8) (offset : Nat) : Nat := number ((bytes.drop (offset + 8)).take 4)

/-- Where block `k` starts. -/
def start (bytes : List UInt8) : Nat → Nat
  | 0 => 8
  | k + 1 => start bytes k + headerSize + bodyLength bytes (start bytes k)

/-- Where the blocks end. -/
def finish (bytes : List UInt8) : Nat := start bytes (announced bytes)

/-- Block `k`, cut out of the bytes. -/
def blockAt (bytes : List UInt8) (k : Nat) : Block where
  tag := tagOf (bytes.drop (start bytes k))
  body := (bytes.drop (start bytes k + headerSize)).take (bodyLength bytes (start bytes k))

/-- The magic word, the count, and room for all the blocks that it announces. -/
structure Framed (bytes : List UInt8) : Prop where
  magic : bytes.take 4 = magic
  front : 8 ≤ bytes.length
  room : finish bytes ≤ bytes.length

variable {bytes : List UInt8}

/-! ### Places -/

theorem start_le_succ (bytes : List UInt8) (k : Nat) : start bytes k + headerSize ≤ start bytes (k + 1) := Nat.le_add_right _ _

theorem start_mono (bytes : List UInt8) (k more : Nat) : start bytes k + headerSize * more ≤ start bytes (k + more) := by
  induction more with
  | zero => exact Nat.le_refl _
  | succ more ih =>
    have hstep := start_le_succ bytes (k + more)
    rw [Nat.mul_succ, ← Nat.add_assoc k more 1]
    omega

/-- Announcing costs nothing, but a block has a header: only so many fit. -/
theorem Framed.count_le (h : Framed bytes) : headerSize * announced bytes + 8 ≤ bytes.length := by
  have hmono := start_mono bytes 0 (announced bytes)
  have hroom : start bytes (announced bytes) ≤ bytes.length := h.room
  have hzero : start bytes 0 = 8 := rfl
  rw [Nat.zero_add, hzero] at hmono
  omega

/-! ### Reading -/

theorem cut_drop {offset : Nat} (h : offset ≤ bytes.length) (count : Nat) :
    cut count (bytes.drop offset) =
      if offset + count ≤ bytes.length then
        some ((bytes.drop offset).take count, bytes.drop (offset + count))
      else none := by
  have hlength : ((bytes.drop offset).take count).length = count ↔ offset + count ≤ bytes.length := by
    rw [List.length_take, List.length_drop]
    omega
  simp only [cut, hlength, List.drop_drop]

theorem number_header (bytes : List UInt8) (offset : Nat) :
    number (((bytes.drop offset).take headerSize).drop 8) = bodyLength bytes offset := by
  rw [List.drop_take, List.drop_drop]
  rfl

theorem tagOf_take {count : Nat} (h : 4 ≤ count) (l : List UInt8) : tagOf (l.take count) = tagOf l := by
  apply Vector.ext
  intro i hi
  simp [tagOf, List.getElem?_take_of_lt (show i < count by omega)]

/-- Reading succeeds exactly if there is room for what is announced, and gives what lies there. -/
theorem decodeFrom_eq_ok_iff {bs : List Block} (index count k : Nat) (h : start bytes k ≤ bytes.length) :
    decodeFrom index count (bytes.drop (start bytes k)) = .ok bs ↔
      start bytes (k + count) ≤ bytes.length ∧ bs = (List.range' k count).map (blockAt bytes) := by
  induction count generalizing index k bs with
  | zero =>
    rw [decodeFrom, Except.ok.injEq, eq_comm]
    simp [h]
  | succ count ih =>
    have hmono := start_mono bytes (k + 1) count
    have hsucc : start bytes (k + 1) =
      start bytes k + headerSize + bodyLength bytes (start bytes k) := rfl
    have hplace : k + (count + 1) = k + 1 + count := by omega
    rw [decodeFrom, cut_drop h, hplace]
    by_cases hheader : start bytes k + headerSize ≤ bytes.length
    · rw [if_pos hheader]
      simp only [number_header, cut_drop hheader, tagOf_take (show 4 ≤ headerSize by decide)]
      by_cases hbody : start bytes (k + 1) ≤ bytes.length
      · rw [← hsucc, if_pos hbody]
        simp only
        have ih := fun tail : List Block => @ih tail (index + 1) (k + 1) hbody
        rw [List.range'_succ, List.map_cons]
        cases hrest : decodeFrom (index + 1) count (bytes.drop (start bytes (k + 1))) with
        | ok tail =>
          obtain ⟨hroom, rfl⟩ := (ih tail).mp hrest
          simp only [hroom, true_and]
          exact ⟨fun heq => (Except.ok.inj heq).symm, fun heq => heq ▸ rfl⟩
        | error e =>
          refine ⟨(fun heq => by cases heq), fun h => ?_⟩
          have hok := (ih _).mpr ⟨h.1, rfl⟩
          rw [hrest] at hok
          cases hok
      · rw [← hsucc, if_neg hbody]
        exact ⟨(fun heq => by cases heq), fun h => absurd (Nat.le_trans (by omega) h.1) hbody⟩
    · rw [if_neg hheader]
      exact ⟨(fun heq => by cases heq), fun h => absurd (Nat.le_trans (by omega) h.1) hheader⟩

/-- Bytes are read as the blocks that lie in them exactly if they are framed. -/
theorem decodeAll_eq_ok_iff {bs : List Block} :
    decodeAll bytes = .ok bs ↔
      Framed bytes ∧ bs = (List.range (announced bytes)).map (blockAt bytes) := by
  have hcut := cut_drop (Nat.zero_le bytes.length) 8
  rw [List.drop_zero, Nat.zero_add] at hcut
  rw [decodeAll, hcut]
  by_cases hfront : 8 ≤ bytes.length
  · have htake : (bytes.take 8).take 4 = bytes.take 4 := by rw [List.take_take]; rfl
    have hcount : number ((bytes.take 8).drop 4) = announced bytes := by rw [List.drop_take]; rfl
    rw [if_pos hfront]
    simp only [htake, hcount]
    by_cases hmagic : bytes.take 4 = magic
    · have hread := @decodeFrom_eq_ok_iff bytes bs 0 (announced bytes) 0 hfront
      rw [Nat.zero_add, ← List.range_eq_range'] at hread
      rw [if_pos hmagic]
      refine hread.trans (and_congr_left fun _ => ?_)
      exact ⟨fun hroom => ⟨hmagic, hfront, hroom⟩, Framed.room⟩
    · rw [if_neg hmagic]
      exact ⟨(fun heq => by cases heq), fun h => absurd h.1.magic hmagic⟩
  · rw [if_neg hfront]
    exact ⟨(fun heq => by cases heq), fun h => absurd h.1.front hfront⟩

/-! ### What is behind the last block -/

section
variable {other : List UInt8} {count : Nat}

/-- Bytes that start alike hold the same windows there. -/
theorem window_congr (h : other.take count = bytes.take count) {offset length : Nat}
    (hin : offset + length ≤ count) : (other.drop offset).take length = (bytes.drop offset).take length := by
  have hcut : ∀ l : List UInt8, (l.drop offset).take length = ((l.take count).drop offset).take length := by
    intro l
    rw [List.drop_take, List.take_take, Nat.min_eq_left (by omega)]
  rw [hcut, h, ← hcut]

theorem start_congr (h : other.take count = bytes.take count) (k : Nat) (hk : start bytes k ≤ count) :
    start other k = start bytes k := by
  induction k with
  | zero => rfl
  | succ k ih =>
    have hstep := start_le_succ bytes k
    have hsame := ih (by omega)
    have hlength : bodyLength other (start bytes k) = bodyLength bytes (start bytes k) := by
      unfold bodyLength
      rw [window_congr h (by unfold headerSize at hstep; omega)]
    rw [start, start, hsame, hlength]

theorem blockAt_congr (h : other.take count = bytes.take count) (k : Nat)
    (hk : start bytes (k + 1) ≤ count) : blockAt other k = blockAt bytes k := by
  have hstep := start_le_succ bytes k
  have hsucc : start bytes (k + 1) = start bytes k + headerSize + bodyLength bytes (start bytes k) := rfl
  have hstart := start_congr h k (by omega)
  have hlength : bodyLength other (start bytes k) = bodyLength bytes (start bytes k) := by
    unfold bodyLength
    rw [window_congr h (by unfold headerSize at hstep; omega)]
  have htag : tagOf (other.drop (start bytes k)) = tagOf (bytes.drop (start bytes k)) := by
    rw [← tagOf_take (Nat.le_refl 4) (other.drop _), ← tagOf_take (Nat.le_refl 4) (bytes.drop _),
      window_congr h (by unfold headerSize at hstep; omega)]
  unfold blockAt
  rw [hstart, hlength, htag, window_congr h (by omega)]

end

/-- Bytes behind the last block are ignored. -/
theorem Framed.decodeAll_congr (h : Framed bytes) {other : List UInt8}
    (hsame : other.take (finish bytes) = bytes.take (finish bytes)) :
    decodeAll other = decodeAll bytes := by
  have hmono := start_mono bytes 0 (announced bytes)
  have hzero : start bytes 0 = 8 := rfl
  rw [Nat.zero_add, hzero] at hmono
  have hfront : 8 ≤ finish bytes := Nat.le_trans (Nat.le_add_right _ _) hmono
  have hcount : announced other = announced bytes := by
    unfold announced
    rw [window_congr hsame (by omega)]
  have hend : finish other = finish bytes := by
    unfold finish
    rw [hcount]
    exact start_congr hsame _ (Nat.le_refl _)
  have hlength : finish bytes ≤ other.length := by
    have hroom := h.room
    have heq := congrArg List.length hsame
    rw [List.length_take, List.length_take] at heq
    omega
  have hmagic : other.take 4 = Block.magic := by
    have hfour := window_congr hsame (show 0 + 4 ≤ finish bytes by omega)
    rw [List.drop_zero, List.drop_zero] at hfour
    exact hfour.trans h.magic
  have hblocks : (List.range (announced other)).map (blockAt other) =
      (List.range (announced bytes)).map (blockAt bytes) := by
    rw [hcount]
    refine List.map_congr_left fun k hk => blockAt_congr hsame k ?_
    have hlater := start_mono bytes (k + 1) (announced bytes - (k + 1))
    have hk := List.mem_range.mp hk
    rw [show k + 1 + (announced bytes - (k + 1)) = announced bytes by omega] at hlater
    exact Nat.le_trans (Nat.le_add_right _ _) hlater
  have hother : Framed other := ⟨hmagic, Nat.le_trans hfront hlength, hend ▸ hlength⟩
  rw [decodeAll_eq_ok_iff.mpr ⟨hother, hblocks.symm⟩, decodeAll_eq_ok_iff.mpr ⟨h, rfl⟩]

end Block

namespace Machine

/-- A snapshot is refused exactly by an empty console or for its bytes. -/
theorem loadSnapshot_eq_error_iff (m : Machine) (bytes : List UInt8) :
    (∃ e, (m.loadSnapshot bytes).1 = .error e) ↔ m.board = none ∨ ∃ e, Block.decodeAll bytes = .error e := by
  unfold loadSnapshot hasCartridge
  cases m.board with
  | none => simp
  | some b => cases Block.decodeAll bytes <;> simp

/-- A refused snapshot changes nothing. -/
theorem loadSnapshot_refused (m : Machine) {bytes : List UInt8} {e : SnapshotError}
    (h : (m.loadSnapshot bytes).1 = .error e) : (m.loadSnapshot bytes).2 = m := by
  rcases m.loadSnapshot_cases bytes with ⟨e, hload, -⟩ | ⟨blocks, -, -, hload, -⟩
  · rw [hload]
  · rw [hload] at h
    cases h

/-- The container of snapshots, for all blocks and all bytes. What was written is read again; bytes are
read exactly if they are framed, as the blocks that lie in them, whatever follows the last one; no count
makes the reader go further than the bytes do. A machine refuses a snapshot exactly if it has no cartridge
or the bytes cannot be read, and is then what it was. -/
theorem snapshot_container :
    (∀ bs : List Block, bs.length < 0x100000000 → (∀ b ∈ bs, b.body.length < 0x100000000) →
      Block.decodeAll (Block.encodeAll bs) = .ok bs) ∧
    (∀ bytes bs, Block.decodeAll bytes = .ok bs ↔
      Block.Framed bytes ∧ bs = (List.range (Block.announced bytes)).map (Block.blockAt bytes)) ∧
    (∀ bytes, Block.Framed bytes →
      Block.headerSize * Block.announced bytes + 8 ≤ bytes.length ∧
      ∀ other, other.take (Block.finish bytes) = bytes.take (Block.finish bytes) →
        Block.decodeAll other = Block.decodeAll bytes) ∧
    ∀ (m : Machine) (bytes : List UInt8),
      ((∃ e, (m.loadSnapshot bytes).1 = .error e) ↔
        m.board = none ∨ ∃ e, Block.decodeAll bytes = .error e) ∧
      ∀ e, (m.loadSnapshot bytes).1 = .error e → (m.loadSnapshot bytes).2 = m :=
  ⟨Block.decodeAll_encodeAll, fun _ _ => Block.decodeAll_eq_ok_iff,
    fun _ h => ⟨h.count_le, fun _ => h.decodeAll_congr⟩,
    fun m bytes => ⟨m.loadSnapshot_eq_error_iff bytes, fun _ => m.loadSnapshot_refused⟩⟩

/-- One block, with a byte behind it, is framed and read; a machine that holds nothing refuses even that. -/
theorem snapshot_container_padded :
    let block : Block := ⟨Tag.board, [0x12, 0x34]⟩
    let bytes := Block.encodeAll [block]
    Block.decodeAll bytes = .ok [block] ∧ Block.decodeAll (bytes ++ [0xFF]) = .ok [block] ∧
      ∃ e, ((default : Machine).loadSnapshot bytes).1 = .error e ∧
        ((default : Machine).loadSnapshot bytes).2 = default := by
  intro block bytes
  obtain ⟨hwrite, hread, hbehind, hrefuse⟩ := snapshot_container
  have hok : Block.decodeAll bytes = .ok [block] := hwrite [block] (by decide) (by decide)
  have hpadded : Block.decodeAll (bytes ++ [0xFF]) = Block.decodeAll bytes :=
    (hbehind bytes ((hread bytes _).mp hok).1).2 (bytes ++ [0xFF]) (by decide)
  obtain ⟨e, he⟩ := (hrefuse default bytes).1.mpr (.inl rfl)
  exact ⟨hok, hpadded.trans hok, e, he, (hrefuse default bytes).2 e he⟩

end Machine

end Famicom
