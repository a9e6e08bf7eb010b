import Famicom.Snapshot.Block

/-!
The container gives back what was put into it: reading blocks undoes writing them, as long as the count
of blocks and the length of each body fit into a word.

    encode ─▶ tag │ version │ length │ body │ rest      decode ─▶ block, and the same rest
-/

namespace Famicom.Block

/-- Cutting between two lists gives the two. -/
theorem cut_append {count : Nat} (front rest : List UInt8) (h : front.length = count) :
    cut count (front ++ rest) = some (front, rest) := by
  subst h
  simp [cut]

theorem length_word (n : Nat) : (word n).length = 4 := rfl

/-- A word stands for the number it was made from. -/
theorem number_word {n : Nat} (h : n < 0x100000000) : number (word n) = n := by
  simp only [number, word, List.foldl_cons, List.foldl_nil, UInt8.toNat_ofNat']
  omega

theorem tagOf_append (tag : Tag) (rest : List UInt8) : tagOf (tag.toList ++ rest) = tag := by
  apply Vector.ext
  intro i hi
  simp [tagOf, List.getElem?_append]

/-- The bytes in front of a block's body. -/
def header (b : Block) : List UInt8 := b.tag.toList ++ (word version ++ word b.body.length)

theorem encode_eq (b : Block) : b.encode = b.header ++ b.body := by
  simp [encode, header]

theorem length_header (b : Block) : b.header.length = headerSize := by
  simp [header, length_word, headerSize]

theorem drop_header (b : Block) : b.header.drop 8 = word b.body.length := by
  rw [header, ← List.append_assoc]
  exact List.drop_left' (by simp [length_word])

/-- Reading blocks from what was written of them, in front of anything. -/
theorem decodeFrom_flatMap (bs : List Block) (h : ∀ b ∈ bs, b.body.length < 0x100000000) (index : Nat)
    (rest : List UInt8) : decodeFrom index bs.length (bs.flatMap encode ++ rest) = .ok bs := by
  induction bs generalizing index with
  | nil => rfl
  | cons b bs ih =>
    have hb : number (b.header.drop 8) = b.body.length := by
      rw [drop_header, number_word (h b (by simp))]
    rw [List.flatMap_cons, encode_eq, List.length_cons, decodeFrom]
    simp only [List.append_assoc]
    rw [cut_append _ _ b.length_header]
    simp only [hb]
    rw [cut_append _ _ rfl]
    simp only [ih (fun c hc => h c (by simp [hc]))]
    simp only [header, tagOf_append]
    rfl

/-- Reading a snapshot's blocks undoes writing them. -/
theorem decodeAll_encodeAll (bs : List Block) (hcount : bs.length < 0x100000000)
    (h : ∀ b ∈ bs, b.body.length < 0x100000000) : decodeAll (encodeAll bs) = .ok bs := by
  have hfront : (magic ++ word bs.length).length = 8 := by simp [magic, length_word]
  have htake : (magic ++ word bs.length).take 4 = magic := List.take_left' rfl
  have hdrop : (magic ++ word bs.length).drop 4 = word bs.length := List.drop_left' rfl
  have hblocks := decodeFrom_flatMap bs h 0 []
  rw [List.append_nil] at hblocks
  rw [decodeAll, encodeAll, cut_append _ _ hfront]
  simp only [htake, hdrop, if_true, number_word hcount, hblocks]

end Famicom.Block
