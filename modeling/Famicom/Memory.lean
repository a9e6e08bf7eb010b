/-!
Fixed memories of the console: `n` bytes whose addresses wrap at `n`, as an address bus with too few
lines does. Every access is total, so no reader of a memory ever proves a bound.

        address   0 … n-1   n … 2n-1   …
        cell      0 … n-1   0 … n-1    …

A write is seen by exactly the addresses that fall on its cell (`read_write`).
-/

namespace Famicom

/-- A memory of `n` bytes. -/
abbrev Memory (n : Nat) := Vector UInt8 n

namespace Memory

variable {n : Nat}

/-- A memory filled with one byte. -/
def filled (n : Nat) (value : UInt8) : Memory n := Vector.replicate n value

/-- A memory of zeros. -/
def zero (n : Nat) : Memory n := filled n 0

/-- The byte at an address, which wraps at the size of the memory. -/
def read (m : Memory n) (address : Nat) : UInt8 := m.toArray.getD (address % n) 0

/-- Stores a byte at an address, which wraps at the size of the memory. -/
def write (m : Memory n) (address : Nat) (value : UInt8) : Memory n :=
  m.setIfInBounds (address % n) value

/-- Stores consecutive bytes from an address on, wrapping. -/
def writeList (m : Memory n) (address : Nat) : List UInt8 → Memory n
  | [] => m
  | b :: rest => writeList (m.write address b) (address + 1) rest

/-- The memory that starts with the given bytes: what is too long is cut, what is missing is zero. -/
def ofList (n : Nat) (bytes : List UInt8) : Memory n :=
  ⟨(bytes.take n ++ List.replicate (n - bytes.length) 0).toArray, by simp; omega⟩

/-- Overlays the start of a memory with bytes; what is too long is cut. -/
def overlay (m : Memory n) (bytes : List UInt8) : Memory n :=
  ofList n (bytes.take n ++ m.toList.drop bytes.length)

theorem read_eq_getElem (m : Memory n) (a : Nat) (h : a % n < n) : m.read a = m[a % n] := by
  simp [read, h]

theorem read_mod (m : Memory n) (a : Nat) : m.read (a % n) = m.read a := by
  simp [read]

/-- A write is seen by exactly the addresses that fall on the written cell. -/
theorem read_write (m : Memory n) (hn : 0 < n) (a b : Nat) (v : UInt8) :
    (m.write a v).read b = if a % n = b % n then v else m.read b := by
  have ha := Nat.mod_lt a hn
  have hb := Nat.mod_lt b hn
  rw [read_eq_getElem _ _ hb, read_eq_getElem _ _ hb]
  simp [write, Vector.getElem_setIfInBounds]

theorem read_write_self (m : Memory n) (hn : 0 < n) (a : Nat) (v : UInt8) :
    (m.write a v).read a = v := by
  rw [read_write m hn, if_pos rfl]

theorem read_write_of_ne (m : Memory n) {a b : Nat} (v : UInt8) (h : a % n ≠ b % n) :
    (m.write a v).read b = m.read b := by
  rcases Nat.eq_zero_or_pos n with rfl | hn
  · simp [read]
  · rw [read_write m hn, if_neg h]

/-- A run of bytes is read back where it was written, and the rest of the memory is as it was. -/
theorem read_writeList (m : Memory n) (start : Nat) (l : List UInt8) {i : Nat} (hi : i < n)
    (hfit : start + l.length ≤ n) :
    (m.writeList start l).read i =
      if start ≤ i ∧ i < start + l.length then l.getD (i - start) 0 else m.read i := by
  induction l generalizing m start with
  | nil =>
    have hnone : ¬ (start ≤ i ∧ i < start + ([] : List UInt8).length) := fun h => Nat.not_lt.mpr h.1 h.2
    rw [if_neg hnone, writeList]
  | cons b rest ih =>
    rw [List.length_cons] at hfit
    rw [writeList, ih _ _ (by omega), read_write m (by omega),
      Nat.mod_eq_of_lt hi, Nat.mod_eq_of_lt (by omega), List.length_cons]
    by_cases hb : start = i
    · subst hb
      rw [if_neg (by omega), if_pos rfl, if_pos (by omega), Nat.sub_self, List.getD_cons_zero]
    · by_cases hin : start + 1 ≤ i ∧ i < start + 1 + rest.length
      · have hnext : i - start = i - (start + 1) + 1 := by omega
        rw [if_pos hin, if_pos (by omega), hnext, List.getD_cons_succ]
      · rw [if_neg hin, if_neg hb, if_neg (by omega)]

theorem read_filled (hn : 0 < n) (a : Nat) (v : UInt8) : (filled n v).read a = v := by
  rw [read_eq_getElem _ _ (Nat.mod_lt a hn)]
  simp [filled]

/-- Two memories with the same bytes are equal. -/
theorem ext_read {m k : Memory n} (h : ∀ a < n, m.read a = k.read a) : m = k := by
  apply Vector.ext
  intro i hi
  have hm : i % n = i := Nat.mod_eq_of_lt hi
  have hi' : i % n < n := by rwa [hm]
  have h := h i hi
  rw [read_eq_getElem _ _ hi', read_eq_getElem _ _ hi'] at h
  simpa [hm] using h

/-- A memory is what its bytes start, whatever follows them. -/
theorem ofList_append (m : Memory n) (rest : List UInt8) : ofList n (m.toList ++ rest) = m := by
  have hlength : m.toList.length = n := Vector.length_toList
  have htake : (m.toList ++ rest).take n = m.toList := List.take_left' hlength
  apply Vector.toList_inj.mp
  simp [ofList, htake]

/-- Overlaying a whole memory leaves nothing of the old one. -/
theorem overlay_toList (m k : Memory n) : m.overlay k.toList = k := by
  have hlength : k.toList.length = n := Vector.length_toList
  rw [overlay, List.take_of_length_le (Nat.le_of_eq hlength)]
  exact ofList_append k _

theorem read_map (m : Memory n) (hn : 0 < n) (f : UInt8 → UInt8) (a : Nat) :
    read (m.map f) a = f (m.read a) := by
  rw [read_eq_getElem _ _ (Nat.mod_lt a hn), read_eq_getElem _ _ (Nat.mod_lt a hn)]
  simp

end Memory

end Famicom
