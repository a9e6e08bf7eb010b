import Famicom.Proofs.LineCounters
import Mathlib.Algebra.Order.Floor.Div
import Mathlib.Data.List.DropRight
import Mathlib.Data.Nat.Digits.Lemmas
import Mathlib.GroupTheory.GroupAction.Ring

/-!
The cycle counter of the VRC3, which is loaded a nybble at a time. A port replaces the counter's nybble by the
low one of the byte. The high one is not masked away, it lands on the nybble above, as a look at one write shows:

    port      carry    n3        n2        n1        n0
    $8000     0        n3        n2        n1 | H    L
    $9000     0        n3        n2 | H    L         n0
    $A000     0        n3 | H    L         n1        n0
    $B000     H        L         n2        n1        n0

So a nybble is the last one written to its port, with all the high ones that have been written to the port below
since, and the counter has sixteen bits and holds what it was loaded with only as far as these change nothing.
From there it counts 114 cycles a line until bit 16 is set.
-/

namespace Famicom

/-! ### Nybbles -/

section Digits

variable {f : Bool → Bool → Bool}

theorem bitwise_add_mul (hf : f false false = false) {x y : Nat} (hx : x < 2 ^ 4) (hy : y < 2 ^ 4) (m n : Nat) :
    Nat.bitwise f (x + 2 ^ 4 * m) (y + 2 ^ 4 * n) = Nat.bitwise f x y + 2 ^ 4 * Nat.bitwise f m n := by
  have hmod : ∀ {a : Nat} (b : Nat), a < 2 ^ 4 → (a + 2 ^ 4 * b) % 2 ^ 4 = a := fun b ha => by omega
  have hdiv : ∀ {a : Nat} (b : Nat), a < 2 ^ 4 → (a + 2 ^ 4 * b) / 2 ^ 4 = b := fun b ha => by omega
  rw [← Nat.mod_add_div (Nat.bitwise f (x + 2 ^ 4 * m) (y + 2 ^ 4 * n)) (2 ^ 4),
    Nat.bitwise_mod_two_pow hf, Nat.bitwise_div_two_pow hf, hmod m hx, hmod n hy, hdiv m hx, hdiv n hy]

/-- What is done bit by bit is done nybble by nybble. -/
theorem bitwise_ofDigits (hf : f false false = false) {xs ys : List Nat} (hlength : xs.length = ys.length)
    (hxs : ∀ x ∈ xs, x < 16) (hys : ∀ y ∈ ys, y < 16) :
    Nat.bitwise f (Nat.ofDigits 16 xs) (Nat.ofDigits 16 ys) =
      Nat.ofDigits 16 (List.zipWith (Nat.bitwise f) xs ys) := by
  induction xs generalizing ys with
  | nil =>
    obtain rfl : ys = [] := List.eq_nil_of_length_eq_zero hlength.symm
    simp
  | cons x xs ih =>
    obtain ⟨y, ys, rfl⟩ := List.exists_cons_of_length_eq_add_one hlength.symm
    obtain ⟨hx, hxs⟩ := List.forall_mem_cons.mp hxs
    obtain ⟨hy, hys⟩ := List.forall_mem_cons.mp hys
    rw [List.zipWith_cons_cons, Nat.ofDigits_cons, Nat.ofDigits_cons, Nat.ofDigits_cons,
      ← ih (Nat.succ.inj hlength) hxs hys]
    exact bitwise_add_mul hf hx hy _ _

theorem and_ofDigits {xs ys : List Nat} (hlength : xs.length = ys.length) (hxs : ∀ x ∈ xs, x < 16)
    (hys : ∀ y ∈ ys, y < 16) :
    Nat.ofDigits 16 xs &&& Nat.ofDigits 16 ys = Nat.ofDigits 16 (List.zipWith (· &&& ·) xs ys) :=
  bitwise_ofDigits rfl hlength hxs hys

theorem or_ofDigits {xs ys : List Nat} (hlength : xs.length = ys.length) (hxs : ∀ x ∈ xs, x < 16)
    (hys : ∀ y ∈ ys, y < 16) :
    Nat.ofDigits 16 xs ||| Nat.ofDigits 16 ys = Nat.ofDigits 16 (List.zipWith (· ||| ·) xs ys) :=
  bitwise_ofDigits rfl hlength hxs hys

end Digits

/-! ### Loads -/

/-- A byte written to a port that loads the counter. -/
structure CycleLoad where
  address : UInt16
  value : UInt8
  deriving DecidableEq, Repr

namespace CycleLoad

/-- The addresses of the ports. -/
def InPorts (l : CycleLoad) : Prop := 0x8000 ≤ l.address ∧ l.address ≤ 0xBFFF

/-- Which of the four ports is written. -/
def port (l : CycleLoad) : Nat := l.address.toNat / 0x1000 - 8

/-- The nybble that belongs into the counter. -/
def low (l : CycleLoad) : Nat := l.value.toNat % 16

/-- The nybble that lands on the next one. -/
def high (l : CycleLoad) : Nat := l.value.toNat / 16

def access (l : CycleLoad) : Access := .write l.address l.value

/-- The nybble last written to a port, 0 without one. -/
def last (k : Nat) (loads : List CycleLoad) : Nat :=
  (loads.filter (·.port = k)).getLast?.elim 0 low

/-- All high nybbles written to a port since the port above it was written. -/
def stray (k : Nat) (loads : List CycleLoad) : Nat :=
  ((loads.rtakeWhile (·.port ≠ k + 1)).filter (·.port = k)).foldl (· ||| ·.high) 0

/-- The high nybble of the last load of all, if it went to the uppermost port. -/
def carried (loads : List CycleLoad) : Nat := (loads.getLast?.filter (·.port = 3)).elim 0 high

/-- The nybbles of a byte at its port's place. -/
def place (l : CycleLoad) : List Nat := List.replicate l.port 0 ++ l.low :: l.high :: List.replicate (3 - l.port) 0

/-- The nybbles of the mask that a port puts on the counter. -/
def mask (l : CycleLoad) : List Nat := [15, 15, 15, 15, 0].set l.port 0

/-- The number that the low nybbles make. -/
def number (loads : List CycleLoad) : Nat :=
  Nat.ofDigits 16 [last 0 loads, last 1 loads, last 2 loads, last 3 loads]

variable (loads : List CycleLoad) (l : CycleLoad)

theorem low_lt : l.low < 16 := Nat.mod_lt _ (by decide)

theorem high_lt : l.high < 16 := by
  have hvalue := l.value.toNat_lt
  unfold high
  omega

theorem last_concat (k : Nat) : last k (loads ++ [l]) = if l.port = k then l.low else last k loads := by
  unfold last
  rw [List.filter_append]
  split_ifs with h <;> simp [h]

theorem stray_concat (k : Nat) : stray k (loads ++ [l]) =
    if l.port = k + 1 then 0 else if l.port = k then stray k loads ||| l.high else stray k loads := by
  unfold stray
  rw [List.rtakeWhile_concat]
  split_ifs <;> simp_all

theorem carried_concat : carried (loads ++ [l]) = if l.port = 3 then l.high else 0 := by
  unfold carried
  rw [List.getLast?_concat, Option.filter_some]
  by_cases h : l.port = 3 <;> simp [h]

theorem last_lt (k : Nat) : last k loads < 16 := by
  induction loads using List.reverseRecOn with
  | nil => exact Nat.zero_lt_succ 15
  | append_singleton loads l ih =>
    rw [last_concat]
    split_ifs
    · exact l.low_lt
    · exact ih

theorem stray_lt (k : Nat) : stray k loads < 16 := by
  induction loads using List.reverseRecOn with
  | nil => exact Nat.zero_lt_succ 15
  | append_singleton loads l ih =>
    rw [stray_concat]
    split_ifs
    · decide
    · exact Nat.or_lt_two_pow (n := 4) ih l.high_lt
    · exact ih

theorem carried_lt : carried loads < 16 := by
  induction loads using List.reverseRecOn with
  | nil => decide
  | append_singleton loads l _ =>
    rw [carried_concat]
    split_ifs
    · exact l.high_lt
    · decide

/-- The nybbles of the counter. -/
def digits : List Nat :=
  [last 0 loads, last 1 loads ||| stray 0 loads, last 2 loads ||| stray 1 loads, last 3 loads ||| stray 2 loads,
    carried loads]

theorem digits_lt : ∀ n ∈ digits loads, n < 16 := by
  have hor : ∀ k j, last k loads ||| stray j loads < 16 := fun k j =>
    Nat.or_lt_two_pow (n := 4) (last_lt loads k) (stray_lt loads j)
  simp [digits, last_lt, carried_lt, hor]

/-- The low nybbles are all there is if and only if no high one shows. -/
theorem digits_number : Nat.ofDigits 16 (digits loads) = number loads ↔
    carried loads = 0 ∧ ∀ k < 3, last (k + 1) loads ||| stray k loads = last (k + 1) loads := by
  have hnumber : number loads = Nat.ofDigits 16 [last 0 loads, last 1 loads, last 2 loads, last 3 loads, 0] :=
    (Nat.ofDigits_append_zero _).symm
  have hlow : ∀ n ∈ [last 0 loads, last 1 loads, last 2 loads, last 3 loads, 0], n < 16 := by simp [last_lt]
  have hinj : Nat.ofDigits 16 (digits loads) = number loads ↔
      digits loads = [last 0 loads, last 1 loads, last 2 loads, last 3 loads, 0] := by
    rw [hnumber]
    exact ⟨Nat.ofDigits_inj_of_len_eq (by decide) rfl (digits_lt loads) hlow, congrArg _⟩
  rw [hinj, digits]
  simp only [List.cons.injEq, true_and, and_true]
  constructor
  · rintro ⟨h0, h1, h2, hcarried⟩
    refine ⟨hcarried, fun k hk => ?_⟩
    obtain rfl | rfl | rfl : k = 0 ∨ k = 1 ∨ k = 2 := by omega
    exacts [h0, h1, h2]
  · rintro ⟨hcarried, h⟩
    exact ⟨h 0 (by decide), h 1 (by decide), h 2 (by decide), hcarried⟩

/-- Nothing is carried out as long as the number has sixteen bits. -/
theorem digits_lt_iff : Nat.ofDigits 16 (digits loads) < 65536 ↔ carried loads = 0 := by
  have hlow : Nat.ofDigits 16 [last 0 loads, last 1 loads ||| stray 0 loads, last 2 loads ||| stray 1 loads,
      last 3 loads ||| stray 2 loads] < 16 ^ 4 :=
    Nat.ofDigits_lt_base_pow_length (by decide) fun n hn =>
      digits_lt loads n (List.mem_append_left [carried loads] hn)
  have hsplit : digits loads = [last 0 loads, last 1 loads ||| stray 0 loads, last 2 loads ||| stray 1 loads,
      last 3 loads ||| stray 2 loads] ++ [carried loads] := rfl
  rw [hsplit, Nat.ofDigits_append, Nat.ofDigits_singleton]
  simp only [List.length_cons, List.length_nil, Nat.zero_add, Nat.reduceAdd, Nat.reducePow] at hlow ⊢
  omega

/-- Where only nybbles are written, no high one shows. -/
theorem digits_of_nybbles (h : ∀ l ∈ loads, l.value < 16) : Nat.ofDigits 16 (digits loads) = number loads := by
  have hnone : carried loads = 0 ∧ ∀ k, stray k loads = 0 := by
    induction loads using List.reverseRecOn with
    | nil => exact ⟨rfl, fun k => rfl⟩
    | append_singleton loads l ih =>
      have hhigh : l.high = 0 :=
        Nat.div_eq_of_lt (UInt8.lt_iff_toNat_lt.mp (h l (List.mem_append_right _ (List.mem_singleton_self l))))
      obtain ⟨-, hstray⟩ := ih fun l' hl' => h l' (List.mem_append_left _ hl')
      refine ⟨by rw [carried_concat, hhigh, ite_self], fun k => ?_⟩
      rw [stray_concat, hstray, hhigh, Nat.or_zero, ite_self, ite_self]
  rw [digits_number]
  exact ⟨hnone.1, fun k _ => by rw [hnone.2, Nat.or_zero]⟩

theorem place_lt : ∀ n ∈ l.place, n < 16 := fun n hn => by
  have hlow := l.low_lt
  have hhigh := l.high_lt
  simp only [place, List.mem_append, List.mem_cons, List.mem_replicate] at hn
  omega

theorem mask_lt : ∀ n ∈ l.mask, n < 16 := fun n hn => by
  have hset := List.mem_or_eq_of_mem_set hn
  simp only [List.mem_cons, List.not_mem_nil, or_false] at hset
  omega

theorem masked_lt : ∀ n ∈ List.zipWith (· &&& ·) (digits loads) l.mask, n < 16 := fun n hn => by
  obtain ⟨i, hi, rfl⟩ := List.mem_iff_getElem.mp hn
  rw [List.getElem_zipWith]
  exact Nat.lt_of_le_of_lt Nat.and_le_left (digits_lt loads _ (List.getElem_mem _))

/-- The counter is masked and the byte is put over what is left. -/
theorem digits_concat (h : l.port < 4) : digits (loads ++ [l]) =
    List.zipWith (· ||| ·) (List.zipWith (· &&& ·) (digits loads) l.mask) l.place := by
  have hlast : ∀ k, last k loads &&& 15 = last k loads := fun k =>
    Nat.and_two_pow_sub_one_of_lt_two_pow (n := 4) (last_lt loads k)
  have hor : ∀ k j, (last k loads ||| stray j loads) &&& 15 = last k loads ||| stray j loads := fun k j =>
    Nat.and_two_pow_sub_one_of_lt_two_pow (n := 4) (Nat.or_lt_two_pow (last_lt loads k) (stray_lt loads j))
  obtain h | h | h | h : l.port = 0 ∨ l.port = 1 ∨ l.port = 2 ∨ l.port = 3 := by omega
  all_goals
    simp [digits, mask, place, last_concat, stray_concat, carried_concat, h, hlast, hor, Nat.or_assoc]

end CycleLoad

namespace Vrc3

variable (s : Vrc3) {loads : List CycleLoad} {l : CycleLoad}

/-- A byte in the place of its nybbles. -/
theorem toNat_shifted (value : UInt8) {shift : UInt32} {k : Nat} (hshift : shift.toNat = 4 * k) (hk : k < 4) :
    (value.toUInt32 <<< shift).toNat = value.toNat * 2 ^ (4 * k) := by
  have hvalue := value.toNat_lt
  have hroom : value.toNat * 2 ^ (4 * k) < 2 ^ 32 := calc
    value.toNat * 2 ^ (4 * k) < 2 ^ 8 * 2 ^ (4 * k) := Nat.mul_lt_mul_of_pos_right hvalue (by positivity)
    _ = 2 ^ (8 + 4 * k) := (Nat.pow_add 2 8 (4 * k)).symm
    _ ≤ 2 ^ 32 := Nat.pow_le_pow_right (by decide) (by omega)
  rw [UInt32.toNat_shiftLeft, hshift, Nat.mod_eq_of_lt (b := 32) (by omega), Nat.shiftLeft_eq,
    UInt8.toNat_toUInt32, Nat.mod_eq_of_lt hroom]

/-- What the four ports have in common. -/
theorem write_port (hl : l.InPorts) : l.port < 4 ∧ ∃ mask byte : UInt32,
    (s.write l.address l.value).1 = { s with counter := s.counter &&& mask ||| byte } ∧
      mask.toNat = Nat.ofDigits 16 l.mask ∧ byte.toNat = Nat.ofDigits 16 l.place := by
  have hstart : 0x8000 ≤ l.address.toNat := UInt16.le_iff_toNat_le.mp hl.1
  have hend : l.address.toNat ≤ 0xBFFF := UInt16.le_iff_toNat_le.mp hl.2
  have hblock : (l.address >>> 12).toNat = l.port + 8 := by
    rw [UInt16.toNat_shiftRight]
    simp only [CycleLoad.port, UInt16.reduceToNat, Nat.reduceMod, Nat.shiftRight_eq_div_pow, Nat.reducePow]
    omega
  have hport : l.port < 4 := by
    unfold CycleLoad.port
    omega
  have hbyte : l.value.toNat = l.low + 16 * l.high := (Nat.mod_add_div l.value.toNat 16).symm
  have hplace : Nat.ofDigits 16 l.place = l.value.toNat * 2 ^ (4 * l.port) := by
    rw [CycleLoad.place, hbyte, Nat.ofDigits_append, Nat.ofDigits_cons, Nat.ofDigits_cons,
      Nat.ofDigits_replicate_zero, Nat.ofDigits_replicate_zero, List.length_replicate, Nat.mul_zero, Nat.add_zero,
      Nat.zero_add, Nat.mul_comm, Nat.pow_mul]
  refine ⟨hport, ?_⟩
  rw [hplace]
  unfold write
  rw [hblock]
  obtain h | h | h | h : l.port = 0 ∨ l.port = 1 ∨ l.port = 2 ∨ l.port = 3 := by omega
  · rw [h]
    exact ⟨0xFFF0, l.value.toUInt32, rfl, by rw [CycleLoad.mask, h]; rfl, (Nat.mul_one _).symm⟩
  · rw [h]
    exact ⟨0xFF0F, l.value.toUInt32 <<< 4, by rw [UInt32.or_comm]; rfl, by rw [CycleLoad.mask, h]; rfl,
      toNat_shifted l.value (k := 1) rfl (by decide)⟩
  · rw [h]
    exact ⟨0xF0FF, l.value.toUInt32 <<< 8, by rw [UInt32.or_comm]; rfl, by rw [CycleLoad.mask, h]; rfl,
      toNat_shifted l.value (k := 2) rfl (by decide)⟩
  · rw [h]
    exact ⟨0x0FFF, l.value.toUInt32 <<< 12, by rw [UInt32.or_comm]; rfl, by rw [CycleLoad.mask, h]; rfl,
      toNat_shifted l.value (k := 3) rfl (by decide)⟩

/-- A load moves the nybbles on. -/
theorem write_load (hs : s.counter.toNat = Nat.ofDigits 16 (CycleLoad.digits loads)) (hl : l.InPorts) :
    (s.write l.address l.value).1.enabled = s.enabled ∧
      (s.write l.address l.value).1.counter.toNat = Nat.ofDigits 16 (CycleLoad.digits (loads ++ [l])) := by
  obtain ⟨hport, mask, byte, hwrite, hmask, hbyte⟩ := s.write_port hl
  have hlength : (CycleLoad.digits loads).length = l.mask.length := by simp [CycleLoad.digits, CycleLoad.mask]
  have hlength' : (List.zipWith (· &&& ·) (CycleLoad.digits loads) l.mask).length = l.place.length := by
    simp only [List.length_zipWith, CycleLoad.digits, CycleLoad.mask, CycleLoad.place, List.length_set,
      List.length_append, List.length_cons, List.length_replicate, List.length_nil]
    omega
  rw [hwrite]
  refine ⟨rfl, ?_⟩
  rw [UInt32.toNat_or, UInt32.toNat_and, hs, hmask, hbyte,
    and_ofDigits hlength (CycleLoad.digits_lt loads) l.mask_lt,
    or_ofDigits hlength' (CycleLoad.masked_lt loads l) l.place_lt,
    CycleLoad.digits_concat loads l hport]

/-! ### Lines -/

/-- The lines at whose end the counter has bit 16 set. -/
def carrying (start : Nat) : Set Nat := {line | 0 < line ∧ (start + 114 * line) / 65536 % 2 = 1}

/-- As many lines after the counter has been enabled. -/
structure Ran (s : Vrc3) (start lines : Nat) : Prop where
  enabled : s.enabled = true ↔ ∀ line ≤ lines, line ∉ carrying start
  counter : s.enabled = true → s.counter.toNat = (start + 114 * lines) % 2 ^ 32

variable {s} {start n : Nat}

theorem ran_start (hon : s.enabled = true) : s.Ran s.counter.toNat 0 where
  enabled := iff_of_true hon fun line hline hcarry => absurd hcarry.1 (Nat.not_lt_of_le hline)
  counter _ := by
    have hcounter := s.counter.toNat_lt
    omega

theorem carry_iff (counter : UInt32) : (counter &&& 0x10000 != 0) = true ↔ counter.toNat / 65536 % 2 = 1 := by
  have hbit : counter.toNat &&& 2 ^ 16 = (counter.toNat.testBit 16).toNat * 2 ^ 16 := Nat.and_two_pow _ 16
  rw [bne_iff_ne, ne_eq, ← UInt32.toNat_inj, UInt32.toNat_and]
  show ¬ counter.toNat &&& 2 ^ 16 = 0 ↔ _
  rw [hbit, Nat.testBit_eq_decide_div_mod_eq]
  by_cases h : counter.toNat / 2 ^ 16 % 2 = 1 <;> simp_all

theorem hblank_off (hoff : s.enabled = false) : s.hblank = (s, []) := by
  rw [hblank, hoff]
  rfl

/-- A line more, with an interrupt if it is the first one to carry. -/
theorem Ran.hblank (h : s.Ran start n) :
    s.hblank.1.Ran start (n + 1) ∧ (s.hblank.2.contains .irq = true ↔ IsLeast (carrying start) (n + 1)) := by
  cases hon : s.enabled with
  | false =>
    have hearlier : ¬ ∀ line ≤ n, line ∉ carrying start := fun hnone => by
      rw [h.enabled.mpr hnone] at hon
      exact Bool.noConfusion hon
    rw [hblank_off hon]
    refine ⟨⟨?_, fun h' => ?_⟩, iff_of_false Bool.false_ne_true fun hleast => ?_⟩
    · rw [hon]
      exact iff_of_false Bool.false_ne_true fun hnone =>
        hearlier fun line hline => hnone line (Nat.le_succ_of_le hline)
    · rw [hon] at h'
      exact Bool.noConfusion h'
    · exact hearlier fun line hline hcarry => absurd (hleast.2 hcarry) (Nat.not_le_of_lt (Nat.lt_succ_of_le hline))
  | true =>
    have hnone := h.enabled.mp hon
    have hcounter : (s.counter + lineCycles).toNat = (start + 114 * (n + 1)) % 2 ^ 32 := by
      rw [UInt32.toNat_add, h.counter hon, lineCycles]
      simp only [UInt32.reduceToNat]
      omega
    have hcarry : (s.counter + lineCycles &&& 0x10000 != 0) = true ↔ n + 1 ∈ carrying start := by
      rw [carry_iff, hcounter]
      show _ ↔ 0 < n + 1 ∧ (start + 114 * (n + 1)) / 65536 % 2 = 1
      omega
    have hstep : s.hblank = if (s.counter + lineCycles &&& 0x10000 != 0) = true then
        (⟨false, s.counter + lineCycles &&& 0xFFFF⟩, [.irq])
        else ({ s with counter := s.counter + lineCycles }, []) := by
      rw [Vrc3.hblank, hon]
      rfl
    rw [hstep]
    by_cases hfirst : n + 1 ∈ carrying start
    · rw [if_pos (hcarry.mpr hfirst)]
      refine ⟨⟨iff_of_false Bool.false_ne_true fun h' => h' _ le_rfl hfirst, fun h' => Bool.noConfusion h'⟩, ?_⟩
      exact iff_of_true rfl ⟨hfirst, fun line hline =>
        Nat.succ_le_of_lt <| Nat.lt_of_not_le fun hle => hnone line hle hline⟩
    · rw [if_neg (mt hcarry.mp hfirst)]
      refine ⟨⟨iff_of_true hon fun line hline => ?_, fun _ => hcounter⟩,
        iff_of_false Bool.false_ne_true fun h' => hfirst h'.1⟩
      rcases Nat.lt_or_eq_of_le hline with hlt | rfl
      · exact hnone line (Nat.le_of_lt_succ hlt)
      · exact hfirst

/-- From sixteen bits on, the first carry comes when the cycles that are left have been counted. -/
theorem first_carry (h : start < 65536) {line : Nat} :
    IsLeast (carrying start) line ↔ line = (65536 - start) ⌈/⌉ 114 := by
  have hleast : IsLeast (carrying start) ((65536 - start) ⌈/⌉ 114) := by
    rw [Nat.ceilDiv_eq_add_pred_div]
    refine ⟨⟨by omega, by omega⟩, fun line ⟨hpos, hcarry⟩ => ?_⟩
    have hover : 65536 ≤ start + 114 * line := by
      by_contra hroom
      rw [Nat.div_eq_of_lt (Nat.lt_of_not_le hroom)] at hcarry
      exact absurd hcarry (by decide)
    omega
  exact ⟨fun h' => h'.unique hleast, fun h' => h' ▸ hleast⟩

end Vrc3

/-! ### Machines -/

namespace Machine

variable {m : Machine} {s : Vrc3}

/-- The board after a write, and after the end of a line. -/
theorem vrc3_access (hboard : m.board = some (.vrc3 s)) (a : Access) : (m.access a).board =
    some (.vrc3 (match a with
      | .write address value => (s.write address value).1
      | .hblank _ _ => s.hblank.1)) := by
  rw [board_access hboard]
  cases a <;> rfl

theorem vrc3_asks (hboard : m.board = some (.vrc3 s)) (a : Access) :
    m.asks a = true ↔ a.IsLine ∧ s.hblank.2.contains .irq = true := by
  rw [asks, hboard, Option.any_some]
  cases a with
  | write address value =>
    rw [Access.cue, Board.answer, Board.write_asks]
    exact iff_of_false Bool.false_ne_true (·.1)
  | hblank rendering vblank => exact (and_iff_right trivial).symm

/-- After the power-on. -/
theorem vrc3_init (hboard : m.board = some (.vrc3 s)) :
    (m.withBoard (·.init m.view)).board = some (.vrc3 {}) :=
  m.board_withBoard hboard _

theorem vrc3_loaded (done : List CycleLoad) (hboard : m.board = some (.vrc3 s))
    (hs : s.counter.toNat = Nat.ofDigits 16 (CycleLoad.digits done)) (hoff : s.enabled = false)
    {loads : List CycleLoad} (hloads : ∀ l ∈ loads, l.InPorts) : ∃ c : UInt32,
      (loads.foldl (fun m l => m.access l.access) m).board = some (.vrc3 ⟨false, c⟩) ∧
      c.toNat = Nat.ofDigits 16 (CycleLoad.digits (done ++ loads)) := by
  induction loads generalizing m s done with
  | nil =>
    refine ⟨s.counter, ?_, by rw [hs, List.append_nil]⟩
    rw [List.foldl_nil, hboard, ← hoff]
  | cons l loads ih =>
    obtain ⟨hl, hrest⟩ := List.forall_mem_cons.mp hloads
    obtain ⟨henabled, hcounter⟩ := s.write_load hs hl
    rw [List.append_cons]
    exact ih _ (vrc3_access hboard l.access) hcounter (henabled.trans hoff) hrest

theorem vrc3_ran (hboard : m.board = some (.vrc3 s)) {start n : Nat} (hs : s.Ran start n) {lines : List Access}
    (hlines : ∀ a ∈ lines, a.IsLine) : ∃ t : Vrc3, (lines.foldl access m).board = some (.vrc3 t) ∧
      t.Ran start (n + lines.length) := by
  induction lines generalizing m s n with
  | nil => exact ⟨s, hboard, hs⟩
  | cons a lines ih =>
    obtain ⟨ha, hrest⟩ := List.forall_mem_cons.mp hlines
    cases a with
    | write address value => exact ha.elim
    | hblank rendering vblank =>
      rw [List.length_cons, Nat.add_comm lines.length, ← Nat.add_assoc]
      exact ih (vrc3_access hboard _) hs.hblank.1 hrest

/-- The counter of the VRC3 after any loads, and when it interrupts. Its nybbles are those of
`CycleLoad.digits`, so it holds the number that the low nybbles make if and only if no stray nybble shows.
Enabled by a write to $C000, it asks for an interrupt at the end of the first line that finds bit 16 set, and is
off from then on. From sixteen bits on this is the line at which the cycles that are left have been counted. -/
theorem vrc3_counts_cycles (hboard : m.board = some (.vrc3 s)) {loads : List CycleLoad}
    (hloads : ∀ l ∈ loads, l.InPorts) :
    let loaded := loads.foldl (fun m l => m.access l.access) (m.withBoard (·.init m.view))
    ∃ c : UInt32, loaded.board = some (.vrc3 ⟨false, c⟩) ∧
      c.toNat = Nat.ofDigits 16 (CycleLoad.digits loads) ∧
      (c.toNat = CycleLoad.number loads ↔ CycleLoad.carried loads = 0 ∧
        ∀ k < 3, CycleLoad.last (k + 1) loads ||| CycleLoad.stray k loads = CycleLoad.last (k + 1) loads) ∧
      (c.toNat < 65536 ↔ CycleLoad.carried loads = 0) ∧
      ∀ (address : UInt16) (value : UInt8), address >>> 12 = 0xC → value &&& 2 ≠ 0 →
      ∀ lines : List Access, (∀ a ∈ lines, a.IsLine) →
        let running := lines.foldl access (loaded.access (.write address value))
        (∃ t : Vrc3, running.board = some (.vrc3 t) ∧
          (t.enabled = true ↔ ∀ line ≤ lines.length, line ∉ Vrc3.carrying c.toNat)) ∧
        (∀ a, running.asks a = true ↔ a.IsLine ∧ IsLeast (Vrc3.carrying c.toNat) (lines.length + 1)) ∧
        (c.toNat < 65536 → ∀ a, running.asks a = true ↔
          a.IsLine ∧ lines.length + 1 = (65536 - c.toNat) ⌈/⌉ 114) := by
  intro loaded
  obtain ⟨c, hloaded, hc⟩ := vrc3_loaded [] (vrc3_init hboard) rfl rfl hloads
  rw [List.nil_append] at hc
  refine ⟨c, hloaded, hc, ?_, ?_, fun address value haddress hvalue lines hlines => ?_⟩
  · rw [hc]
    exact CycleLoad.digits_number loads
  · rw [hc]
    exact CycleLoad.digits_lt_iff loads
  intro running
  have hon : (({ enabled := false, counter := c } : Vrc3).write address value).1 = ⟨true, c⟩ := by
    rw [Vrc3.write, haddress]
    exact congrArg (Vrc3.mk · c) (bne_iff_ne.mpr hvalue)
  have hstart : (loaded.access (.write address value)).board = some (.vrc3 ⟨true, c⟩) :=
    (vrc3_access hloaded _).trans (congrArg (some <| Board.vrc3 ·) hon)
  obtain ⟨t, ht, hran⟩ := vrc3_ran hstart (Vrc3.ran_start rfl) hlines
  rw [Nat.zero_add] at hran
  have hasks : ∀ a, running.asks a = true ↔ a.IsLine ∧ IsLeast (Vrc3.carrying c.toNat) (lines.length + 1) :=
    fun a => (vrc3_asks ht a).trans (and_congr_right' hran.hblank.2)
  exact ⟨⟨t, ht, hran.enabled⟩, hasks, fun hroom a => (hasks a).trans (and_congr_right' (Vrc3.first_carry hroom))⟩

/-- A byte of 10 written to the uppermost port, whose low nybble is 0: the counter stands at 65536, not at 0,
and asks at the end of the first line already. Loaded with F000, it asks at the end of line 36. -/
theorem vrc3_counts_cycles_carried :
    let fresh : Machine := { (default : Machine) with board := some (.vrc3 {}) }
    let start : Machine := fresh.withBoard (·.init fresh.view)
    let enable : Access := .write 0xC000 2
    let line : Access := .hblank false false
    CycleLoad.number [⟨0xB000, 0x10⟩] = 0 ∧
    (∃ c, (start.access (.write 0xB000 0x10)).board = some (.vrc3 ⟨false, c⟩) ∧ c.toNat = 65536) ∧
    ((start.access (.write 0xB000 0x10)).access enable).asks line = true ∧
    ((List.replicate 35 line).foldl access
      ((start.access (.write 0xB000 0xF)).access enable)).asks line = true := by
  intro fresh start enable line
  have hboard : fresh.board = some (.vrc3 {}) := rfl
  have hports : ∀ value, ∀ l ∈ [(⟨0xB000, value⟩ : CycleLoad)], l.InPorts := by simp [CycleLoad.InPorts]
  obtain ⟨c, hc, hdigits, -, -, hlines⟩ := vrc3_counts_cycles hboard (hports 0x10)
  obtain ⟨d, hd, hdigits', -, -, hlines'⟩ := vrc3_counts_cycles hboard (hports 0xF)
  have hcarried : c.toNat = 65536 := hdigits.trans (by decide)
  have hloaded : d.toNat = 0xF000 := hdigits'.trans (by decide)
  have hidle : ∀ a ∈ List.replicate 35 line, a.IsLine := fun a ha => by
    rw [List.eq_of_mem_replicate ha]
    trivial
  refine ⟨by decide, ⟨c, hc, hcarried⟩, ?_, ?_⟩
  · refine ((hlines 0xC000 2 (by decide) (by decide) [] (List.forall_mem_nil _)).2.1 line).mpr ⟨trivial, ?_⟩
    rw [hcarried]
    exact ⟨⟨by decide, by decide⟩, fun n hn => hn.1⟩
  · refine ((hlines' 0xC000 2 (by decide) (by decide) _ hidle).2.2 (by omega) line).mpr ⟨trivial, ?_⟩
    rw [hloaded]
    decide

end Machine

end Famicom
