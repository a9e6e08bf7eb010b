import Famicom.Controllers
import Mathlib

/-!
What the console reads of its controllers, told by what has happened to the sockets so far.

    history      the operations, the last one first
    word         the buttons that the player holds, forgotten when the device is unplugged
    reads        how often the device was read since the last rewind

                 rewind ─▶ 0 ──read──▶ 1 ──read──▶ 2 … 8 … for ever, until the next rewind

A serial device answers its n-th read with the n-th bit of its word. Every operation moves these three
quantities of a device in its own way (`Follows.after`), so what a read shows is a function of the history
alone (`read_history`). The counter of a device stops at its last value, which no read can tell from more:
both are past the eighth bit (`Device.answer_min`).
-/

namespace Famicom

/-! ### Devices -/

namespace Device

/-- A set of devices holds this one. -/
def among (d : Device) (devices : UInt8) : Bool := devices &&& d.mask != 0

/-- The device shows its word bit by bit. -/
def isSerial : Device → Bool
  | .pad1 | .pad2 | .powerPad | .paddle => true
  | .zapper | .switches1 | .switches2 => false

/-- What a serial device shows when all its bits have been read. -/
def idle : Device → UInt8
  | .pad1 | .pad2 => 0x40
  | _ => 0

/-- A button of a pad counts if it is pressed, and if it is a direction, the opposite one is not. -/
def counts (word : UInt16) (button : Nat) : Bool :=
  button < 8 && word.toNat.testBit button && !(4 ≤ button && word.toNat.testBit (button ^^^ 1))

/-- The byte of a device whose word is given and that has been read so often. -/
def answer (d : Device) (word : UInt16) (reads : Nat) : UInt8 :=
  let bit (place : Nat) : Bool := reads < 8 && word.toNat.testBit place
  match d with
  | .pad1 | .pad2 => if counts word reads then 0x41 else 0x40
  | .powerPad => (if bit (8 + reads) then 0x10 else 0) ||| (if bit reads then 0x08 else 0)
  | .paddle => if bit (7 - reads) then 0x02 else 0
  | .zapper | .switches1 | .switches2 => word.toUInt8

theorem index_inj {d e : Device} : d.index.val = e.index.val ↔ d = e := by
  cases d <;> cases e <;> decide

theorem mask_inj {d e : Device} : d.mask = e.mask ↔ d = e := by
  cases d <;> cases e <;> decide

theorem mem_all (d : Device) : d ∈ all := by cases d <;> decide

theorem nodup_all : all.Nodup := by decide

/-- Exactly the sets of one device name a device. -/
theorem ofMask?_eq_some {mask : UInt8} {d : Device} : ofMask? mask = some d ↔ mask = d.mask := by
  constructor
  · intro h
    have hmask := List.find?_some h
    exact (beq_iff_eq.mp hmask).symm
  · rintro rfl
    cases d <;> decide

/-! ### Sets of devices -/

theorem among_eq (d : Device) (devices : UInt8) :
    d.among devices = devices.toBitVec.getLsbD d.index := by
  have hmask : d.mask.toNat = 2 ^ d.index.val := by cases d <;> rfl
  have hzero : devices &&& d.mask = 0 ↔ devices.toNat.testBit d.index = false := by
    rw [← UInt8.toNat_inj, UInt8.toNat_and, hmask, Nat.and_two_pow]
    cases devices.toNat.testBit d.index <;> simp
  show d.among devices = devices.toNat.testBit d.index
  cases hbit : devices.toNat.testBit d.index <;> simp [among, hzero, hbit]

theorem among_or (d : Device) (a b : UInt8) : d.among (a ||| b) = (d.among a || d.among b) := by
  simp [among_eq]

theorem among_and (d : Device) (a b : UInt8) : d.among (a &&& b) = (d.among a && d.among b) := by
  simp [among_eq]

theorem among_not (d : Device) (a : UInt8) : d.among (~~~ a) = !d.among a := by
  have hbit : d.index.val < 8 := by omega
  simp [among_eq, hbit]

theorem among_mask (d : Device) : d.among d.mask = true := by cases d <;> decide

theorem among_allDevices (d : Device) : d.among Controllers.allDevices = true := by cases d <;> decide

/-! ### Bits of a word -/

/-- Which buttons count is said by the low byte. -/
theorem counts_low (word : UInt16) (button : Nat) :
    counts word button = counts word.toUInt8.toUInt16 button := by
  have hlow : ∀ i < 8, word.toUInt8.toUInt16.toNat.testBit i = word.toNat.testBit i := by
    intro i hi
    have hmod : word.toUInt8.toUInt16.toNat = word.toNat % 2 ^ 8 := by simp
    rw [hmod, Nat.testBit_mod_two_pow, decide_eq_true hi, Bool.true_and]
  unfold counts
  by_cases h : button < 8
  · have hother : button ^^^ 1 < 2 ^ 3 := Nat.xor_lt_two_pow h (by decide)
    rw [hlow _ h, hlow _ hother]
  · simp [h]

/-- The buttons that are left when opposite directions cancel. -/
theorem testBit_cancelOpposites (word : UInt16) (button : Nat) :
    (Controllers.cancelOpposites word.toUInt8).toNat.testBit button = counts word button := by
  have htable : ∀ b : Fin 256, ∀ i : Fin 8,
      (Controllers.cancelOpposites (UInt8.ofNat b)).toNat.testBit i =
        counts (UInt8.ofNat b).toUInt16 i := by decide +kernel
  by_cases h : button < 8
  · have hbyte := htable ⟨word.toUInt8.toNat, word.toUInt8.toNat_lt⟩ ⟨button, h⟩
    simp only [UInt8.ofNat_toNat] at hbyte
    rw [hbyte, ← counts_low]
  · have hsmall : (Controllers.cancelOpposites word.toUInt8).toNat < 2 ^ button :=
      Nat.lt_of_lt_of_le (UInt8.toNat_lt _) (Nat.pow_le_pow_right (by decide) (Nat.not_lt.mp h))
    simp [Nat.testBit_lt_two_pow hsmall, counts, h]

theorem shows_eq_answer (d : Device) (word : UInt16) (reads : Nat) :
    Controllers.shows d word reads = d.answer word reads := by
  have hlow : word.toUInt8.toNat = word.toNat % 2 ^ 8 := by simp
  cases d with
  | pad1 | pad2 =>
    simp only [Controllers.shows, answer, testBit_cancelOpposites]
    cases counts word reads <;> rfl
  | powerPad =>
    have hhigh : (word >>> 8).toNat.testBit reads =
        (decide (reads < 8) && word.toNat.testBit (8 + reads)) := by
      have hshift : (word >>> 8).toNat.testBit reads = word.toNat.testBit (8 + reads) := by
        simp [UInt16.toNat_shiftRight, Nat.testBit_shiftRight]
      rw [hshift]
      by_cases h : reads < 8
      · rw [decide_eq_true h, Bool.true_and]
      · have hsmall : word.toNat < 2 ^ (8 + reads) := Nat.lt_of_lt_of_le word.toNat_lt
          (Nat.pow_le_pow_right (by decide) (by omega))
        rw [decide_eq_false h, Bool.false_and, Nat.testBit_lt_two_pow hsmall]
    have hbyte : (word &&& 0xFF).toNat.testBit reads =
        (decide (reads < 8) && word.toNat.testBit reads) := by
      rw [UInt16.toNat_and]
      show (word.toNat &&& 2 ^ 8 - 1).testBit reads = _
      rw [Nat.and_two_pow_sub_one_eq_mod, Nat.testBit_mod_two_pow]
    simp only [Controllers.shows, answer, hhigh, hbyte]
  | paddle =>
    simp only [Controllers.shows, answer, hlow, Nat.testBit_mod_two_pow]
    have hplace : 7 - reads < 8 := by omega
    simp only [hplace, Nat.lt_succ_iff, decide_true, Bool.true_and]
  | zapper | switches1 | switches2 => rfl

/-- After eight reads a serial device has nothing left to show. -/
theorem answer_of_le {d : Device} (hd : d.isSerial = true) (word : UInt16) {reads : Nat} (h : 8 ≤ reads) :
    d.answer word reads = d.idle := by
  have hover : ¬ reads < 8 := Nat.not_lt.mpr h
  cases d <;> simp [isSerial] at hd <;> simp [answer, counts, idle, hover]

/-- A counter that stops beyond the last bit answers like one that goes on. -/
theorem answer_min (d : Device) (word : UInt16) (reads : Nat) {stop : Nat} (h : 8 ≤ stop) :
    d.answer word (min reads stop) = d.answer word reads := by
  obtain hle | hle := Nat.le_total reads stop
  · rw [Nat.min_eq_left hle]
  · rw [Nat.min_eq_right hle]
    cases hd : d.isSerial with
    | true => rw [answer_of_le hd word h, answer_of_le hd word (h.trans hle)]
    | false => cases d <;> first | rfl | cases hd

end Device

namespace Controllers

/-! ### Histories -/

/-- What players and programs do with the sockets. -/
inductive Operation where
  | connect (devices : UInt8)
  | disconnect (devices : UInt8)
  | set (device : UInt8) (value : UInt16)
  | press (device : UInt8) (buttons : UInt16)
  | letGo (device : UInt8) (buttons : UInt16)
  | rewind
  | writeStrobe (value : UInt8)
  | read (devices : UInt8)
  deriving DecidableEq, Inhabited

/-- The sockets after an operation. -/
def after (c : Controllers) : Operation → Controllers
  | .connect devices => c.connect devices
  | .disconnect devices => c.disconnect devices
  | .set device value => c.set device value
  | .press device buttons => c.press device buttons
  | .letGo device buttons => c.letGo device buttons
  | .rewind => c.rewind
  | .writeStrobe value => c.writeStrobe value
  | .read devices => (c.read devices).2

/-- Operations since the sockets were made, the last one first. -/
abbrev History := List Operation

/-- Sockets that were made with the given devices and have been through a history. -/
def ofHistory (devices : UInt8) : History → Controllers
  | [] => ofDevices devices
  | op :: past => (ofHistory devices past).after op

namespace History

/-- The byte that was written to the strobe last. -/
def strobe : History → UInt8
  | [] => 0
  | .writeStrobe value :: _ => value
  | _ :: past => strobe past

/-- The operation rewinds the devices: outright, or as the strobe's low bit falls. -/
def rewindsAfter (past : History) : Operation → Bool
  | .rewind => true
  | .writeStrobe value => strobe past &&& 1 != 0 && value &&& 1 == 0
  | _ => false

/-- The operation reads a device. -/
def readsDevice (d : Device) : Operation → Bool
  | .read devices => d.among devices
  | _ => false

/-- How often a device was read since the last rewind. -/
def reads (d : Device) : History → Nat
  | [] => 0
  | op :: past =>
    if rewindsAfter past op then 0 else reads d past + if readsDevice d op then 1 else 0

/-- A device hangs on the sockets. -/
def plugged (devices : UInt8) (d : Device) : History → Bool
  | [] => d.among devices
  | .connect more :: past => plugged devices d past || d.among more
  | .disconnect less :: past => plugged devices d past && !d.among less
  | _ :: past => plugged devices d past

/-- The word of a device. -/
def word (d : Device) : History → UInt16
  | [] => 0
  | .set device value :: past => if device = d.mask then value else word d past
  | .press device buttons :: past =>
    if device = d.mask then word d past ||| buttons else word d past
  | .letGo device buttons :: past =>
    if device = d.mask then word d past &&& ~~~ buttons else word d past
  | .disconnect less :: past => if d.among less then 0 else word d past
  | _ :: past => word d past

/-- What a device adds to the next read: its answer, with the word 0 while it is unplugged. -/
def contribution (devices : UInt8) (h : History) (d : Device) : UInt8 :=
  d.answer (if h.plugged devices d then h.word d else 0) (h.reads d)

/-- The operation without what it reads of other devices, if anything is left. -/
def alone (d : Device) : Operation → Option Operation
  | .read devices => if d.among devices then some (.read d.mask) else none
  | op => some op

/-- Later operations without a rewind among them. -/
def unrewound (past : History) : List Operation → Bool
  | [] => true
  | op :: later => !rewindsAfter (later ++ past) op && unrewound past later

end History

/-! ### One operation -/

/-- The sockets are what a history says they are. -/
structure Follows (devices : UInt8) (h : History) (c : Controllers) : Prop where
  strobe : c.latch = h.strobe
  plugged : ∀ d, Device.among d c.connected = h.plugged devices d
  word : ∀ d, c.stateOf d = h.word d
  reads : ∀ d : Device, (c.reads.get d.index).toNat = min (h.reads d) 0xFFFFFFFF

/-- What a device adds to a read. -/
def shown (c : Controllers) (d : Device) : UInt8 := shows d (c.seen d) (c.reads.get d.index).toNat

theorem toNat_countRead (reads : UInt32) : (countRead reads).toNat = min (reads.toNat + 1) 0xFFFFFFFF := by
  have hbound : reads.toNat < 4294967296 := reads.toNat_lt
  have hnext : (reads + 1).toNat = (reads.toNat + 1) % 4294967296 := UInt32.toNat_add reads 1
  by_cases hlast : reads.toNat = 4294967295
  · rw [countRead, if_pos (UInt32.toNat_inj.mp hlast), hlast]
    rfl
  · rw [countRead, if_neg fun h => hlast (congrArg UInt32.toNat h), hnext]
    omega

section
variable (c : Controllers) (d : Device)

theorem connected_connect (devices : UInt8) :
    d.among (c.connect devices).connected = (d.among c.connected || d.among devices) := by
  simp [connect, Device.among_or, Device.among_and, Device.among_allDevices]

theorem connected_disconnect (devices : UInt8) :
    d.among (c.disconnect devices).connected = (d.among c.connected && !d.among devices) := by
  simp [disconnect, Device.among_and, Device.among_not]

theorem stateOf_eq : c.stateOf d = c.states.get d.index := rfl

/-- One device's entry after another's was set. -/
theorem get_set_index {α : Type} (v : Vector α 7) (e d : Device) (x : α) :
    (v.set e.index x e.index.isLt).get d.index = if e = d then x else v.get d.index := by
  simp only [Vector.get_eq_getElem, Vector.getElem_set, Device.index_inj]

/-- Wiping the words of a set of devices, one device after the other. -/
theorem get_wiped (devices : UInt8) (l : List Device) (states : Vector UInt16 7) :
    (l.foldl (fun (states : Vector UInt16 7) e =>
      if devices &&& e.mask != 0 then states.set e.index 0 e.index.isLt else states) states).get d.index =
      if d ∈ l ∧ d.among devices then 0 else states.get d.index := by
  induction l generalizing states with
  | nil => simp
  | cons e l ih =>
    rw [List.foldl_cons, ih]
    by_cases he : e = d
    · subst he
      by_cases hwiped : devices &&& e.mask != 0
      · simp [Device.among, hwiped, get_set_index]
      · simp [Device.among, hwiped]
    · have hkept : (if devices &&& e.mask != 0 then states.set e.index 0 e.index.isLt else states).get
          d.index = states.get d.index := by
        split
        · rw [get_set_index, if_neg he]
        · rfl
      simp only [hkept, List.mem_cons, Ne.symm he, false_or]

theorem stateOf_disconnect (devices : UInt8) :
    (c.disconnect devices).stateOf d = if d.among devices then 0 else c.stateOf d := by
  simp only [stateOf_eq, disconnect, get_wiped, d.mem_all, true_and]

theorem stateOf_update (device : UInt8) (f : UInt16 → UInt16) :
    (c.update device f).stateOf d = if device = d.mask then f (c.stateOf d) else c.stateOf d := by
  unfold update
  cases hmask : Device.ofMask? device with
  | none =>
    have hother : device ≠ d.mask := fun h => by
      rw [Device.ofMask?_eq_some.mpr h] at hmask
      cases hmask
    rw [if_neg hother]
  | some e =>
    obtain rfl := Device.ofMask?_eq_some.mp hmask
    simp only [stateOf_eq, get_set_index, Device.mask_inj]
    by_cases he : e = d
    · rw [if_pos he, if_pos he, he]
    · rw [if_neg he, if_neg he]

/-- Changing words touches nothing else. -/
theorem update_eq (device : UInt8) (f : UInt16 → UInt16) :
    c.update device f = { c with states := (c.update device f).states } := by
  unfold update
  split <;> rfl

/-- A write to the strobe touches the strobe and the counts. -/
theorem writeStrobe_eq (value : UInt8) :
    c.writeStrobe value = { c with latch := value, reads := (c.writeStrobe value).reads } := by
  simp only [writeStrobe]
  split <;> rfl

theorem rewound (value : UInt8) :
    (c.writeStrobe value).reads.get d.index =
      if c.latch &&& 1 != 0 && value &&& 1 == 0 then 0 else c.reads.get d.index := by
  simp only [writeStrobe]
  split
  · simp [rewind]
  · rfl

/-! ### Reads -/

/-- Reading one device counts for that device alone. -/
theorem readDevice_eq (e : Device) :
    (c.readDevice e).2 = { c with reads := (c.readDevice e).2.reads } ∧
      (c.readDevice e).2.reads.get d.index =
        if e = d then countRead (c.reads.get d.index) else c.reads.get d.index := by
  refine ⟨rfl, ?_⟩
  simp only [readDevice, get_set_index]
  by_cases he : e = d
  · rw [if_pos he, if_pos he, he]
    rfl
  · rw [if_neg he, if_neg he]

theorem shown_readDevice {d e : Device} (h : e ≠ d) : (c.readDevice e).2.shown d = c.shown d := by
  have hreads := (c.readDevice_eq d e).2
  rw [if_neg h] at hreads
  simp only [shown, hreads]
  rfl

/-- One step of a read of several devices. -/
def readNext (devices : UInt8) (r : UInt8 × Controllers) (d : Device) : UInt8 × Controllers :=
  if d.among devices then (r.1 ||| (r.2.readDevice d).1, (r.2.readDevice d).2) else r

theorem read_eq (devices : UInt8) : c.read devices = Device.all.foldl (readNext devices) (0, c) := by
  have hstep : ∀ (r : UInt8 × Controllers) (d : Device), readNext devices r d =
      if devices &&& d.mask = 0 then (r.1, r.2)
      else (r.1 ||| (r.2.readDevice d).1, (r.2.readDevice d).2) := by
    intro r d
    by_cases h : devices &&& d.mask = 0 <;> simp [readNext, Device.among, h]
  unfold read
  congr 1
  funext r d
  rw [hstep]

/-- Reading devices one after the other: their answers lie on the same lines. -/
theorem value_foldl (devices : UInt8) {l : List Device} (hl : l.Nodup) (value : UInt8) :
    (l.foldl (readNext devices) (value, c)).1 =
      (l.filter (·.among devices)).foldl (fun value d => value ||| c.shown d) value := by
  induction l generalizing c value with
  | nil => rfl
  | cons e l ih =>
    obtain ⟨hnew, hl⟩ := List.nodup_cons.mp hl
    rw [List.foldl_cons, readNext, List.filter_cons]
    by_cases he : e.among devices
    · have hkept : ∀ value : UInt8, ∀ d ∈ l.filter (·.among devices),
          value ||| (c.readDevice e).2.shown d = value ||| c.shown d := by
        intro value d hd
        rw [shown_readDevice]
        rintro rfl
        exact hnew (List.mem_of_mem_filter hd)
      rw [if_pos he, if_pos he, ih _ hl, List.foldl_cons, List.foldl_ext _ _ _ hkept]
      rfl
    · rw [if_neg he, if_neg he, ih c hl]

/-- Each device of the set is counted once, and nothing else changes. -/
theorem state_foldl (devices : UInt8) {l : List Device} (hl : l.Nodup) (value : UInt8) :
    let r := (l.foldl (readNext devices) (value, c)).2
    r = { c with reads := r.reads } ∧
      r.reads.get d.index =
        if d ∈ l ∧ d.among devices then countRead (c.reads.get d.index) else c.reads.get d.index := by
  induction l generalizing c value with
  | nil => exact ⟨rfl, by simp⟩
  | cons e l ih =>
    obtain ⟨hnew, hl⟩ := List.nodup_cons.mp hl
    rw [List.foldl_cons, readNext]
    by_cases he : e.among devices
    · obtain ⟨hsame, hcount⟩ := ih (c.readDevice e).2 hl (value ||| (c.readDevice e).1)
      rw [if_pos he]
      refine ⟨hsame.trans (by rw [(c.readDevice_eq d e).1]), hcount.trans ?_⟩
      rw [(c.readDevice_eq d e).2]
      by_cases hd : e = d
      · subst hd
        simp [hnew, he]
      · simp [hd, Ne.symm hd]
    · obtain ⟨hsame, hcount⟩ := ih c hl value
      rw [if_neg he]
      refine ⟨hsame, hcount.trans ?_⟩
      by_cases hd : d = e
      · subst hd
        simp [he]
      · simp [hd]

end

/-! ### The whole history -/

open History (contribution)

variable {devices : UInt8} {h past : History} {c : Controllers} {d : Device}

/-- Changing the word of a device moves nothing but that word. -/
theorem Follows.update (hc : Follows devices h c) {op : Operation} (device : UInt8) (f : UInt16 → UInt16)
    (hop : c.after op = c.update device f) (hstrobe : History.strobe (op :: h) = h.strobe)
    (hplugged : ∀ d, History.plugged devices d (op :: h) = h.plugged devices d)
    (hword : ∀ d, History.word d (op :: h) = if device = d.mask then f (h.word d) else h.word d)
    (hreads : ∀ d, History.reads d (op :: h) = h.reads d) : Follows devices (op :: h) (c.after op) := by
  have hsame := c.update_eq device f
  rw [hop]
  refine ⟨?_, fun d => ?_, fun d => ?_, fun d => ?_⟩
  · rw [hsame, hstrobe]
    exact hc.strobe
  · rw [hsame, hplugged]
    exact hc.plugged d
  · rw [stateOf_update, hword, hc.word]
  · rw [hsame, hreads]
    exact hc.reads d

/-- Every operation moves the sockets as the history says. -/
theorem Follows.after (hc : Follows devices h c) (op : Operation) :
    Follows devices (op :: h) (c.after op) := by
  cases op with
  | connect more =>
    refine ⟨hc.strobe, fun d => ?_, hc.word, hc.reads⟩
    rw [Controllers.after, connected_connect, hc.plugged]
    rfl
  | disconnect less =>
    refine ⟨hc.strobe, fun d => ?_, fun d => ?_, hc.reads⟩
    · rw [Controllers.after, connected_disconnect, hc.plugged]
      rfl
    · rw [Controllers.after, stateOf_disconnect, hc.word]
      rfl
  | set device value =>
    exact hc.update device (fun _ => value) rfl rfl (fun _ => rfl) (fun _ => rfl) (fun _ => rfl)
  | press device buttons =>
    exact hc.update device (· ||| buttons) rfl rfl (fun _ => rfl) (fun _ => rfl) (fun _ => rfl)
  | letGo device buttons =>
    exact hc.update device (· &&& ~~~ buttons) rfl rfl (fun _ => rfl) (fun _ => rfl) (fun _ => rfl)
  | rewind =>
    refine ⟨hc.strobe, hc.plugged, hc.word, fun d => ?_⟩
    simp [Controllers.after, Controllers.rewind, History.reads, History.rewindsAfter]
  | writeStrobe value =>
    refine ⟨rfl, fun d => ?_, fun d => ?_, fun d => ?_⟩
    · rw [Controllers.after, writeStrobe_eq]
      exact hc.plugged d
    · rw [Controllers.after, writeStrobe_eq]
      exact hc.word d
    · rw [Controllers.after, rewound, hc.strobe, History.reads, History.rewindsAfter]
      split
      · rfl
      · exact hc.reads d
  | read more =>
    have hread := fun d => state_foldl c d more Device.nodup_all 0
    rw [Controllers.after, read_eq]
    refine ⟨?_, fun d => ?_, fun d => ?_, fun d => ?_⟩
    · rw [(hread .pad1).1]
      exact hc.strobe
    · rw [(hread d).1]
      exact hc.plugged d
    · rw [(hread d).1]
      exact hc.word d
    · have hcounted : History.reads d (.read more :: h) = h.reads d + if d.among more then 1 else 0 := rfl
      rw [(hread d).2, hcounted]
      by_cases hd : d.among more = true
      · rw [if_pos ⟨d.mem_all, hd⟩, if_pos hd, toNat_countRead, hc.reads]
        omega
      · rw [if_neg fun hall => hd hall.2, if_neg hd, hc.reads, Nat.add_zero]

theorem follows_ofHistory (devices : UInt8) (h : History) : Follows devices h (ofHistory devices h) := by
  induction h with
  | nil =>
    refine ⟨rfl, fun d => ?_, fun d => ?_, fun d => ?_⟩
    · simp [ofHistory, ofDevices, History.plugged, Device.among_and, Device.among_allDevices]
    · simp [ofHistory, ofDevices, History.word, stateOf]
    · simp [ofHistory, ofDevices, History.reads]
  | cons op past ih => exact ih.after op

/-- Sockets that follow a history show what it says. -/
theorem Follows.shown (hc : Follows devices h c) (d : Device) : c.shown d = contribution devices h d := by
  have hseen : c.seen d = if h.plugged devices d then h.word d else 0 := by
    rw [seen, ← hc.plugged, ← hc.word]
    by_cases hd : c.connected &&& d.mask = 0 <;> simp [Device.among, hd]
  rw [Controllers.shown, Device.shows_eq_answer, hseen, hc.reads, Device.answer_min _ _ _ (by decide),
    contribution]

/-! ### Reads of other devices -/

namespace History

/-- Leaving out the reads of other devices changes nothing that is told about a device. -/
theorem told_alone (devices : UInt8) (d : Device) (h : History) :
    let kept : History := h.filterMap (alone d)
    strobe kept = strobe h ∧ plugged devices d kept = plugged devices d h ∧ word d kept = word d h ∧
      reads d kept = reads d h := by
  induction h with
  | nil => exact ⟨rfl, rfl, rfl, rfl⟩
  | cons op past ih =>
    obtain ⟨hstrobe, hplugged, hword, hreads⟩ := ih
    cases op with
    | read more =>
      by_cases hd : d.among more = true
      · have hkept : alone d (.read more) = some (.read d.mask) := by simp only [alone, if_pos hd]
        rw [List.filterMap_cons_some hkept]
        refine ⟨hstrobe, hplugged, hword, ?_⟩
        simp only [reads, rewindsAfter, readsDevice, d.among_mask, hd, hreads]
      · have hkept : alone d (.read more) = none := by simp only [alone, if_neg hd]
        rw [List.filterMap_cons_none hkept]
        refine ⟨hstrobe, hplugged, hword, ?_⟩
        simp [reads, rewindsAfter, readsDevice, hd, hreads]
    | _ =>
      simp only [alone, List.filterMap_cons]
      refine ⟨?_, ?_, ?_, ?_⟩
      · simp only [strobe, hstrobe]
      · simp only [plugged, hplugged]
      · simp only [word, hword]
      · simp [reads, rewindsAfter, readsDevice, hstrobe, hreads]

theorem contribution_alone (devices : UInt8) (d : Device) (h : History) :
    contribution devices (h.filterMap (alone d)) d = contribution devices h d := by
  obtain ⟨-, hplugged, hword, hreads⟩ := told_alone devices d h
  simp only [contribution, hplugged, hword, hreads]

/-- Without a rewind the reads add up. -/
theorem reads_append (later : List Operation) (hlater : unrewound past later = true) :
    reads d (later ++ past) = reads d past + later.countP (readsDevice d) := by
  induction later with
  | nil => rfl
  | cons op later ih =>
    simp only [unrewound, Bool.and_eq_true, Bool.not_eq_true'] at hlater
    rw [List.cons_append, reads, hlater.1, ih hlater.2, List.countP_cons, ← Nat.add_assoc]
    rfl

end History

/-- A read shows, on lines that its devices share, what the history says of each of them. Reads of other
devices do not matter to a device, and once a serial device has shown its eight bits, it shows none again
before a rewind. -/
theorem read_history (devices : UInt8) (h : History) :
    (∀ mask, ((ofHistory devices h).read mask).1 =
      (Device.all.filter (·.among mask)).foldl (fun value d => value ||| contribution devices h d) 0) ∧
    (∀ d, contribution devices (h.filterMap (History.alone d)) d = contribution devices h d) ∧
    (∀ (d : Device) (later : List Operation), d.isSerial = true → h.unrewound later = true →
      8 ≤ h.reads d + later.countP (History.readsDevice d) →
        contribution devices (later ++ h) d = d.idle) := by
  refine ⟨fun mask => ?_, fun d => History.contribution_alone devices d h, fun d later hd hlater h8 => ?_⟩
  · rw [read_eq, value_foldl _ _ Device.nodup_all]
    simp only [(follows_ofHistory devices h).shown]
  · rw [contribution, History.reads_append later hlater]
    exact Device.answer_of_le hd _ h8

/-- A pad is strobed, its first and its last button are pressed, and it is read eight times, with and without
the other pad: the first read shows a button, and the ninth would show none. -/
theorem pad_read_eight_times :
    let past : History := [.press Device.pad1.mask 0x81, .writeStrobe 0, .read 3, .writeStrobe 1]
    let later : List Operation :=
      [.read 1, .read 3, .read 2, .read 3, .read 1, .read 1, .read 3, .read 1, .read 1]
    ((ofHistory 3 past).read 1).1 = 0x41 ∧
      (Device.pad1.isSerial = true ∧ past.unrewound later = true ∧
        8 ≤ past.reads .pad1 + later.countP (History.readsDevice .pad1)) ∧
      contribution 3 (later ++ past) .pad1 = 0x40 := by
  intro past later
  have hlater : Device.pad1.isSerial = true ∧ past.unrewound later = true ∧
      8 ≤ past.reads .pad1 + later.countP (History.readsDevice .pad1) := by decide
  refine ⟨?_, hlater, (read_history 3 past).2.2 .pad1 later hlater.1 hlater.2.1 hlater.2.2⟩
  rw [(read_history 3 past).1 1]
  decide

end Controllers

end Famicom
