import Famicom.Proofs.Closure

/-!
Sprite 0's hit within a frame: it is recorded at most once, shows from its clock on, and goes away only at
the line before the picture.

    no hit ── visible line ──▶ hit, hitAt ── clock ≥ hitAt ──▶ bit 6 of $2002
       ▲                          │                                │
       └──────── line 261 ────────┴────────────────────────────────┘

A line records a hit ahead of the processor, so the hit and its showing are apart: what is kept is the mark
(`mark`), and the clock alone decides what a read makes of it.
-/

namespace Famicom.Ppu

/-! ### Runs -/

/-- What others do to a picture unit, loading a snapshot apart. -/
inductive Operation where
  | start (board : Option Board) (cart : Cartridge) (line : Int) (draw : Bool)
  | finish (line : Int)
  | read (cart : Cartridge) (address : UInt16)
  | write (cart : Cartridge) (address : UInt16) (value : UInt8)
  | transfer (block : Memory 0x100)
  | arrange (pages : PageTable)
  | showSprites (on : Bool)
  | reset (hard : Bool) (prng : Xorshift)

/-- The picture unit after an operation at a clock. -/
def after (p : Ppu) : Nat × Operation → Ppu
  | (clock, .start board cart line draw) => (p.startScanline board cart line draw clock).1
  | (_, .finish line) => p.finishScanline line
  | (clock, .read cart address) => (p.readRegister cart address clock).2
  | (_, .write cart address value) => (p.writeRegister cart address value).1
  | (_, .transfer block) => p.transfer block
  | (_, .arrange pages) => { p with pages }
  | (_, .showSprites on) => { p with drawSprites := on }
  | (_, .reset hard prng) => (p.reset hard prng).1

/-- The picture unit after a run. -/
def run (p : Ppu) (operations : List (Nat × Operation)) : Ppu := operations.foldl after p

/-- The operation is the line before the picture. -/
def Operation.Clears : Operation → Prop
  | .start _ _ line _ => line = 261
  | _ => False

/-- The operation runs a line of the picture. -/
def Operation.Draws : Operation → Prop
  | .start _ _ line _ => 0 ≤ line ∧ line < 240
  | _ => False

/-- A run on non-decreasing clocks that stays clear of the line before the picture. -/
structure WithinFrame (operations : List (Nat × Operation)) : Prop where
  clocks : operations.Pairwise (·.1 ≤ ·.1)
  lines : ∀ o ∈ operations, ¬ o.2.Clears

/-- The hit is recorded and its clock has come. -/
def Due (p : Ppu) (clock : Nat) : Prop := p.hit = true ∧ ∃ deadline ≤ clock, p.hitAt = some deadline

/-- A status byte reports a hit. -/
def Reports (value : UInt8) : Prop := value &&& 0x40 ≠ 0

/-- What an operation reads from the status register, if it does. -/
def statusRead? (p : Ppu) : Nat × Operation → Option UInt8
  | (clock, .read cart address) =>
    if address.toNat % 8 = 2 then some (p.readRegister cart address clock).1 else none
  | _ => none

/-- What a run reads from the status register, in order. -/
def statusReads (p : Ppu) : List (Nat × Operation) → List UInt8
  | [] => []
  | o :: rest => (p.statusRead? o).toList ++ (p.after o).statusReads rest

/-! ### One operation -/

/-- Only a hit that was not there is recorded, at the clock or later. -/
def Marks (clock : Nat) (p q : Ppu) : Prop :=
  q.mark = p.mark ∨
    (p.hit = false ∧ ∃ deadline, clock ≤ deadline ∧ q.mark = (true, some deadline, p.mark.2.2))

variable {p q : Ppu} {clock : Nat}

theorem Marks.trans {k : Ppu} (h : Marks clock p q) (h' : Marks clock q k) : Marks clock p k := by
  rcases h with h | ⟨hnone, deadline, hlate, h⟩
  · rcases h' with h' | ⟨hnone', deadline, hlate, h'⟩
    · exact .inl (h'.trans h)
    · refine .inr ⟨?_, deadline, hlate, by rw [h', h]⟩
      exact (congrArg (·.1) h).symm.trans hnone'
  · have hhit : q.hit = true := congrArg (·.1) h
    rcases h' with h' | ⟨hnone', -⟩
    · exact .inr ⟨hnone, deadline, hlate, h'.trans h⟩
    · rw [hhit] at hnone'
      cases hnone'

theorem marks_recordHit (p : Ppu) (column clock : Nat) : Marks clock p (p.recordHit column clock) := by
  unfold recordHit
  split
  · exact .inl rfl
  · exact .inr ⟨by simpa using ‹¬ p.hit = true›, _, Nat.le_add_right clock (column / 3), rfl⟩

theorem mark_drawn (p : Ppu) (board : Option Board) (cart : Cartridge) (base : UInt16) (tile : UInt8) :
    (p.drawn board cart base tile).1.mark = p.mark := by
  unfold drawn
  split
  · rfl
  · simp only
    split <;> rfl

/-- A line marks a hit at most. -/
theorem closed_marks (cart : Cartridge) (clock : Nat) :
    Closed cart clock fun s t => Marks clock s.1 t.1 where
  trans := Marks.trans
  still := fun _ _ hmark => .inl hmark
  hit := fun p _ column => p.marks_recordHit column clock
  drawn := fun p board tile {base} _ => .inl (p.mark_drawn board cart base tile)

theorem mark_eq (hhit : q.hit = p.hit) (hat : q.hitAt = p.hitAt) (hstatus : q.status = p.status) :
    q.mark = p.mark := by
  rw [mark, mark, hhit, hat, hstatus]

theorem mark_readRegister (p : Ppu) (cart : Cartridge) (address : UInt16) (clock : Nat) :
    (p.readRegister cart address clock).2.mark = p.mark := by
  unfold readRegister
  split
  · exact p.mark_clear rfl
  · simp only [readData]
    split <;> rfl
  · rfl

theorem mark_write (p : Ppu) (cart : Cartridge) (address : UInt16) (value : UInt8) :
    (p.write cart address value).1.mark = p.mark := by
  simp only [write]
  split <;> rfl

theorem mark_storeData (p : Ppu) (cart : Cartridge) (value : UInt8) :
    (p.storeData cart value).1.mark = p.mark := by
  unfold storeData
  split_ifs
  · exact (mark_write _ cart _ _).trans (mark_eq rfl rfl rfl)
  · exact p.mark_write cart _ value
  · exact mark_eq rfl rfl rfl
  · exact mark_eq rfl rfl rfl
  · rfl

theorem mark_transfer (p : Ppu) (block : Memory 0x100) : (p.transfer block).mark = p.mark := by
  simp only [mark, transfer]

theorem mark_writeRegister (p : Ppu) (cart : Cartridge) (address : UInt16) (value : UInt8) :
    (p.writeRegister cart address value).1.mark = p.mark := by
  simp only [writeRegister]
  split
  case h_5 =>
    simp only [writeScroll]
    split <;> rfl
  case h_6 =>
    simp only [writeAddress]
    split <;> rfl
  case h_7 => exact mark_storeData { p with bus := value } cart value
  all_goals rfl

/-- The status register holds no hit of its own, and a hit is recorded with its clock. -/
structure Plain (p : Ppu) : Prop where
  status : p.status &&& 0x40 = 0
  deadline : p.hit = p.hitAt.isSome

theorem plain_powerOn : powerOn.Plain := ⟨rfl, rfl⟩

theorem mark_reset (h : p.Plain) (hard : Bool) (prng : Xorshift) : (p.reset hard prng).1.mark = p.mark := by
  have hregisters (q : Ppu) : q.resetRegisters.mark = (q.hit, q.hitAt, 0) := by
    simp [mark, resetRegisters]
  have hmark : p.mark = (p.hit, p.hitAt, 0) := by rw [mark, h.status]
  rw [hmark]
  unfold reset
  split <;> exact hregisters _

/-- Lines outside the picture and accesses leave the mark alone. -/
theorem mark_after (h : p.Plain) {o : Nat × Operation} (hclears : ¬ o.2.Clears) (hdraws : ¬ o.2.Draws) :
    (p.after o).mark = p.mark := by
  obtain ⟨clock, o⟩ := o
  cases o with
  | start board cart line draw =>
    have hmark : ({ p with scanline := line, status := p.status &&& 0xDF } : Ppu).mark = p.mark :=
      p.mark_clear rfl
    simp only [after, startScanline]
    split_ifs with habove hvisible hblank hlast
    · exact (mark_startLine _ line).trans hmark
    · exact absurd ⟨Int.not_lt.mp habove, hvisible⟩ hdraws
    · exact p.mark_set rfl
    · exact absurd hlast hclears
    · rfl
  | finish line =>
    simp only [after, finishScanline]
    split <;> rfl
  | read cart address => exact p.mark_readRegister cart address clock
  | write cart address value => exact p.mark_writeRegister cart address value
  | transfer block => exact p.mark_transfer block
  | arrange pages => rfl
  | showSprites on => rfl
  | reset hard prng => exact mark_reset h hard prng

/-- What is not the line before the picture records a hit at most. -/
theorem marks_after (h : p.Plain) {o : Nat × Operation} (ho : ¬ o.2.Clears) :
    Marks o.1 p (p.after o) := by
  by_cases hdraws : o.2.Draws
  · obtain ⟨clock, o⟩ := o
    cases o with
    | start board cart line draw =>
      exact (closed_marks cart clock).startScanline p board line draw fun hline => absurd hline ho
    | _ => exact absurd hdraws id
  · exact .inl (mark_after h ho hdraws)

theorem Marks.plain (h : p.Plain) (hmarks : Marks clock p q) : q.Plain := by
  rcases hmarks with hsame | ⟨-, deadline, -, hnew⟩
  · have hhit : q.hit = p.hit := congrArg (·.1) hsame
    have hat : q.hitAt = p.hitAt := congrArg (·.2.1) hsame
    exact ⟨(congrArg (·.2.2) hsame).trans h.status, by rw [hhit, hat, h.deadline]⟩
  · have hhit : q.hit = true := congrArg (·.1) hnew
    have hat : q.hitAt = some deadline := congrArg (·.2.1) hnew
    exact ⟨(congrArg (·.2.2) hnew).trans h.status, by rw [hhit, hat]; rfl⟩

/-- The line before the picture takes the hit away. -/
theorem after_clears {o : Nat × Operation} (ho : o.2.Clears) :
    (p.after o).hit = false ∧ (p.after o).hitAt = none ∧
      (p.after o).status &&& 0x40 = p.status &&& 0x40 := by
  obtain ⟨clock, o⟩ := o
  cases o with
  | start board cart line draw =>
    obtain rfl : line = 261 := ho
    exact ⟨rfl, rfl, congrArg (·.2.2) (@mark_clear p 0x7F rfl)⟩
  | _ => exact absurd ho id

theorem plain_after (h : p.Plain) (o : Nat × Operation) : (p.after o).Plain := by
  by_cases ho : o.2.Clears
  · obtain ⟨hhit, hat, hstatus⟩ := after_clears (p := p) ho
    exact ⟨hstatus.trans h.status, by rw [hhit, hat]; rfl⟩
  · exact (marks_after h ho).plain h

theorem plain_run (h : p.Plain) (operations : List (Nat × Operation)) : (p.run operations).Plain := by
  induction operations generalizing p with
  | nil => exact h
  | cons o rest ih => exact ih (plain_after h o)

/-! ### Reading the hit -/

theorem readStatus_reports (h : p.Plain) (clock : Nat) : Reports (p.readStatus clock).1 ↔ p.Due clock := by
  have hflags : (p.status &&& 0xE0) &&& 0x40 = 0 := by
    rw [UInt8.and_assoc]
    exact h.status
  have hbus : (p.bus &&& 0x1F) &&& 0x40 = 0 := by
    rw [UInt8.and_assoc]
    exact UInt8.and_zero
  have hdue : p.Due clock ↔ (p.hit && p.hitAt.any (· ≤ clock)) = true := by
    cases hat : p.hitAt with
    | none => simp [Due, hat]
    | some deadline => simp [Due, hat]
  rw [hdue, Reports, readStatus]
  simp only [or_and_mask, hflags, hbus]
  cases p.hit && p.hitAt.any (· ≤ clock) <;> simp

theorem readRegister_reports (h : p.Plain) (cart : Cartridge) {address : UInt16}
    (haddress : address.toNat % 8 = 2) (clock : Nat) :
    Reports (p.readRegister cart address clock).1 ↔ p.Due clock := by
  have hread : p.readRegister cart address clock = p.readStatus clock := by
    simp only [readRegister, haddress]
  rw [hread, readStatus_reports h]

/-! ### Within a frame -/

variable {operations : List (Nat × Operation)}

/-- A hit stays as it is recorded. -/
theorem hit_after (h : p.Plain) (hhit : p.hit = true) {o : Nat × Operation} (ho : ¬ o.2.Clears) :
    (p.after o).hit = true ∧ (p.after o).hitAt = p.hitAt := by
  rcases marks_after h ho with hsame | ⟨hnone, -⟩
  · exact ⟨(congrArg (·.1) hsame).trans hhit, congrArg (·.2.1) hsame⟩
  · rw [hhit] at hnone
    cases hnone

theorem hit_run (h : p.Plain) (hhit : p.hit = true) (hlines : ∀ o ∈ operations, ¬ o.2.Clears) :
    (p.run operations).hit = true ∧ (p.run operations).hitAt = p.hitAt := by
  induction operations generalizing p with
  | nil => exact ⟨hhit, rfl⟩
  | cons o rest ih =>
    obtain ⟨ho, hrest⟩ := List.forall_mem_cons.mp hlines
    obtain ⟨hhit', hat⟩ := hit_after h hhit ho
    obtain ⟨hlast, hsame⟩ := ih (plain_after h o) hhit' hrest
    exact ⟨hlast, hsame.trans hat⟩

theorem WithinFrame.rest {o : Nat × Operation} (h : WithinFrame (o :: operations)) :
    WithinFrame operations :=
  ⟨(List.pairwise_cons.mp h.clocks).2, (List.forall_mem_cons.mp h.lines).2⟩

theorem Due.after (h : p.Plain) (hdue : p.Due clock) {o : Nat × Operation} (ho : ¬ o.2.Clears) :
    (p.after o).Due clock := by
  obtain ⟨hhit, deadline, hle, hat⟩ := hdue
  obtain ⟨hhit', hat'⟩ := hit_after h hhit ho
  exact ⟨hhit', deadline, hle, hat'.trans hat⟩

theorem Due.mono {later : Nat} (hdue : p.Due clock) (hlater : clock ≤ later) : p.Due later := by
  obtain ⟨hhit, deadline, hle, hat⟩ := hdue
  exact ⟨hhit, deadline, Nat.le_trans hle hlater, hat⟩

/-- What reads the status register reads whether the hit is due. -/
theorem statusRead_reports (h : p.Plain) {o : Nat × Operation} {value : UInt8}
    (hread : p.statusRead? o = some value) : Reports value ↔ p.Due o.1 := by
  obtain ⟨clock, o⟩ := o
  cases o with
  | read cart address =>
    rw [statusRead?] at hread
    split at hread
    case isTrue haddress =>
      obtain rfl := Option.some.inj hread
      exact readRegister_reports h cart haddress clock
    case isFalse => cases hread
  | _ => cases hread

/-- Once the hit is due, every read from then on reports it. -/
theorem reads_report (h : p.Plain) (hdue : p.Due clock) (hops : WithinFrame operations)
    (hlate : ∀ o ∈ operations, clock ≤ o.1) : ∀ value ∈ p.statusReads operations, Reports value := by
  induction operations generalizing p with
  | nil => intro value hvalue; cases hvalue
  | cons o rest ih =>
    obtain ⟨ho, -⟩ := List.forall_mem_cons.mp hops.lines
    obtain ⟨hclock, hrest⟩ := List.forall_mem_cons.mp hlate
    intro value hvalue
    rw [statusReads, List.mem_append, Option.mem_toList] at hvalue
    rcases hvalue with hfirst | hlater
    · exact (statusRead_reports h hfirst).mpr (hdue.mono hclock)
    · exact ih (plain_after h o) (hdue.after h ho) hops.rest hrest value hlater

/-- Reads in a row never take a reported hit back. -/
theorem reads_monotone (h : p.Plain) (hops : WithinFrame operations) :
    (p.statusReads operations).Pairwise fun earlier later => Reports earlier → Reports later := by
  induction operations generalizing p with
  | nil => exact .nil
  | cons o rest ih =>
    obtain ⟨ho, -⟩ := List.forall_mem_cons.mp hops.lines
    rw [statusReads, List.pairwise_append]
    refine ⟨?_, ih (plain_after h o) hops.rest, ?_⟩
    · cases p.statusRead? o with
      | none => exact .nil
      | some value => exact List.pairwise_singleton _ value
    · intro earlier hearlier later hlater hreports
      have hdue := (statusRead_reports h (Option.mem_toList.mp hearlier)).mp hreports
      exact reads_report (plain_after h o) (hdue.after h ho) hops.rest
        (List.pairwise_cons.mp hops.clocks).1 later hlater

/-- In a run, a line of the picture recorded a hit that shows from `deadline` on, where there was none. -/
def Records (p : Ppu) (operations : List (Nat × Operation)) (deadline : Nat) : Prop :=
  ∃ pre o post, operations = pre ++ o :: post ∧ o.2.Draws ∧ o.1 ≤ deadline ∧
    (p.run pre).hit = false ∧ ((p.run pre).after o).hit = true ∧
      ((p.run pre).after o).hitAt = some deadline

/-- An operation that records a hit runs a line of the picture, and the hit shows no earlier. -/
theorem draws_of_hit (h : p.Plain) (hnone : p.hit = false) {o : Nat × Operation} (ho : ¬ o.2.Clears)
    (hhit : (p.after o).hit = true) :
    o.2.Draws ∧ ∃ deadline, o.1 ≤ deadline ∧ (p.after o).hitAt = some deadline := by
  have hnew : (p.after o).mark ≠ p.mark := by
    intro hsame
    have hsame : (p.after o).hit = p.hit := congrArg (·.1) hsame
    rw [hhit, hnone] at hsame
    cases hsame
  refine ⟨Classical.byContradiction fun hdraws => hnew (mark_after h ho hdraws), ?_⟩
  rcases marks_after h ho with hsame | ⟨-, deadline, hlate, hmark⟩
  · exact absurd hsame hnew
  · exact ⟨deadline, hlate, congrArg (·.2.1) hmark⟩

/-- A hit that was not there at first is the one recorded on the way. -/
theorem hit_iff_records (h : p.Plain) (hnone : p.hit = false)
    (hlines : ∀ o ∈ operations, ¬ o.2.Clears) (deadline : Nat) :
    ((p.run operations).hit = true ∧ (p.run operations).hitAt = some deadline) ↔
      p.Records operations deadline := by
  constructor
  · induction operations generalizing p with
    | nil =>
      rintro ⟨hhit, -⟩
      cases hnone.symm.trans hhit
    | cons o rest ih =>
      obtain ⟨ho, hrest⟩ := List.forall_mem_cons.mp hlines
      rintro ⟨hhit, hat⟩
      cases hfirst : (p.after o).hit with
      | true =>
        obtain ⟨hdraws, recorded, hlate, hrecorded⟩ := draws_of_hit h hnone ho hfirst
        have hkept := (hit_run (plain_after h o) hfirst hrest).2
        obtain rfl : recorded = deadline :=
          Option.some.inj (hrecorded.symm.trans (hkept.symm.trans hat))
        exact ⟨[], o, rest, rfl, hdraws, hlate, hnone, hfirst, hrecorded⟩
      | false =>
        obtain ⟨pre, o', post, rfl, hrecords⟩ := ih (plain_after h o) hfirst hrest ⟨hhit, hat⟩
        exact ⟨o :: pre, o', post, rfl, hrecords⟩
  · rintro ⟨pre, o, post, rfl, -, -, -, hhit, hat⟩
    have hrun : p.run (pre ++ o :: post) = ((p.run pre).after o).run post := List.foldl_append
    have hpost : ∀ o' ∈ post, ¬ o'.2.Clears :=
      fun o' ho' => hlines o' (List.mem_append_right _ (List.mem_cons_of_mem _ ho'))
    obtain ⟨hhit', hat'⟩ := hit_run (plain_after (plain_run h pre) o) hhit hpost
    rw [hrun]
    exact ⟨hhit', hat'.trans hat⟩

/-- Sprite 0's hit in a frame, whatever went before it: a recorded hit stays as it is, no read takes a
reported one back, a read reports it exactly if its clock has come, and after the line before the picture
exactly a hit recorded since then is reported. -/
theorem hit_within_frame (history operations : List (Nat × Operation)) (hops : WithinFrame operations) :
    let p := powerOn.run history
    (p.hit = true → (p.run operations).hit = true ∧ (p.run operations).hitAt = p.hitAt) ∧
    (p.statusReads operations).Pairwise (fun earlier later => Reports earlier → Reports later) ∧
    (∀ (cart : Cartridge) (address : UInt16) (clock : Nat), address.toNat % 8 = 2 →
      (Reports ((p.run operations).readRegister cart address clock).1 ↔
        (p.run operations).hit = true ∧ ∃ deadline ≤ clock, (p.run operations).hitAt = some deadline)) ∧
    ∀ o : Nat × Operation, o.2.Clears →
      (p.after o).hit = false ∧ (p.after o).hitAt = none ∧
        ∀ (cart : Cartridge) (address : UInt16) (clock : Nat), address.toNat % 8 = 2 →
          (Reports (((p.after o).run operations).readRegister cart address clock).1 ↔
            ∃ deadline ≤ clock, (p.after o).Records operations deadline) := by
  intro p
  have hp : p.Plain := plain_run plain_powerOn history
  refine ⟨fun hhit => hit_run hp hhit hops.lines, reads_monotone hp hops, ?_, ?_⟩
  · intro cart address clock haddress
    exact readRegister_reports (plain_run hp operations) cart haddress clock
  · intro o ho
    obtain ⟨hhit, hat, -⟩ := after_clears (p := p) ho
    refine ⟨hhit, hat, ?_⟩
    intro cart address clock haddress
    have hq := plain_after hp o
    rw [readRegister_reports (plain_run hq operations) cart haddress clock]
    constructor
    · rintro ⟨hhit', deadline, hle, hat'⟩
      exact ⟨deadline, hle, (hit_iff_records hq hhit hops.lines deadline).mp ⟨hhit', hat'⟩⟩
    · rintro ⟨deadline, hle, hrecords⟩
      obtain ⟨hhit', hat'⟩ := (hit_iff_records hq hhit hops.lines deadline).mpr hrecords
      exact ⟨hhit', deadline, hle, hat'⟩

/-- A cartridge whose patterns are solid. -/
def solid : Cartridge := { chr := #[0xFF] }

/-- Sprite 0 is put at column 30 in front of solid patterns. -/
def aim : List (Nat × Operation) :=
  [(0, .arrange (PageTable.blank.mapChr 0x2000 8 0 0)), (0, .write solid 0x2003 3),
    (0, .write solid 0x2004 30)]

/-- A line estimates the hit, which a read a cycle too early does not see and a later one does. -/
def pass : List (Nat × Operation) :=
  [(0, .start none solid 1 false), (9, .read solid 0x2002), (12, .read solid 0x2002)]

theorem hit_within_frame_estimated : WithinFrame pass ∧
    ((powerOn.run aim).run pass).hit = true ∧ ((powerOn.run aim).run pass).hitAt = some 10 ∧
    ((powerOn.run aim).statusReads pass).map (· &&& 0x40) = [0, 0x40] ∧
    ((powerOn.run aim).statusReads pass).Pairwise (fun earlier later => Reports earlier → Reports later) ∧
    ¬ Reports (((powerOn.run aim).run pass).readRegister solid 0x2002 9).1 ∧
    Reports (((powerOn.run aim).run pass).readRegister solid 0x2002 10).1 := by
  have hpass : WithinFrame pass := ⟨by decide, by simp [pass, Operation.Clears]⟩
  have hhit : ((powerOn.run aim).run pass).hit = true := by decide +kernel
  have hat : ((powerOn.run aim).run pass).hitAt = some 10 := by decide +kernel
  obtain ⟨-, hreads, hreports, -⟩ := hit_within_frame aim pass hpass
  refine ⟨hpass, hhit, hat, by decide +kernel, hreads, ?_, ?_⟩
  · rw [hreports solid 0x2002 9 rfl, hat]
    simp
  · rw [hreports solid 0x2002 10 rfl, hat]
    exact ⟨hhit, 10, Nat.le_refl 10, rfl⟩

end Famicom.Ppu
