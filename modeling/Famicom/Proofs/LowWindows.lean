import Famicom.Proofs.Circuit

/-!
Which boards move the windows below the program ROM. Only board 42 does so when it is told something;
boards 40 and 50 show a bank there from power-on, and leave it in place.

    $6000-$7FFF    battery RAM, or a bank:  40, 50 at power-on    42 by a write
    $8000-$FFFF    banks, on every board
-/

namespace Famicom

/-- A wish that leaves the windows below the given one alone. -/
def Signal.Spares (window : Nat) : Signal → Prop
  | .prg _ address _ => window * 0x1000 ≤ address.toNat
  | _ => True

/-- Wishes that all do. -/
def AllSpare (window : Nat) (signals : List Signal) : Prop := ∀ s ∈ signals, s.Spares window

section
variable {window kb : Nat} {address : UInt16} {bank : Int}

@[simp] theorem spares_prg :
    (Signal.prg kb address bank).Spares window ↔ window * 0x1000 ≤ address.toNat := Iff.rfl

@[simp] theorem spares_chr : (Signal.chr kb address bank).Spares window := trivial

@[simp] theorem spares_mirror {a b c d : Nat} : (Signal.mirror a b c d).Spares window := trivial

@[simp] theorem spares_nametable {table : Nat} {value : UInt8} :
    (Signal.nametable table value).Spares window := trivial

@[simp] theorem spares_irq : Signal.irq.Spares window := trivial

@[simp] theorem spares_log {message : String} : (Signal.log message).Spares window := trivial

@[simp] theorem spares_single {table : Nat} : (Signal.single table).Spares window := trivial

@[simp] theorem spares_horizontal : Signal.horizontal.Spares window := trivial

@[simp] theorem spares_vertical : Signal.vertical.Spares window := trivial

@[simp] theorem allSpare_nil : AllSpare window [] := fun _ h => by simp at h

@[simp] theorem allSpare_cons {s : Signal} {l : List Signal} :
    AllSpare window (s :: l) ↔ s.Spares window ∧ AllSpare window l := List.forall_mem_cons

@[simp] theorem allSpare_append {l k : List Signal} :
    AllSpare window (l ++ k) ↔ AllSpare window l ∧ AllSpare window k := List.forall_mem_append

@[simp] theorem spares_horizontalIf {bit : Bool} : (Signal.horizontalIf bit).Spares window := by
  cases bit <;> trivial

@[simp] theorem spares_vrcWiring {value : UInt8} : (Signal.vrcWiring value).Spares window := by
  unfold Signal.vrcWiring
  split <;> trivial

end

theorem LatchBoard.write_spares (kind : LatchBoard) (view : View) (address : UInt16) (value : UInt8) :
    AllSpare 8 (kind.write view address value) := by
  cases kind <;> simp only [LatchBoard.write]
  case contra100 => simp only [writeContra]; split_ifs <;> simp
  case taito => simp only [writeTaito]; split_ifs <;> simp
  case bootleg31 => simp only [writeBootleg31]; split_ifs <;> simp
  all_goals (try split_ifs) <;> simp

theorem Mmc3.write_spares (s : Mmc3) (view : View) (address : UInt16) (value : UInt8) :
    AllSpare 8 (s.write view address value).2 := by
  have hbank : AllSpare 8 (s.bankSignals value) := by
    simp only [Mmc3.bankSignals]
    split <;> (try split_ifs) <;> simp
  simp only [Mmc3.write, Mmc3.writeRegister, Mmc3.setCommand]
  split_ifs <;> simp [hbank]

theorem Rambo1.write_spares (s : Rambo1) (address : UInt16) (value : UInt8) :
    AllSpare 8 (s.write address value).2 := by
  have hbank : AllSpare 8 (s.bankSignals value) := by
    simp only [Rambo1.bankSignals]
    split <;> (try split_ifs) <;> simp
  simp only [Rambo1.write, Rambo1.writeRegister]
  split_ifs <;> simp [hbank]

theorem Vrc4.write_spares (s : Vrc4) (address : UInt16) (value : UInt8) :
    AllSpare 8 (s.write address value).2 := by
  have hchr : ∀ r, AllSpare 8 (s.writeChr? r value).2 := by
    intro r
    cases r <;> simp [Vrc4.writeChr?, Vrc4.writeChr]
  unfold Vrc4.write
  split
  · simp only [Vrc4.write22]
    split_ifs <;> (try split) <;> simp
  · unfold Vrc4.write23
    split_ifs
    · exact hchr _
    · split <;> simp
  · unfold Vrc4.write4
    split_ifs
    · exact hchr _
    · split <;> simp
    · split <;> simp

theorem Ss8806.write_spares (s : Ss8806) (address : UInt16) (value : UInt8) :
    AllSpare 8 (s.write address value).2 := by
  have hprg : ∀ window high, window < 4 → AllSpare 8 (s.writePrg window high value).2 := by
    intro window high hwindow
    simp [writePrg]
    omega
  have hpair : ((address >>> 1) &&& 1).toNat < 4 := by
    rw [UInt16.toNat_and]
    exact Nat.lt_of_le_of_lt Nat.and_le_right (by decide)
  simp only [write]
  split
  · split_ifs
    · exact hprg _ _ hpair
    · simp
  · split_ifs
    · exact hprg 2 _ (by decide)
    · simp
  · split_ifs <;> simp
  · split
    · simp
    · simp
    · split <;> simp
    · simp
  · split_ifs <;> simp [writeChr]

theorem Aladdin.write_spares (s : Aladdin) (address : UInt16) (value : UInt8) :
    AllSpare 8 (s.write address value).2 := by
  have hwindow : address.toNat &&& 3 < 4 := Nat.lt_of_le_of_lt Nat.and_le_right (by decide)
  unfold write
  split_ifs <;> simp
  omega

/-- What any board but 42 is written moves no window below the ROM. -/
theorem Board.write_spares {b : Board} (h : b.number ≠ 42) (view : View) (address : UInt16)
    (value : UInt8) : AllSpare 8 (b.write view address value).2 := by
  cases b with
  | latch kind => exact kind.write_spares view address value
  | mmc1 s =>
    simp only [write, lift, Mmc1.write, Mmc1.commit]
    split_ifs <;> simp
  | mmc2 s =>
    simp only [write, lift, Mmc2.write]
    split_ifs <;> simp
  | mmc3 s => exact s.write_spares view address value
  | mmc5 s =>
    unfold write lift Mmc5.write
    dsimp only
    split_ifs <;> simp
  | rambo1 s => exact s.write_spares address value
  | vrc1 s =>
    simp only [write, lift, Vrc1.write]
    split <;> simp [Vrc1.showLow, Vrc1.showHigh]
  | vrc3 s =>
    simp only [write, lift, Vrc3.write]
    split <;> simp
  | vrc4 s => exact s.write_spares address value
  | vrc6 s =>
    simp only [write, lift, Vrc6.write]
    split_ifs <;> (try split) <;> simp
  | vrc7 s =>
    simp only [write, lift, Vrc7.write]
    split <;> (try split_ifs) <;> simp
  | fcg s =>
    simp only [write, lift, Fcg.write]
    split_ifs <;> (try split) <;> (try split) <;> simp
  | ss8806 s => exact s.write_spares address value
  | namco163 s =>
    simp only [write, lift, Namco163.write]
    split_ifs <;> (try split) <;> simp
  | iremG101 s =>
    simp only [write, lift, IremG101.write]
    split <;> (try split_ifs) <;> simp
  | iremH3001 s =>
    simp only [write, lift, IremH3001.write]
    split <;> (try split) <;> simp
  | caltron s =>
    simp only [write, lift, Caltron.write]
    split_ifs <;> simp [Caltron.showChr]
  | pelican s =>
    simp [write, lift, Pelican.write, Pelican.showBanks]
  | board40 s =>
    simp only [write, lift, Board40.write]
    split <;> simp
  | board42 s => exact absurd rfl h
  | board50 s =>
    simp only [write, lift, Board50.write]
    split_ifs <;> simp
  | aladdin s => exact s.write_spares address value

/-- What fits the windows leaves the console's own alone. -/
theorem spares_of_fits {number : UInt8} {s : Signal} (h : s.Fits number) : s.Spares 6 := by
  cases s with
  | prg kb address bank =>
    obtain ⟨-, -, -, hlow, -⟩ := h
    exact hlow
  | _ => trivial

/-- The lowest window that a board with this number moves when it is told something. -/
def lowestMoved (number : UInt8) : Nat := if number = 42 then 6 else 8

theorem lowestMoved_le (number : UInt8) : 6 ≤ lowestMoved number ∧ lowestMoved number ≤ 8 := by
  unfold lowestMoved
  split <;> omega

theorem Board.answer_spares (b : Board) (cue : Cue) : AllSpare (lowestMoved b.number) (b.answer cue).2 := by
  cases cue with
  | write view address value =>
    unfold lowestMoved
    split
    case isTrue => exact fun s hs => spares_of_fits (b.write_fits view address value s hs)
    case isFalse h => exact write_spares h view address value
  | hblank view vblank =>
    intro s hs
    rw [b.hblank_irq view vblank s hs]
    trivial
  | strobe value =>
    cases b with
    | latch kind => cases kind <;> simp [answer, strobe, LatchBoard.strobe]
    | _ => exact allSpare_nil
  | drawn base tile =>
    simp only [answer]
    cases (b.drawn base tile).2 with
    | none => exact allSpare_nil
    | some bank => simp

namespace Circuit

variable {c : Circuit} {window w : Nat}

theorem low_obey {s : Signal} (hs : s.Spares window) (hw : w < window) (hw16 : w < 16) :
    (c.obey s).cpu.page w = c.cpu.page w := by
  cases s with
  | prg kb address bank =>
    rw [spares_prg] at hs
    simp only [obey]
    rw [PageTable.page_mapPrg _ _ _ _ _ hw16, if_neg (by omega)]
  | _ => simp only [obey]

theorem low_obeyAll {signals : List Signal} (hs : AllSpare window signals) (hw : w < window)
    (hw16 : w < 16) : (signals.foldl obey c).cpu.page w = c.cpu.page w := by
  induction signals generalizing c with
  | nil => rfl
  | cons s signals ih =>
    obtain ⟨hfirst, hrest⟩ := allSpare_cons.mp hs
    rw [List.foldl_cons, ih hrest, low_obey hfirst hw hw16]

/-- Whatever the board hears, the windows below stay. -/
theorem low_hear {b : Board} (hb : c.board = some b) (cue : Cue) (hw : w < lowestMoved b.number) :
    (c.hear cue).cpu.page w = c.cpu.page w := by
  have hle := (lowestMoved_le b.number).2
  rw [hear, act_some hb, low_obeyAll (b.answer_spares cue) hw (by omega)]

end Circuit

end Famicom
