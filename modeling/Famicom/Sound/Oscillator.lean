/-!
The pitch of a voice. An oscillator holds the cycles left until its next step; a sample takes the cycles of
one output sample away, and every step that has come due gives one period back.

    credit      12.5   ─40.6→  −28.1   +16 +16→   3.9        two steps

The arithmetic is in single precision. A period is at least one cycle and the debt far below 2^23, so
each step pays at least half a cycle back, which bounds the number of steps.

A voice takes its steps from a pace, which is `Oscillator.advance` wherever sound is made; nothing else about
a voice depends on the arithmetic of cycles.
-/

namespace Famicom

/-- The cycles left until the next step of a voice. -/
structure Oscillator where
  credit : Float32 := 0
  deriving Inhabited

/-- What times the steps of a voice: from its oscillator, the cycles of a sample, the period and the most steps
wanted it tells how many come due and what becomes of the oscillator. -/
abbrev Pace := Oscillator → Float32 → Nat → Option Nat → Nat × Oscillator

/-- The period that the low four bits of a register choose. -/
def periodOf (periods : Vector Nat 16) (register : UInt8) : Nat := periods[register.toNat % 16]

namespace Oscillator

/-- Pays periods into a debt until it is settled, at most `fuel` times; the number of payments and the
credit afterwards. -/
def settle (period : Float32) : Nat → Float32 → Nat × Float32
  | 0, credit => (0, credit)
  | fuel + 1, credit =>
    if credit < 0 then
      let (steps, credit) := settle period fuel (credit + period)
      (steps + 1, credit)
    else (0, credit)

/-- A bound on the payments that a debt can take. -/
def payments (credit : Float32) : Nat := 2 * (-credit).toUInt32.toNat + 2

/-- Lets one sample's cycles elapse: the number of steps that came due, at most `limit`, and the
oscillator afterwards. -/
def advance (o : Oscillator) (cycles : Float32) (period : Nat) (limit : Option Nat) :
    Nat × Oscillator :=
  let credit := o.credit - cycles
  let fuel := match limit with
    | some n => min n (payments credit)
    | none => payments credit
  let (steps, credit) := settle period.toUInt32.toFloat32 fuel credit
  (steps, ⟨credit⟩)

end Oscillator

/-- What times the voices of a chip on the cartridge; no chip has more than three that step. -/
structure ChipPaces where
  first : Pace := Oscillator.advance
  second : Pace := Oscillator.advance
  third : Pace := Oscillator.advance
  deriving Inhabited

end Famicom
