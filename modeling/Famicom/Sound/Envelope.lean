/-!
Slow movements of a voice, clocked once a sample: the volume envelope and the fading of its output.

An envelope counts a phase down and, as long as it has run out, adds its delay back and moves one level on.
The delay is latched when the control register is written; a later change of the rates does not reach it.
A held note runs through the sixteen levels for ever, any other stops at the last. The louder end is level 0.

    level    0   1   2  …  15          15   15  …     (or 0 1 2 … again when held)
    volume  15  14  13  …   0           0    0
-/

namespace Famicom

/-- A loop: what it does as long as it is going. -/
structure Loop (α : Type) where
  going : α → Bool
  step : α → α

/-- Runs a loop to its end. `none` is a loop that never ends. -/
def Loop.run {α : Type} (l : Loop α) (a : α) : Option α :=
  if l.going a then l |>.run (l.step a) else some a
partial_fixpoint

/-- The level an envelope starts from. -/
def loudest : Fin 16 := ⟨0, Nat.zero_lt_succ 15⟩

/-- The volume envelope of a voice. -/
structure Envelope where
  phase : Int := 0
  /-- What a lap gives back to the phase; 0 until the control register is written. -/
  delay : Int := 0
  level : Fin 16 := loudest
  deriving DecidableEq, Repr, Inhabited

namespace Envelope

/-- One lap: the phase gets its delay back, and the level moves on. -/
def lap (e : Envelope) (hold : Bool) : Envelope :=
  { e with
    phase := e.phase + e.delay
    level := if hold || e.level.val < 15 then e.level + 1 else e.level }

/-- The laps that are due: one after the other as long as the phase is negative. -/
def laps (e : Envelope) (hold : Bool) : Option Envelope := Loop.run ⟨(·.phase < 0), (·.lap hold)⟩ e

/-- The phase falls by four. -/
def fall (e : Envelope) : Envelope := { e with phase := e.phase - 4 }

/-- One sample: the phase falls, and laps follow. Where they never end the console hangs in them; here the phase
then stays negative. -/
def advance (e : Envelope) (hold : Bool) : Envelope := (e.fall.laps hold).getD e.fall

/-- Starts over at the loud end. -/
def restart (e : Envelope) : Envelope := { e with level := loudest }

end Envelope

/-! ### The control register of a voice

    bit  7 6    5      4        3 2 1 0
         duty   hold   fixed    volume or delay -/

/-- The note is held: its length does not count and its envelope repeats. -/
def isHeld (control : UInt8) : Bool := control &&& 0x20 != 0

/-- The four low bits are the volume itself, not an envelope's delay. -/
def isFixed (control : UInt8) : Bool := control &&& 0x10 != 0

/-- The envelope's delay code, or the fixed volume. -/
def volumeCode (control : UInt8) : Nat := control.toNat % 16

/-- The amplitude that a control register and an envelope give. -/
def amplitude (control : UInt8) (e : Envelope) : Int :=
  if isFixed control then volumeCode control * 256 else (15 - e.level.val : Nat) * 256

/-- The output of a voice fades by a part in 128 each sample. -/
def fade (level : Int) : Int := level - level / 128

/-- A counter of samples that runs unless the note is held. -/
def countDown (held : Bool) (length : Int) : Int := if held then length else length - 1

end Famicom
