/-!
The frame interrupt: a timer that runs out sixty times a second and then, unless its control byte masks it,
asks for an interrupt and remembers that it did.
-/

namespace Famicom

/-- The timer of the frame interrupt. -/
structure FrameTimer where
  control : UInt8 := 0
  /-- Processor cycles until the timer runs out. -/
  left : Int := 29829
  /-- An interrupt was asked for and not yet acknowledged. -/
  raised : Bool := false
  deriving DecidableEq, Repr, Inhabited

namespace FrameTimer

/-- Processor cycles between two expiries: a sixtieth of a second, rounded down. -/
def period : Int := 29829

/-- Starts a new period. -/
def restart (t : FrameTimer) : FrameTimer := { t with left := period }

/-- Writes the control byte, which starts a new period. -/
def write (t : FrameTimer) (value : UInt8) : FrameTimer := { t with control := value }.restart

/-- The control byte's two top bits mask the interrupt. -/
def masked (t : FrameTimer) : Bool := t.control &&& 0xC0 != 0

/-- Lets cycles elapse; whether the timer ran out and asks for an interrupt. What is overdue is taken from
the next period. -/
def elapse (t : FrameTimer) (cycles : Int) : Bool × FrameTimer :=
  let left := t.left - cycles
  if left > 0 then (false, { t with left })
  else if t.masked then (false, { t with left := left + period })
  else (true, { t with left := left + period, raised := true })

/-- Reads and acknowledges the interrupt, on bit 6. -/
def read (t : FrameTimer) : UInt8 × FrameTimer :=
  (if t.raised then 0x40 else 0, { t with raised := false })

end FrameTimer

end Famicom
