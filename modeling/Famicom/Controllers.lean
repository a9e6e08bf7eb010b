/-!
The controller sockets. Seven devices can hang on them; each has a word of state that the player changes and
a byte that it shows on the bus.

    pads          one button per read, low bit first, on D0 below an open D6
    zapper        its state as it is
    power pad     two buttons per read: the low byte's on D3, the high byte's on D4
    paddle        one bit of the position per read, high bit first, on D1
    switches      their state as it is

How far a serial device has come is counted in reads; writing 1 and then 0 to the strobe rewinds all of them.
-/

namespace Famicom

/-- A device in a controller socket. -/
inductive Device where
  | pad1 | pad2 | zapper | powerPad | paddle | switches1 | switches2
  deriving DecidableEq, Repr, Inhabited

namespace Device

/-- All devices, in the order of their bits. -/
def all : List Device := [.pad1, .pad2, .zapper, .powerPad, .paddle, .switches1, .switches2]

/-- The position of a device among all. -/
def index : Device → Fin 7
  | .pad1 => 0
  | .pad2 => 1
  | .zapper => 2
  | .powerPad => 3
  | .paddle => 4
  | .switches1 => 5
  | .switches2 => 6

/-- The device's bit in a set of devices. -/
def mask (d : Device) : UInt8 := 1 <<< UInt8.ofNat d.index.val

/-- The device that a set of exactly one names. -/
def ofMask? (mask : UInt8) : Option Device := all.find? (·.mask == mask)

end Device

/-- The sockets with what hangs on them. -/
structure Controllers where
  connected : UInt8 := 0
  /-- What the player does with each device. -/
  states : Vector UInt16 7 := Vector.replicate 7 0
  /-- Reads of each device since the last rewind, as far as they can be counted. -/
  reads : Vector UInt32 7 := Vector.replicate 7 0
  /-- The last byte written to the strobe. -/
  latch : UInt8 := 0
  deriving Inhabited

namespace Controllers

/-- The bits of all devices. -/
def allDevices : UInt8 := 0x7F

/-- Sockets with the given devices connected. -/
def ofDevices (devices : UInt8) : Controllers := { connected := devices &&& allDevices }

/-- The two pads that a console comes with. -/
def standard : Controllers := ofDevices (Device.pad1.mask ||| Device.pad2.mask)

/-! ### The player's side -/

/-- Connects devices. -/
def connect (c : Controllers) (devices : UInt8) : Controllers :=
  { c with connected := c.connected ||| (devices &&& allDevices) }

/-- Disconnects devices, which forget their state. -/
def disconnect (c : Controllers) (devices : UInt8) : Controllers :=
  { c with
    connected := c.connected &&& ~~~ devices
    states := Device.all.foldl (fun states d =>
      if devices &&& d.mask != 0 then states.set d.index 0 else states) c.states }

/-- The state of a device, connected or not. -/
def stateOf (c : Controllers) (d : Device) : UInt16 := c.states[d.index]

/-- The state of the one device that a set names; 0 if it does not name one. -/
def state (c : Controllers) (device : UInt8) : UInt16 :=
  match Device.ofMask? device with
  | some d => c.stateOf d
  | none => 0

/-- Changes the state of the one device that a set names. -/
def update (c : Controllers) (device : UInt8) (f : UInt16 → UInt16) : Controllers :=
  match Device.ofMask? device with
  | some d => { c with states := c.states.set d.index (f (c.stateOf d)) }
  | none => c

/-- Replaces a device's state. -/
def set (c : Controllers) (device : UInt8) (value : UInt16) : Controllers :=
  c.update device fun _ => value

/-- Presses buttons of a device. -/
def press (c : Controllers) (device : UInt8) (buttons : UInt16) : Controllers :=
  c.update device (· ||| buttons)

/-- Lets go of buttons of a device. -/
def letGo (c : Controllers) (device : UInt8) (buttons : UInt16) : Controllers :=
  c.update device (· &&& ~~~ buttons)

/-! ### The console's side -/

/-- Rewinds all serial devices. -/
def rewind (c : Controllers) : Controllers := { c with reads := Vector.replicate 7 0 }

/-- A write to the strobe: its low bit falling rewinds the serial devices. -/
def writeStrobe (c : Controllers) (value : UInt8) : Controllers :=
  let falls := c.latch &&& 1 != 0 && value &&& 1 == 0
  { (if falls then c.rewind else c) with latch := value }

/-- The state of a device as the console sees it: nothing, unless it is connected. -/
def seen (c : Controllers) (d : Device) : UInt16 :=
  if c.connected &&& d.mask = 0 then 0 else c.stateOf d

/-- Buttons of a pad: opposite directions pressed together cancel. -/
def cancelOpposites (buttons : UInt8) : UInt8 :=
  let buttons := if buttons &&& 0x30 = 0x30 then buttons &&& 0xCF else buttons
  if buttons &&& 0xC0 = 0xC0 then buttons &&& 0x3F else buttons

/-- What a device with a state shows on the bus after so many reads. -/
def shows (d : Device) (state : UInt16) (reads : Nat) : UInt8 :=
  match d with
  | .pad1 | .pad2 =>
    0x40 ||| (if (cancelOpposites state.toUInt8).toNat.testBit reads then 1 else 0)
  | .zapper | .switches1 | .switches2 => state.toUInt8
  | .powerPad =>
    (if (state >>> 8).toNat.testBit reads then 0x10 else 0) |||
      (if (state &&& 0xFF).toNat.testBit reads then 0x08 else 0)
  | .paddle => if reads ≤ 7 && state.toUInt8.toNat.testBit (7 - reads) then 0x02 else 0

/-- One more read. The counter stays at its end. -/
def countRead (reads : UInt32) : UInt32 := if reads = 0xFFFFFFFF then reads else reads + 1

/-- Reads one device. -/
def readDevice (c : Controllers) (d : Device) : UInt8 × Controllers :=
  (shows d (c.seen d) c.reads[d.index].toNat,
    { c with reads := c.reads.set d.index (countRead c.reads[d.index]) })

/-- Reads a set of devices at once: their bytes lie on the same lines. -/
def read (c : Controllers) (devices : UInt8) : UInt8 × Controllers :=
  Device.all.foldl (fun (value, c) d =>
    if devices &&& d.mask = 0 then (value, c)
    else
      let (shown, c) := c.readDevice d
      (value ||| shown, c)) (0, c)

end Controllers

end Famicom
