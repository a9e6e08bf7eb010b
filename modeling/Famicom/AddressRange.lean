/-!
Ranges of CPU addresses, by which the bus decides who answers an access.
-/

namespace Famicom

/-- CPU addresses from the first to the second, both included. -/
abbrev AddressRange := UInt16 × UInt16

/-- Whether an address lies in one of the ranges. -/
def covered (ranges : List AddressRange) (address : UInt16) : Bool :=
  ranges.any fun (lo, hi) => lo ≤ address && address ≤ hi

end Famicom
