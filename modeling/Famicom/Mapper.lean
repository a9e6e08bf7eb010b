/-!
Mapper numbers: the header's name for a cartridge board. A number outside this table cannot be played.
-/

namespace Famicom.Mapper

/-- Supported mapper numbers with the names of their boards, in ascending order. -/
def table : List (UInt8 × String) := [
  (0, "None"), (1, "MMC1"), (2, "UNROM"), (3, "CNROM"), (4, "MMC3"), (5, "MMC5"), (7, "AOROM"),
  (8, "Front Far East"), (9, "MMC2"), (11, "Color Dreams"), (15, "Contra 100-in-1"), (16, "Bandai"),
  (18, "Jaleco SS8806"), (19, "Namco 129/163"), (21, "Konami VRC4 A"), (22, "Konami VRC2 A"),
  (23, "Konami VRC2 B"), (24, "Konami VRC6"), (25, "Konami VRC4 B"), (32, "Irem G-101"),
  (33, "Taito TC0190"), (34, "Nina-1"), (40, "SMB 2j (pirate)"), (41, "Caltron 6 in 1"),
  (42, "Baby Mario (bootleg)"), (46, "Pelican Game Station"), (50, "SMB2j (3rd discovered variant)"),
  (64, "Tengen RAMBO-1"), (65, "Irem H-3001"), (66, "GNROM"), (70, "Mapper 70"), (73, "Konami VRC3"),
  (75, "Konami VRC1"), (78, "Mapper 78"), (79, "NINA-03/06"), (85, "Konami VRC7"),
  (87, "16K VROM switch"), (93, "Mapper 93"), (94, "Mapper 94"), (99, "VS. System"),
  (160, "Aladdin (pirate)"), (229, "31 in 1 (bootleg)"), (231, "NINA-07")]

/-- The supported mapper numbers. -/
def supported : List UInt8 := table.map (·.1)

/-- Whether a board exists for the number. -/
def isSupported (number : UInt8) : Bool := supported.contains number

/-- The board's name. -/
def name (number : UInt8) : String := (table.lookup number).getD "Unsupported"

/-- What is said about a number without a board. -/
def rejection (number : UInt8) : String := s!"mapper {number.toNat} not yet implemented"

end Famicom.Mapper
