import Famicom.Text.Utf8

/-!
The container of snapshots: a magic word and a number of blocks, then the blocks one after the other, each
with a tag, a version, its length and its body. All numbers are big-endian words of 32 bits.

    S N S S │ count │ tag │ version │ length │ body … │ tag │ …

Bytes after the last block are ignored, and so is the version.
-/

namespace Famicom

/-- The four bytes that name a block. -/
abbrev Tag := Vector UInt8 4

/-- A tag as text. -/
def Tag.name (tag : Tag) : String := Utf8.toString tag.toList

/-- A block of a snapshot. -/
structure Block where
  tag : Tag
  body : List UInt8
  deriving DecidableEq, Inhabited

/-- Why bytes are not taken for a snapshot. -/
inductive SnapshotError where
  | noCartridge
  | notASnapshot
  | headerCut (index : Nat)
  | bodyCut (tag : Tag)
  deriving DecidableEq, Inhabited

/-- The wording of an error. -/
def SnapshotError.message : SnapshotError → String
  | .noCartridge => "no cartridge inserted"
  | .notASnapshot => "not an SNSS save state"
  | .headerCut index => s!"save state truncated in block {index} header"
  | .bodyCut tag => s!"save state truncated in {tag.name} block"

namespace Block

/-- The bytes every snapshot starts with. -/
def magic : List UInt8 := [0x53, 0x4E, 0x53, 0x53]

/-- The version that blocks are written with. -/
def version : Nat := 1

/-- Bytes in front of a block's body. -/
def headerSize : Nat := 12

/-- A number as a big-endian word; higher bits are lost. -/
def word (n : Nat) : List UInt8 :=
  [UInt8.ofNat (n / 0x1000000), UInt8.ofNat (n / 0x10000), UInt8.ofNat (n / 0x100), UInt8.ofNat n]

/-- The number that big-endian digits stand for. -/
def number (digits : List UInt8) : Nat := digits.foldl (fun n b => n * 256 + b.toNat) 0

/-- A block's bytes. -/
def encode (b : Block) : List UInt8 :=
  b.tag.toList ++ word version ++ word b.body.length ++ b.body

/-- Blocks as a snapshot. -/
def encodeAll (blocks : List Block) : List UInt8 :=
  magic ++ word blocks.length ++ blocks.flatMap encode

/-- Cuts bytes in two after exactly `count` of them. -/
def cut (count : Nat) (bytes : List UInt8) : Option (List UInt8 × List UInt8) :=
  let front := bytes.take count
  if front.length = count then some (front, bytes.drop count) else none

/-- A tag from the first four bytes of a header. -/
def tagOf (header : List UInt8) : Tag := Vector.ofFn fun i => header.getD i.val 0

/-- Reads `count` blocks, the first of which has number `index`. -/
def decodeFrom (index : Nat) : Nat → List UInt8 → Except SnapshotError (List Block)
  | 0, _ => .ok []
  | count + 1, bytes =>
    match cut headerSize bytes with
    | none => .error (.headerCut index)
    | some (header, bytes) =>
      let tag := tagOf header
      match cut (number (header.drop 8)) bytes with
      | none => .error (.bodyCut tag)
      | some (body, bytes) => do
        let blocks ← decodeFrom (index + 1) count bytes
        return ⟨tag, body⟩ :: blocks

/-- The blocks of a snapshot. -/
def decodeAll (bytes : List UInt8) : Except SnapshotError (List Block) :=
  match cut 8 bytes with
  | none => .error .notASnapshot
  | some (front, rest) =>
    if front.take 4 = magic then decodeFrom 0 (number (front.drop 4)) rest
    else .error .notASnapshot

end Block

end Famicom
