import StepScript.Assoc
import StepScript.Entity
import StepScript.Handle
import StepScript.Script.Dialect

/-!
# Codec/Binary — the bytes of saved objects

Numbers have a fixed width and stand in little-endian order; texts, lists and maps are preceded by
their length as a 64-bit number; an optional value by a byte 0 or 1. The bytes of a structure are
those of its fields, one after the other. `Binary.decode` reads from the front and gives back what
is left.
-/

namespace StepScript

/-- A string of bytes. -/
abbrev Bytes := List UInt8

/-- Types whose values have a form in bytes. -/
class Binary (α : Type) where
  encode : α → Bytes
  decode : Bytes → Option (α × Bytes)

namespace Binary

variable {α β : Type}

/-! ## Numbers -/

/-- The last `width` base-256 digits of a number, the least first. -/
def littleEndian : Nat → Nat → Bytes
  | 0, _ => []
  | width + 1, n => UInt8.ofNat n :: littleEndian width (n / 256)

/-- The number whose base-256 digits are the first `width` bytes, the least first. -/
def readLittleEndian : Nat → Bytes → Option (Nat × Bytes)
  | 0, bs => some (0, bs)
  | _ + 1, [] => none
  | width + 1, b :: bs =>
    (readLittleEndian width bs).map fun r => (b.toNat + 256 * r.1, r.2)

instance : Binary UInt32 where
  encode n := littleEndian 4 n.toNat
  decode bs := (readLittleEndian 4 bs).map fun r => (UInt32.ofNat r.1, r.2)

instance : Binary UInt64 where
  encode n := littleEndian 8 n.toNat
  decode bs := (readLittleEndian 8 bs).map fun r => (UInt64.ofNat r.1, r.2)

/-- Counts and positions are 64-bit numbers. -/
instance : Binary Nat where
  encode n := littleEndian 8 n
  decode bs := readLittleEndian 8 bs

/-! ## Flags and options -/

instance : Binary Bool where
  encode b := [if b then 1 else 0]
  decode
    | [] => none
    | b :: bs => if b = 0 then some (false, bs) else if b = 1 then some (true, bs) else none

instance [Binary α] : Binary (Option α) where
  encode
    | none => [0]
    | some a => 1 :: encode a
  decode
    | [] => none
    | b :: bs =>
      if b = 0 then some (none, bs)
      else if b = 1 then (decode bs).map fun r => (some r.1, r.2)
      else none

instance : Binary Dialect where
  encode
    | .line => encode (0 : UInt32)
    | .json => encode (1 : UInt32)
  decode bs := do
    let (tag, bs) ← decode (α := UInt32) bs
    if tag = 0 then some (.line, bs) else if tag = 1 then some (.json, bs) else none

/-! ## Texts, lists, maps -/

/-- The first `n` bytes and the rest, if there are that many. -/
def takeBytes? (n : Nat) (bs : Bytes) : Option (Bytes × Bytes) :=
  let front := bs.take n
  if front.length = n then some (front, bs.drop n) else none

/-- The UTF-8 bytes of a text. -/
def utf8 (s : String) : Bytes := s.toUTF8.data.toList

/-- The text with the given UTF-8 bytes. -/
def ofUtf8? (bs : Bytes) : Option String := String.fromUTF8? ⟨bs.toArray⟩

instance : Binary String where
  encode s := encode (utf8 s).length ++ utf8 s
  decode bs := do
    let (length, bs) ← decode (α := Nat) bs
    let (front, bs) ← takeBytes? length bs
    let s ← ofUtf8? front
    return (s, bs)

instance [Binary α] [Binary β] : Binary (α × β) where
  encode p := encode p.1 ++ encode p.2
  decode bs := do
    let (a, bs) ← decode bs
    let (b, bs) ← decode bs
    return ((a, b), bs)

/-- The values of a list, one after the other. -/
def encodeAll [Binary α] : List α → Bytes
  | [] => []
  | a :: as => encode a ++ encodeAll as

/-- A number of values, one after the other. -/
def decodeAll [Binary α] : Nat → Bytes → Option (List α × Bytes)
  | 0, bs => some ([], bs)
  | n + 1, bs => do
    let (a, bs) ← decode bs
    let (as, bs) ← decodeAll n bs
    return (a :: as, bs)

instance [Binary α] : Binary (List α) where
  encode as := encode as.length ++ encodeAll as
  decode bs := do
    let (n, bs) ← decode (α := Nat) bs
    decodeAll n bs

/-- A map is the list of its entries. In bytes their order is free, and the last entry of a key
counts. -/
instance [Binary α] : Binary (Assoc String α compare) where
  encode m := encode m.entries
  decode bs := (decode (α := List (String × α)) bs).map fun r => (Assoc.ofList r.1, r.2)

/-! ## Names -/

instance {kind : String} : Binary (Handle kind) where
  encode h := encode h.raw
  decode bs := (decode (α := UInt32) bs).map fun r => (⟨r.1⟩, r.2)

instance : Binary EntityId where
  encode e := encode e.id
  decode bs := (decode (α := UInt64) bs).map fun r => (⟨r.1⟩, r.2)

end Binary

end StepScript
