import StepScript.Act
import StepScript.Codec.Binary
import StepScript.Table

/-!
# Codec/Stream — record streams

A stream is a sequence of 32-bit words and frames. A frame is the bytes of one object after their
number; a table is the number of its objects, then a handle and a frame for each. Whatever goes
wrong while reading, the reader says what, and what is left of the stream.

* `Table.load` — all or nothing: a table that cannot be read completely is refused.
* `Table.replace`, `Vars.replace` — the same as operations: what was there before is gone either
  way.
-/

namespace StepScript

namespace Stream

variable {α : Type}

/-- The longest frame that is read. -/
def maxFrame : Nat := 64 * 1024 * 1024

/-! ## Writing -/

/-- A count as a word. -/
def writeCount (n : Nat) : Except Cause Bytes :=
  if n < UInt32.size then .ok (Binary.encode (UInt32.ofNat n)) else .error .countTooLarge

/-- **The frame of an object**: the number of its bytes, then the bytes. -/
def writeFrame [Binary α] (a : α) : Except Cause Bytes :=
  let payload := Binary.encode a
  (writeCount payload.length).map (· ++ payload)

/-! ## Reading -/

/-- A word. A stream that is too short is used up. -/
def readWord (bs : Bytes) : Except StreamFault UInt32 × Bytes :=
  match Binary.decode bs with
  | some (n, rest) => (.ok n, rest)
  | none => (.error .short, [])

/-- The object whose bytes are exactly the payload. -/
def decodePayload [Binary α] (payload : Bytes) : Except StreamFault α :=
  match Binary.decode payload with
  | some (a, []) => .ok a
  | _ => .error .undecodable

/-- **The object of a frame.** A frame that is too long is refused unread. -/
def readFrame [Binary α] (bs : Bytes) : Except StreamFault α × Bytes :=
  match readWord bs with
  | (.error fault, rest) => (.error fault, rest)
  | (.ok length, rest) =>
    if maxFrame < length.toNat then (.error (.oversized length.toNat), rest)
    else
      match Binary.takeBytes? length.toNat rest with
      | none => (.error .short, [])
      | some (payload, rest) => (decodePayload payload, rest)

end Stream

/-! ## Tables -/

namespace Table

variable {kind : String} {α : Type} [Binary α]

/-- The records of a table: a handle and a frame for each object. -/
def writeRecords : List (Handle kind × α) → Except Cause Bytes
  | [] => .ok []
  | (h, a) :: es => do
    let frame ← Stream.writeFrame a
    let rest ← writeRecords es
    return Binary.encode h ++ frame ++ rest

/-- **The stream of a table.** -/
def save (t : Table kind α) : Except Cause Bytes := do
  let count ← Stream.writeCount t.size
  let records ← writeRecords t.toList
  return count ++ records

/-- Reads `n` records, the first of which has the given index, into a map. -/
def readRecords (kind : String) {α : Type} [Binary α] :
    Nat → Nat → Assoc (Handle kind) α Handle.newestFirst → Bytes →
      Except Cause (Assoc (Handle kind) α Handle.newestFirst) × Bytes
  | 0, _, m, bs => (.ok m, bs)
  | n + 1, index, m, bs =>
    match Stream.readWord bs with
    | (.error fault, bs) => (.error (.stream fault), bs)
    | (.ok raw, bs) =>
      if raw = 0 ∨ m.contains ⟨raw⟩ then (.error (.invalidHandle kind index raw), bs)
      else
        match Stream.readFrame bs with
        | (.error fault, bs) => (.error (.badRecord kind index raw fault), bs)
        | (.ok a, bs) => readRecords kind n (index + 1) (m.insert ⟨raw⟩ a) bs

/-- A table with the given objects. The next handle is one past the largest, going round. -/
def ofObjects (m : Assoc (Handle kind) α Handle.newestFirst) : Table kind α :=
  { next := match m.keys with
      | [] => ⟨1⟩
      | newest :: _ => newest.next
    objects := m }

/-- **Reads a table from a stream.** -/
def load (kind : String) {α : Type} [Binary α] (bs : Bytes) : Except Cause (Table kind α) × Bytes :=
  match Stream.readWord bs with
  | (.error fault, bs) => (.error (.stream fault), bs)
  | (.ok count, bs) =>
    match readRecords kind count.toNat 0 ∅ bs with
    | (.error cause, bs) => (.error cause, bs)
    | (.ok m, bs) => (.ok (ofObjects m), bs)

/-- **Replaces a table by one read from a stream**, and gives the number of its objects with the
rest of the stream. A table that cannot be read is replaced by the empty one. -/
def replace (bs : Bytes) : Act (Table kind α) (Except Failure Nat × Bytes) := do
  match (load kind bs : Except Cause (Table kind α) × Bytes) with
  | (.ok t, rest) =>
    set t
    return (.ok t.size, rest)
  | (.error cause, rest) =>
    Act.report (.tableRejected kind cause.failure)
    set (∅ : Table kind α)
    return (.error cause.failure, rest)

end Table

/-! ## Variables -/

/-- Variables by name. -/
abbrev Vars := Assoc String String compare

namespace Vars

/-- The records of variables: a frame for each name and each value. -/
def writeRecords : List (String × String) → Except Cause Bytes
  | [] => .ok []
  | (name, value) :: es => do
    let name ← Stream.writeFrame name
    let value ← Stream.writeFrame value
    let rest ← writeRecords es
    return name ++ value ++ rest

/-- **The stream of variables.** -/
def save (vars : Vars) : Except Cause Bytes := do
  let count ← Stream.writeCount vars.size
  let records ← writeRecords vars.entries
  return count ++ records

/-- Reads `n` names with their values into a map. -/
def readRecords : Nat → Vars → Bytes → Except Cause Vars × Bytes
  | 0, m, bs => (.ok m, bs)
  | n + 1, m, bs =>
    match Stream.readFrame bs with
    | (.error fault, bs) => (.error (.stream fault), bs)
    | (.ok name, bs) =>
      match Stream.readFrame bs with
      | (.error fault, bs) => (.error (.stream fault), bs)
      | (.ok value, bs) => readRecords n (m.insert name value) bs

/-- **Reads variables from a stream.** A repeated name keeps its last value. -/
def load (bs : Bytes) : Except Cause Vars × Bytes :=
  match Stream.readWord bs with
  | (.error fault, bs) => (.error (.stream fault), bs)
  | (.ok count, bs) => readRecords count.toNat ∅ bs

/-- **Replaces variables by those read from a stream**, and gives their number with the rest of the
stream. Variables that cannot be read are replaced by none. -/
def replace (bs : Bytes) : Act Vars (Except Failure Nat × Bytes) := do
  match load bs with
  | (.ok vars, rest) =>
    set vars
    return (.ok vars.size, rest)
  | (.error cause, rest) =>
    set (∅ : Vars)
    return (.error cause.failure, rest)

end Vars

/-! ## Bounded output -/

/-- An output with room for a number of bytes. -/
structure Sink where
  room : Nat
  written : Bytes := []

/-- Writes bytes to an output. If they do not fit, the output takes those that do. -/
def Sink.write (s : Sink) (bs : Bytes) : Except Cause Unit × Sink :=
  let fits := bs.take s.room
  (if bs.length ≤ s.room then .ok () else .error .outputFull,
    { room := s.room - bs.length, written := s.written ++ fits })

end StepScript
