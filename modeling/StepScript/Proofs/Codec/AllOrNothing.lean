import Mathlib.Data.List.Dedup
import StepScript.Proofs.Codec.Exact
import StepScript.Proofs.Table.Names

/-!
# Proofs/Codec/AllOrNothing — loading a table, or variables

A stream holds a table exactly if it starts with the number of its records and then the records:
handles that are not zero and all different, each with a frame that is not too long and means an
object (`Table.Recorded`). Nothing else is accepted, and nothing of a stream that is refused stays
behind. The same goes for variables, where a name may be repeated (`Vars.Recorded`).

* `Table.readRecords_eq_ok`, `Vars.readRecords_eq_ok` — what a run of records puts into a map.
* `loads_whole` — a load succeeds exactly on such a stream, uses up exactly its bytes and leaves
  exactly what they say; any other load leaves nothing.
-/

namespace StepScript

open Binary

/-! ## Words and frames -/

namespace Stream

variable {α : Type} [Binary α]

/-- A word is read exactly if the stream starts with its four bytes. -/
theorem readWord_eq_ok {n : UInt32} {bs rest : Bytes} :
    readWord bs = (.ok n, rest) ↔ bs = encode n ++ rest := by
  have hexact : decode bs = some (n, rest) ↔ True ∧ bs = encode n ++ rest := Exact.decode_eq_some
  rw [true_and] at hexact
  rw [← hexact]
  unfold readWord
  split <;> simp_all

/-- **A frame as it stands in a stream**: bytes that are not too many, and the value they mean. -/
structure Framed (α : Type) [Binary α] where
  payload : Bytes
  value : α
  short : payload.length ≤ maxFrame
  means : decodePayload payload = .ok value

/-- The bytes of a frame: their number, then the payload. -/
def Framed.bytes (f : Framed α) : Bytes := encode (UInt32.ofNat f.payload.length) ++ f.payload

/-- The length that a frame announces is the length of its payload: a frame is too short for the
announced number to wrap around. -/
theorem Framed.toNat_length (f : Framed α) :
    (UInt32.ofNat f.payload.length).toNat = f.payload.length :=
  UInt32.toNat_ofNat_of_lt' (Nat.lt_of_le_of_lt f.short (by decide))

/-- The frame of a text that is not too long. -/
def Framed.text (s : String) (hshort : (encode s).length ≤ maxFrame) : Framed String where
  payload := encode s
  value := s
  short := hshort
  means := by
    have hlength := length_encode_string s
    have hsize : maxFrame < UInt64.size := by decide
    have hread := readsBack_string (s := s) (by omega) []
    rw [List.append_nil] at hread
    exact decodePayload_eq_ok.2 hread

/-- **A value is read exactly where its frame stands**, and exactly the frame is used up. -/
theorem readFrame_iff_framed {a : α} {bs left : Bytes} :
    readFrame bs = (.ok a, left) ↔ ∃ f : Framed α, f.value = a ∧ bs = f.bytes ++ left := by
  rw [readFrame_eq_ok]
  constructor
  · rintro ⟨length, rest, payload, hword, hle, htake, hpayload⟩
    obtain ⟨hlength, rfl⟩ := takeBytes?_eq_some.1 htake
    refine ⟨⟨payload, a, hlength ▸ hle, decodePayload_eq_ok.2 hpayload⟩, rfl, ?_⟩
    change bs = encode (UInt32.ofNat payload.length) ++ payload ++ left
    rw [readWord_eq_ok.1 hword, hlength, UInt32.ofNat_toNat, List.append_assoc]
  · rintro ⟨f, rfl, rfl⟩
    refine ⟨UInt32.ofNat f.payload.length, f.payload ++ left, f.payload, ?_, ?_, ?_,
      decodePayload_eq_ok.1 f.means⟩
    · rw [Framed.bytes, List.append_assoc, readWord_eq_ok]
    · rw [f.toNat_length]
      exact f.short
    · rw [f.toNat_length, takeBytes?_append]

end Stream

/-! ## Maps that are filled one by one -/

namespace Assoc

variable {κ α : Type} [DecidableEq κ] {cmp : κ → κ → Ordering} [Std.TransCmp cmp]
  [Std.LawfulEqCmp cmp]

/-- A key is missing after an insertion if it was missing before and is not the new one. -/
theorem contains_insert_eq_false {m : Assoc κ α cmp} {k k' : κ} {v : α} :
    (m.insert k v).contains k' = false ↔ k' ≠ k ∧ m.contains k' = false := by
  rw [contains, find?_insert]
  by_cases hk : k' = k <;> simp [contains, hk]

omit [Std.TransCmp cmp] [Std.LawfulEqCmp cmp] in
theorem exists_lookup_iff {es : List (κ × α)} {k : κ} :
    (∃ v, lookup k es = some v) ↔ k ∈ es.map Prod.fst := by
  induction es with
  | nil => simp [lookup]
  | cons e es ih =>
    rw [List.map_cons, List.mem_cons, ← ih]
    by_cases hk : k = e.1 <;> simp [lookup, hk]

/-- The keys of a map are those that have a value. -/
theorem mem_keys_iff {m : Assoc κ α cmp} {k : κ} : k ∈ m.keys ↔ ∃ v, m.find? k = some v := by
  simp only [find?_eq_lookup]
  exact exists_lookup_iff.symm

/-- **A map of entries has as many of them as there are different keys.** -/
theorem size_ofList (es : List (κ × α)) :
    (ofList es : Assoc κ α cmp).size = (es.map Prod.fst).dedup.length := by
  have hkeys : (ofList es : Assoc κ α cmp).keys.Perm (es.map Prod.fst).dedup := by
    refine (List.perm_ext_iff_of_nodup (nodup_keys _) (List.nodup_dedup _)).2 fun k => ?_
    rw [List.mem_dedup, mem_keys_iff, find?_ofList, exists_lookup_iff, List.map_reverse,
      List.mem_reverse]
  rw [← hkeys.length_eq, keys, List.length_map, size]

end Assoc

/-! ## Tables -/

namespace Table

variable {kind : String} {α : Type} [Binary α]

/-- **A record as it stands in a stream**: a handle that is not zero, and a frame. -/
structure Record (kind : String) (α : Type) [Binary α] where
  handle : Handle kind
  frame : Stream.Framed α
  valid : handle.isValid = true

/-- The bytes of a record. -/
def Record.bytes (r : Record kind α) : Bytes := encode r.handle ++ r.frame.bytes

/-- A record as an entry of a table. -/
def Record.entry (r : Record kind α) : Handle kind × α := (r.handle, r.frame.value)

/-- **A table as it stands in a stream**: records of different handles. -/
structure Recorded (kind : String) (α : Type) [Binary α] where
  records : List (Record kind α)
  distinct : records.Pairwise fun r s => r.handle ≠ s.handle

/-- The bytes of the records of a table after their number. -/
def Recorded.bytes (e : Recorded kind α) : Bytes :=
  encode (UInt32.ofNat e.records.length) ++ e.records.flatMap Record.bytes

/-- **How records are read**: one by one, each under a new handle. -/
theorem readRecords_eq_ok {n index : Nat} {m m' : Assoc (Handle kind) α Handle.newestFirst}
    {bs left : Bytes} : readRecords kind n index m bs = (.ok m', left) ↔
      ∃ rs : List (Record kind α), rs.length = n ∧ (rs.Pairwise fun r s => r.handle ≠ s.handle) ∧
        (∀ r ∈ rs, m.contains r.handle = false) ∧ bs = rs.flatMap Record.bytes ++ left ∧
        (rs.map Record.entry).foldl (fun m e => m.insert e.1 e.2) m = m' := by
  induction n generalizing index m bs with
  | zero =>
    constructor
    · intro h
      cases h
      exact ⟨[], rfl, .nil, List.forall_mem_nil _, rfl, rfl⟩
    · rintro ⟨rs, hrs, -, -, rfl, rfl⟩
      obtain rfl := List.eq_nil_of_length_eq_zero hrs
      rfl
  | succ n ih =>
    rw [readRecords_succ_eq_ok]
    constructor
    · rintro ⟨raw, rest, a, rest', hword, hfresh, hframe, hread⟩
      obtain ⟨frame, rfl, rfl⟩ := Stream.readFrame_iff_framed.1 hframe
      obtain ⟨rs, rfl, hdistinct, hnew, rfl, rfl⟩ := ih.1 hread
      obtain ⟨hzero, hfresh⟩ := not_or.1 hfresh
      refine ⟨⟨⟨raw⟩, frame, by simpa [Handle.isValid] using hzero⟩ :: rs, rfl,
        List.pairwise_cons.2 ⟨fun r hr => ?_, hdistinct⟩,
        List.forall_mem_cons.2 ⟨?_, fun r hr => ?_⟩, ?_,
        rfl⟩
      · exact (Assoc.contains_insert_eq_false.1 (hnew r hr)).1.symm
      · exact Bool.eq_false_iff.2 hfresh
      · exact (Assoc.contains_insert_eq_false.1 (hnew r hr)).2
      · rw [Stream.readWord_eq_ok.1 hword, List.flatMap_cons, Record.bytes]
        simp only [List.append_assoc]
        rfl
    · rintro ⟨rs, hrs, hdistinct, hnew, rfl, rfl⟩
      obtain ⟨r, rs, rfl⟩ := List.exists_cons_of_length_eq_add_one hrs
      obtain ⟨hothers, hdistinct⟩ := List.pairwise_cons.1 hdistinct
      obtain ⟨hfresh, hnew⟩ := List.forall_mem_cons.1 hnew
      have hzero : r.handle.raw ≠ 0 := by simpa [Handle.isValid] using r.valid
      refine ⟨r.handle.raw, r.frame.bytes ++ (rs.flatMap Record.bytes ++ left), r.frame.value,
        rs.flatMap Record.bytes ++ left, Stream.readWord_eq_ok.2 ?_, by simp [hzero, hfresh],
        Stream.readFrame_iff_framed.2 ⟨r.frame, rfl, rfl⟩,
        ih.2 ⟨rs, Nat.succ.inj hrs, hdistinct, fun s hs => ?_, rfl, rfl⟩⟩
      · rw [List.flatMap_cons, Record.bytes]
        simp only [List.append_assoc]
        rfl
      · exact Assoc.contains_insert_eq_false.2 ⟨(hothers s hs).symm, hnew s hs⟩

namespace Recorded

/-- The table that the records make. -/
def table (e : Recorded kind α) : Table kind α :=
  ofObjects (Assoc.ofList (e.records.map Record.entry))

/-- No handle is on record twice. -/
theorem nodup_handles (e : Recorded kind α) :
    ((e.records.map Record.entry).map Prod.fst).Nodup := by
  rw [List.map_map, List.nodup_iff_pairwise_ne, List.pairwise_map]
  exact e.distinct

/-- **The table holds exactly the records.** -/
theorem get?_table {e : Recorded kind α} {h : Handle kind} {a : α} :
    e.table.get? h = some a ↔ ∃ r ∈ e.records, r.handle = h ∧ r.frame.value = a := by
  have hdistinct : ((e.records.map Record.entry).reverse.map Prod.fst).Nodup := by
    rw [List.map_reverse, List.nodup_reverse]
    exact e.nodup_handles
  rw [table, get?, ofObjects, Assoc.find?_ofList, Assoc.lookup_eq_some_iff hdistinct,
    List.mem_reverse, List.mem_map]
  simp only [Record.entry, Prod.mk.injEq]

/-- The table of the records is proper: its next handle is valid, and so are those in use. -/
theorem proper_table (e : Recorded kind α) : e.table.Proper where
  next := isValid_next_ofObjects _
  live h a ha := by
    obtain ⟨r, -, rfl, -⟩ := get?_table.1 ha
    exact r.valid

/-- There are as many objects as records. -/
theorem size_table (e : Recorded kind α) : e.table.size = e.records.length := by
  rw [table, size, ofObjects, Assoc.size_ofList, e.nodup_handles.dedup, List.length_map,
    List.length_map]

end Recorded

/-- **A table is read exactly where its records stand**, and exactly they are used up. -/
theorem load_eq_ok_iff_recorded {t : Table kind α} {bs left : Bytes} :
    load kind bs = (.ok t, left) ↔ ∃ e : Recorded kind α, e.table = t ∧ bs = e.bytes ++ left := by
  rw [load_eq_ok]
  constructor
  · rintro ⟨count, rest, m, hword, hread, rfl⟩
    obtain ⟨rs, hrs, hdistinct, -, rfl, rfl⟩ := readRecords_eq_ok.1 hread
    refine ⟨⟨rs, hdistinct⟩, rfl, ?_⟩
    rw [Stream.readWord_eq_ok.1 hword, Recorded.bytes, hrs, UInt32.ofNat_toNat, List.append_assoc]
  · rintro ⟨e, rfl, rfl⟩
    have hcount := UInt32.toNat_ofNat_of_lt' (e.size_table ▸ size_lt e.proper_table)
    refine ⟨UInt32.ofNat e.records.length, e.records.flatMap Record.bytes ++ left, _,
      Stream.readWord_eq_ok.2 (List.append_assoc _ _ _),
      readRecords_eq_ok.2 ⟨e.records, hcount.symm, e.distinct, fun _ _ => rfl, rfl, rfl⟩, rfl⟩

/-- **Loading a table is all or nothing**, whatever the table held before. -/
structure LoadsWhole (t : Table kind α) (bs : Bytes) : Prop where
  /-- A load succeeds with `n` exactly if the stream starts with `n` records; what follows them is
  left. -/
  accepted : ∀ n left, ((replace bs).run t).value = (.ok n, left) ↔
    ∃ e : Recorded kind α, e.records.length = n ∧ bs = e.bytes ++ left
  /-- The table is then exactly the map of the records. -/
  loaded : ∀ (e : Recorded kind α) left, bs = e.bytes ++ left → ∀ h a,
    ((replace bs).run t).state.get? h = some a ↔ ∃ r ∈ e.records, r.handle = h ∧ r.frame.value = a
  /-- Else the table is empty, and gives out handles from one on. -/
  refused : ∀ failure left, ((replace bs).run t).value = (.error failure, left) →
    (∀ h, ((replace bs).run t).state.get? h = none) ∧
      ∀ a, (((replace bs).run t).state.create a).1 = ⟨1⟩

/-- A load that succeeds leaves the table that was read. -/
theorem replace_of_load {t s : Table kind α} {bs left : Bytes}
    (hload : load kind bs = (.ok s, left)) :
    ((replace bs).run t).value = (.ok s.size, left) ∧ ((replace bs).run t).state = s := by
  rw [replace, hload]
  exact ⟨rfl, rfl⟩

/-- **Tables are loaded whole or not at all.** -/
theorem loadsWhole (t : Table kind α) (bs : Bytes) : t.LoadsWhole bs where
  accepted n left := by
    constructor
    · intro hvalue
      rcases replace_cases bs t with ⟨s, rest, hload, -, hread⟩ | ⟨-, failure, rest, hfailed⟩
      · cases hread.symm.trans hvalue
        obtain ⟨e, rfl, hbs⟩ := load_eq_ok_iff_recorded.1 hload
        exact ⟨e, e.size_table.symm, hbs⟩
      · cases hfailed.symm.trans hvalue
    · rintro ⟨e, rfl, hbs⟩
      rw [(replace_of_load (load_eq_ok_iff_recorded.2 ⟨e, rfl, hbs⟩)).1, e.size_table]
  loaded e left hbs h a := by
    rw [(replace_of_load (load_eq_ok_iff_recorded.2 ⟨e, rfl, hbs⟩)).2]
    exact Recorded.get?_table
  refused failure left hvalue := by
    rcases replace_cases bs t with ⟨s, rest, -, -, hread⟩ | ⟨hstate, -⟩
    · cases hread.symm.trans hvalue
    · rw [hstate]
      exact ⟨fun _ => rfl, fun _ => rfl⟩

end Table

/-! ## Variables -/

namespace Vars

/-- **A variable as it stands in a stream**: the frames of its name and of its value. -/
structure Record where
  name : Stream.Framed String
  value : Stream.Framed String

/-- The bytes of a variable. -/
def Record.bytes (r : Record) : Bytes := r.name.bytes ++ r.value.bytes

/-- A variable as an entry. -/
def Record.entry (r : Record) : String × String := (r.name.value, r.value.value)

/-- **Variables as they stand in a stream**; a name may be repeated. -/
structure Recorded where
  records : List Record
  countable : records.length < UInt32.size

namespace Recorded

/-- The bytes of the variables after the number of their records. -/
def bytes (e : Recorded) : Bytes :=
  encode (UInt32.ofNat e.records.length) ++ e.records.flatMap Record.bytes

/-- The names, as often as they stand there. -/
def names (e : Recorded) : List String := e.records.map fun r => r.name.value

/-- The last value of a name. -/
def last? (e : Recorded) (name : String) : Option String :=
  (e.records.reverse.find? fun r => r.name.value = name).map fun r => r.value.value

/-- The variables that the records make. -/
def vars (e : Recorded) : Vars := Assoc.ofList (e.records.map Record.entry)

/-- **A repeated name keeps its last value.** -/
theorem find?_vars (e : Recorded) (name : String) : e.vars.find? name = e.last? name := by
  rw [vars, Assoc.find?_ofList, last?, ← List.map_reverse]
  induction e.records.reverse with
  | nil => rfl
  | cons r rs ih =>
    by_cases hname : name = r.name.value
    · simp [Assoc.lookup, Record.entry, hname]
    · have hname' : r.name.value ≠ name := fun heq => hname heq.symm
      simpa [Assoc.lookup, Record.entry, hname, hname'] using ih

/-- There are as many variables as different names. -/
theorem size_vars (e : Recorded) : e.vars.size = e.names.dedup.length := by
  rw [vars, Assoc.size_ofList, List.map_map]
  rfl

end Recorded

/-- Names and values are read exactly if the stream starts with that many records of them; each is
put over what has its name already. -/
theorem readRecords_eq_ok {n : Nat} {m m' : Vars} {bs left : Bytes} :
    readRecords n m bs = (.ok m', left) ↔
      ∃ rs : List Record, rs.length = n ∧ bs = rs.flatMap Record.bytes ++ left ∧
        (rs.map Record.entry).foldl (fun m e => m.insert e.1 e.2) m = m' := by
  induction n generalizing m bs with
  | zero =>
    constructor
    · intro h
      cases h
      exact ⟨[], rfl, rfl, rfl⟩
    · rintro ⟨rs, hrs, rfl, rfl⟩
      obtain rfl := List.eq_nil_of_length_eq_zero hrs
      rfl
  | succ n ih =>
    rw [readRecords_succ_eq_ok]
    constructor
    · rintro ⟨_, _, _, _, hname, hvalue, hread⟩
      obtain ⟨name, rfl, rfl⟩ := Stream.readFrame_iff_framed.1 hname
      obtain ⟨value, rfl, rfl⟩ := Stream.readFrame_iff_framed.1 hvalue
      obtain ⟨rs, rfl, rfl, rfl⟩ := ih.1 hread
      refine ⟨⟨name, value⟩ :: rs, rfl, ?_, rfl⟩
      simp only [List.flatMap_cons, Record.bytes, List.append_assoc]
    · rintro ⟨rs, hrs, rfl, rfl⟩
      obtain ⟨r, rs, rfl⟩ := List.exists_cons_of_length_eq_add_one hrs
      refine ⟨r.name.value, r.value.bytes ++ (rs.flatMap Record.bytes ++ left), r.value.value,
        rs.flatMap Record.bytes ++ left, Stream.readFrame_iff_framed.2 ⟨r.name, rfl, ?_⟩,
        Stream.readFrame_iff_framed.2 ⟨r.value, rfl, rfl⟩, ih.2 ⟨rs, Nat.succ.inj hrs, rfl, rfl⟩⟩
      simp only [List.flatMap_cons, Record.bytes, List.append_assoc]

/-- **Variables are read exactly where their records stand**, and exactly they are used up. -/
theorem load_eq_ok_iff_recorded {vars : Vars} {bs left : Bytes} :
    load bs = (.ok vars, left) ↔ ∃ e : Recorded, e.vars = vars ∧ bs = e.bytes ++ left := by
  rw [load_eq_ok]
  constructor
  · rintro ⟨count, rest, hword, hread⟩
    obtain ⟨rs, hrs, rfl, rfl⟩ := readRecords_eq_ok.1 hread
    refine ⟨⟨rs, hrs ▸ count.toNat_lt⟩, rfl, ?_⟩
    change bs = encode (UInt32.ofNat rs.length) ++ rs.flatMap Record.bytes ++ left
    rw [Stream.readWord_eq_ok.1 hword, hrs, UInt32.ofNat_toNat, List.append_assoc]
  · rintro ⟨e, rfl, rfl⟩
    exact ⟨UInt32.ofNat e.records.length, e.records.flatMap Record.bytes ++ left,
      Stream.readWord_eq_ok.2 (List.append_assoc _ _ _),
      readRecords_eq_ok.2 ⟨e.records, (UInt32.toNat_ofNat_of_lt' e.countable).symm, rfl, rfl⟩⟩

/-- **Loading variables is all or nothing**, whatever they were before. -/
structure LoadsWhole (vars : Vars) (bs : Bytes) : Prop where
  /-- A load succeeds with `n` exactly if the stream starts with records of `n` different names;
  what follows them is left. -/
  accepted : ∀ n left, ((replace bs).run vars).value = (.ok n, left) ↔
    ∃ e : Recorded, e.names.dedup.length = n ∧ bs = e.bytes ++ left
  /-- Each name then has its last value, and there are no other names. -/
  loaded : ∀ (e : Recorded) left, bs = e.bytes ++ left → ∀ name,
    ((replace bs).run vars).state.find? name = e.last? name
  /-- Else there are no variables. -/
  refused : ∀ failure left, ((replace bs).run vars).value = (.error failure, left) →
    ∀ name, ((replace bs).run vars).state.find? name = none

/-- **Loading**, as it ends: with the variables that were read, or with none. -/
theorem replace_cases (bs : Bytes) (vars : Vars) :
    (∃ read rest, load bs = (.ok read, rest) ∧ ((replace bs).run vars).state = read ∧
        ((replace bs).run vars).value = (.ok read.size, rest)) ∨
      ((replace bs).run vars).state = ∅ ∧
        ∃ failure rest, ((replace bs).run vars).value = (.error failure, rest) := by
  unfold replace
  cases hload : load bs with
  | mk result rest =>
    cases result with
    | ok read => exact .inl ⟨read, rest, rfl, rfl, rfl⟩
    | error cause => exact .inr ⟨rfl, _, _, rfl⟩

/-- A load that succeeds leaves the variables that were read. -/
theorem replace_of_load {vars read : Vars} {bs left : Bytes} (hload : load bs = (.ok read, left)) :
    ((replace bs).run vars).value = (.ok read.size, left) ∧
      ((replace bs).run vars).state = read := by
  rw [replace, hload]
  exact ⟨rfl, rfl⟩

/-- **Variables are loaded whole or not at all.** -/
theorem loadsWhole (vars : Vars) (bs : Bytes) : vars.LoadsWhole bs where
  accepted n left := by
    constructor
    · intro hvalue
      rcases replace_cases bs vars with ⟨read, rest, hload, -, hread⟩ | ⟨-, failure, rest, hfailed⟩
      · cases hread.symm.trans hvalue
        obtain ⟨e, rfl, hbs⟩ := load_eq_ok_iff_recorded.1 hload
        exact ⟨e, e.size_vars.symm, hbs⟩
      · cases hfailed.symm.trans hvalue
    · rintro ⟨e, rfl, hbs⟩
      rw [(replace_of_load (load_eq_ok_iff_recorded.2 ⟨e, rfl, hbs⟩)).1, e.size_vars]
  loaded e left hbs name := by
    rw [(replace_of_load (load_eq_ok_iff_recorded.2 ⟨e, rfl, hbs⟩)).2]
    exact e.find?_vars name
  refused failure left hvalue name := by
    rcases replace_cases bs vars with ⟨read, rest, -, -, hread⟩ | ⟨hstate, -⟩
    · cases hread.symm.trans hvalue
    · rw [hstate]
      rfl

end Vars

/-- **Loading is all or nothing**, of tables and of variables. -/
theorem loads_whole {kind : String} {α : Type} [Binary α] (t : Table kind α) (vars : Vars)
    (bs : Bytes) :
    t.LoadsWhole bs ∧ vars.LoadsWhole bs :=
  ⟨t.loadsWhole bs, vars.loadsWhole bs⟩

/-- Two letters, the greater handle first. -/
def twoLetters : Table.Recorded "letter" String where
  records := [⟨⟨9⟩, .text "b" (by decide +kernel), rfl⟩, ⟨⟨3⟩, .text "a" (by decide +kernel), rfl⟩]
  distinct := by decide

/-- A variable that is given twice. -/
def regiven : Vars.Recorded where
  records := [⟨.text "x" (by decide +kernel), .text "a" (by decide +kernel)⟩,
    ⟨.text "x" (by decide +kernel), .text "b" (by decide +kernel)⟩]
  countable := by decide

/-- A table that holds something else. -/
def scratch : Table "letter" String := ((∅ : Table "letter" String).create "old").2

/-- The two letters replace what was in the table, and the byte after them is left; of a variable
that is given twice the last value is kept, and it counts once. -/
theorem letters_loaded :
    ((Table.replace (twoLetters.bytes ++ [7])).run scratch).value = (.ok 2, [7]) ∧
    ((Table.replace (twoLetters.bytes ++ [7])).run scratch).state.get? ⟨9⟩ = some "b" ∧
    ((Table.replace (twoLetters.bytes ++ [7])).run scratch).state.get? ⟨3⟩ = some "a" ∧
    scratch.get? ⟨1⟩ = some "old" ∧
    ((Table.replace (twoLetters.bytes ++ [7])).run scratch).state.get? ⟨1⟩ = none ∧
    ((Vars.replace (regiven.bytes ++ [7])).run ∅).value = (.ok 1, [7]) ∧
    ((Vars.replace (regiven.bytes ++ [7])).run ∅).state.find? "x" = some "b" := by
  obtain ⟨htable, -⟩ := loads_whole scratch ∅ (twoLetters.bytes ++ [7])
  obtain ⟨-, hvars⟩ := loads_whole scratch ∅ (regiven.bytes ++ [7])
  have hloaded := htable.loaded twoLetters [7] rfl
  refine ⟨(htable.accepted 2 [7]).2 ⟨twoLetters, rfl, rfl⟩,
    (hloaded ⟨9⟩ "b").2 ⟨_, .head _, rfl, rfl⟩,
    (hloaded ⟨3⟩ "a").2 ⟨_, .tail _ (.head _), rfl, rfl⟩, by decide +kernel, ?_,
    (hvars.accepted 1 [7]).2 ⟨regiven, by decide +kernel, rfl⟩, ?_⟩
  · refine Option.eq_none_iff_forall_ne_some.2 fun a ha => ?_
    obtain ⟨r, hr, hhandle, -⟩ := (hloaded ⟨1⟩ a).1 ha
    have hother : ∀ r ∈ twoLetters.records, r.handle ≠ ⟨1⟩ := by decide
    exact hother r hr hhandle
  · rw [hvars.loaded regiven [7] rfl]
    decide +kernel

end StepScript
