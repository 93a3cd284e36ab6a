import StepScript.Machine.Save
import StepScript.Proofs.Codec.RoundTrip
import StepScript.Proofs.Table.Fresh

/-!
# Proofs/Codec/Records — saved machines read back

A table is written as its objects in increasing order of the handles, each after its handle, and is
read back by entering them one by one. What comes back is the table with every object as it reads
back and with a counter one past the largest handle in use (`Table.reread`).

* `Stream.readFrame_eq_ok`, `Table.load_eq_ok`, `Machine.read_eq_ok` — what was read of a stream,
  and in which pieces.
* `Table.load_save` — the stream of a table gives back the table, whatever follows it.
* `Machine.read_save` — the bytes of a machine give back the machine, if every object fits a frame
  (`Machine.Fits`) and every plain number fits 64 bits (`Machine.Storable`).
* `Machine.exists_save` — such a machine can be saved if its variables can be counted.
-/

namespace StepScript

open Binary

/-! ## Words and frames -/

namespace Stream

variable {α : Type}

/-- A word reads back, whatever follows it. -/
theorem readWord_encode (n : UInt32) (rest : Bytes) :
    readWord (encode n ++ rest) = (.ok n, rest) := by
  rw [readWord, readsBack_uint32 n rest]

/-- A payload means a value if it decodes and no byte of it is left over. -/
theorem decodePayload_eq_ok [Binary α] {payload : Bytes} {a : α} :
    decodePayload payload = .ok a ↔ decode payload = some (a, []) := by
  unfold decodePayload
  split <;> simp_all

/-- **How a frame is read**: its length, as many bytes, and the object they stand for. -/
theorem readFrame_eq_ok [Binary α] {a : α} {bs left : Bytes} :
    readFrame bs = (.ok a, left) ↔ ∃ length rest payload, readWord bs = (.ok length, rest) ∧
      length.toNat ≤ maxFrame ∧ takeBytes? length.toNat rest = some (payload, left) ∧
      decode payload = some (a, []) := by
  unfold readFrame
  constructor
  · intro h
    split at h
    · cases h
    · next length rest hword =>
      split at h
      · cases h
      · next hle =>
        split at h
        · cases h
        · next payload left' htake =>
          obtain ⟨hpayload, rfl⟩ := Prod.mk.inj h
          exact ⟨length, rest, payload, hword, by omega, htake, decodePayload_eq_ok.1 hpayload⟩
  · rintro ⟨length, rest, payload, hword, hle, htake, hpayload⟩
    simp only [hword, if_neg (Nat.not_lt.2 hle), htake, decodePayload_eq_ok.2 hpayload]

/-- A count that was written fits 32 bits, and its bytes are those of the word. -/
theorem writeCount_eq_ok {n : Nat} {bs : Bytes} (h : writeCount n = .ok bs) :
    n < UInt32.size ∧ bs = encode (UInt32.ofNat n) := by
  unfold writeCount at h
  split at h
  · next hn => exact ⟨hn, (Except.ok.inj h).symm⟩
  · cases h

/-- A frame that was written is the length of the value's bytes, which fits 32 bits, and those
bytes. -/
theorem writeFrame_eq_ok [Binary α] {a : α} {bs : Bytes} (h : writeFrame a = .ok bs) :
    (encode a).length < UInt32.size ∧ bs = encode (UInt32.ofNat (encode a).length) ++ encode a := by
  simp only [writeFrame] at h
  cases hcount : writeCount (encode a).length with
  | error cause => rw [hcount] at h; cases h
  | ok count =>
    rw [hcount] at h
    obtain ⟨hlt, rfl⟩ := writeCount_eq_ok hcount
    exact ⟨hlt, (Except.ok.inj h).symm⟩

/-- A value whose bytes fit a frame can be written. -/
theorem exists_writeFrame [Binary α] {a : α} (hfits : (encode a).length ≤ maxFrame) :
    ∃ bs, writeFrame a = .ok bs := by
  have hlt : (encode a).length < UInt32.size := Nat.lt_of_le_of_lt hfits (by decide)
  exact ⟨_, by simp only [writeFrame, writeCount, if_pos hlt]; rfl⟩

/-- **A frame gives back its object** if the object is not too long. -/
theorem readFrame_writeFrame [Binary α] {a b : α} {bs : Bytes} (hwrite : writeFrame a = .ok bs)
    (hfits : (encode a).length ≤ maxFrame) (hback : ReadsBack a b) (rest : Bytes) :
    readFrame (bs ++ rest) = (.ok b, rest) := by
  obtain ⟨hlt, rfl⟩ := writeFrame_eq_ok hwrite
  have hlength := UInt32.toNat_ofNat_of_lt' hlt
  have hpayload : decode (encode a) = some (b, []) := by
    have := hback []
    rwa [List.append_nil] at this
  refine readFrame_eq_ok.2 ⟨UInt32.ofNat (encode a).length, encode a ++ rest, encode a, ?_, ?_, ?_,
    hpayload⟩
  · rw [List.append_assoc, readWord_encode]
  · rwa [hlength]
  · rw [hlength, takeBytes?_append]

end Stream

/-! ## Tables -/

namespace Assoc

variable {κ α β : Type} {cmp : κ → κ → Ordering}

/-- Changes every value of a map. -/
def mapValues (f : α → β) (m : Assoc κ α cmp) : Assoc κ β cmp where
  entries := m.entries.map fun e => (e.1, f e.2)
  sorted := by
    rw [Sorted, List.pairwise_map]
    exact m.sorted

variable [DecidableEq κ]

theorem lookup_map (f : α → β) (k : κ) (es : List (κ × α)) :
    lookup k (es.map fun e => (e.1, f e.2)) = (lookup k es).map f := by
  induction es with
  | nil => rfl
  | cons e es ih =>
    by_cases hk : k = e.1
    · simp [lookup, hk]
    · simp [lookup, hk, ih]

variable [Std.TransCmp cmp] [Std.LawfulEqCmp cmp]

/-- Changing all values of a map changes what is found under each key. -/
@[simp] theorem find?_mapValues (f : α → β) (m : Assoc κ α cmp) (k : κ) :
    (m.mapValues f).find? k = (m.find? k).map f := by
  rw [find?_eq_lookup, find?_eq_lookup]
  exact lookup_map f k m.entries

end Assoc

namespace Table

variable {kind : String} {α : Type}

/-- **The table as it reads back**: every object as it reads back, and the counter one past the
largest handle in use. -/
def reread (f : α → α) (t : Table kind α) : Table kind α := ofObjects (t.objects.mapValues f)

/-- A table that is read again has the same handles, and under each the object as it is read. -/
@[simp] theorem get?_reread (f : α → α) (t : Table kind α) (h : Handle kind) :
    (t.reread f).get? h = (t.get? h).map f :=
  Assoc.find?_mapValues f t.objects h

/-- A table made of objects starts its search for handles at a valid one. -/
theorem isValid_next_ofObjects (m : Assoc (Handle kind) α Handle.newestFirst) :
    (ofObjects m).next.isValid = true := by
  unfold ofObjects
  split
  · rfl
  · next newest _ _ => exact newest.isValid_next

/-- The counter of a table that was read depends on the handles only. -/
theorem next_ofObjects_mapValues (f : α → α) (m : Assoc (Handle kind) α Handle.newestFirst) :
    (ofObjects (m.mapValues f)).next = (ofObjects m).next := by
  have hkeys : (m.mapValues f).keys = m.keys := by
    rw [Assoc.keys, Assoc.keys, Assoc.mapValues, List.map_map]
    rfl
  simp only [ofObjects, hkeys]

/-- A table reads back as it is if its objects do and its counter is one past its largest handle. -/
theorem reread_eq_self {t : Table kind α} {f : α → α} (hnext : t.next = (ofObjects t.objects).next)
    (hf : ∀ h a, t.get? h = some a → f a = a) : t.reread f = t := by
  refine ext_get? ((next_ofObjects_mapValues f t.objects).trans hnext.symm) fun h => ?_
  rw [get?_reread]
  cases hget : t.get? h with
  | none => rfl
  | some a => rw [Option.map_some, hf h a hget]

theorem Proper.reread {t : Table kind α} (ht : t.Proper) (f : α → α) : (t.reread f).Proper where
  next := isValid_next_ofObjects _
  live h a ha := by
    rw [get?_reread] at ha
    obtain ⟨b, hb, -⟩ := Option.map_eq_some_iff.1 ha
    exact ht.live h b hb

/-- Entering the objects of a table in increasing order gives the table. -/
theorem foldl_insert_toList (t : Table kind α) (f : α → α) :
    t.toList.foldl (fun m e => m.insert e.1 (f e.2)) (∅ : Assoc (Handle kind) α Handle.newestFirst)
      = t.objects.mapValues f := by
  have hview : ∀ (es : List (Handle kind × α)) (k : Handle kind),
      (es.foldr (fun e (m : Assoc (Handle kind) α Handle.newestFirst) => m.insert e.1 (f e.2))
        ∅).find? k = (Assoc.lookup k es).map f := by
    intro es k
    induction es with
    | nil => rfl
    | cons e es ih =>
      rw [List.foldr_cons, Assoc.find?_insert, ih]
      by_cases hk : k = e.1 <;> simp [Assoc.lookup, hk]
  refine Assoc.ext_find? fun k => ?_
  rw [toList, List.foldl_reverse, hview, Assoc.find?_mapValues, Assoc.find?_eq_lookup]

variable [Binary α]

/-- Records are written one after the other: the handle, the frame of the object, and the rest. -/
theorem writeRecords_cons_eq_ok {h : Handle kind} {a : α} {es : List (Handle kind × α)} {bs : Bytes}
    (hwrite : writeRecords ((h, a) :: es) = .ok bs) :
    ∃ frame rest, Stream.writeFrame a = .ok frame ∧ writeRecords es = .ok rest ∧
      bs = encode h ++ frame ++ rest := by
  rw [writeRecords] at hwrite
  cases hframe : Stream.writeFrame a with
  | error cause => rw [hframe] at hwrite; cases hwrite
  | ok frame =>
    cases hrest : writeRecords es with
    | error cause => rw [hframe, hrest] at hwrite; cases hwrite
    | ok rest =>
      rw [hframe, hrest] at hwrite
      exact ⟨frame, rest, rfl, rfl, (Except.ok.inj hwrite).symm⟩

/-- **How a record is read**: its handle, its frame, and then the others. -/
theorem readRecords_succ_eq_ok {n index : Nat} {m m' : Assoc (Handle kind) α Handle.newestFirst}
    {bs left : Bytes} :
    readRecords kind (n + 1) index m bs = (.ok m', left) ↔ ∃ raw rest a rest',
      Stream.readWord bs = (.ok raw, rest) ∧ ¬ (raw = 0 ∨ m.contains ⟨raw⟩) ∧
      Stream.readFrame rest = (.ok a, rest') ∧
      readRecords kind n (index + 1) (m.insert ⟨raw⟩ a) rest' = (.ok m', left) := by
  rw [readRecords]
  constructor
  · intro h
    split at h
    · cases h
    · next raw rest hword =>
      split at h
      · cases h
      · next hfresh =>
        split at h
        · cases h
        · next a rest' hframe => exact ⟨raw, rest, a, rest', hword, hfresh, hframe, h⟩
  · rintro ⟨raw, rest, a, rest', hword, hfresh, hframe, h⟩
    simp only [hword, if_neg hfresh, hframe, h]

/-- **How a table is read**: the number of its records, and the records. -/
theorem load_eq_ok {t : Table kind α} {bs left : Bytes} : load kind bs = (.ok t, left) ↔
    ∃ count rest m, Stream.readWord bs = (.ok count, rest) ∧
      readRecords kind count.toNat 0 ∅ rest = (.ok m, left) ∧ ofObjects m = t := by
  unfold load
  constructor
  · intro h
    split at h
    · cases h
    · next count rest hword =>
      split at h
      · cases h
      · next m left' hread =>
        obtain ⟨ht, rfl⟩ := Prod.mk.inj h
        exact ⟨count, rest, m, hword, hread, Except.ok.inj ht⟩
  · rintro ⟨count, rest, m, hword, hread, rfl⟩
    simp only [hword, hread]

/-- **The bytes of a table** are the number of its objects, which fits 32 bits, and then its
records. -/
theorem save_eq_ok {t : Table kind α} {bs : Bytes} (hsave : t.save = .ok bs) :
    ∃ records, t.toList.length < UInt32.size ∧ writeRecords t.toList = .ok records ∧
      bs = encode (UInt32.ofNat t.toList.length) ++ records := by
  have hsize : t.size = t.toList.length := by simp [size, toList, Assoc.size]
  unfold save at hsave
  rw [hsize] at hsave
  cases hcount : Stream.writeCount t.toList.length with
  | error cause => rw [hcount] at hsave; cases hsave
  | ok count =>
    cases hrecords : writeRecords t.toList with
    | error cause => rw [hcount, hrecords] at hsave; cases hsave
    | ok records =>
      rw [hcount, hrecords] at hsave
      obtain ⟨hlt, rfl⟩ := Stream.writeCount_eq_ok hcount
      exact ⟨records, hlt, rfl, (Except.ok.inj hsave).symm⟩

/-- Reading records enters them one by one. The handles are new, since those written come in
increasing order. -/
theorem readRecords_writeRecords {f : α → α} {es : List (Handle kind × α)} {bs : Bytes}
    (hwrite : writeRecords es = .ok bs) (hpairwise : es.Pairwise fun d e => d.1 ≠ e.1)
    (hes : ∀ e ∈ es, e.1.isValid = true ∧ (encode e.2).length ≤ Stream.maxFrame
      ∧ ReadsBack e.2 (f e.2))
    (index : Nat) (m : Assoc (Handle kind) α Handle.newestFirst)
    (hnew : ∀ e ∈ es, m.contains e.1 = false) (rest : Bytes) :
    readRecords kind es.length index m (bs ++ rest)
      = (.ok (es.foldl (fun m e => m.insert e.1 (f e.2)) m), rest) := by
  induction es generalizing bs index m with
  | nil =>
    obtain rfl := Except.ok.inj hwrite
    rfl
  | cons e es ih =>
    obtain ⟨h, a⟩ := e
    obtain ⟨frame, bytes, hframe, hbytes, rfl⟩ := writeRecords_cons_eq_ok hwrite
    obtain ⟨hvalid, hfits, hback⟩ := hes (h, a) List.mem_cons_self
    obtain ⟨hhead, htail⟩ := List.pairwise_cons.1 hpairwise
    have hraw : h.raw ≠ 0 := by simpa [Handle.isValid] using hvalid
    have hfresh : m.contains h = false := hnew (h, a) List.mem_cons_self
    have hrest : ∀ e ∈ es, (m.insert h (f a)).contains e.1 = false := by
      intro e he
      have hne : e.1 ≠ h := fun heq => hhead e he heq.symm
      have hold := hnew e (List.mem_cons_of_mem _ he)
      simpa [Assoc.contains, hne] using hold
    refine readRecords_succ_eq_ok.2 ⟨h.raw, frame ++ (bytes ++ rest), f a, bytes ++ rest, ?_,
      by simp [hraw, hfresh], Stream.readFrame_writeFrame hframe hfits hback _,
      ih hbytes htail (fun e he => hes e (List.mem_cons_of_mem _ he)) _ _ hrest⟩
    rw [List.append_assoc, List.append_assoc]
    exact Stream.readWord_encode h.raw _

/-- **The stream of a table gives back the table.** -/
theorem load_save {t : Table kind α} {f : α → α} {bs : Bytes} (hsave : t.save = .ok bs)
    (ht : ∀ h a, t.get? h = some a → h.isValid = true ∧ (encode a).length ≤ Stream.maxFrame
      ∧ ReadsBack a (f a)) (rest : Bytes) :
    load kind (bs ++ rest) = (.ok (t.reread f), rest) := by
  obtain ⟨records, hlt, hrecords, rfl⟩ := save_eq_ok hsave
  have hread := readRecords_writeRecords (f := f) hrecords
    (t.pairwise_toList.imp fun {d e} hlt heq => by
      rw [heq] at hlt
      exact UInt32.lt_irrefl _ hlt)
    (fun e he => ht e.1 e.2 (mem_toList_iff.1 he)) 0 ∅ (fun e he => rfl) rest
  rw [foldl_insert_toList] at hread
  refine load_eq_ok.2 ⟨UInt32.ofNat t.toList.length, records ++ rest,
    t.objects.mapValues f, ?_, ?_, rfl⟩
  · rw [List.append_assoc, Stream.readWord_encode]
  · rw [UInt32.toNat_ofNat_of_lt' hlt, hread]

theorem exists_writeRecords {es : List (Handle kind × α)}
    (hfits : ∀ e ∈ es, (encode e.2).length ≤ Stream.maxFrame) : ∃ bs, writeRecords es = .ok bs := by
  induction es with
  | nil => exact ⟨[], rfl⟩
  | cons e es ih =>
    obtain ⟨frame, hframe⟩ := Stream.exists_writeFrame (hfits e List.mem_cons_self)
    obtain ⟨rest, hrest⟩ := ih fun d hd => hfits d (List.mem_cons_of_mem e hd)
    exact ⟨encode e.1 ++ frame ++ rest, by rw [writeRecords, hframe, hrest]; rfl⟩

/-- A proper table whose objects fit their frames can be saved. -/
theorem exists_save {t : Table kind α} (ht : t.Proper)
    (hfits : ∀ h a, t.get? h = some a → (encode a).length ≤ Stream.maxFrame) :
    ∃ bs, t.save = .ok bs := by
  obtain ⟨records, hrecords⟩ : ∃ bs, writeRecords t.toList = .ok bs :=
    exists_writeRecords fun e he => hfits e.1 e.2 (mem_toList_iff.1 he)
  exact ⟨_, by simp only [save, Stream.writeCount, if_pos (size_lt ht), hrecords]; rfl⟩

/-- **Every object of a table that was read is the meaning of a payload**, and its handle is not
zero. -/
theorem forall_of_readRecords {p : Handle kind → α → Prop}
    (hp : ∀ h (payload : Bytes) a, h.isValid = true → decode payload = some (a, []) → p h a)
    {n index : Nat} {m m' : Assoc (Handle kind) α Handle.newestFirst} {bs left : Bytes}
    (hread : readRecords kind n index m bs = (.ok m', left))
    (hm : ∀ h a, m.find? h = some a → p h a) :
    ∀ h a, m'.find? h = some a → p h a := by
  induction n generalizing index m bs with
  | zero =>
    cases hread
    exact hm
  | succ n ih =>
    obtain ⟨raw, rest, a, rest', -, hfresh, hframe, hread⟩ := readRecords_succ_eq_ok.1 hread
    obtain ⟨-, -, payload, -, -, -, hpayload⟩ := Stream.readFrame_eq_ok.1 hframe
    refine ih hread fun h b hb => ?_
    rw [Assoc.find?_insert] at hb
    split at hb
    · next heq =>
      cases hb
      subst heq
      exact hp _ payload a (by simpa [Handle.isValid] using fun hraw => hfresh (Or.inl hraw))
        hpayload
    · exact hm h b hb

/-- What holds of every object that any payload means, under any valid handle, holds of every object
that was loaded. -/
theorem forall_of_load {p : Handle kind → α → Prop}
    (hp : ∀ h (payload : Bytes) a, h.isValid = true → decode payload = some (a, []) → p h a)
    {t : Table kind α} {bs left : Bytes} (hload : load kind bs = (.ok t, left)) :
    ∀ h a, t.get? h = some a → p h a := by
  obtain ⟨count, rest, m, -, hread, rfl⟩ := load_eq_ok.1 hload
  exact forall_of_readRecords hp hread (by simp)

end Table

/-! ## Variables -/

namespace Vars

/-- Variables are written one after the other: the frame of the name, that of the value, and the
rest. -/
theorem writeRecords_cons_eq_ok {name value : String} {es : List (String × String)} {bs : Bytes}
    (hwrite : writeRecords ((name, value) :: es) = .ok bs) :
    ∃ front back rest, Stream.writeFrame name = .ok front ∧ Stream.writeFrame value = .ok back ∧
      writeRecords es = .ok rest ∧ bs = front ++ back ++ rest := by
  rw [writeRecords] at hwrite
  cases hfront : Stream.writeFrame name with
  | error cause => rw [hfront] at hwrite; cases hwrite
  | ok front =>
    cases hback : Stream.writeFrame value with
    | error cause => rw [hfront, hback] at hwrite; cases hwrite
    | ok back =>
      cases hrest : writeRecords es with
      | error cause => rw [hfront, hback, hrest] at hwrite; cases hwrite
      | ok rest =>
        rw [hfront, hback, hrest] at hwrite
        exact ⟨front, back, rest, rfl, rfl, rfl, (Except.ok.inj hwrite).symm⟩

/-- **How a variable is read**: its name, its value, and then the others. -/
theorem readRecords_succ_eq_ok {n : Nat} {m m' : Vars} {bs left : Bytes} :
    readRecords (n + 1) m bs = (.ok m', left) ↔ ∃ name rest value rest',
      Stream.readFrame bs = (.ok name, rest) ∧ Stream.readFrame rest = (.ok value, rest') ∧
      readRecords n (m.insert name value) rest' = (.ok m', left) := by
  rw [readRecords]
  constructor
  · intro h
    split at h
    · cases h
    · next name rest hname =>
      split at h
      · cases h
      · next value rest' hvalue => exact ⟨name, rest, value, rest', hname, hvalue, h⟩
  · rintro ⟨name, rest, value, rest', hname, hvalue, h⟩
    simp only [hname, hvalue, h]

/-- Variables are loaded by reading their number and then so many records, starting from none. -/
theorem load_eq_ok {vars : Vars} {bs left : Bytes} : load bs = (.ok vars, left) ↔
    ∃ count rest, Stream.readWord bs = (.ok count, rest) ∧
      readRecords count.toNat ∅ rest = (.ok vars, left) := by
  unfold load
  constructor
  · intro h
    split at h
    · cases h
    · next count rest hword => exact ⟨count, rest, hword, h⟩
  · rintro ⟨count, rest, hword, h⟩
    simp only [hword, h]

/-- The bytes of variables are their number, which fits 32 bits, and then their records. -/
theorem save_eq_ok {vars : Vars} {bs : Bytes} (hsave : vars.save = .ok bs) :
    ∃ records, vars.entries.length < UInt32.size ∧ writeRecords vars.entries = .ok records ∧
      bs = encode (UInt32.ofNat vars.entries.length) ++ records := by
  unfold save at hsave
  cases hcount : Stream.writeCount vars.size with
  | error cause => rw [hcount] at hsave; cases hsave
  | ok count =>
    cases hrecords : writeRecords vars.entries with
    | error cause => rw [hcount, hrecords] at hsave; cases hsave
    | ok records =>
      rw [hcount, hrecords] at hsave
      obtain ⟨hlt, rfl⟩ := Stream.writeCount_eq_ok hcount
      exact ⟨records, hlt, rfl, (Except.ok.inj hsave).symm⟩

/-- Names and values that were written are read back in their order, each put over what has its name
already. -/
theorem readRecords_writeRecords {es : List (String × String)} {bs : Bytes}
    (hwrite : writeRecords es = .ok bs)
    (hes : ∀ e ∈ es, (encode e.1).length ≤ Stream.maxFrame ∧ (encode e.2).length ≤ Stream.maxFrame)
    (m : Vars) (rest : Bytes) :
    readRecords es.length m (bs ++ rest)
      = (.ok (es.foldl (fun m e => m.insert e.1 e.2) m), rest) := by
  induction es generalizing bs m with
  | nil =>
    obtain rfl := Except.ok.inj hwrite
    rfl
  | cons e es ih =>
    obtain ⟨name, value⟩ := e
    obtain ⟨front, back, bytes, hfront, hback, hbytes, rfl⟩ := writeRecords_cons_eq_ok hwrite
    obtain ⟨hname, hvalue⟩ := hes (name, value) List.mem_cons_self
    refine readRecords_succ_eq_ok.2 ⟨name, back ++ (bytes ++ rest), value, bytes ++ rest, ?_,
      Stream.readFrame_writeFrame hback hvalue (readsBack_string_of_fits hvalue) _,
      ih hbytes (fun e he => hes e (List.mem_cons_of_mem _ he)) _⟩
    rw [List.append_assoc, List.append_assoc]
    exact Stream.readFrame_writeFrame hfront hname (readsBack_string_of_fits hname) _

/-- **The stream of variables gives back the variables.** -/
theorem load_save {vars : Vars} {bs : Bytes} (hsave : vars.save = .ok bs)
    (hvars : ∀ name value, vars.find? name = some value →
      (encode name).length ≤ Stream.maxFrame ∧ (encode value).length ≤ Stream.maxFrame)
    (rest : Bytes) : load (bs ++ rest) = (.ok vars, rest) := by
  obtain ⟨records, hlt, hrecords, rfl⟩ := save_eq_ok hsave
  have hread := readRecords_writeRecords hrecords
    (fun e he => hvars e.1 e.2 ((vars.mem_entries_iff e.1 e.2).1 he)) ∅ rest
  refine load_eq_ok.2 ⟨UInt32.ofNat vars.entries.length, records ++ rest, ?_, ?_⟩
  · rw [List.append_assoc, Stream.readWord_encode]
  · rw [UInt32.toNat_ofNat_of_lt' hlt]
    exact hread.trans (congrArg (fun m => (Except.ok m, rest)) vars.ofList_entries)

theorem exists_writeRecords {es : List (String × String)}
    (hfits : ∀ e ∈ es, (encode e.1).length ≤ Stream.maxFrame ∧
      (encode e.2).length ≤ Stream.maxFrame) :
    ∃ bs, writeRecords es = .ok bs := by
  induction es with
  | nil => exact ⟨[], rfl⟩
  | cons e es ih =>
    obtain ⟨hname, hvalue⟩ := hfits e List.mem_cons_self
    obtain ⟨front, hfront⟩ := Stream.exists_writeFrame hname
    obtain ⟨back, hback⟩ := Stream.exists_writeFrame hvalue
    obtain ⟨rest, hrest⟩ := ih fun d hd => hfits d (List.mem_cons_of_mem e hd)
    exact ⟨front ++ back ++ rest, by rw [writeRecords, hfront, hback, hrest]; rfl⟩

/-- Variables that can be counted and fit their frames can be saved. -/
theorem exists_save {vars : Vars} (hsize : vars.size < UInt32.size)
    (hfits : ∀ name value, vars.find? name = some value →
      (encode name).length ≤ Stream.maxFrame ∧ (encode value).length ≤ Stream.maxFrame) :
    ∃ bs, vars.save = .ok bs := by
  obtain ⟨records, hrecords⟩ : ∃ bs, writeRecords vars.entries = .ok bs :=
    exists_writeRecords fun e he => hfits e.1 e.2 ((vars.mem_entries_iff e.1 e.2).1 he)
  exact ⟨_, by simp only [save, Stream.writeCount, if_pos hsize, hrecords]; rfl⟩

end Vars

/-! ## Machines -/

namespace Machine

/-- **Every object and every global variable fits a frame** of the record stream. -/
structure Fits (m : Machine) : Prop where
  targets : ∀ h t, m.targets.get? h = some t → (encode t).length ≤ Stream.maxFrame
  threads : ∀ h t, m.threads.get? h = some t → (encode t).length ≤ Stream.maxFrame
  frames : ∀ h f, m.frames.get? h = some f → (encode f).length ≤ Stream.maxFrame
  commands : ∀ h c, m.commands.get? h = some c → (encode c).length ≤ Stream.maxFrame
  globals : ∀ name value, m.globals.find? name = some value →
    (encode name).length ≤ Stream.maxFrame ∧ (encode value).length ≤ Stream.maxFrame

/-- Whether a machine fits can be decided by looking through its tables. -/
theorem fits_iff {m : Machine} : m.Fits ↔
    (∀ e ∈ m.targets.toList, (encode e.2).length ≤ Stream.maxFrame) ∧
    (∀ e ∈ m.threads.toList, (encode e.2).length ≤ Stream.maxFrame) ∧
    (∀ e ∈ m.frames.toList, (encode e.2).length ≤ Stream.maxFrame) ∧
    (∀ e ∈ m.commands.toList, (encode e.2).length ≤ Stream.maxFrame) ∧
    ∀ e ∈ m.globals.entries,
      (encode e.1).length ≤ Stream.maxFrame ∧ (encode e.2).length ≤ Stream.maxFrame := by
  constructor
  · rintro ⟨htargets, hthreads, hframes, hcommands, hglobals⟩
    exact ⟨fun e he => htargets _ _ (Table.mem_toList_iff.1 he),
      fun e he => hthreads _ _ (Table.mem_toList_iff.1 he),
      fun e he => hframes _ _ (Table.mem_toList_iff.1 he),
      fun e he => hcommands _ _ (Table.mem_toList_iff.1 he),
      fun e he => hglobals _ _ ((m.globals.mem_entries_iff _ _).1 he)⟩
  · rintro ⟨htargets, hthreads, hframes, hcommands, hglobals⟩
    exact ⟨fun h a ha => htargets (h, a) (Table.mem_toList_iff.2 ha),
      fun h a ha => hthreads (h, a) (Table.mem_toList_iff.2 ha),
      fun h a ha => hframes (h, a) (Table.mem_toList_iff.2 ha),
      fun h a ha => hcommands (h, a) (Table.mem_toList_iff.2 ha),
      fun name value hv => hglobals (name, value) ((m.globals.mem_entries_iff _ _).2 hv)⟩

instance (m : Machine) : Decidable m.Fits := decidable_of_iff' _ fits_iff

/-- **What a save can hold**: no object has the handle zero, and every plain number fits 64 bits. -/
structure Storable (m : Machine) : Prop where
  targets : m.targets.Proper
  threads : m.threads.Proper
  frames : m.frames.Proper
  commands : m.commands.Proper
  frame : ∀ h f, m.frames.get? h = some f → f.WordSized
  command : ∀ h c, m.commands.get? h = some c → c.line < UInt64.size

/-- **The machine as it reads back**: invocations unclaimed, frames unscanned, and every counter one
past the largest handle in use. -/
def reread (m : Machine) : Machine where
  targets := m.targets.reread id
  threads := m.threads.reread fun t => { t with claimed := false }
  frames := m.frames.reread fun f => { f with readiness := .unknown }
  commands := m.commands.reread id
  globals := m.globals

/-- **The bytes of a machine** are the version, its four tables and its global variables. -/
theorem save_eq_ok {m : Machine} {bs : Bytes} (h : m.save = .ok bs) :
    ∃ targets threads frames commands globals, m.targets.save = .ok targets ∧
      m.threads.save = .ok threads ∧ m.frames.save = .ok frames ∧ m.commands.save = .ok commands ∧
      m.globals.save = .ok globals ∧
      bs = encode saveVersion ++ targets ++ threads ++ frames ++ commands ++ globals := by
  unfold save at h
  cases htargets : m.targets.save with
  | error cause => rw [htargets] at h; cases h
  | ok targets =>
    cases hthreads : m.threads.save with
    | error cause => rw [htargets, hthreads] at h; cases h
    | ok threads =>
      cases hframes : m.frames.save with
      | error cause => rw [htargets, hthreads, hframes] at h; cases h
      | ok frames =>
        cases hcommands : m.commands.save with
        | error cause => rw [htargets, hthreads, hframes, hcommands] at h; cases h
        | ok commands =>
          cases hglobals : m.globals.save with
          | error cause => rw [htargets, hthreads, hframes, hcommands, hglobals] at h; cases h
          | ok globals =>
            rw [htargets, hthreads, hframes, hcommands, hglobals] at h
            exact ⟨targets, threads, frames, commands, globals, rfl, rfl, rfl, rfl, rfl,
              (Except.ok.inj h).symm⟩

theorem readTable_eq_ok {kind : String} {α : Type} [Binary α] {t : Table kind α} {bs left : Bytes} :
    readTable kind bs = .ok (t, left) ↔ Table.load kind bs = (.ok t, left) := by
  unfold readTable
  constructor
  · intro h
    split at h
    · next hload =>
      cases h
      exact hload
    · cases h
  · intro h
    rw [h]

/-- **How a machine is read**: the version, the tables, and the global variables. -/
theorem read_eq_ok {m : Machine} {bs : Bytes} : read bs = .ok m ↔
    ∃ bs₁ bs₂ bs₃ bs₄ bs₅ left, Stream.readWord bs = (.ok saveVersion, bs₁) ∧
      Table.load "target" bs₁ = (.ok m.targets, bs₂) ∧
      Table.load "thread" bs₂ = (.ok m.threads, bs₃) ∧
      Table.load "frame" bs₃ = (.ok m.frames, bs₄) ∧
      Table.load "command" bs₄ = (.ok m.commands, bs₅) ∧ Vars.load bs₅ = (.ok m.globals, left) := by
  unfold read
  constructor
  · intro h
    split at h
    · cases h
    · next version bs₁ hword =>
      split at h
      · cases h
      · next hversion =>
        rw [Decidable.not_not.1 hversion] at hword
        simp only [bind, Except.bind] at h
        split at h
        · cases h
        · next targets htargets =>
          split at h
          · cases h
          · next threads hthreads =>
            split at h
            · cases h
            · next frames hframes =>
              split at h
              · cases h
              · next commands hcommands =>
                split at h
                · cases h
                · next globals left hglobals =>
                  cases h
                  exact ⟨bs₁, _, _, _, _, left, hword, readTable_eq_ok.1 htargets,
                    readTable_eq_ok.1 hthreads, readTable_eq_ok.1 hframes,
                    readTable_eq_ok.1 hcommands, hglobals⟩
  · rintro ⟨bs₁, bs₂, bs₃, bs₄, bs₅, left, hword, htargets, hthreads, hframes, hcommands, hglobals⟩
    simp only [hword, ne_eq, not_true_eq_false, if_false, readTable_eq_ok.2 htargets,
      readTable_eq_ok.2 hthreads, readTable_eq_ok.2 hframes,
      readTable_eq_ok.2 hcommands, hglobals, bind,
      Except.bind]
    rfl

/-- **The bytes of a machine give back the machine.** -/
theorem read_save {m : Machine} {bs : Bytes} (hsave : m.save = .ok bs) (hfits : m.Fits)
    (hstorable : m.Storable) : read bs = .ok m.reread := by
  obtain ⟨targets, threads, frames, commands, globals, htargets, hthreads, hframes, hcommands,
    hglobals, rfl⟩ := save_eq_ok hsave
  have hreadTargets := Table.load_save (f := id) htargets fun h t ht =>
    ⟨hstorable.targets.live h t ht, hfits.targets h t ht, t.readsBack (hfits.targets h t ht)⟩
  have hreadThreads := Table.load_save (f := fun t => { t with claimed := false }) hthreads
    fun h t ht =>
      ⟨hstorable.threads.live h t ht, hfits.threads h t ht, t.readsBack (hfits.threads h t ht)⟩
  have hreadFrames := Table.load_save (f := fun f => { f with readiness := .unknown }) hframes
    fun h f hf =>
      ⟨hstorable.frames.live h f hf, hfits.frames h f hf,
        f.readsBack (hfits.frames h f hf) (hstorable.frame h f hf)⟩
  have hreadCommands := Table.load_save (f := id) hcommands fun h c hc =>
    ⟨hstorable.commands.live h c hc, hfits.commands h c hc,
      c.readsBack (hfits.commands h c hc) (hstorable.command h c hc)⟩
  have hreadGlobals := Vars.load_save hglobals hfits.globals []
  rw [List.append_nil] at hreadGlobals
  simp only [List.append_assoc]
  exact read_eq_ok.2 ⟨_, _, _, _, _, [], Stream.readWord_encode _ _, hreadTargets _, hreadThreads _,
    hreadFrames _, hreadCommands _, hreadGlobals⟩

/-- **A machine whose objects fit can be saved**, if its global variables can be counted in 32
bits. -/
theorem exists_save {m : Machine} (hfits : m.Fits) (hstorable : m.Storable)
    (hglobals : m.globals.size < UInt32.size) : ∃ bs, m.save = .ok bs := by
  obtain ⟨targets, htargets⟩ := Table.exists_save hstorable.targets hfits.targets
  obtain ⟨threads, hthreads⟩ := Table.exists_save hstorable.threads hfits.threads
  obtain ⟨frames, hframes⟩ := Table.exists_save hstorable.frames hfits.frames
  obtain ⟨commands, hcommands⟩ := Table.exists_save hstorable.commands hfits.commands
  obtain ⟨globals, hglobals⟩ := Vars.exists_save hglobals hfits.globals
  exact ⟨_, by simp only [save, htargets, hthreads, hframes, hcommands, hglobals]; rfl⟩

end Machine

end StepScript
