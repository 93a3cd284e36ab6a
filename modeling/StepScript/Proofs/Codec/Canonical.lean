import Mathlib.Data.List.Flatten
import Mathlib.Data.List.Perm.Subperm
import StepScript.Proofs.Codec.Exact

/-!
# Proofs/Codec/Canonical — the bytes of an object, and other bytes for it

A map can be written in several ways: its entries stand in any order, and an earlier entry gives way
to a later one of equal key. All else about an object is written in one way only. So the objects
with maps are read in two stages (`Spelling`): the bytes are exactly those of a tuple in which every
map is the list of its entries, and then the lists become maps. Writing the object again puts each
list in order and leaves the repetitions out.

* `Target.spelling`, `Thread.spelling`, `Frame.spelling` — the two stages for the objects with maps.
* `payloads_canonical` — what is written reads back, and what was read and is written again is never
  longer, and is the same exactly if the keys of every map were in strictly increasing order.
-/

namespace StepScript

/-! ## Entries -/

namespace Assoc

variable {κ α : Type} [DecidableEq κ] {cmp : κ → κ → Ordering} [Std.TransCmp cmp]
  [Std.LawfulEqCmp cmp]

/-- The map of entries keeps them as they are if they are in order. -/
theorem entries_ofList {es : List (κ × α)} :
    (ofList es : Assoc κ α cmp).entries = es ↔ Sorted cmp es := by
  constructor
  · intro h
    rw [← h]
    exact (ofList es).sorted
  · intro hs
    have := ofList_entries (⟨es, hs⟩ : Assoc κ α cmp)
    rw [this]

/-- **The map of entries takes some of them**, each at most as often as it stands there. -/
theorem entries_ofList_subperm (es : List (κ × α)) :
    (ofList es : Assoc κ α cmp).entries.Subperm es := by
  have hnodup : (ofList es : Assoc κ α cmp).entries.Nodup :=
    List.Pairwise.of_map Prod.fst (fun _ _ => mt (congrArg Prod.fst)) (nodup_keys (ofList es))
  exact hnodup.subperm fun e he => mem_of_mem_ofList he

end Assoc

namespace Binary

variable {α β σ τ : Type}

/-- The items of a list are written one after the other. -/
theorem encodeAll_eq_flatMap [Binary α] (as : List α) : encodeAll as = as.flatMap encode := by
  induction as with
  | nil => rfl
  | cons a as ih => rw [encodeAll, ih, List.flatMap_cons]

/-- Some of the items of a list have no more bytes than the list. -/
theorem length_encodeAll_le [Binary α] {as bs : List α} (h : as.Subperm bs) :
    (encodeAll as).length ≤ (encodeAll bs).length := by
  obtain ⟨as', hperm, hsublist⟩ := h
  have hsame := (hperm.flatMap fun a _ => List.Perm.refl (encode a)).length_eq
  have hfewer := (hsublist.flatMap encode).length_le
  simp only [encodeAll_eq_flatMap]
  omega

/-! ## Spellings -/

/-- **Two stages of reading**: the bytes of an `α` are exactly those of a `σ`, in which every map is
the list of its entries. -/
structure Spelling (α σ : Type) [Binary α] [Binary σ] [Exact σ] where
  /-- The value as it is written. -/
  write : α → σ
  /-- The value that was written. -/
  read : σ → α
  /-- The keys of each map, as they stand. -/
  keyLists : σ → List (List String)
  encode_eq : ∀ a, encode a = encode (write a)
  decode_eq : ∀ bs, decode bs = (decode bs).map fun r => (read r.1, r.2)
  fits_write_read : ∀ w, Exact.Fits w → Exact.Fits (write (read w))
  length_write_read : ∀ w, (encode (write (read w))).length ≤ (encode w).length
  read_write_read : ∀ w, read (write (read w)) = read w
  write_read_iff : ∀ w, write (read w) = w ↔ ∀ keys ∈ keyLists w, keys.Pairwise (compare · · = .lt)

namespace Spelling

/-- A value without maps has one spelling. -/
def plain [Binary α] [Exact α] : Spelling α α where
  write := id
  read := id
  keyLists _ := []
  encode_eq _ := rfl
  decode_eq _ := Option.map_id'.symm
  fits_write_read _ := id
  length_write_read _ := Nat.le_refl _
  read_write_read _ := rfl
  write_read_iff _ := ⟨fun _ => List.forall_mem_nil _, fun _ => rfl⟩

/-- A map is spelled as its entries. -/
def map [Binary α] [Exact α] : Spelling (Assoc String α compare) (List (String × α)) where
  write := Assoc.entries
  read := Assoc.ofList
  keyLists es := [es.map Prod.fst]
  encode_eq _ := rfl
  decode_eq _ := rfl
  fits_write_read es h :=
    ⟨Nat.lt_of_le_of_lt (Assoc.entries_ofList_subperm es).length_le h.1,
      fun e he => h.2 e (Assoc.mem_of_mem_ofList he)⟩
  length_write_read es := by
    rw [length_encode_list, length_encode_list]
    exact Nat.add_le_add_left (length_encodeAll_le (Assoc.entries_ofList_subperm es)) 8
  read_write_read es := Assoc.ofList_entries _
  write_read_iff es := by
    rw [Assoc.entries_ofList, List.forall_mem_singleton, List.pairwise_map]
    rfl

/-- A pair is spelled part by part. -/
def pair [Binary α] [Binary β] [Binary σ] [Binary τ] [Exact σ] [Exact τ] (s : Spelling α σ)
    (s' : Spelling β τ) : Spelling (α × β) (σ × τ) where
  write p := (s.write p.1, s'.write p.2)
  read w := (s.read w.1, s'.read w.2)
  keyLists w := s.keyLists w.1 ++ s'.keyLists w.2
  encode_eq p := by
    change encode p.1 ++ encode p.2 = encode (s.write p.1) ++ encode (s'.write p.2)
    rw [s.encode_eq, s'.encode_eq]
  decode_eq bs := by
    rw [Option.map_eq_bind, decode_pair_bind]
    change ((decode bs).bind fun r => (decode r.2).bind fun q => some ((r.1, q.1), q.2)) = _
    simp only [s.decode_eq, s'.decode_eq, Option.bind_map]
    rfl
  fits_write_read w h := ⟨s.fits_write_read w.1 h.1, s'.fits_write_read w.2 h.2⟩
  length_write_read w := by
    rw [length_encode_pair, length_encode_pair]
    exact Nat.add_le_add (s.length_write_read w.1) (s'.length_write_read w.2)
  read_write_read w := Prod.ext (s.read_write_read w.1) (s'.read_write_read w.2)
  write_read_iff w := by
    rw [List.forall_mem_append, ← s.write_read_iff, ← s'.write_read_iff]
    exact Prod.ext_iff

/-- A structure is spelled as the tuple of its fields; a field that is not written does not
matter. -/
def fields [Binary α] [Binary β] [Binary σ] [Exact σ] (s : Spelling β σ) (parts : α → β)
    (build : β → α) (parts_build : ∀ b, parts (build b) = b)
    (hencode : ∀ a, encode a = encode (parts a))
    (hdecode : ∀ bs, decode bs = (decode bs).map fun r => (build r.1, r.2)) : Spelling α σ where
  write a := s.write (parts a)
  read w := build (s.read w)
  keyLists := s.keyLists
  encode_eq a := by rw [hencode, s.encode_eq]
  decode_eq bs := by
    rw [hdecode, s.decode_eq, Option.map_map]
    rfl
  fits_write_read w h := by
    rw [parts_build]
    exact s.fits_write_read w h
  length_write_read w := by
    rw [parts_build]
    exact s.length_write_read w
  read_write_read w := by rw [parts_build, s.read_write_read]
  write_read_iff w := by
    rw [parts_build]
    exact s.write_read_iff w

variable [Binary α] [Binary σ] [Exact σ] (s : Spelling α σ)

/-- The value as it reads back. -/
def stored (a : α) : α := s.read (s.write a)

/-- **What decodes is a spelling**: the bytes are those of some form that fits, and the value is
what the form reads as. -/
theorem decode_eq_some {bs rest : Bytes} {a : α} : decode bs = some (a, rest) ↔
    ∃ w, Exact.Fits w ∧ bs = encode w ++ rest ∧ s.read w = a := by
  rw [s.decode_eq, Option.map_eq_some_iff]
  constructor
  · rintro ⟨⟨w, left⟩, hread, heq⟩
    obtain ⟨rfl, rfl⟩ := Prod.mk.inj heq
    obtain ⟨hfits, rfl⟩ := Exact.decode_eq_some.1 hread
    exact ⟨w, hfits, rfl, rfl⟩
  · rintro ⟨w, hfits, rfl, rfl⟩
    exact ⟨(w, rest), Exact.readsBack hfits rest, rfl⟩

end Spelling

/-- **Objects and their bytes correspond to each other.** -/
structure Canonical [Binary α] [Binary σ] [Exact σ] (s : Spelling α σ) (stored : α → α) : Prop where
  /-- A value reads back, up to what is not written. -/
  readsBack : ∀ a, Exact.Fits (s.write a) → Stream.decodePayload (encode a) = .ok (stored a)
  /-- What was read has everything at its default that is not written, and can be written. -/
  readable : ∀ bs (a : α), Stream.decodePayload bs = .ok a → Exact.Fits (s.write a) ∧ stored a = a
  /-- What was read is not longer when it is written again. -/
  length_le : ∀ bs (a : α), Stream.decodePayload bs = .ok a → (encode a).length ≤ bs.length
  /-- It has the same bytes exactly if the keys of every map stood in order. -/
  encode_eq_iff : ∀ bs (a : α), Stream.decodePayload bs = .ok a → (encode a = bs ↔
    ∃ w : σ, Stream.decodePayload bs = .ok w ∧
      ∀ keys ∈ s.keyLists w, keys.Pairwise (compare · · = .lt))

/-- **A value that was read is written in one way**, whatever bytes it was read from. -/
theorem Spelling.canonical [Binary α] [Binary σ] [Exact σ] (s : Spelling α σ) :
    Canonical s s.stored where
  readsBack a h := by
    have hread := Exact.readsBack h []
    rw [← s.encode_eq, List.append_nil] at hread
    rw [Stream.decodePayload_eq_ok, s.decode_eq, hread]
    rfl
  readable bs a h := by
    obtain ⟨w, hfits, -, rfl⟩ := s.decode_eq_some.1 (Stream.decodePayload_eq_ok.1 h)
    exact ⟨s.fits_write_read w hfits, s.read_write_read w⟩
  length_le bs a h := by
    obtain ⟨w, -, rfl, rfl⟩ := s.decode_eq_some.1 (Stream.decodePayload_eq_ok.1 h)
    rw [s.encode_eq, List.append_nil]
    exact s.length_write_read w
  encode_eq_iff bs a h := by
    obtain ⟨w, hfits, rfl, rfl⟩ := s.decode_eq_some.1 (Stream.decodePayload_eq_ok.1 h)
    have hw : Stream.decodePayload (encode w ++ []) = .ok w :=
      Stream.decodePayload_eq_ok.2 (Exact.readsBack hfits [])
    have hsame : encode (s.write (s.read w)) = encode w ↔ s.write (s.read w) = w :=
      ⟨Exact.encode_inj (s.fits_write_read w hfits) hfits, congrArg encode⟩
    rw [s.encode_eq, List.append_nil, hsame, s.write_read_iff]
    constructor
    · exact fun hkeys => ⟨w, List.append_nil (encode w) ▸ hw, hkeys⟩
    · rintro ⟨w', hw', hkeys⟩
      rw [List.append_nil, hw'] at hw
      cases hw
      exact hkeys

end Binary

/-! ## The objects of a machine -/

open Binary

/-- The fields of a target, in the order of its bytes. -/
def Target.spelling :
    Spelling Target (Option EntityId × List (String × String) × List ThreadHandle) :=
  (Spelling.pair .plain (.pair .map .plain)).fields (fun t => (t.entity, t.vars, t.threads))
    (fun p => ⟨p.1, p.2.1, p.2.2⟩) (fun _ => rfl) (fun _ => List.append_assoc _ _ _) fun bs => by
      simp only [Option.map_eq_bind, decode_pair_bind]
      rfl

/-- The fields of a thread, in the order of its bytes; the stack is written from its end. -/
def Thread.spelling : Spelling Thread
    (TargetHandle × String × List (String × String) × List FrameHandle × Bool) :=
  (Spelling.pair .plain (.pair .plain (.pair .map (.pair .plain .plain)))).fields
    (fun t => (t.target, t.script, t.vars, t.stack.reverse, t.wasClaimed))
    (fun p => ⟨p.1, p.2.1, p.2.2.1, p.2.2.2.1.reverse, false, p.2.2.2.2⟩)
    (fun p => by simp only [List.reverse_reverse])
    (fun t => by
      change encode t.target ++ encode t.script ++ encode t.vars ++ encode t.stack.reverse
        ++ encode t.wasClaimed = _
      simp only [List.append_assoc]
      rfl) fun bs => by
      simp only [Option.map_eq_bind, decode_pair_bind]
      rfl

/-- The fields of a frame, in the order of its bytes; the return addresses are written from the
end. -/
def Frame.spelling : Spelling Frame
    (ThreadHandle × String × Dialect × List CommandHandle × Nat × List (String × String) ×
      List String × List (String × Nat) × List (String × Nat) × List Nat × String ×
      Option PendingCall) :=
  (Spelling.pair .plain (.pair .plain (.pair .plain (.pair .plain (.pair .plain (.pair .map
    (.pair .plain (.pair .map (.pair .map (.pair .plain (.pair .plain .plain))))))))))).fields
    (fun f => (f.thread, f.script, f.dialect, f.commands, f.cursor, f.vars, f.args, f.gotos,
      f.gosubs, f.returns.reverse, f.result, f.pending))
    (fun (thread, script, dialect, commands, cursor, vars, args, gotos, gosubs, returns,
        result, pending) =>
      { thread, script, dialect, commands, cursor, vars, args, gotos, gosubs,
        returns := returns.reverse, result, pending })
    (fun p => by simp only [List.reverse_reverse])
    (fun f => by
      change encode f.thread ++ encode f.script ++ encode f.dialect ++ encode f.commands
        ++ encode f.cursor ++ encode f.vars ++ encode f.args ++ encode f.gotos ++ encode f.gosubs
        ++ encode f.returns.reverse ++ encode f.result ++ encode f.pending = _
      simp only [List.append_assoc]
      rfl) fun bs => by
      refine Eq.symm (Option.map_eq_bind.trans ?_)
      -- field by field: `simp` would go through all the later fields at each of them
      iterate 11
        refine (decode_pair_bind _ _).trans (congrArg _ (funext fun r => ?_))
      rfl

/-- A target keeps all its fields when it is written and read. -/
theorem Target.stored_spelling : Target.spelling.stored = id := by
  funext t
  change { t with vars := Assoc.ofList t.vars.entries } = t
  rw [Assoc.ofList_entries]

/-- A thread keeps all but its claim, which is not written. -/
theorem Thread.stored_spelling : Thread.spelling.stored = fun t => { t with claimed := false } := by
  funext t
  change { t with
    vars := Assoc.ofList t.vars.entries, stack := t.stack.reverse.reverse, claimed := false } = _
  rw [Assoc.ofList_entries, List.reverse_reverse]

/-- A frame keeps all but what it remembers of its last scan, which is not written. -/
theorem Frame.stored_spelling :
    Frame.spelling.stored = fun f => { f with readiness := .unknown } := by
  funext f
  change { f with
    vars := Assoc.ofList f.vars.entries, gotos := Assoc.ofList f.gotos.entries,
    gosubs := Assoc.ofList f.gosubs.entries, returns := f.returns.reverse.reverse,
    readiness := .unknown } = _
  rw [Assoc.ofList_entries, Assoc.ofList_entries, Assoc.ofList_entries, List.reverse_reverse]

/-- **The bytes of a saved object are canonical.** -/
theorem payloads_canonical :
    Canonical Target.spelling id ∧
    Canonical Thread.spelling (fun t => { t with claimed := false }) ∧
    Canonical Frame.spelling (fun f => { f with readiness := .unknown }) ∧
    Canonical (.plain : Spelling Command Command) id ∧
    Canonical (.plain : Spelling String String) id := by
  refine ⟨?_, ?_, ?_, Spelling.plain.canonical, Spelling.plain.canonical⟩
  · exact Target.stored_spelling ▸ Target.spelling.canonical
  · exact Thread.stored_spelling ▸ Thread.spelling.canonical
  · exact Frame.stored_spelling ▸ Frame.spelling.canonical

end StepScript
