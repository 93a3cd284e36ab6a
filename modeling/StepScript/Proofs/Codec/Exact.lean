import StepScript.Proofs.Codec.Range

/-!
# Proofs/Codec/Exact — reading undoes writing, and nothing else

Where a type has no maps, a value has one form in bytes: whatever was read off the front of a stream
is the bytes of the value, and they are read back from any stream that starts with them
(`Binary.Exact`). The only values without a form are those with a number or a length that does not
fit its field.

The instances follow the types. A structure has the bytes of the tuple of its fields
(`Exact.congr`).
-/

namespace StepScript

namespace Binary

variable {α β : Type}

/-- **A value has one form in bytes**, and it has one if its numbers and lengths fit their
fields. -/
class Exact (α : Type) [Binary α] where
  Fits : α → Prop
  decode_eq_some : ∀ {bs : Bytes} {a : α} {rest : Bytes},
    decode bs = some (a, rest) ↔ Fits a ∧ bs = encode a ++ rest

namespace Exact

/-- A value that has a form reads back from it. -/
theorem readsBack [Binary α] [Exact α] {a : α} (h : Fits a) : ReadsBack a a := fun _ =>
  decode_eq_some.2 ⟨h, rfl⟩

/-- Values with the same bytes are equal. -/
theorem encode_inj [Binary α] [Exact α] {a b : α} (ha : Fits a) (hb : Fits b)
    (h : encode a = encode b) : a = b := by
  have hread := readsBack ha []
  rw [h, readsBack hb []] at hread
  cases hread
  rfl

/-- A type whose values are written as those of another, one to one. -/
@[reducible] def congr [Binary α] [Binary β] [Exact β] (parts : α → β) (build : β → α)
    (build_parts : ∀ a, build (parts a) = a) (parts_build : ∀ b, parts (build b) = b)
    (hencode : ∀ a, encode a = encode (parts a))
    (hdecode : ∀ bs, decode bs = (decode bs).map fun r => (build r.1, r.2)) : Exact α where
  Fits a := Fits (parts a)
  decode_eq_some {bs a rest} := by
    rw [hdecode, hencode, Option.map_eq_some_iff, ← decode_eq_some]
    constructor
    · rintro ⟨⟨b, left⟩, hread, heq⟩
      obtain ⟨rfl, rfl⟩ := Prod.mk.inj heq
      rwa [parts_build]
    · intro hread
      exact ⟨(parts a, rest), hread, by rw [build_parts]⟩

end Exact

/-! ## Numbers -/

/-- The bytes that a number was read from are its bytes. -/
theorem littleEndian_of_read {width n : Nat} {bs rest : Bytes}
    (h : readLittleEndian width bs = some (n, rest)) : bs = littleEndian width n ++ rest := by
  induction width generalizing bs n with
  | zero =>
    cases h
    rfl
  | succ width ih =>
    cases bs with
    | nil => cases h
    | cons b bs =>
      obtain ⟨⟨high, left⟩, hread, heq⟩ := Option.map_eq_some_iff.1 h
      obtain ⟨rfl, rfl⟩ := Prod.mk.inj heq
      have hdigit : b.toNat < 256 := b.toNat_lt
      have hlow : UInt8.ofNat (b.toNat + 256 * high) = b := by
        rw [← UInt8.toNat_inj, UInt8.toNat_ofNat']
        omega
      have hhigh : (b.toNat + 256 * high) / 256 = high := by omega
      rw [littleEndian, hlow, hhigh, List.cons_append, ← ih hread]

/-- **A number has one form of each width**, if it fits. -/
theorem readLittleEndian_eq_some {width n : Nat} {bs rest : Bytes} :
    readLittleEndian width bs = some (n, rest) ↔
      n < Nat.pow 256 width ∧ bs = littleEndian width n ++ rest := by
  constructor
  · exact fun h => ⟨readLittleEndian_lt h, littleEndian_of_read h⟩
  · rintro ⟨hlt, rfl⟩
    rw [readLittleEndian_littleEndian, Nat.mod_eq_of_lt hlt]

instance : Exact Nat where
  Fits n := n < UInt64.size
  decode_eq_some := readLittleEndian_eq_some

/-- Words that are the numbers of a width have one form each. -/
theorem map_readLittleEndian_eq_some {width : Nat} {ofNat : Nat → α} {toNat : α → Nat}
    (hlt : ∀ w, toNat w < Nat.pow 256 width) (hofNat : ∀ w, ofNat (toNat w) = w)
    (htoNat : ∀ n, n < Nat.pow 256 width → toNat (ofNat n) = n) {bs rest : Bytes} {w : α} :
    ((readLittleEndian width bs).map fun r => (ofNat r.1, r.2)) = some (w, rest) ↔
      True ∧ bs = littleEndian width (toNat w) ++ rest := by
  constructor
  · intro h
    obtain ⟨⟨n, left⟩, hread, heq⟩ := Option.map_eq_some_iff.1 h
    obtain ⟨rfl, rfl⟩ := Prod.mk.inj heq
    obtain ⟨hn, rfl⟩ := readLittleEndian_eq_some.1 hread
    exact ⟨trivial, by rw [htoNat n hn]⟩
  · rintro ⟨-, rfl⟩
    rw [readLittleEndian_eq_some.2 ⟨hlt w, rfl⟩, Option.map_some, hofNat]

instance : Exact UInt32 where
  Fits _ := True
  decode_eq_some := map_readLittleEndian_eq_some UInt32.toNat_lt (fun _ => UInt32.ofNat_toNat)
    fun _ => UInt32.toNat_ofNat_of_lt

instance : Exact UInt64 where
  Fits _ := True
  decode_eq_some := map_readLittleEndian_eq_some UInt64.toNat_lt (fun _ => UInt64.ofNat_toNat)
    fun _ => UInt64.toNat_ofNat_of_lt

/-! ## Flags, options and names -/

instance : Exact Bool where
  Fits _ := True
  decode_eq_some {bs flag rest} := by
    refine ⟨fun h => ⟨trivial, ?_⟩, ?_⟩
    · cases bs with
      | nil => cases h
      | cons b bs =>
        simp only [decode] at h
        split at h
        · next hb =>
          cases h
          rw [hb]
          rfl
        · split at h
          · next hb =>
            cases h
            rw [hb]
            rfl
          · cases h
    · rintro ⟨-, rfl⟩
      exact readsBack_bool flag rest

instance [Binary α] [Exact α] : Exact (Option α) where
  Fits o := ∀ a, o = some a → Exact.Fits a
  decode_eq_some {bs o rest} := by
    constructor
    · intro h
      cases bs with
      | nil => cases h
      | cons b bs =>
        simp only [decode] at h
        split at h
        · next hb =>
          cases h
          refine ⟨fun a ha => ?_, by rw [hb]; rfl⟩
          cases ha
        · split at h
          · next hb =>
            obtain ⟨⟨a, left⟩, hread, heq⟩ := Option.map_eq_some_iff.1 h
            cases heq
            obtain ⟨hfits, rfl⟩ := Exact.decode_eq_some.1 hread
            exact ⟨fun b hb => Option.some.inj hb ▸ hfits, by rw [hb]; rfl⟩
          · cases h
    · rintro ⟨hfits, rfl⟩
      cases o with
      | none => exact readsBack_none rest
      | some a => exact readsBack_some (Exact.readsBack (hfits a rfl)) rest

instance : Exact Dialect where
  Fits _ := True
  decode_eq_some {bs dialect rest} := by
    refine ⟨fun h => ⟨trivial, ?_⟩, ?_⟩
    · obtain ⟨⟨tag, left⟩, hread, hname⟩ := Option.bind_eq_some_iff.1 h
      rw [(Exact.decode_eq_some.1 hread).2]
      simp only at hname
      split at hname
      · next htag =>
        cases hname
        rw [htag]
        rfl
      · split at hname
        · next htag =>
          cases hname
          rw [htag]
          rfl
        · cases hname
    · rintro ⟨-, rfl⟩
      exact readsBack_dialect dialect rest

instance {kind : String} : Exact (Handle kind) :=
  Exact.congr Handle.raw Handle.mk (fun _ => rfl) (fun _ => rfl) (fun _ => rfl) fun _ => rfl

instance : Exact EntityId :=
  Exact.congr EntityId.id EntityId.mk (fun _ => rfl) (fun _ => rfl) (fun _ => rfl) fun _ => rfl

/-! ## Texts, pairs and lists -/

/-- Bytes that are a text are the bytes of that text. -/
theorem utf8_of_ofUtf8? {bs : Bytes} {s : String} (h : ofUtf8? bs = some s) : utf8 s = bs := by
  simp only [ofUtf8?, String.fromUTF8?] at h
  split at h
  · cases h
    rfl
  · cases h

instance : Exact String where
  Fits s := (utf8 s).length < UInt64.size
  decode_eq_some {bs s rest} := by
    constructor
    · intro h
      obtain ⟨⟨length, left⟩, hlength, h⟩ := Option.bind_eq_some_iff.1 h
      obtain ⟨⟨front, left'⟩, hfront, h⟩ := Option.bind_eq_some_iff.1 h
      obtain ⟨s', hs, heq⟩ := Option.bind_eq_some_iff.1 h
      cases heq
      obtain ⟨hfits, rfl⟩ := Exact.decode_eq_some.1 hlength
      obtain ⟨rfl, rfl⟩ := takeBytes?_eq_some.1 hfront
      obtain rfl := utf8_of_ofUtf8? hs
      exact ⟨hfits, (List.append_assoc _ _ _).symm⟩
    · rintro ⟨hfits, rfl⟩
      exact readsBack_string hfits rest

instance [Binary α] [Binary β] [Exact α] [Exact β] : Exact (α × β) where
  Fits p := Exact.Fits p.1 ∧ Exact.Fits p.2
  decode_eq_some {bs p rest} := by
    constructor
    · intro h
      obtain ⟨⟨a, left⟩, ha, h⟩ := Option.bind_eq_some_iff.1 h
      obtain ⟨⟨b, left'⟩, hb, heq⟩ := Option.bind_eq_some_iff.1 h
      cases heq
      obtain ⟨hfitsA, rfl⟩ := Exact.decode_eq_some.1 ha
      obtain ⟨hfitsB, rfl⟩ := Exact.decode_eq_some.1 hb
      exact ⟨⟨hfitsA, hfitsB⟩, (List.append_assoc _ _ _).symm⟩
    · rintro ⟨⟨hfitsA, hfitsB⟩, rfl⟩
      exact readsBack_pair (Exact.readsBack hfitsA) (Exact.readsBack hfitsB) rest

/-- So many items are read exactly if the stream starts with the bytes of that many, each of which
has a form. -/
theorem decodeAll_eq_some [Binary α] [Exact α] {n : Nat} {bs : Bytes} {as : List α} {rest : Bytes} :
    decodeAll n bs = some (as, rest) ↔
      as.length = n ∧ (∀ a ∈ as, Exact.Fits a) ∧ bs = encodeAll as ++ rest := by
  constructor
  · intro h
    induction n generalizing bs as with
    | zero =>
      cases h
      exact ⟨rfl, List.forall_mem_nil _, rfl⟩
    | succ n ih =>
      obtain ⟨⟨a, left⟩, ha, h⟩ := Option.bind_eq_some_iff.1 h
      obtain ⟨⟨as', left'⟩, has, heq⟩ := Option.bind_eq_some_iff.1 h
      cases heq
      obtain ⟨hfits, rfl⟩ := Exact.decode_eq_some.1 ha
      obtain ⟨rfl, hall, rfl⟩ := ih has
      exact ⟨rfl, List.forall_mem_cons.2 ⟨hfits, hall⟩, (List.append_assoc _ _ _).symm⟩
  · rintro ⟨rfl, hall, rfl⟩
    exact decodeAll_encodeAll (fun a ha => Exact.readsBack (hall a ha)) rest

instance [Binary α] [Exact α] : Exact (List α) where
  Fits as := as.length < UInt64.size ∧ ∀ a ∈ as, Exact.Fits a
  decode_eq_some {bs as rest} := by
    constructor
    · intro h
      obtain ⟨⟨n, left⟩, hn, hall⟩ := Option.bind_eq_some_iff.1 h
      obtain ⟨hfits, rfl⟩ := Exact.decode_eq_some.1 hn
      obtain ⟨rfl, hitems, rfl⟩ := decodeAll_eq_some.1 hall
      exact ⟨⟨hfits, hitems⟩, (List.append_assoc _ _ _).symm⟩
    · rintro ⟨⟨hfits, hitems⟩, rfl⟩
      exact readsBack_list hfits (fun a ha => Exact.readsBack (hitems a ha)) rest

/-! ## Structures without maps -/

/-- Reading a pair and going on is reading its parts, one after the other, and going on. -/
theorem decode_pair_bind {γ : Type} [Binary α] [Binary β] (bs : Bytes)
    (k : (α × β) × Bytes → Option γ) :
    (decode bs).bind k = (decode bs).bind fun r => (decode r.2).bind fun q =>
      k ((r.1, q.1), q.2) := by
  change ((decode bs).bind fun r => (decode r.2).bind fun q => some ((r.1, q.1), q.2)).bind k = _
  simp only [Option.bind_assoc, Option.bind_some]

instance : Exact Command :=
  Exact.congr (fun c => (c.line, c.tokens)) (fun p => ⟨p.1, p.2⟩) (fun _ => rfl) (fun _ => rfl)
    (fun _ => rfl) fun bs => by
      rw [Option.map_eq_bind, decode_pair_bind]
      rfl

instance : Exact SourceLine :=
  Exact.congr (fun s => (s.script, s.line)) (fun p => ⟨p.1, p.2⟩) (fun _ => rfl) (fun _ => rfl)
    (fun _ => rfl) fun bs => by
      rw [Option.map_eq_bind, decode_pair_bind]
      rfl

instance : Exact PendingCall :=
  Exact.congr (fun p => (p.function, p.source, p.assignTo)) (fun p => ⟨p.1, p.2.1, p.2.2⟩)
    (fun _ => rfl) (fun _ => rfl) (fun _ => List.append_assoc _ _ _) fun bs => by
      simp only [Option.map_eq_bind, decode_pair_bind]
      rfl

end Binary

end StepScript
