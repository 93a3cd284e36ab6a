import StepScript.Machine.Context

/-!
# Proofs/Codec/RoundTrip — what is written reads back

The bytes of a value are read back from the front of any stream that starts with them, and exactly
they are used up (`Binary.ReadsBack`). Two things can stand in the way. A count or position is kept
in 64 bits, so a number that does not fit comes back as another one; and two fields are not written
at all: a thread reads back unclaimed and a frame unscanned.

* `Target.readsBack`, `Thread.readsBack`, `Frame.readsBack`, `Command.readsBack` — the objects of a
  machine, when their bytes fit a frame of a record stream. That bound makes every length inside an
  object fit its field; only the plain numbers of a frame and a command need a bound of their own.
-/

namespace StepScript

namespace Binary

variable {α β : Type}

/-- **The bytes of `a` read back as `b`**, whatever follows them. -/
def ReadsBack [Binary α] (a b : α) : Prop := ∀ rest, decode (encode a ++ rest) = some (b, rest)

/-- A reader goes on with what was read back. -/
theorem ReadsBack.bind [Binary α] {a b : α} (h : ReadsBack a b) (rest : Bytes)
    (k : α × Bytes → Option β) : (decode (encode a ++ rest) >>= k) = k (b, rest) := by
  rw [h rest]
  rfl

/-! ## Numbers -/

@[simp] theorem length_littleEndian (width n : Nat) : (littleEndian width n).length = width := by
  induction width generalizing n with
  | zero => rfl
  | succ width ih => simp [littleEndian, ih]

theorem pow_width_succ (width : Nat) : Nat.pow 256 (width + 1) = 256 * Nat.pow 256 width := by
  rw [Nat.pow_eq, Nat.pow_eq, Nat.pow_succ, Nat.mul_comm]

/-- A number reads back up to what so many bytes can hold. -/
theorem readLittleEndian_littleEndian (width n : Nat) (rest : Bytes) :
    readLittleEndian width (littleEndian width n ++ rest) = some (n % Nat.pow 256 width, rest) := by
  induction width generalizing n with
  | zero => simp [littleEndian, readLittleEndian, Nat.mod_one]
  | succ width ih =>
    have hdigit : n % 256 + 256 * (n / 256 % Nat.pow 256 width) = n % Nat.pow 256 (width + 1) := by
      rw [pow_width_succ, Nat.mod_mul]
    simp only [littleEndian, List.cons_append, readLittleEndian, ih, Option.map_some,
      UInt8.toNat_ofNat']
    exact congrArg (fun k => some (k, rest)) hdigit

/-- A natural number reads back if it fits 64 bits. -/
theorem readsBack_nat {n : Nat} (h : n < UInt64.size) : ReadsBack n n := by
  intro rest
  have hmod : n % Nat.pow 256 8 = n := Nat.mod_eq_of_lt h
  exact (readLittleEndian_littleEndian 8 n rest).trans (by rw [hmod])

theorem readsBack_uint32 (n : UInt32) : ReadsBack n n := by
  intro rest
  have hmod : n.toNat % Nat.pow 256 4 = n.toNat := Nat.mod_eq_of_lt n.toNat_lt
  change (readLittleEndian 4 (littleEndian 4 n.toNat ++ rest)).map _ = _
  rw [readLittleEndian_littleEndian, hmod]
  simp

theorem readsBack_uint64 (n : UInt64) : ReadsBack n n := by
  intro rest
  have hmod : n.toNat % Nat.pow 256 8 = n.toNat := Nat.mod_eq_of_lt n.toNat_lt
  change (readLittleEndian 8 (littleEndian 8 n.toNat ++ rest)).map _ = _
  rw [readLittleEndian_littleEndian, hmod]
  simp

/-! ## Flags, options and names -/

theorem readsBack_bool (b : Bool) : ReadsBack b b := by
  intro rest
  cases b <;> simp [encode, decode]

theorem readsBack_none [Binary α] : ReadsBack (none : Option α) none := by
  intro rest
  simp [encode, decode]

theorem readsBack_some [Binary α] {a b : α} (h : ReadsBack a b) : ReadsBack (some a) (some b) := by
  intro rest
  have := h rest
  simp only [encode, decode, List.cons_append] at this ⊢
  simp [this]

theorem readsBack_dialect (d : Dialect) : ReadsBack d d := by
  intro rest
  cases d with
  | line =>
    change (decode (α := UInt32) (encode (0 : UInt32) ++ rest)).bind _ = _
    rw [readsBack_uint32 0 rest]
    simp
  | json =>
    change (decode (α := UInt32) (encode (1 : UInt32) ++ rest)).bind _ = _
    rw [readsBack_uint32 1 rest]
    simp

theorem readsBack_handle {kind : String} (h : Handle kind) : ReadsBack h h := by
  intro rest
  change (decode (α := UInt32) (encode h.raw ++ rest)).map _ = _
  rw [readsBack_uint32 h.raw rest]
  rfl

theorem readsBack_entity (e : EntityId) : ReadsBack e e := by
  intro rest
  change (decode (α := UInt64) (encode e.id ++ rest)).map _ = _
  rw [readsBack_uint64 e.id rest]
  rfl

/-! ## Texts, pairs and lists -/

@[simp] theorem length_encode_nat (n : Nat) : (encode n).length = 8 := length_littleEndian 8 n

/-- The bytes of a text are read as that text. -/
theorem ofUtf8?_utf8 (s : String) : ofUtf8? (utf8 s) = some s := by
  simp [ofUtf8?, utf8, String.fromUTF8?, s.isValidUTF8, String.fromUTF8]

theorem takeBytes?_append (front rest : Bytes) :
    takeBytes? front.length (front ++ rest) = some (front, rest) := by
  simp [takeBytes?]

/-- So many bytes are taken off a stream exactly if it starts with them. -/
theorem takeBytes?_eq_some {n : Nat} {bs front left : Bytes} :
    takeBytes? n bs = some (front, left) ↔ front.length = n ∧ bs = front ++ left := by
  constructor
  · intro h
    simp only [takeBytes?] at h
    split at h
    · next hlength =>
      cases h
      exact ⟨hlength, (List.take_append_drop n bs).symm⟩
    · cases h
  · rintro ⟨rfl, rfl⟩
    exact takeBytes?_append front left

/-- A text takes eight bytes for its length, and its own. -/
theorem length_encode_string (s : String) : (encode s).length = 8 + (utf8 s).length := by
  change (encode (utf8 s).length ++ utf8 s).length = _
  simp

/-- A text reads back if its length fits 64 bits. -/
theorem readsBack_string {s : String} (h : (utf8 s).length < UInt64.size) : ReadsBack s s := by
  intro rest
  have hlength := readsBack_nat h (utf8 s ++ rest)
  change (decode (α := Nat) (encode (utf8 s).length ++ utf8 s ++ rest)).bind _ = _
  rw [List.append_assoc, hlength]
  simp [takeBytes?_append, ofUtf8?_utf8]

theorem readsBack_pair [Binary α] [Binary β] {a a' : α} {b b' : β} (ha : ReadsBack a a')
    (hb : ReadsBack b b') : ReadsBack (a, b) (a', b') := by
  intro rest
  change (decode (encode a ++ encode b ++ rest) >>= _) = _
  simp only [List.append_assoc]
  rw [ha.bind, hb.bind]
  rfl

/-- Items that read back do so one after the other. -/
theorem decodeAll_encodeAll [Binary α] {as : List α} (h : ∀ a ∈ as, ReadsBack a a) (rest : Bytes) :
    decodeAll as.length (encodeAll as ++ rest) = some (as, rest) := by
  induction as with
  | nil => rfl
  | cons a as ih =>
    have ha := h a List.mem_cons_self (encodeAll as ++ rest)
    have has := ih fun b hb => h b (List.mem_cons_of_mem a hb)
    simp only [encodeAll, List.append_assoc, List.length_cons, decodeAll]
    rw [ha]
    simp [has]

/-- A list reads back if its items do and its length fits 64 bits. -/
theorem readsBack_list [Binary α] {as : List α} (hlength : as.length < UInt64.size)
    (h : ∀ a ∈ as, ReadsBack a a) : ReadsBack as as := by
  intro rest
  change (decode (α := Nat) (encode as.length ++ encodeAll as ++ rest)).bind _ = _
  rw [List.append_assoc, readsBack_nat hlength (encodeAll as ++ rest)]
  exact decodeAll_encodeAll h rest

theorem length_encode_list [Binary α] (as : List α) :
    (encode as).length = 8 + (encodeAll as).length := by
  change (encode as.length ++ encodeAll as).length = _
  simp

/-- The bytes of an item are among those of its list. -/
theorem length_encode_le_of_mem [Binary α] {as : List α} {a : α} (h : a ∈ as) :
    (encode a).length ≤ (encodeAll as).length := by
  induction as with
  | nil => simp at h
  | cons b as ih =>
    simp only [encodeAll, List.length_append]
    rcases List.mem_cons.1 h with rfl | h
    · omega
    · have := ih h
      omega

/-- Items that take a byte or more each are no more than the bytes. -/
theorem length_le_encodeAll [Binary α] (hpos : ∀ a : α, 0 < (encode a).length) (as : List α) :
    as.length ≤ (encodeAll as).length := by
  induction as with
  | nil => simp
  | cons a as ih =>
    have := hpos a
    simp only [encodeAll, List.length_append, List.length_cons]
    omega

end Binary

/-! ## Maps -/

namespace Assoc

variable {κ α : Type} [DecidableEq κ] {cmp : κ → κ → Ordering} [Std.TransCmp cmp]
  [Std.LawfulEqCmp cmp]

/-- **The last entry of a key counts**; a key without one keeps its value. -/
theorem find?_foldl_insert (es : List (κ × α)) (m : Assoc κ α cmp) (k : κ) :
    (es.foldl (fun m e => m.insert e.1 e.2) m).find? k = (lookup k es.reverse).or (m.find? k) := by
  rw [← List.foldr_reverse]
  induction es.reverse with
  | nil => rfl
  | cons e es ih =>
    rw [List.foldr_cons, find?_insert, ih]
    by_cases hk : k = e.1 <;> simp [lookup, hk]

/-- In a map made of a list, the last of several entries with the same key counts. -/
theorem find?_ofList (es : List (κ × α)) (k : κ) :
    (ofList es : Assoc κ α cmp).find? k = lookup k es.reverse := by
  rw [ofList, find?_foldl_insert]
  exact Option.or_none

/-- Every entry of the map is among those given. -/
theorem mem_of_mem_ofList {es : List (κ × α)} {e : κ × α}
    (h : e ∈ (ofList es : Assoc κ α cmp).entries) : e ∈ es := by
  have hfind := ((ofList es).mem_entries_iff e.1 e.2).1 h
  rw [find?_ofList] at hfind
  exact List.mem_reverse.1 (mem_of_lookup hfind)

omit [Std.TransCmp cmp] [Std.LawfulEqCmp cmp] in
/-- Among entries of different keys, each is found. -/
theorem lookup_eq_some_iff {es : List (κ × α)} (hdistinct : (es.map Prod.fst).Nodup) {k : κ}
    {v : α} :
    lookup k es = some v ↔ (k, v) ∈ es := by
  refine ⟨mem_of_lookup, fun h => ?_⟩
  induction es with
  | nil => cases h
  | cons e es ih =>
    obtain ⟨hnew, hdistinct⟩ := List.nodup_cons.1 hdistinct
    rcases List.mem_cons.1 h with rfl | h
    · simp [lookup]
    · have hne : k ≠ e.1 := fun heq => hnew (heq ▸ List.mem_map_of_mem h)
      simpa [lookup, hne] using ih hdistinct h

omit [DecidableEq κ] [Std.TransCmp cmp] in
theorem nodup_keys (m : Assoc κ α cmp) : m.keys.Nodup := by
  rw [keys, List.nodup_iff_pairwise_ne, List.pairwise_map]
  refine m.sorted.imp fun {d e} hlt heq => ?_
  have hself : cmp e.1 e.1 = .eq := Std.ReflCmp.compare_self
  rw [heq, hself] at hlt
  cases hlt

/-- **A map is the map of its entries.** -/
theorem ofList_entries (m : Assoc κ α cmp) : ofList m.entries = m := by
  refine ext_find? fun k => Option.ext fun v => ?_
  have hdistinct : (m.entries.reverse.map Prod.fst).Nodup := by
    rw [List.map_reverse, List.nodup_iff_pairwise_ne, List.pairwise_reverse]
    exact m.nodup_keys.imp Ne.symm
  rw [find?_ofList, lookup_eq_some_iff hdistinct, List.mem_reverse, mem_entries_iff]

end Assoc

namespace Binary

variable {α : Type}

/-- A map reads back if the list of its entries does: they come in key order and with different
keys. -/
theorem readsBack_map [Binary α] {m : Assoc String α compare}
    (h : ReadsBack m.entries m.entries) : ReadsBack m m := by
  intro rest
  change (decode (encode m.entries ++ rest)).map _ = _
  rw [h rest]
  simp [Assoc.ofList_entries]

/-! ## Values that fit a frame

A length inside a value is at most the number of its bytes, hence far below the 64 bits it is kept
in as soon as the value fits a frame of a record stream. -/

/-- What fits a frame can be counted in 64 bits. -/
theorem maxFrame_lt : Stream.maxFrame < UInt64.size := by decide

/-- A text inside a frame reads back. -/
theorem readsBack_string_of_fits {s : String} (h : (encode s).length ≤ Stream.maxFrame) :
    ReadsBack s s := by
  refine readsBack_string ?_
  have := length_encode_string s
  have := maxFrame_lt
  omega

/-- **A list inside a frame reads back**, if its items do and none of them is written with no bytes:
the bound on the bytes is then one on the number of items. -/
theorem readsBack_list_of_fits [Binary α] (hpos : ∀ a : α, 0 < (encode a).length) {as : List α}
    (hfits : (encode as).length ≤ Stream.maxFrame)
    (h : ∀ a ∈ as, (encode a).length ≤ Stream.maxFrame → ReadsBack a a) : ReadsBack as as := by
  have hbytes := length_encode_list as
  refine readsBack_list ?_ fun a ha => h a ha ?_
  · have := length_le_encodeAll hpos as
    have := maxFrame_lt
    omega
  · have := length_encode_le_of_mem ha
    omega

theorem encode_handle_pos {kind : String} (h : Handle kind) : 0 < (encode h).length := by
  change 0 < (littleEndian 4 h.raw.toNat).length
  simp

theorem encode_string_pos (s : String) : 0 < (encode s).length := by
  have := length_encode_string s
  omega

theorem length_encode_pair [Binary α] {β : Type} [Binary β] (p : α × β) :
    (encode p).length = (encode p.1).length + (encode p.2).length :=
  List.length_append

theorem readsBack_handles_of_fits {kind : String} {hs : List (Handle kind)}
    (h : (encode hs).length ≤ Stream.maxFrame) : ReadsBack hs hs :=
  readsBack_list_of_fits encode_handle_pos h fun a _ _ => readsBack_handle a

theorem readsBack_strings_of_fits {ss : List String} (h : (encode ss).length ≤ Stream.maxFrame) :
    ReadsBack ss ss :=
  readsBack_list_of_fits encode_string_pos h fun _ _ hs => readsBack_string_of_fits hs

theorem readsBack_option_of_fits {o : Option String} (h : (encode o).length ≤ Stream.maxFrame) :
    ReadsBack o o := by
  cases o with
  | none => exact readsBack_none
  | some s =>
    refine readsBack_some (readsBack_string_of_fits ?_)
    have : (encode (some s)).length = (encode s).length + 1 := List.length_cons
    omega

/-- Variables inside a frame read back. -/
theorem readsBack_vars_of_fits {vars : Vars} (h : (encode vars).length ≤ Stream.maxFrame) :
    ReadsBack vars vars := by
  refine readsBack_map (readsBack_list_of_fits (fun p => ?_) h fun p _ hp => ?_)
  · have := length_encode_pair p
    have := encode_string_pos p.1
    omega
  · have := length_encode_pair p
    exact readsBack_pair (readsBack_string_of_fits (by omega)) (readsBack_string_of_fits (by omega))

/-- Labels inside a frame read back, if the indices they lead to fit 64 bits. -/
theorem readsBack_labels_of_fits {labels : LabelMap} (h : (encode labels).length ≤ Stream.maxFrame)
    (hindex : ∀ e ∈ labels.entries, e.2 < UInt64.size) : ReadsBack labels labels := by
  refine readsBack_map (readsBack_list_of_fits (fun p => ?_) h fun p hp hfits => ?_)
  · have := length_encode_pair p
    have := encode_string_pos p.1
    omega
  · have := length_encode_pair p
    exact readsBack_pair (readsBack_string_of_fits (by omega)) (readsBack_nat (hindex p hp))

theorem readsBack_naturals_of_fits {ns : List Nat} (h : (encode ns).length ≤ Stream.maxFrame)
    (hword : ∀ n ∈ ns, n < UInt64.size) : ReadsBack ns ns :=
  readsBack_list_of_fits (fun n => by rw [length_encode_nat]; decide) h fun n hn _ =>
    readsBack_nat (hword n hn)

end Binary

/-! ## The objects of a machine -/

open Binary

/-- **A command reads back** if its line number fits 64 bits. -/
theorem Command.readsBack {c : Command} (h : (encode c).length ≤ Stream.maxFrame)
    (hline : c.line < UInt64.size) : ReadsBack c c := by
  intro rest
  have hbytes : (encode c).length = (encode c.line).length + (encode c.tokens).length :=
    List.length_append
  have htokens : ReadsBack c.tokens c.tokens := readsBack_strings_of_fits (by omega)
  change (decode (encode c.line ++ encode c.tokens ++ rest) >>= _) = _
  simp only [List.append_assoc]
  rw [(readsBack_nat hline).bind, htokens.bind]
  rfl

/-- **A target reads back.** -/
theorem Target.readsBack {t : Target} (h : (encode t).length ≤ Stream.maxFrame) :
    ReadsBack t t := by
  intro rest
  have hbytes : (encode t).length
      = (encode t.entity).length + (encode t.vars).length + (encode t.threads).length := by
    change (encode t.entity ++ encode t.vars ++ encode t.threads).length = _
    simp only [List.length_append]
  have hentity : ReadsBack t.entity t.entity := by
    cases t.entity with
    | none => exact readsBack_none
    | some e => exact readsBack_some (readsBack_entity e)
  have hvars : ReadsBack t.vars t.vars := readsBack_vars_of_fits (by omega)
  have hthreads : ReadsBack t.threads t.threads := readsBack_handles_of_fits (by omega)
  change (decode (encode t.entity ++ encode t.vars ++ encode t.threads ++ rest) >>= _) = _
  simp only [List.append_assoc]
  rw [hentity.bind, hvars.bind, hthreads.bind]
  rfl

/-- **A thread reads back unclaimed.** -/
theorem Thread.readsBack {t : Thread} (h : (encode t).length ≤ Stream.maxFrame) :
    ReadsBack t { t with claimed := false } := by
  intro rest
  have hbytes : (encode t).length
      = (encode t.target).length + (encode t.script).length + (encode t.vars).length
        + (encode t.stack.reverse).length + (encode t.wasClaimed).length := by
    change (encode t.target ++ encode t.script ++ encode t.vars ++ encode t.stack.reverse
      ++ encode t.wasClaimed).length = _
    simp only [List.length_append]
  have hscript : ReadsBack t.script t.script := readsBack_string_of_fits (by omega)
  have hvars : ReadsBack t.vars t.vars := readsBack_vars_of_fits (by omega)
  have hstack : ReadsBack t.stack.reverse t.stack.reverse := readsBack_handles_of_fits (by omega)
  change (decode (encode t.target ++ encode t.script ++ encode t.vars ++ encode t.stack.reverse
    ++ encode t.wasClaimed ++ rest) >>= _) = _
  simp only [List.append_assoc]
  rw [(readsBack_handle _).bind, hscript.bind, hvars.bind, hstack.bind, (readsBack_bool _).bind,
    List.reverse_reverse]
  rfl

/-- An open call reads back, if its line number fits 64 bits. -/
theorem PendingCall.readsBack {p : PendingCall} (h : (encode p).length ≤ Stream.maxFrame)
    (hline : p.source.line < UInt64.size) : ReadsBack p p := by
  intro rest
  have hsource : (encode p.source).length
      = (encode p.source.script).length + (encode p.source.line).length := List.length_append
  have hbytes : (encode p).length
      = (encode p.function).length + (encode p.source).length + (encode p.assignTo).length := by
    change (encode p.function ++ encode p.source ++ encode p.assignTo).length = _
    simp only [List.length_append]
  have hfunction : ReadsBack p.function p.function := readsBack_string_of_fits (by omega)
  have hscript : ReadsBack p.source.script p.source.script := readsBack_string_of_fits (by omega)
  have hassign : ReadsBack p.assignTo p.assignTo := readsBack_option_of_fits (by omega)
  have hsourceBack : ReadsBack p.source p.source := by
    intro rest
    change (decode (encode p.source.script ++ encode p.source.line ++ rest) >>= _) = _
    simp only [List.append_assoc]
    rw [hscript.bind, (readsBack_nat hline).bind]
    rfl
  change (decode (encode p.function ++ encode p.source ++ encode p.assignTo ++ rest) >>= _) = _
  simp only [List.append_assoc]
  rw [hfunction.bind, hsourceBack.bind, hassign.bind]
  rfl

/-- **Every plain number of a frame fits 64 bits.** -/
structure Frame.WordSized (f : Frame) : Prop where
  cursor : f.cursor < UInt64.size
  gotos : ∀ e ∈ f.gotos.entries, e.2 < UInt64.size
  gosubs : ∀ e ∈ f.gosubs.entries, e.2 < UInt64.size
  returns : ∀ i ∈ f.returns, i < UInt64.size
  pending : ∀ p, f.pending = some p → p.source.line < UInt64.size

/-- The bytes of a frame are those of its fields. -/
theorem Frame.length_encode (f : Frame) : (encode f).length
    = (encode f.thread).length + (encode f.script).length + (encode f.dialect).length
      + (encode f.commands).length + (encode f.cursor).length + (encode f.vars).length
      + (encode f.args).length + (encode f.gotos).length + (encode f.gosubs).length
      + (encode f.returns.reverse).length + (encode f.result).length
      + (encode f.pending).length := by
  change (encode f.thread ++ encode f.script ++ encode f.dialect ++ encode f.commands
    ++ encode f.cursor ++ encode f.vars ++ encode f.args ++ encode f.gotos ++ encode f.gosubs
    ++ encode f.returns.reverse ++ encode f.result ++ encode f.pending).length = _
  simp only [List.length_append]

/-- The open call of a frame reads back, if there is one and if there is none. -/
theorem Frame.readsBack_pending {f : Frame} (h : (encode f).length ≤ Stream.maxFrame)
    (hword : f.WordSized) : ReadsBack f.pending f.pending := by
  have hbytes := f.length_encode
  cases hp : f.pending with
  | none => exact readsBack_none
  | some p =>
    rw [hp] at hbytes
    have : (encode (some p)).length = (encode p).length + 1 := List.length_cons
    exact readsBack_some (p.readsBack (by omega) (hword.pending p hp))

/-- **A frame reads back unscanned.** -/
theorem Frame.readsBack {f : Frame} (h : (encode f).length ≤ Stream.maxFrame)
    (hword : f.WordSized) : ReadsBack f { f with readiness := .unknown } := by
  intro rest
  have hbytes := f.length_encode
  have hscript : ReadsBack f.script f.script := readsBack_string_of_fits (by omega)
  have hcommands : ReadsBack f.commands f.commands := readsBack_handles_of_fits (by omega)
  have hcursor : ReadsBack f.cursor f.cursor := readsBack_nat hword.cursor
  have hvars : ReadsBack f.vars f.vars := readsBack_vars_of_fits (by omega)
  have hargs : ReadsBack f.args f.args := readsBack_strings_of_fits (by omega)
  have hgotos : ReadsBack f.gotos f.gotos := readsBack_labels_of_fits (by omega) hword.gotos
  have hgosubs : ReadsBack f.gosubs f.gosubs := readsBack_labels_of_fits (by omega) hword.gosubs
  have hreturns : ReadsBack f.returns.reverse f.returns.reverse :=
    readsBack_naturals_of_fits (by omega) fun n hn => hword.returns n (List.mem_reverse.1 hn)
  have hresult : ReadsBack f.result f.result := readsBack_string_of_fits (by omega)
  have hpending := f.readsBack_pending h hword
  change (decode (encode f.thread ++ encode f.script ++ encode f.dialect ++ encode f.commands
    ++ encode f.cursor ++ encode f.vars ++ encode f.args ++ encode f.gotos ++ encode f.gosubs
    ++ encode f.returns.reverse ++ encode f.result ++ encode f.pending ++ rest) >>= _) = _
  simp only [List.append_assoc]
  rw [(readsBack_handle _).bind, hscript.bind, (readsBack_dialect _).bind, hcommands.bind,
    hcursor.bind, hvars.bind, hargs.bind, hgotos.bind, hgosubs.bind, hreturns.bind,
    hresult.bind, hpending.bind,
    List.reverse_reverse]
  rfl

end StepScript
