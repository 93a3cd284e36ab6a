import StepScript.Proofs.Table.View

/-!
# Proofs/Table/Fresh — the handles a table gives out

A table passes the handles in use, one after the other and going round, until it meets a free one.
As many handles are passed as there are objects, so unless every handle is in use the search
succeeds (`Table.get?_fresh`): the handles passed are distinct, and there are not that many objects.

* `Table.Proper` — zero is neither in use nor next.
* `Table.Full` — every handle is in use.
* `Table.createAll_fresh` — handles given out to several objects are new and distinct if the table
  has not become full.
-/

namespace StepScript

namespace Handle

variable {kind : String}

/-- The number of handles that can name an object. -/
def count : Nat := 4294967295

/-- Handles are the same if their numbers are. -/
theorem ext_toNat {h k : Handle kind} (hn : h.raw.toNat = k.raw.toNat) : h = k := by
  cases h; cases k
  exact congrArg mk (UInt32.toNat_inj.1 hn)

/-- A handle is valid unless it is zero. -/
theorem isValid_iff {h : Handle kind} : h.isValid = true ↔ 1 ≤ h.raw.toNat := by
  have hzero : h.raw = 0 ↔ h.raw.toNat = 0 := by rw [← UInt32.toNat_inj]; rfl
  simp only [isValid, bne_iff_ne, ne_eq, hzero]
  omega

/-- The next handle is the next number; after the last comes the first that is not zero. -/
theorem toNat_next (h : Handle kind) : h.next.raw.toNat = h.raw.toNat % count + 1 := by
  have hlt : h.raw.toNat < 4294967296 := h.raw.toNat_lt
  unfold next
  split
  · next heq => rw [heq]; rfl
  · next hne =>
    have hnat : h.raw.toNat ≠ 4294967295 := fun heq => hne (UInt32.toNat_inj.1 heq)
    rw [UInt32.toNat_add]
    change (h.raw.toNat + 1) % 4294967296 = h.raw.toNat % 4294967295 + 1
    omega

theorem isValid_next (h : Handle kind) : h.next.isValid = true := by
  rw [isValid_iff, toNat_next]
  omega

/-- `n` handles in turn, from `h` on. -/
def turn (h : Handle kind) : Nat → List (Handle kind)
  | 0 => []
  | n + 1 => h :: h.next.turn n

@[simp] theorem length_turn (h : Handle kind) (n : Nat) : (h.turn n).length = n := by
  induction n generalizing h with
  | zero => rfl
  | succ n ih => simp [turn, ih]

/-- The handles of a turn are those reached in so many steps. -/
theorem mem_turn_iff {h k : Handle kind} {n : Nat} (hv : h.isValid = true) :
    k ∈ h.turn n ↔ ∃ i < n, k.raw.toNat = (h.raw.toNat - 1 + i) % count + 1 := by
  have hpos := isValid_iff.1 hv
  have hlt : h.raw.toNat < 4294967296 := h.raw.toNat_lt
  induction n generalizing h with
  | zero => simp [turn]
  | succ n ih =>
    have hnext := isValid_next h
    have htail : k ∈ h.next.turn n ↔
        ∃ i < n, k.raw.toNat = (h.next.raw.toNat - 1 + i) % count + 1 :=
      ih hnext (isValid_iff.1 hnext) h.next.raw.toNat_lt
    rw [toNat_next] at htail
    simp only [count] at htail ⊢
    rw [turn, List.mem_cons, htail]
    constructor
    · rintro (rfl | ⟨i, hi, heq⟩)
      · exact ⟨0, by omega, by omega⟩
      · exact ⟨i + 1, by omega, by omega⟩
    · rintro ⟨i, hi, heq⟩
      cases i with
      | zero => exact Or.inl (ext_toNat (by omega))
      | succ i => exact Or.inr ⟨i, by omega, by omega⟩

/-- **A turn meets no handle twice**, as long as it is not longer than there are handles. -/
theorem nodup_turn {h : Handle kind} {n : Nat} (hv : h.isValid = true) (hn : n ≤ count) :
    (h.turn n).Nodup := by
  induction n generalizing h with
  | zero => exact List.nodup_nil
  | succ n ih =>
    refine List.nodup_cons.2 ⟨fun hmem => ?_, ih (isValid_next h) (by omega)⟩
    obtain ⟨i, hi, heq⟩ := (mem_turn_iff (isValid_next h)).1 hmem
    have hpos := isValid_iff.1 hv
    have hlt : h.raw.toNat < 4294967296 := h.raw.toNat_lt
    rw [toNat_next] at heq
    simp only [count] at heq hn
    omega

/-- A whole turn meets every handle. -/
theorem mem_turn_count {h k : Handle kind} (hv : h.isValid = true) (hk : k.isValid = true) {n : Nat}
    (hn : count ≤ n) : k ∈ h.turn n := by
  have hpos := isValid_iff.1 hv
  have hkpos := isValid_iff.1 hk
  have hlt : h.raw.toNat < 4294967296 := h.raw.toNat_lt
  have hklt : k.raw.toNat < 4294967296 := k.raw.toNat_lt
  simp only [count] at hn
  refine (mem_turn_iff hv).2 ⟨(k.raw.toNat + 4294967295 - h.raw.toNat) % 4294967295, by omega, ?_⟩
  simp only [count]
  omega

end Handle

namespace Table

variable {kind : String} {α : Type}

/-- Every handle is in use. -/
def Full (t : Table kind α) : Prop := ∀ h : Handle kind, h.isValid = true → t.contains h = true

/-- A handle that is not in use shows that there is room. -/
theorem not_full_of_free {t : Table kind α} (h : Handle kind) (hv : h.isValid = true)
    (hfree : t.contains h = false) : ¬ t.Full := by
  intro hfull
  rw [hfull h hv] at hfree
  cases hfree

/-- **Zero is neither in use nor next.** -/
structure Proper (t : Table kind α) : Prop where
  next : t.next.isValid = true
  live : ∀ h a, t.get? h = some a → h.isValid = true

/-! ## One new handle -/

/-- If the search ends at a handle in use, all that it has passed are in use. -/
theorem contains_turn_of_contains_freeFrom {t : Table kind α} {es : List (Handle kind × α)}
    {h : Handle kind} (hc : t.contains (t.freeFrom es h) = true) :
    ∀ k ∈ h.turn (es.length + 1), t.contains k = true := by
  induction es generalizing h with
  | nil => simpa [Handle.turn, freeFrom] using hc
  | cons e es ih =>
    rw [freeFrom] at hc
    split at hc
    · next hh =>
      intro k hk
      rcases List.mem_cons.1 hk with rfl | hk
      · exact hh
      · exact ih hc k hk
    · next hh => exact absurd hc hh

theorem isValid_freeFrom {t : Table kind α} {es : List (Handle kind × α)} {h : Handle kind}
    (hv : h.isValid = true) : (t.freeFrom es h).isValid = true := by
  induction es generalizing h with
  | nil => exact hv
  | cons e es ih =>
    rw [freeFrom]
    split
    · exact ih h.isValid_next
    · exact hv

/-- The search for a handle comes to a valid one. -/
theorem isValid_fresh {t : Table kind α} (hv : t.next.isValid = true) : t.fresh.isValid = true :=
  isValid_freeFrom hv

/-- **A handle given out is new**, unless the table is full. -/
theorem get?_fresh {t : Table kind α} (hv : t.next.isValid = true) (hroom : ¬ t.Full) :
    t.get? t.fresh = none := by
  cases hget : t.get? t.fresh with
  | none => rfl
  | some a =>
    exfalso
    have hall := contains_turn_of_contains_freeFrom (contains_iff.2 ⟨a, hget⟩)
    have hsize : t.objects.entries.length = t.handles.length := by simp [handles, toList]
    by_cases hn : Handle.count ≤ t.objects.entries.length + 1
    · exact hroom fun h hh => hall h (Handle.mem_turn_count hv hh hn)
    · have hnodup := Handle.nodup_turn hv (n := t.objects.entries.length + 1) (by omega)
      have hsub : t.next.turn (t.objects.entries.length + 1) ⊆ t.handles := fun k hk =>
        mem_handles_iff.2 (hall k hk)
      have := hnodup.length_le_of_subset hsub
      rw [Handle.length_turn] at this
      omega

@[simp] theorem next_create (t : Table kind α) (a : α) : (t.create a).2.next = t.fresh.next := rfl

/-- A full table stays full. -/
theorem Full.create {t : Table kind α} (ht : t.Full) (a : α) : (t.create a).2.Full := by
  intro h hv
  obtain ⟨b, hb⟩ := contains_iff.1 (ht h hv)
  rw [contains_eq, get?_create]
  split
  · rfl
  · rw [hb]; rfl

/-- A table stays proper when an object is added. -/
theorem Proper.create {t : Table kind α} (ht : t.Proper) (a : α) : (t.create a).2.Proper where
  next := t.fresh.isValid_next
  live h b hb := by
    rw [get?_create] at hb
    split at hb
    · next heq => exact heq ▸ isValid_fresh ht.next
    · exact ht.live h b hb

theorem Proper.modify {t : Table kind α} (ht : t.Proper) (h : Handle kind) (f : α → α) :
    (t.modify h f).Proper where
  next := ht.next
  live k b hb := by
    cases hk : t.get? k with
    | none =>
      rw [get?_modify, hk] at hb
      simp at hb
    | some a => exact ht.live k a hk

/-- It does so when one is removed. -/
theorem Proper.erase {t : Table kind α} (ht : t.Proper) (h : Handle kind) : (t.erase h).Proper where
  next := ht.next
  live k b hb := by
    rw [get?_erase] at hb
    split at hb
    · cases hb
    · exact ht.live k b hb

theorem Proper.eraseIf {t : Table kind α} (ht : t.Proper) (h : Handle kind) (p : α → Bool) :
    (t.eraseIf h p).Proper := by
  rw [Table.eraseIf]
  split
  · exact ht.erase h
  · exact ht

/-- A table with fewer objects and the same counter is proper. -/
theorem Proper.of_subset {s t : Table kind α} (ht : t.Proper) (hnext : s.next = t.next)
    (hlive : ∀ h, t.get? h = none → s.get? h = none) : s.Proper where
  next := hnext ▸ ht.next
  live h a ha := by
    cases hget : t.get? h with
    | none =>
      rw [hlive h hget] at ha
      cases ha
    | some b => exact ht.live h b hget

/-- **The table shrank to another**: the counter is the same, and no handle became live. -/
structure Shrinks (s t : Table kind α) : Prop where
  next : t.next = s.next
  gone : ∀ h, s.get? h = none → t.get? h = none

namespace Shrinks

variable {r s t : Table kind α}

theorem refl (t : Table kind α) : t.Shrinks t := ⟨rfl, fun _ => id⟩

theorem trans (h : r.Shrinks s) (h' : s.Shrinks t) : r.Shrinks t :=
  ⟨h'.next.trans h.next, fun k hk => h'.gone k (h.gone k hk)⟩

/-- A table has shrunk if its counter is the same and no handle is new. -/
theorem of_live (hnext : t.next = s.next)
    (hlive : ∀ h a, t.get? h = some a → ∃ b, s.get? h = some b) :
    s.Shrinks t := by
  refine ⟨hnext, fun h hs => Option.eq_none_iff_forall_ne_some.2 fun a ha => ?_⟩
  obtain ⟨b, hb⟩ := hlive h a ha
  rw [hs] at hb
  cases hb

theorem modify (t : Table kind α) (h : Handle kind) (f : α → α) : t.Shrinks (t.modify h f) := by
  refine ⟨rfl, fun k hk => ?_⟩
  rw [get?_modify, hk]
  exact ite_self none

theorem erase (t : Table kind α) (h : Handle kind) : t.Shrinks (t.erase h) := by
  refine ⟨rfl, fun k hk => ?_⟩
  rw [get?_erase, hk]
  exact ite_self none

theorem proper (h : s.Shrinks t) (hs : s.Proper) : t.Proper := hs.of_subset h.next h.gone

/-- What is there after shrinking was there before. -/
theorem contains (h : s.Shrinks t) {k : Handle kind} (hk : t.contains k = true) :
    s.contains k = true := by
  obtain ⟨a, ha⟩ := contains_iff.1 hk
  cases hget : s.get? k with
  | none =>
    rw [h.gone k hget] at ha
    cases ha
  | some b => exact contains_iff.2 ⟨b, hget⟩

/-- A table that is full after shrinking was full before. -/
theorem full (h : s.Shrinks t) (ht : t.Full) : s.Full := fun k hk => h.contains (ht k hk)

end Shrinks

theorem Proper.empty : (∅ : Table kind α).Proper where
  next := rfl
  live h a ha := by cases ha

/-- The table after an object was added and removed again: only the counter has moved. -/
def skip (t : Table kind α) : Table kind α := { t with next := t.fresh.next }

/-- Skipping a handle changes no object. -/
@[simp] theorem get?_skip (t : Table kind α) (h : Handle kind) : t.skip.get? h = t.get? h := rfl

@[simp] theorem next_skip (t : Table kind α) : t.skip.next = t.fresh.next := rfl

theorem Proper.skip {t : Table kind α} (ht : t.Proper) : t.skip.Proper where
  next := t.fresh.isValid_next
  live := ht.live

/-- To add an object and to remove it again is to skip its handle. -/
theorem erase_create {t : Table kind α} (hfresh : t.get? t.fresh = none) (a : α) :
    (t.create a).2.erase t.fresh = t.skip := by
  refine ext_get? rfl fun k => ?_
  rw [get?_erase, get?_create, get?_skip]
  by_cases hk : k = t.fresh
  · rw [if_pos hk, hk, hfresh]
  · rw [if_neg hk, if_neg hk]

/-- **A search that may create** finds an object that passes, or makes one because none does. -/
theorem findOrCreate_cases (t : Table kind α) (p : α → Bool) (a : α) :
    (∃ h b, t.get? h = some b ∧ p b = true ∧ t.findHandle? p = some h ∧
        t.findOrCreate p a = ((h, false), t)) ∨
      (t.findHandle? p = none ∧ t.findOrCreate p a = ((t.fresh, true), (t.create a).2)) := by
  rw [findOrCreate]
  cases hfind : t.findHandle? p with
  | none => exact Or.inr ⟨rfl, rfl⟩
  | some h =>
    obtain ⟨⟨b, hb, hp⟩, -⟩ := findHandle?_least hfind
    exact Or.inl ⟨h, b, hb, hp, rfl, rfl⟩

/-- Handles that name objects are numbers from one on, so a table never outgrows its count. -/
theorem size_lt {t : Table kind α} (ht : t.Proper) : t.size < UInt32.size := by
  have hsub : t.handles ⊆ (⟨1⟩ : Handle kind).turn Handle.count := by
    intro h hh
    obtain ⟨a, ha⟩ := Option.isSome_iff_exists.1 (mem_handles_iff.1 hh)
    exact Handle.mem_turn_count rfl (ht.live h a ha) (Nat.le_refl _)
  have := t.nodup_handles.length_le_of_subset hsub
  rw [Handle.length_turn, length_handles] at this
  exact Nat.lt_of_le_of_lt this (by decide)

/-! ## Several new handles -/

/-- Several objects are added one after the other. -/
theorem createAll_cons (t : Table kind α) (a : α) (as : List α) :
    t.createAll (a :: as)
      = (t.fresh :: ((t.create a).2.createAll as).1, ((t.create a).2.createAll as).2) := rfl

theorem Full.createAll {t : Table kind α} (ht : t.Full) (as : List α) :
    (t.createAll as).2.Full := by
  induction as generalizing t with
  | nil => exact ht
  | cons a as ih => exact ih (ht.create a)

theorem Proper.createAll {t : Table kind α} (ht : t.Proper) (as : List α) :
    (t.createAll as).2.Proper := by
  induction as generalizing t with
  | nil => exact ht
  | cons a as ih => exact ih (ht.create a)

/-- Handles that were not given out mean what they meant. -/
theorem get?_createAll_of_notMem {t : Table kind α} {as : List α} {h : Handle kind}
    (hh : h ∉ (t.createAll as).1) : (t.createAll as).2.get? h = t.get? h := by
  induction as generalizing t with
  | nil => rfl
  | cons a as ih =>
    rw [createAll_cons] at hh ⊢
    simp only [List.mem_cons, not_or] at hh
    obtain ⟨hne, hmem⟩ := hh
    rw [ih hmem, get?_create, if_neg hne]

/-- An object of the larger table is one of those added, or was there. -/
theorem get?_createAll_cases {t : Table kind α} {as : List α} {h : Handle kind} {a : α}
    (hget : (t.createAll as).2.get? h = some a) : a ∈ as ∨ t.get? h = some a := by
  induction as generalizing t with
  | nil => exact Or.inr hget
  | cons b as ih =>
    rw [createAll_cons] at hget
    rcases ih hget with hmem | hget
    · exact Or.inl (List.mem_cons_of_mem b hmem)
    · rw [get?_create] at hget
      split at hget
      · cases hget
        exact Or.inl List.mem_cons_self
      · exact Or.inr hget

/-- **The handles of new objects are new and distinct**, unless the table is full afterwards. -/
theorem createAll_fresh {t : Table kind α} (ht : t.Proper) {as : List α}
    (hroom : ¬ (t.createAll as).2.Full) :
    (t.createAll as).1.Nodup ∧ ∀ h ∈ (t.createAll as).1, t.get? h = none := by
  induction as generalizing t with
  | nil => exact ⟨List.nodup_nil, by simp [createAll]⟩
  | cons a as ih =>
    rw [createAll_cons] at hroom ⊢
    obtain ⟨hnodup, hnew⟩ := ih (ht.create a) hroom
    have hfresh : t.get? t.fresh = none :=
      get?_fresh ht.next fun hfull => hroom ((hfull.create a).createAll as)
    refine ⟨List.nodup_cons.2 ⟨fun hmem => ?_, hnodup⟩, fun h hh => ?_⟩
    · have := hnew _ hmem
      simp at this
    · rcases List.mem_cons.1 hh with rfl | hh
      · exact hfresh
      · have := hnew h hh
        rw [get?_create] at this
        split at this
        · cases this
        · exact this

/-- Each new object stands under its own handle. -/
theorem map_get?_createAll {t : Table kind α} (ht : t.Proper) {as : List α}
    (hroom : ¬ (t.createAll as).2.Full) :
    (t.createAll as).1.map (t.createAll as).2.get? = as.map some := by
  induction as generalizing t with
  | nil => rfl
  | cons a as ih =>
    have hnodup := (createAll_fresh ht hroom).1
    rw [createAll_cons] at hroom hnodup ⊢
    have hhead : ((t.create a).2.createAll as).2.get? t.fresh = some a := by
      rw [get?_createAll_of_notMem (List.nodup_cons.1 hnodup).1, get?_create, if_pos rfl]
    simp only [List.map_cons, hhead, ih (ht.create a) hroom]

end Table

end StepScript
