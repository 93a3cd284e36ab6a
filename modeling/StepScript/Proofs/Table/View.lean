import StepScript.Table

/-!
# Proofs/Table/View — tables through their view

What the operations on a table do to `Table.get?`, and how the lists that a table gives out relate
to it: `Table.toList` holds each live object once, in increasing order of the handles, so a search
along it finds the smallest handle (`Table.findHandle?_eq_some_iff`).
-/

namespace StepScript

namespace Table

variable {kind : String} {α β : Type}

/-! ## The list of objects -/

/-- A table lists what its handles mean. -/
theorem mem_toList_iff {t : Table kind α} {h : Handle kind} {a : α} :
    (h, a) ∈ t.toList ↔ t.get? h = some a := by
  rw [toList, List.mem_reverse]
  exact t.objects.mem_entries_iff h a

/-- It does so in the order of the handles. -/
theorem pairwise_toList (t : Table kind α) : t.toList.Pairwise fun d e => d.1.raw < e.1.raw := by
  rw [toList, List.pairwise_reverse]
  refine t.objects.sorted.imp fun {d e} hlt => ?_
  exact Std.compare_eq_lt.1 hlt

/-- The handles of a table are those that mean something. -/
theorem mem_handles_iff {t : Table kind α} {h : Handle kind} :
    h ∈ t.handles ↔ (t.get? h).isSome := by
  rw [handles, List.mem_map, Option.isSome_iff_exists]
  constructor
  · rintro ⟨⟨k, a⟩, hmem, rfl⟩
    exact ⟨a, mem_toList_iff.1 hmem⟩
  · rintro ⟨a, ha⟩
    exact ⟨(h, a), mem_toList_iff.2 ha, rfl⟩

theorem nodup_handles (t : Table kind α) : t.handles.Nodup := by
  rw [handles, List.nodup_iff_pairwise_ne, List.pairwise_map]
  refine t.pairwise_toList.imp fun {d e} hlt heq => ?_
  rw [heq] at hlt
  exact absurd hlt (UInt32.lt_irrefl _)

theorem length_handles (t : Table kind α) : t.handles.length = t.size := by
  simp [handles, toList, size, Assoc.size]

/-- A handle is in use if it means something. -/
theorem contains_iff {t : Table kind α} {h : Handle kind} :
    t.contains h = true ↔ ∃ a, t.get? h = some a := by
  rw [contains_eq, Option.isSome_iff_exists]

theorem contains_modify (t : Table kind α) (h k : Handle kind) (f : α → α) :
    (t.modify h f).contains k = t.contains k := by
  rw [contains_eq, contains_eq, get?_modify]
  split <;> simp

/-! ## Searching -/

/-- No handle is found if no object passes the test. -/
theorem findHandle?_eq_none_iff {t : Table kind α} {p : α → Bool} :
    t.findHandle? p = none ↔ ∀ h a, t.get? h = some a → p a = false := by
  rw [findHandle?, Option.map_eq_none_iff, List.find?_eq_none]
  constructor
  · intro h k a hk
    simpa using h (k, a) (mem_toList_iff.2 hk)
  · rintro h ⟨k, a⟩ hm
    simp [h k a (mem_toList_iff.1 hm)]

/-- The object found passes, and no smaller handle has one that does. -/
theorem findHandle?_least {t : Table kind α} {p : α → Bool} {h : Handle kind}
    (hfind : t.findHandle? p = some h) :
    (∃ a, t.get? h = some a ∧ p a = true) ∧
      ∀ k b, t.get? k = some b → p b = true → h.raw ≤ k.raw := by
  obtain ⟨e, he, rfl⟩ := Option.map_eq_some_iff.1 hfind
  obtain ⟨hp, front, back, hlist, hfront⟩ := List.find?_eq_some_iff_append.1 he
  have hget : t.get? e.1 = some e.2 := mem_toList_iff.1 (by rw [hlist]; simp)
  refine ⟨⟨e.2, hget, hp⟩, fun k b hk hb => ?_⟩
  have hmem : (k, b) ∈ front ++ e :: back := hlist ▸ mem_toList_iff.2 hk
  have hsorted := t.pairwise_toList
  rw [hlist, List.pairwise_append] at hsorted
  rcases List.mem_append.1 hmem with hm | hm
  · have := hfront _ hm
    simp [hb] at this
  · rcases List.mem_cons.1 hm with rfl | hm
    · exact UInt32.le_refl _
    · exact UInt32.le_of_lt ((List.pairwise_cons.1 hsorted.2.1).1 _ hm)

/-- **The handle a search finds** is the smallest whose object passes. -/
theorem findHandle?_eq_some_iff {t : Table kind α} {p : α → Bool} {h : Handle kind} :
    t.findHandle? p = some h ↔
      (∃ a, t.get? h = some a ∧ p a = true) ∧
        ∀ k b, t.get? k = some b → p b = true → h.raw ≤ k.raw := by
  refine ⟨findHandle?_least, ?_⟩
  rintro ⟨⟨a, ha, hp⟩, hleast⟩
  cases hfind : t.findHandle? p with
  | none =>
    have := findHandle?_eq_none_iff.1 hfind h a ha
    rw [hp] at this
    cases this
  | some k =>
    obtain ⟨⟨b, hb, hpb⟩, hk⟩ := findHandle?_least hfind
    have heq : h.raw = k.raw := UInt32.le_antisymm (hleast k b hb hpb) (hk h a ha hp)
    cases h; cases k
    simp_all

/-! ## Removing and changing -/

/-- After removing several objects, their handles mean nothing and the others what they meant. -/
@[simp] theorem get?_eraseAll (t : Table kind α) (hs : List (Handle kind)) (h : Handle kind) :
    (t.eraseAll hs).get? h = if h ∈ hs then none else t.get? h := by
  induction hs generalizing t with
  | nil => simp [eraseAll]
  | cons k hs ih =>
    rw [eraseAll, List.foldl_cons, ← eraseAll, ih, get?_erase]
    by_cases hk : h = k <;> by_cases hm : h ∈ hs <;> simp [hk, hm]

@[simp] theorem next_eraseAll (t : Table kind α) (hs : List (Handle kind)) :
    (t.eraseAll hs).next = t.next := by
  induction hs generalizing t with
  | nil => rfl
  | cons k hs ih => rw [eraseAll, List.foldl_cons, ← eraseAll, ih, next_erase]

/-- A change that leaves the object as it is changes nothing. -/
theorem modify_eq_self {t : Table kind α} {h : Handle kind} {f : α → α}
    (hf : ∀ a, t.get? h = some a → f a = a) : t.modify h f = t := by
  refine ext_get? rfl fun k => ?_
  rw [get?_modify]
  split
  · next hk =>
    subst hk
    cases hget : t.get? k with
    | none => rfl
    | some a => simp [hf a hget]
  · rfl

/-- A part of the objects that a change leaves alone is seen unchanged. -/
theorem map_get?_modify (t : Table kind α) {h : Handle kind} (k : Handle kind) {f : α → α}
    {v : α → β} (hf : ∀ a, t.get? h = some a → v (f a) = v a) :
    ((t.modify h f).get? k).map v = (t.get? k).map v := by
  rw [get?_modify]
  by_cases hk : k = h
  · subst hk
    cases hget : t.get? k with
    | none => simp
    | some a => simp [hf a hget]
  · rw [if_neg hk]

/-- It does not matter how an object was changed that is removed. -/
theorem erase_modify (t : Table kind α) (h : Handle kind) (f : α → α) :
    (t.modify h f).erase h = t.erase h := by
  refine ext_get? rfl fun k => ?_
  rw [get?_erase, get?_erase, get?_modify]
  by_cases hk : k = h <;> simp [hk]

theorem erase_eq_self {t : Table kind α} {h : Handle kind} (hh : t.get? h = none) :
    t.erase h = t := by
  refine ext_get? rfl fun k => ?_
  rw [get?_erase]
  split
  · next hk => rw [hk, hh]
  · rfl

end Table

end StepScript
