/-!
# Assoc — finite maps in key order

A finite map is the list of its entries, sorted by key without repetition, so two maps with the same
entries are equal. The order is a comparison `cmp`; texts use their own order, and tables of handles
keep the newest handle first.

* `Assoc.find?` is the view of a map: every operation comes with the lemma that says what it does to
  `find?`, and two maps with the same view are equal (`Assoc.ext_find?`).
-/

namespace StepScript

variable {κ α β : Type}

namespace Assoc

/-! ## Entries -/

/-- The value of the first entry with the key. -/
def lookup [DecidableEq κ] (k : κ) : List (κ × α) → Option α
  | [] => none
  | (k', v) :: es => if k = k' then some v else lookup k es

/-- The value at a key among entries in key order; the search ends where the key would have to
stand. -/
def seek (cmp : κ → κ → Ordering) (k : κ) : List (κ × α) → Option α
  | [] => none
  | (k', v) :: es =>
    match cmp k k' with
    | .lt => none
    | .eq => some v
    | .gt => seek cmp k es

/-- Puts an entry before the first one that does not come before it, replacing one of equal key. -/
def put [DecidableEq κ] (cmp : κ → κ → Ordering) (k : κ) (v : α) : List (κ × α) → List (κ × α)
  | [] => [(k, v)]
  | (k', v') :: es =>
    if k = k' then (k, v) :: es
    else if cmp k k' = .lt then (k, v) :: (k', v') :: es
    else (k', v') :: put cmp k v es

/-- Drops the first entry with the key. -/
def drop [DecidableEq κ] (k : κ) : List (κ × α) → List (κ × α)
  | [] => []
  | (k', v) :: es => if k = k' then es else (k', v) :: drop k es

/-- Changes the value of the first entry with the key. -/
def change [DecidableEq κ] (k : κ) (f : α → α) : List (κ × α) → List (κ × α)
  | [] => []
  | (k', v) :: es => if k = k' then (k', f v) :: es else (k', v) :: change k f es

/-- The entries stand in strictly increasing key order. -/
def Sorted (cmp : κ → κ → Ordering) (es : List (κ × α)) : Prop :=
  es.Pairwise fun a b => cmp a.1 b.1 = .lt

section

variable [DecidableEq κ] {cmp : κ → κ → Ordering}

theorem lookup_put (k k' : κ) (v : α) (es : List (κ × α)) :
    lookup k' (put cmp k v es) = if k' = k then some v else lookup k' es := by
  induction es with
  | nil => simp [put, lookup]
  | cons e es ih => grind [put, lookup]

theorem lookup_change (k k' : κ) (f : α → α) (es : List (κ × α)) :
    lookup k' (change k f es) = if k' = k then (lookup k' es).map f else lookup k' es := by
  induction es with
  | nil => simp [change, lookup]
  | cons e es ih => grind [change, lookup]

theorem keys_change (k : κ) (f : α → α) (es : List (κ × α)) :
    (change k f es).map Prod.fst = es.map Prod.fst := by
  induction es with
  | nil => rfl
  | cons e es ih => grind [change]

theorem mem_put {k : κ} {v : α} {es : List (κ × α)} {e : κ × α} (h : e ∈ put cmp k v es) :
    e = (k, v) ∨ e ∈ es := by
  induction es with
  | nil => simpa [put] using h
  | cons d es ih => grind [put]

theorem drop_sublist (k : κ) (es : List (κ × α)) : (drop k es).Sublist es := by
  induction es with
  | nil => exact .slnil
  | cons e es ih =>
    obtain ⟨k', v⟩ := e
    by_cases h : k = k'
    · simp [drop, h]
    · simpa [drop, h] using ih.cons_cons (k', v)

theorem sorted_drop {k : κ} {es : List (κ × α)} (h : Sorted cmp es) : Sorted cmp (drop k es) :=
  List.Pairwise.sublist (drop_sublist k es) h

theorem sorted_change {k : κ} {f : α → α} {es : List (κ × α)} (h : Sorted cmp es) :
    Sorted cmp (change k f es) := by
  have byKeys : ∀ xs : List (κ × α), Sorted cmp xs ↔
      (xs.map Prod.fst).Pairwise (cmp · · = .lt) := by
    intro xs
    rw [List.pairwise_map]
    rfl
  rw [byKeys, keys_change, ← byKeys]
  exact h

theorem lookup_eq_none {k : κ} {es : List (κ × α)} (h : ∀ e ∈ es, e.1 ≠ k) :
    lookup k es = none := by
  induction es with
  | nil => rfl
  | cons e es ih => grind [lookup]

theorem mem_of_lookup {k : κ} {v : α} {es : List (κ × α)} (h : lookup k es = some v) :
    (k, v) ∈ es := by
  induction es with
  | nil => simp [lookup] at h
  | cons e es ih => grind [lookup]

variable [Std.TransCmp cmp] [Std.LawfulEqCmp cmp]

theorem sorted_put {k : κ} {v : α} {es : List (κ × α)} (h : Sorted cmp es) :
    Sorted cmp (put cmp k v es) := by
  induction es with
  | nil => simp [put, Sorted]
  | cons e es ih =>
    obtain ⟨k', v'⟩ := e
    obtain ⟨head, tail⟩ := List.pairwise_cons.1 h
    by_cases hk : k = k'
    · subst hk
      simp only [put, if_true]
      exact List.pairwise_cons.2 ⟨head, tail⟩
    · by_cases hlt : cmp k k' = .lt
      · simp only [put, hk, hlt, if_false, if_true]
        refine List.pairwise_cons.2 ⟨fun e he => ?_, h⟩
        rcases List.mem_cons.1 he with rfl | he
        · exact hlt
        · exact Std.TransCmp.lt_trans hlt (head e he)
      · simp only [put, hk, hlt, if_false]
        refine List.pairwise_cons.2 ⟨fun e he => ?_, ih tail⟩
        rcases mem_put he with rfl | he
        · rcases hc : cmp k k' with _ | _ | _
          · exact absurd hc hlt
          · exact absurd (Std.LawfulEqCmp.eq_of_compare hc) hk
          · exact Std.OrientedCmp.gt_iff_lt.1 hc
        · exact head e he

omit [DecidableEq κ] [Std.TransCmp cmp] in
/-- A later key does not occur earlier. -/
theorem Sorted.fst_ne {k : κ} {v : α} {es : List (κ × α)} (h : Sorted cmp ((k, v) :: es)) :
    ∀ e ∈ es, e.1 ≠ k := by
  intro e he heq
  have := (List.pairwise_cons.1 h).1 e he
  rw [heq] at this
  simp [Std.ReflCmp.compare_self] at this

omit [Std.TransCmp cmp] in
theorem lookup_of_mem {k : κ} {v : α} {es : List (κ × α)} (h : Sorted cmp es)
    (hm : (k, v) ∈ es) : lookup k es = some v := by
  induction es with
  | nil => simp at hm
  | cons e es ih =>
    obtain ⟨k', v'⟩ := e
    rcases List.mem_cons.1 hm with heq | hm
    · cases heq
      simp [lookup]
    · have hne : k ≠ k' := Sorted.fst_ne h (k, v) hm
      simpa [lookup, hne] using ih (List.pairwise_cons.1 h).2 hm

omit [Std.TransCmp cmp] in
theorem lookup_drop {k k' : κ} {es : List (κ × α)} (h : Sorted cmp es) :
    lookup k' (drop k es) = if k' = k then none else lookup k' es := by
  induction es with
  | nil => simp [drop, lookup]
  | cons e es ih =>
    obtain ⟨k₁, v⟩ := e
    have tail := ih (List.pairwise_cons.1 h).2
    by_cases hk : k = k₁
    · subst hk
      by_cases hk' : k' = k
      · subst hk'
        simp [drop, lookup_eq_none (Sorted.fst_ne h)]
      · simp [drop, lookup, hk']
    · by_cases hk' : k' = k
      · subst hk'
        simpa [drop, lookup, hk] using tail
      · by_cases h₁ : k' = k₁ <;> simp_all [drop, lookup]

/-- Among sorted entries the ordered search finds what a full one finds. -/
theorem seek_eq_lookup (k : κ) {es : List (κ × α)} (h : Sorted cmp es) :
    seek cmp k es = lookup k es := by
  induction es with
  | nil => rfl
  | cons e es ih =>
    obtain ⟨k', v⟩ := e
    obtain ⟨head, tail⟩ := List.pairwise_cons.1 h
    rcases hc : cmp k k' with _ | _ | _
    · have hne : ∀ e ∈ (k', v) :: es, e.1 ≠ k := by
        rintro e he rfl
        rcases List.mem_cons.1 he with rfl | he
        · simp [Std.ReflCmp.compare_self] at hc
        · have := Std.TransCmp.lt_trans hc (head e he)
          simp [Std.ReflCmp.compare_self] at this
      rw [lookup_eq_none hne]
      simp [seek, hc]
    · obtain rfl := Std.LawfulEqCmp.eq_of_compare hc
      simp [seek, lookup, hc]
    · have hne : k ≠ k' := by
        rintro rfl
        simp [Std.ReflCmp.compare_self] at hc
      simpa [seek, lookup, hc, hne] using ih tail

/-- Two sorted lists of entries with the same view are equal. -/
theorem Sorted.ext {xs ys : List (κ × α)} (hx : Sorted cmp xs) (hy : Sorted cmp ys)
    (h : ∀ k, lookup k xs = lookup k ys) : xs = ys := by
  induction xs generalizing ys with
  | nil =>
    cases ys with
    | nil => rfl
    | cons e ys =>
      have := h e.1
      simp [lookup] at this
  | cons x xs ih =>
    cases ys with
    | nil =>
      have := h x.1
      simp [lookup] at this
    | cons y ys =>
      obtain ⟨k, v⟩ := x
      obtain ⟨k', v'⟩ := y
      have headx := (List.pairwise_cons.1 hx).1
      have heady := (List.pairwise_cons.1 hy).1
      have hkk : k = k' := by
        by_cases hne : k = k'
        · exact hne
        · exfalso
          have h1 := h k
          have h2 := h k'
          have hne' : k' ≠ k := fun e => hne e.symm
          simp only [lookup, hne, hne', if_true, if_false] at h1 h2
          have l1 := heady _ (mem_of_lookup h1.symm)
          have l2 := headx _ (mem_of_lookup h2)
          have := Std.TransCmp.lt_trans l1 l2
          simp [Std.ReflCmp.compare_self] at this
      subst hkk
      have hv := h k
      simp only [lookup, if_true, Option.some.injEq] at hv
      subst hv
      congr 1
      refine ih (List.pairwise_cons.1 hx).2 (List.pairwise_cons.1 hy).2 fun j => ?_
      by_cases hj : j = k
      · subst hj
        rw [lookup_eq_none (Sorted.fst_ne hx), lookup_eq_none (Sorted.fst_ne hy)]
      · have := h j
        simpa [lookup, hj] using this

end

end Assoc

/-- **A finite map**, held as its entries in key order. -/
structure Assoc (κ α : Type) (cmp : κ → κ → Ordering) where
  entries : List (κ × α)
  sorted : Assoc.Sorted cmp entries

namespace Assoc

variable {cmp : κ → κ → Ordering}

instance [DecidableEq κ] [DecidableEq α] : DecidableEq (Assoc κ α cmp) := fun m n =>
  decidable_of_iff (m.entries = n.entries) ⟨fun h => by cases m; cases n; cases h; rfl,
    fun h => h ▸ rfl⟩

/-- The map without entries. -/
def empty : Assoc κ α cmp := ⟨[], .nil⟩

instance : EmptyCollection (Assoc κ α cmp) := ⟨empty⟩

instance : Inhabited (Assoc κ α cmp) := ⟨empty⟩

/-- The number of entries. -/
def size (m : Assoc κ α cmp) : Nat := m.entries.length

/-- Whether there is no entry. -/
def isEmpty (m : Assoc κ α cmp) : Bool := m.entries.isEmpty

/-- The keys, in order. -/
def keys (m : Assoc κ α cmp) : List κ := m.entries.map Prod.fst

/-- The value at a key. -/
def find? (m : Assoc κ α cmp) (k : κ) : Option α := seek cmp k m.entries

/-- Whether a key has a value. -/
def contains (m : Assoc κ α cmp) (k : κ) : Bool := (m.find? k).isSome

variable [DecidableEq κ]

/-- Removes a key. -/
def erase (m : Assoc κ α cmp) (k : κ) : Assoc κ α cmp := ⟨drop k m.entries, sorted_drop m.sorted⟩

/-- Changes the value at a key, if there is one. -/
def modify (m : Assoc κ α cmp) (k : κ) (f : α → α) : Assoc κ α cmp :=
  ⟨change k f m.entries, sorted_change m.sorted⟩

variable [Std.TransCmp cmp] [Std.LawfulEqCmp cmp]

/-- Gives a key a value, replacing the one it had. -/
def insert (m : Assoc κ α cmp) (k : κ) (v : α) : Assoc κ α cmp :=
  ⟨put cmp k v m.entries, sorted_put m.sorted⟩

/-- The map of a list of entries; a later entry replaces an earlier one of equal key. -/
def ofList (es : List (κ × α)) : Assoc κ α cmp := es.foldl (fun m e => m.insert e.1 e.2) empty

/-! ## The view -/

omit [DecidableEq κ] [Std.TransCmp cmp] [Std.LawfulEqCmp cmp] in
@[simp] theorem find?_empty (k : κ) : (∅ : Assoc κ α cmp).find? k = none := rfl

theorem find?_eq_lookup (m : Assoc κ α cmp) (k : κ) : m.find? k = lookup k m.entries :=
  seek_eq_lookup k m.sorted

@[simp] theorem find?_insert (m : Assoc κ α cmp) (k k' : κ) (v : α) :
    (m.insert k v).find? k' = if k' = k then some v else m.find? k' := by
  simp only [find?_eq_lookup]
  exact lookup_put k k' v m.entries

@[simp] theorem find?_erase (m : Assoc κ α cmp) (k k' : κ) :
    (m.erase k).find? k' = if k' = k then none else m.find? k' := by
  simp only [find?_eq_lookup]
  exact lookup_drop m.sorted

@[simp] theorem find?_modify (m : Assoc κ α cmp) (k k' : κ) (f : α → α) :
    (m.modify k f).find? k' = if k' = k then (m.find? k').map f else m.find? k' := by
  simp only [find?_eq_lookup]
  exact lookup_change k k' f m.entries

/-- **A map is its view.** -/
theorem ext_find? {m n : Assoc κ α cmp} (h : ∀ k, m.find? k = n.find? k) : m = n := by
  simp only [find?_eq_lookup] at h
  have := Sorted.ext m.sorted n.sorted h
  cases m; cases n
  simp_all

theorem mem_entries_iff (m : Assoc κ α cmp) (k : κ) (v : α) :
    (k, v) ∈ m.entries ↔ m.find? k = some v := by
  rw [find?_eq_lookup]
  exact ⟨lookup_of_mem m.sorted, mem_of_lookup⟩

end Assoc

end StepScript
