import StepScript.Proofs.Table.Fresh

/-!
# Proofs/Table/Shift — tables that differ in their handles

A table that was saved and loaded gives out other handles than the original, because its counter
starts again after the largest handle in use. Up to that gap the two tables stay in step.

* `Shift` — a renaming of handles that closes a gap; the handles in the gap go to the end, so
  nothing is lost and the renaming can be undone.
* `Table.Ahead` — the counter has not gone round: it is past every handle in use.
* `Table.Renamed` — two tables in step, with one lemma for each operation.
-/

namespace StepScript

/-- **A renaming of handles that closes a gap** of `gap` handles from `low` on. -/
structure Shift where
  low : Nat
  gap : Nat
  bound : low + gap ≤ 4294967296
  /-- The handles below the gap that are in use to begin with. -/
  kept : UInt32 → Prop
  kept_lt : ∀ n, kept n → n.toNat < low

namespace Shift

variable {kind : String} (π : Shift)

/-- The handle that stands for a handle. -/
def apply (h : Handle kind) : Handle kind :=
  ⟨UInt32.ofNat <|
    if h.raw.toNat < π.low then h.raw.toNat
    else if h.raw.toNat < π.low + π.gap then h.raw.toNat + (4294967296 - (π.low + π.gap))
    else h.raw.toNat - π.gap⟩

/-- The handle that a handle stands for. -/
def back (h : Handle kind) : Handle kind :=
  ⟨UInt32.ofNat <|
    if h.raw.toNat < π.low then h.raw.toNat
    else if h.raw.toNat + π.gap < 4294967296 then h.raw.toNat + π.gap
    else h.raw.toNat - (4294967296 - (π.low + π.gap))⟩

variable {π}

/-- A shift leaves low handles alone, takes the gap out of the others, and puts it at the end. -/
theorem toNat_apply (h : Handle kind) :
    (π.apply h).raw.toNat =
      if h.raw.toNat < π.low then h.raw.toNat
      else if h.raw.toNat < π.low + π.gap then h.raw.toNat + (4294967296 - (π.low + π.gap))
      else h.raw.toNat - π.gap := by
  have hlt : h.raw.toNat < 4294967296 := h.raw.toNat_lt
  have hbound := π.bound
  rw [apply, UInt32.toNat_ofNat']
  refine Nat.mod_eq_of_lt ?_
  change _ < 4294967296
  split
  · exact hlt
  · split <;> omega

theorem toNat_back (h : Handle kind) :
    (π.back h).raw.toNat =
      if h.raw.toNat < π.low then h.raw.toNat
      else if h.raw.toNat + π.gap < 4294967296 then h.raw.toNat + π.gap
      else h.raw.toNat - (4294967296 - (π.low + π.gap)) := by
  have hlt : h.raw.toNat < 4294967296 := h.raw.toNat_lt
  have hbound := π.bound
  rw [back, UInt32.toNat_ofNat']
  refine Nat.mod_eq_of_lt ?_
  change _ < 4294967296
  split
  · exact hlt
  · split <;> omega

/-- A shift can be taken back. -/
@[simp] theorem apply_back (h : Handle kind) : π.apply (π.back h) = h := by
  have hlt : h.raw.toNat < 4294967296 := h.raw.toNat_lt
  have hbound := π.bound
  refine Handle.ext_toNat ?_
  rw [toNat_apply, toNat_back]
  grind

@[simp] theorem back_apply (h : Handle kind) : π.back (π.apply h) = h := by
  have hlt : h.raw.toNat < 4294967296 := h.raw.toNat_lt
  have hbound := π.bound
  refine Handle.ext_toNat ?_
  rw [toNat_back, toNat_apply]
  grind

/-- It maps no two handles to one. -/
@[simp] theorem apply_inj {h k : Handle kind} : π.apply h = π.apply k ↔ h = k :=
  ⟨fun heq => by rw [← π.back_apply h, heq, back_apply], fun heq => heq ▸ rfl⟩

/-- The handles in use to begin with, and those past the gap. -/
def Spares (π : Shift) (h : Handle kind) : Prop :=
  π.kept h.raw ∨ π.low + π.gap ≤ h.raw.toNat

/-- Low handles are left alone. -/
theorem apply_of_lt {h : Handle kind} (hlt : h.raw.toNat < π.low) : π.apply h = h :=
  Handle.ext_toNat (by rw [toNat_apply, if_pos hlt])

/-- **Handles that are spared keep their order.** -/
theorem apply_lt_iff {h k : Handle kind} (hh : π.Spares h) (hk : π.Spares k) :
    (π.apply h).raw < (π.apply k).raw ↔ h.raw < k.raw := by
  have hh := hh.imp_left (π.kept_lt h.raw)
  have hk := hk.imp_left (π.kept_lt k.raw)
  rw [UInt32.lt_iff_toNat_lt, UInt32.lt_iff_toNat_lt, toNat_apply, toNat_apply]
  split <;> split <;> grind

end Shift

namespace Table

variable {kind : String} {α β : Type}

/-! ## Counters that have not gone round -/

/-- **The counter is past every handle in use.** -/
structure Ahead (t : Table kind α) : Prop where
  next : t.next.isValid = true
  lt : ∀ h, t.contains h = true → h.raw < t.next.raw

/-- The counter has not gone round from one table to the other. -/
structure Onward (t t' : Table kind α) : Prop where
  ahead : t'.Ahead
  le : t.next.raw ≤ t'.next.raw

instance (t : Table kind α) : Decidable t.Ahead :=
  decidable_of_iff (t.next.isValid = true ∧ ∀ h ∈ t.handles, h.raw < t.next.raw)
    ⟨fun ⟨hnext, hlt⟩ => ⟨hnext, fun h hh => hlt h (mem_handles_iff.2 hh)⟩,
      fun ⟨hnext, hlt⟩ => ⟨hnext, fun h hh => hlt h (mem_handles_iff.1 hh)⟩⟩

instance (t t' : Table kind α) : Decidable (t.Onward t') :=
  decidable_of_iff (t'.Ahead ∧ t.next.raw ≤ t'.next.raw) ⟨fun h => ⟨h.1, h.2⟩,
    fun h => ⟨h.ahead, h.le⟩⟩

/-- **A counter that is ahead is free itself**: the search ends where it begins. -/
theorem Ahead.fresh_eq {t : Table kind α} (h : t.Ahead) : t.fresh = t.next := by
  have hfree : t.contains t.next ≠ true := fun hused => absurd (h.lt _ hused) (UInt32.lt_irrefl _)
  rw [fresh]
  cases t.objects.entries with
  | nil => rfl
  | cons e es => rw [freeFrom, if_neg hfree]

/-- A table whose counter is ahead is not full. -/
theorem Ahead.not_full {t : Table kind α} (h : t.Ahead) : ¬ t.Full := fun hfull =>
  absurd (h.lt _ (hfull _ h.next)) (UInt32.lt_irrefl _)

/-- A handle below another is not the last one. -/
theorem toNat_next_of_lt {h k : Handle kind} (hlt : h.raw < k.raw) :
    h.next.raw.toNat = h.raw.toNat + 1 := by
  rw [UInt32.lt_iff_toNat_lt] at hlt
  have hmax : k.raw.toNat < 4294967296 := k.raw.toNat_lt
  rw [Handle.toNat_next]
  simp only [Handle.count]
  omega

theorem Ahead.of_modify {t : Table kind α} {k : Handle kind} {u : α → α}
    (h : (t.modify k u).Ahead) :
    t.Ahead :=
  ⟨h.next, fun k hk => h.lt k (by simpa [contains_eq, apply_ite] using hk)⟩

/-- A counter that skips a handle and does not get smaller has not gone round. -/
theorem Ahead.lt_of_le_skip {t : Table kind α} (h : t.Ahead) (hle : t.next.raw ≤ t.skip.next.raw) :
    t.next.raw < t.skip.next.raw := by
  have hpos := Handle.isValid_iff.1 h.next
  rw [UInt32.le_iff_toNat_le] at hle
  rw [UInt32.lt_iff_toNat_lt]
  rw [next_skip, h.fresh_eq, Handle.toNat_next] at hle ⊢
  simp only [Handle.count] at hle ⊢
  omega

theorem contains_next_create {t : Table kind α} (h : t.Ahead) (a : α) :
    (t.create a).2.contains t.next = true := by
  rw [contains_eq, get?_create, h.fresh_eq, if_pos rfl]
  rfl

/-- Adding objects removes none. -/
theorem contains_createAll {t : Table kind α} {as : List α} {h : Handle kind}
    (hh : t.contains h = true) : (t.createAll as).2.contains h = true := by
  induction as generalizing t with
  | nil => exact hh
  | cons a as ih =>
    rw [createAll_cons]
    refine ih (t := (t.create a).2) ?_
    rw [contains_eq, get?_create]
    split
    · rfl
    · exact hh

/-! ## Tables in step -/

/-- **Two tables in step.** The objects of the second stand for those of the first. -/
structure Renamed (π : Shift) (r : α → α → Prop) (t t' : Table kind α) : Prop where
  live : ∀ h a, t.get? h = some a → ∃ a', t'.get? (π.apply h) = some a' ∧ r a a'
  gone : ∀ h, t.get? h = none → t'.get? (π.apply h) = none
  spares : ∀ h, t.contains h = true → π.Spares h
  ahead : t.Ahead
  next : t.next.raw.toNat = t'.next.raw.toNat + π.gap
  low : π.low ≤ t'.next.raw.toNat
  pos : 1 ≤ π.low

namespace Renamed

variable {π : Shift} {r : α → α → Prop} {t t' : Table kind α} (hr : t.Renamed π r t')

include hr

/-- What is the same of objects that stand for each other can be asked of either table. -/
theorem bind_get? {v v' : α → Option β} (hv : ∀ a a', r a a' → v' a' = v a) (h : Handle kind) :
    (t'.get? (π.apply h)).bind v' = (t.get? h).bind v := by
  cases ha : t.get? h with
  | none => rw [hr.gone h ha]; rfl
  | some a =>
    obtain ⟨a', ha', hrel⟩ := hr.live h a ha
    rw [ha', Option.bind_some, Option.bind_some, hv a a' hrel]

/-- What two tables agree on can be read off either. -/
theorem map_get? {v v' : α → β} (hv : ∀ a a', r a a' → v' a' = v a) (h : Handle kind) :
    (t'.get? (π.apply h)).map v' = (t.get? h).map v := by
  rw [Option.map_eq_bind, Option.map_eq_bind]
  exact hr.bind_get? (fun a a' hrel => congrArg some (hv a a' hrel)) h

theorem contains_apply (h : Handle kind) : t'.contains (π.apply h) = t.contains h := by
  have hsame := congrArg Option.isSome (hr.map_get? (v := fun _ => ()) (fun _ _ _ => rfl) h)
  rwa [Option.isSome_map, Option.isSome_map] at hsame

/-- Every object of the second table stands for one of the first. -/
theorem exists_of_get? {k : Handle kind} {a' : α} (ha' : t'.get? k = some a') :
    ∃ h a, k = π.apply h ∧ t.get? h = some a ∧ r a a' := by
  have hk : π.apply (π.back k) = k := Shift.apply_back k
  cases ha : t.get? (π.back k) with
  | none =>
    have hgone := hr.gone _ ha
    rw [hk, ha'] at hgone
    cases hgone
  | some a =>
    obtain ⟨b, hb, hab⟩ := hr.live _ a ha
    rw [hk, ha'] at hb
    cases hb
    exact ⟨π.back k, a, hk.symm, ha, hab⟩

theorem apply_next : π.apply t.next = t'.next := by
  refine Handle.ext_toNat ?_
  have hnext := hr.next
  have hlow := hr.low
  rw [Shift.toNat_apply, if_neg (by omega), if_neg (by omega)]
  omega

/-- The counter of the second table has not gone round either. -/
theorem ahead' : t'.Ahead where
  next := by
    have hlow := hr.low
    have hpos := hr.pos
    rw [Handle.isValid_iff]
    omega
  lt k hk := by
    obtain ⟨a', ha'⟩ := contains_iff.1 hk
    obtain ⟨h, a, rfl, ha, -⟩ := hr.exists_of_get? ha'
    have hlive := contains_iff.2 ⟨a, ha⟩
    rw [← hr.apply_next, Shift.apply_lt_iff (hr.spares h hlive) (Or.inr ?_)]
    · exact hr.ahead.lt h hlive
    · have hnext := hr.next
      have hlow := hr.low
      omega

/-- **Both tables give out the same handle next**, up to the shift. -/
theorem apply_fresh : π.apply t.fresh = t'.fresh := by
  rw [hr.ahead.fresh_eq, hr.ahead'.fresh_eq, hr.apply_next]

/-- Objects may be changed or removed in step. -/
theorem of_subset {s s' : Table kind α}
    (hlive : ∀ h a, s.get? h = some a → ∃ a', s'.get? (π.apply h) = some a' ∧ r a a')
    (hgone : ∀ h, s.get? h = none → s'.get? (π.apply h) = none)
    (hsub : ∀ h, s.contains h = true → t.contains h = true) (hnext : s.next = t.next)
    (hnext' : s'.next = t'.next) : s.Renamed π r s' where
  live := hlive
  gone := hgone
  spares h hh := hr.spares h (hsub h hh)
  ahead := ⟨hnext ▸ hr.ahead.next, fun h hh => hnext ▸ hr.ahead.lt h (hsub h hh)⟩
  next := by rw [hnext, hnext', hr.next]
  low := hnext' ▸ hr.low
  pos := hr.pos

/-- Changing an object and its copy alike keeps the tables alike. -/
theorem modify {k : Handle kind} {u u' : α → α}
    (hu : ∀ a a', t.get? k = some a → t'.get? (π.apply k) = some a' → r a a' → r (u a) (u' a')) :
    (t.modify k u).Renamed π r (t'.modify (π.apply k) u') := by
  refine hr.of_subset (fun h a ha => ?_) (fun h hh => ?_) (fun h hh => ?_) rfl rfl
  · rw [get?_modify] at ha
    rw [get?_modify]
    by_cases hk : h = k
    · subst hk
      rw [if_pos rfl] at ha ⊢
      obtain ⟨b, hb, rfl⟩ := Option.map_eq_some_iff.1 ha
      obtain ⟨b', hb', hrel⟩ := hr.live h b hb
      exact ⟨u' b', by rw [hb']; rfl, hu b b' hb hb' hrel⟩
    · rw [if_neg hk] at ha
      rw [if_neg fun heq => hk (Shift.apply_inj.1 heq)]
      exact hr.live h a ha
  · have hold : t.get? h = none := by
      rw [get?_modify] at hh
      split at hh
      · exact Option.map_eq_none_iff.1 hh
      · exact hh
    simp [hr.gone h hold]
  · simpa [contains_eq, apply_ite] using hh

/-- So does removing both. -/
theorem erase (k : Handle kind) : (t.erase k).Renamed π r (t'.erase (π.apply k)) := by
  refine hr.of_subset (fun h a ha => ?_) (fun h hh => ?_) (fun h hh => ?_) rfl rfl
  · rw [get?_erase] at ha
    split at ha
    · cases ha
    · next hk =>
      rw [get?_erase, if_neg fun heq => hk (Shift.apply_inj.1 heq)]
      exact hr.live h a ha
  · rw [get?_erase] at hh ⊢
    by_cases hk : h = k
    · rw [if_pos (by rw [hk])]
    · rw [if_neg hk] at hh
      rw [if_neg fun heq => hk (Shift.apply_inj.1 heq), hr.gone h hh]
  · rw [contains_eq, get?_erase] at hh
    split at hh
    · cases hh
    · exact hh

theorem eraseAll (ks : List (Handle kind)) :
    (t.eraseAll ks).Renamed π r (t'.eraseAll (ks.map π.apply)) := by
  induction ks generalizing t t' with
  | nil => exact hr
  | cons k ks ih => exact ih (hr.erase k)

/-- **A search finds the same object** if the tests agree: the handles in use have the same
order. -/
theorem findHandle? (p p' : α → Bool) (hp : ∀ h a a', t.get? h = some a →
    t'.get? (π.apply h) = some a' → r a a' → p' a' = p a) :
    t'.findHandle? p' = (t.findHandle? p).map π.apply := by
  cases hfind : t.findHandle? p with
  | none =>
    rw [findHandle?_eq_none_iff] at hfind
    refine findHandle?_eq_none_iff.2 fun k a' ha' => ?_
    obtain ⟨h, a, rfl, ha, hrel⟩ := hr.exists_of_get? ha'
    rw [hp h a a' ha ha' hrel, hfind h a ha]
  | some h =>
    obtain ⟨⟨a, ha, hpass⟩, hleast⟩ := findHandle?_least hfind
    obtain ⟨a', ha', hrel⟩ := hr.live h a ha
    refine findHandle?_eq_some_iff.2 ⟨⟨a', ha', by rw [hp h a a' ha ha' hrel, hpass]⟩, ?_⟩
    intro k b' hb' hpass'
    obtain ⟨k, b, rfl, hb, hrel'⟩ := hr.exists_of_get? hb'
    rw [hp k b b' hb hb' hrel'] at hpass'
    rw [← UInt32.not_lt, Shift.apply_lt_iff (hr.spares k (contains_iff.2 ⟨b, hb⟩))
      (hr.spares h (contains_iff.2 ⟨a, ha⟩)), UInt32.not_lt]
    exact hleast k b hb hpass'

/-- Tables may be emptied in step if nothing was ever given out. -/
theorem empty (hle : t.next.raw ≤ (∅ : Table kind α).next.raw) :
    (∅ : Table kind α).Renamed π r (∅ : Table kind α) := by
  have hone : (∅ : Table kind α).next.raw.toNat = 1 := rfl
  have hnext := hr.next
  have hlow := hr.low
  have hpos := hr.pos
  rw [UInt32.le_iff_toNat_le] at hle
  have hdead : ∀ h : Handle kind, (∅ : Table kind α).contains h ≠ true :=
    fun _ => Bool.false_ne_true
  refine ⟨fun h a ha => ?_, fun _ _ => rfl, fun h hh => absurd hh (hdead h),
    ⟨rfl, fun h hh => absurd hh (hdead h)⟩, by omega, by omega, hpos⟩
  exact absurd (contains_iff.2 ⟨a, ha⟩) (hdead h)

/-- Counters may skip a handle in step, unless they go round. -/
theorem skip {k : Handle kind} (hlt : t.next.raw < k.raw) : t.skip.Renamed π r t'.skip := by
  have hnext : t.skip.next.raw.toNat = t.next.raw.toNat + 1 := by
    rw [next_skip, hr.ahead.fresh_eq, toNat_next_of_lt hlt]
  have hnext' : t'.skip.next.raw.toNat = t'.next.raw.toNat + 1 := by
    have hle := hr.next
    rw [next_skip, hr.ahead'.fresh_eq]
    refine toNat_next_of_lt (k := k) ?_
    rw [UInt32.lt_iff_toNat_lt] at hlt ⊢
    omega
  refine ⟨hr.live, hr.gone, hr.spares, ⟨t.fresh.isValid_next, fun h hh => ?_⟩, ?_, ?_, hr.pos⟩
  · have hold := hr.ahead.lt h hh
    rw [UInt32.lt_iff_toNat_lt] at hold ⊢
    omega
  · rw [hnext, hnext', hr.next]
    omega
  · have hlow := hr.low
    omega

/-- **Objects may be added in step**, unless the counter goes round. -/
theorem create {a a' : α} (hrel : r a a') {k : Handle kind} (hlt : t.next.raw < k.raw) :
    (t.create a).2.Renamed π r (t'.create a').2 := by
  have hskip := hr.skip hlt
  have hnew : ∀ h, (t.create a).2.contains h = true → h = t.next ∨ t.contains h = true := by
    intro h hh
    rw [contains_eq, get?_create, hr.ahead.fresh_eq] at hh
    split at hh
    · next heq => exact Or.inl heq
    · exact Or.inr hh
  refine ⟨fun h b hb => ?_, fun h hh => ?_, fun h hh => ?_, ⟨hskip.ahead.next, fun h hh => ?_⟩,
    hskip.next, hskip.low, hr.pos⟩
  · rw [get?_create] at hb
    rw [get?_create, ← hr.apply_fresh]
    split at hb
    · next heq =>
      cases hb
      exact ⟨a', by rw [if_pos (by rw [heq])], hrel⟩
    · next hne =>
      rw [if_neg fun heq => hne (Shift.apply_inj.1 heq)]
      exact hr.live h b hb
  · rw [get?_create] at hh ⊢
    split at hh
    · cases hh
    · next hne =>
      rw [← hr.apply_fresh, if_neg fun heq => hne (Shift.apply_inj.1 heq), hr.gone h hh]
  · rcases hnew h hh with rfl | hh
    · have hnext := hr.next
      have hlow := hr.low
      exact Or.inr (by omega)
    · exact hr.spares h hh
  · rcases hnew h hh with rfl | hh
    · rw [UInt32.lt_iff_toNat_lt, next_create, hr.ahead.fresh_eq, toNat_next_of_lt hlt]
      omega
    · exact hskip.ahead.lt h hh

/-- The same objects may be added in step. -/
theorem createAll {as : List α} (hrefl : ∀ a ∈ as, r a a) (hahead : (t.createAll as).2.Ahead) :
    (t'.createAll as).1 = (t.createAll as).1.map π.apply ∧
      (t.createAll as).2.Renamed π r (t'.createAll as).2 := by
  induction as generalizing t t' with
  | nil => exact ⟨rfl, hr⟩
  | cons a as ih =>
    rw [createAll_cons] at hahead ⊢
    rw [createAll_cons]
    obtain ⟨ha, has⟩ := List.forall_mem_cons.1 hrefl
    -- the handle given out is still in use when all are there, so it was not the last one
    have hlt := hahead.lt _ (contains_createAll (contains_next_create hr.ahead a))
    obtain ⟨hhandles, hrest⟩ := ih (hr.create ha hlt) has hahead
    refine ⟨?_, hrest⟩
    rw [List.map_cons, hhandles, hr.apply_fresh]

end Renamed

end Table

end StepScript
