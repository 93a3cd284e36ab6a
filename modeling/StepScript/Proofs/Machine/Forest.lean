/-!
# Proofs/Machine/Forest — lists of children against pointers to owners

Ownership is written down twice: the owner lists its children, and the child names its owner. A
*forest* is a pair of such maps that agree: a child names an owner exactly if the owner is there and
lists it, and no list repeats a child.

* `Forest.owner_iff`, `Forest.nodup` — the two conditions.
* `Forest.keepChildren`, `Forest.keepParents` — taking children off their lists, and owners away
  with all their children.
* `Forest.addChild`, `Forest.addParent` — a new child for an owner, and a new owner with new
  children.

Every change of a machine's links is one of these four on each of its three levels.
-/

namespace StepScript

variable {P C : Type}

/-- **Lists of children and pointers to owners that agree.** -/
structure Forest (lists : P → Option (List C)) (owner : C → Option P) : Prop where
  nodup : ∀ {p cs}, lists p = some cs → cs.Nodup
  owner_iff : ∀ {c p}, owner c = some p ↔ ∃ cs, lists p = some cs ∧ c ∈ cs

namespace Forest

variable {lists lists' : P → Option (List C)} {owner owner' : C → Option P}

/-- Without owners there are no children. -/
theorem empty (hl : ∀ p, lists p = none) (ho : ∀ c, owner c = none) : Forest lists owner where
  nodup h := by simp [hl] at h
  owner_iff := by simp [hl, ho]

/-- Whether there is a forest depends on the lists and the owners only. -/
theorem congr (h : Forest lists owner) (hl : ∀ p, lists' p = lists p)
    (ho : ∀ c, owner' c = owner c) :
    Forest lists' owner' := by
  rw [funext hl, funext ho]
  exact h

/-- Who is on a list is owned by whose list it is. -/
theorem owner_of_mem (h : Forest lists owner) {p : P} {c : C} {cs : List C} (hp : lists p = some cs)
    (hc : c ∈ cs) : owner c = some p :=
  h.owner_iff.2 ⟨cs, hp, hc⟩

/-! ## Removal -/

/-- **Children are removed**: from all lists, and with them their owner. -/
theorem keepChildren (h : Forest lists owner) (keep : C → Bool)
    (hl : ∀ p, lists' p = (lists p).map (·.filter keep))
    (ho : ∀ c, owner' c = if keep c then owner c else none) : Forest lists' owner' where
  nodup {p cs} hp := by
    rw [hl, Option.map_eq_some_iff] at hp
    obtain ⟨ds, hds, rfl⟩ := hp
    exact (h.nodup hds).filter keep
  owner_iff {c p} := by
    simp only [hl, ho, Option.map_eq_some_iff]
    constructor
    · intro hc
      by_cases hk : keep c = true
      · rw [if_pos hk] at hc
        obtain ⟨cs, hcs, hmem⟩ := h.owner_iff.1 hc
        exact ⟨_, ⟨cs, hcs, rfl⟩, List.mem_filter.2 ⟨hmem, hk⟩⟩
      · rw [if_neg hk] at hc
        cases hc
    · rintro ⟨_, ⟨cs, hcs, rfl⟩, hmem⟩
      obtain ⟨hmem, hk⟩ := List.mem_filter.1 hmem
      rw [if_pos hk]
      exact h.owner_of_mem hcs hmem

/-- **Owners are removed**, with all their children. -/
theorem keepParents (h : Forest lists owner) (keep : P → Bool)
    (hl : ∀ p, lists' p = if keep p then lists p else none)
    (ho : ∀ c, owner' c = (owner c).filter keep) : Forest lists' owner' where
  nodup {p cs} hp := by
    rw [hl] at hp
    split at hp
    · exact h.nodup hp
    · cases hp
  owner_iff {c p} := by
    rw [ho, Option.filter_eq_some_iff, h.owner_iff, hl]
    by_cases hk : keep p = true <;> simp [hk]

/-! ## Growth -/

variable [DecidableEq P] [DecidableEq C]

/-- **A new child** is put anywhere on the list of an owner. -/
theorem addChild (h : Forest lists owner) {p : P} {c : C} {l l' : List C} (hp : lists p = some l)
    (hc : owner c = none) (hperm : l'.Perm (c :: l))
    (hl : ∀ q, lists' q = if q = p then some l' else lists q)
    (ho : ∀ d, owner' d = if d = c then some p else owner d) : Forest lists' owner' where
  nodup {q ds} hq := by
    rw [hl] at hq
    split at hq
    · cases hq
      refine hperm.nodup_iff.2 (List.nodup_cons.2 ⟨fun hmem => ?_, h.nodup hp⟩)
      rw [h.owner_of_mem hp hmem] at hc
      cases hc
    · exact h.nodup hq
  owner_iff {d q} := by
    rw [hl, ho]
    by_cases hq : q = p
    · subst hq
      by_cases hd : d = c
      · simp [hd, hperm.mem_iff]
      · simp [hd, hperm.mem_iff, h.owner_iff, hp]
    · by_cases hd : d = c
      · subst hd
        have hnone : ¬ ∃ ds, lists q = some ds ∧ d ∈ ds := by
          rw [← h.owner_iff, hc]
          nofun
        simpa [hq, Ne.symm hq] using hnone
      · simp [hd, hq, h.owner_iff]

/-- **A new owner** comes with a list of new children. -/
theorem addParent (h : Forest lists owner) {p : P} {l : List C} (hp : lists p = none)
    (hnodup : l.Nodup) (hnew : ∀ c ∈ l, owner c = none)
    (hl : ∀ q, lists' q = if q = p then some l else lists q)
    (ho : ∀ d, owner' d = if d ∈ l then some p else owner d) : Forest lists' owner' where
  nodup {q ds} hq := by
    rw [hl] at hq
    split at hq
    · cases hq
      exact hnodup
    · exact h.nodup hq
  owner_iff {d q} := by
    rw [hl, ho]
    by_cases hq : q = p
    · subst hq
      have hnone : owner d ≠ some q := by
        intro hd
        obtain ⟨ds, hds, -⟩ := h.owner_iff.1 hd
        rw [hp] at hds
        cases hds
      by_cases hd : d ∈ l <;> simp [hd, hnone]
    · by_cases hd : d ∈ l
      · have hnone : ¬ ∃ ds, lists q = some ds ∧ d ∈ ds := by
          rw [← h.owner_iff, hnew d hd]
          nofun
        simpa [hd, hq, Ne.symm hq] using hnone
      · simp [hd, hq, h.owner_iff]

end Forest

end StepScript
