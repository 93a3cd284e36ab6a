import StepScript.Machine.Basic
import StepScript.Proofs.Codec.Range

/-!
# Proofs/Table/Names — a table is a map with fresh names

A table starts empty and changes by additions, edits, removals and loads. As long as it is never
full, a new object gets the first handle in turn that is not in use, so no live object is
overwritten. The counter only goes on, from the last handle to the first: a handle comes back only
after the counter has gone round, unless the table was cleared or loaded.

* `Table.Change`, `Table.after` — what can be done to a table, and a table after changes.
* `Table.passed`, `Table.tried` — the handles that the counter goes over.
* `Table.exists_onward_fresh` — the search for a new handle ends, at the first one that is not in
  use.
* `Table.tried_eq_turn` — between two clears or loads the counter takes all handles in turn.
* `Table.names_fresh` — every table that changes lead to gives out fresh names.
-/

namespace StepScript

/-! ## Handles in turn -/

namespace Handle

variable {kind : String}

/-- The last handle, after which the counter goes on at one. -/
def last : Handle kind := ⟨0xFFFFFFFF⟩

/-- The handle a number of places after another, in turn. -/
def onward (h : Handle kind) : Nat → Handle kind
  | 0 => h
  | n + 1 => h.next.onward n

/-- A turn can be taken in two parts. -/
theorem turn_add (h : Handle kind) (n k : Nat) :
    h.turn (n + k) = h.turn n ++ (h.onward n).turn k := by
  induction n generalizing h with
  | zero => rw [Nat.zero_add]; rfl
  | succ n ih =>
    rw [Nat.succ_add, turn, turn, onward, ih]
    rfl

theorem onward_add (h : Handle kind) (n k : Nat) : h.onward (n + k) = (h.onward n).onward k := by
  induction n generalizing h with
  | zero => rw [Nat.zero_add]; rfl
  | succ n ih => rw [Nat.succ_add, onward, onward, ih]

theorem turn_succ (h : Handle kind) (n : Nat) : h.turn (n + 1) = h.turn n ++ [h.onward n] :=
  turn_add h n 1

theorem onward_succ (h : Handle kind) (n : Nat) : h.onward (n + 1) = (h.onward n).next :=
  onward_add h n 1

/-- **A handle comes back only after the last one**: whoever meets it again has gone round. -/
theorem last_mem_turn {h : Handle kind} {n : Nat} (hv : h.isValid = true)
    (hback : h.onward (n + 1) = h) :
    last ∈ h.turn (n + 1) := by
  refine mem_turn_count hv rfl (Nat.le_of_not_lt fun hlt => ?_)
  have hnodup := nodup_turn hv hlt
  rw [turn_succ, hback, turn] at hnodup
  exact (List.nodup_cons.1 hnodup).1 (List.mem_append_right _ (List.mem_singleton_self h))

end Handle

namespace Table

variable {kind : String} {α β : Type}

/-! ## The search for a new handle -/

/-- The handles in use that the search for a new one passes. -/
def passed (t : Table kind α) : List (Handle kind) :=
  (t.next.turn Handle.count).takeWhile t.contains

/-- A search that ends at a handle that is not in use has passed only handles in use. -/
theorem exists_onward_freeFrom {t : Table kind α} {es : List (Handle kind × α)} {h : Handle kind}
    (hfree : t.contains (t.freeFrom es h) = false) :
    ∃ n, t.freeFrom es h = h.onward n ∧ ∀ k ∈ h.turn n, t.contains k = true := by
  induction es generalizing h with
  | nil => exact ⟨0, rfl, List.forall_mem_nil _⟩
  | cons e es ih =>
    rw [freeFrom] at hfree ⊢
    split at hfree
    · next hlive =>
      obtain ⟨n, heq, hpassed⟩ := ih hfree
      exact ⟨n + 1, by rw [if_pos hlive, heq]; rfl, List.forall_mem_cons.2 ⟨hlive, hpassed⟩⟩
    · next hlive => exact ⟨0, if_neg hlive, List.forall_mem_nil _⟩

/-- **The search for a new handle ends** before it has gone round, at the first handle that is not
in use. -/
theorem exists_onward_fresh {t : Table kind α} (hv : t.next.isValid = true) (hroom : ¬ t.Full) :
    ∃ n, t.fresh = t.next.onward n ∧ t.passed = t.next.turn n ∧
      (t.next.turn Handle.count).find? (fun k => !t.contains k) = some t.fresh := by
  have hfree : t.contains t.fresh = false := by rw [contains_eq, get?_fresh hv hroom]; rfl
  obtain ⟨n, heq, hlive⟩ := exists_onward_freeFrom hfree
  rw [← fresh] at heq
  have hlt : n < Handle.count :=
    Nat.lt_of_not_le fun hle => hroom fun h hh => hlive h (Handle.mem_turn_count hv hh hle)
  have hsplit : t.next.turn Handle.count =
      t.next.turn n ++ t.fresh :: t.fresh.next.turn (Handle.count - n - 1) := by
    obtain ⟨k, hk⟩ : ∃ k, Handle.count = n + (k + 1) := ⟨Handle.count - n - 1, by omega⟩
    have hleft : Handle.count - n - 1 = k := by omega
    rw [hleft, hk, Handle.turn_add, ← heq]
    rfl
  refine ⟨n, heq, ?_, ?_⟩
  · rw [passed, hsplit, List.takeWhile_append_of_pos hlive,
      List.takeWhile_cons_of_neg (by rw [hfree]; simp), List.append_nil]
  · have hnone : (t.next.turn n).find? (fun k => !t.contains k) = none :=
      List.find?_eq_none.2 fun k hk => by simp [hlive k hk]
    rw [hsplit, List.find?_append, hnone, Option.none_or,
      List.find?_cons_of_pos (by rw [hfree]; rfl)]

/-- **The next new handle** depends on the counter and on which handles are in use. -/
theorem fresh_congr {s t : Table kind α} (hv : s.next.isValid = true) (hroom : ¬ s.Full)
    (hnext : t.next = s.next) (hsame : ∀ k, t.contains k = s.contains k) : t.fresh = s.fresh := by
  obtain ⟨-, -, -, hs⟩ := exists_onward_fresh hv hroom
  obtain ⟨-, -, -, ht⟩ :=
    exists_onward_fresh (t := t) (hnext ▸ hv) fun hfull => hroom fun k hk => hsame k ▸ hfull k hk
  simp only [hnext, hsame] at ht
  exact Option.some.inj (ht.symm.trans hs)

/-! ## Updates of the first object -/

/-- Offers objects to an update, in order, until one is taken. Those that are not taken may be
edited too. -/
def updateFrom (f : Handle kind → α → Option β × α) :
    List (Handle kind × α) → Table kind α → Option β × Table kind α
  | [], t => (none, t)
  | (h, a) :: es, t =>
    match f h a with
    | (some b, a') => (some b, t.modify h fun _ => a')
    | (none, a') => updateFrom f es (t.modify h fun _ => a')

/-- **Updates the first object that is taken**, in the order of the handles. -/
def updateFirst (t : Table kind α) (f : Handle kind → α → Option β × α) : Option β × Table kind α :=
  updateFrom f t.toList t

theorem shrinks_updateFrom (f : Handle kind → α → Option β × α) (es : List (Handle kind × α))
    (t : Table kind α) :
    t.Shrinks (updateFrom f es t).2 := by
  fun_induction updateFrom f es t with
  | case1 t => exact .refl t
  | case2 => exact .modify _ _ _
  | case3 => exact (Shrinks.modify _ _ _).trans ‹_›

/-- An update that changes the first object to pass a test changes that one and no other. -/
theorem updateFrom_of_test (p : α → Bool) (g : α → α) {t : Table kind α}
    {es : List (Handle kind × α)} (hes : ∀ e ∈ es, t.get? e.1 = some e.2) :
    updateFrom (fun h a => if p a then (some h, g a) else (none, a)) es t =
      match (es.find? fun e => p e.2).map Prod.fst with
      | none => (none, t)
      | some h => (some h, t.modify h g) := by
  induction es with
  | nil => rfl
  | cons e es ih =>
    obtain ⟨hhead, htail⟩ := List.forall_mem_cons.1 hes
    by_cases hp : p e.2 = true
    · have hsame : (t.modify e.1 fun _ => g e.2) = t.modify e.1 g := by
        refine ext_get? rfl fun k => ?_
        rw [get?_modify, get?_modify]
        split
        · next hk => rw [hk, hhead]; rfl
        · rfl
      simp only [updateFrom, hp, if_true, List.find?_cons_of_pos, Option.map_some, hsame]
    · have hsame : (t.modify e.1 fun _ => e.2) = t := modify_eq_self fun a ha => by
        rw [hhead] at ha
        exact Option.some.inj ha
      simp only [updateFrom, hp, if_false, Bool.false_eq_true, not_false_eq_true,
        List.find?_cons_of_neg, hsame]
      exact ih htail

/-- An update that edits only what it takes is a search followed by an edit. -/
theorem updateFirst_of_test (t : Table kind α) (p : α → Bool) (g : α → α) :
    t.updateFirst (fun h a => if p a then (some h, g a) else (none, a)) =
      match t.findHandle? p with
      | none => (none, t)
      | some h => (some h, t.modify h g) :=
  updateFrom_of_test p g fun _ he => mem_toList_iff.1 he

/-! ## Changes -/

/-- **What can be done to a table.** -/
inductive Change (kind : String) (α : Type) where
  | create (a : α)
  | findOrCreate (p : α → Bool) (a : α)
  | modify (h : Handle kind) (f : α → α)
  | updateFirst (f : Handle kind → α → Option Unit × α)
  | erase (h : Handle kind)
  | eraseIf (h : Handle kind) (p : α → Bool)
  | clear
  | load (bs : Bytes)

namespace Change

/-- Whether the change goes on with the table that there is. -/
def isPlain : Change kind α → Bool
  | .clear | .load _ => false
  | _ => true

/-- The object that the change may add. -/
def object? : Change kind α → Option α
  | .create a | .findOrCreate _ a => some a
  | _ => none

variable [Binary α]

/-- **Performs a change**, and gives the handle of the object that it adds, if any. -/
def perform (t : Table kind α) : Change kind α → Option (Handle kind) × Table kind α
  | .create a => (some (t.create a).1, (t.create a).2)
  | .findOrCreate p a =>
    (if (t.findOrCreate p a).1.2 then some (t.findOrCreate p a).1.1 else none,
      (t.findOrCreate p a).2)
  | .modify h f => (none, t.modify h f)
  | .updateFirst f => (none, (t.updateFirst f).2)
  | .erase h => (none, t.erase h)
  | .eraseIf h p => (none, t.eraseIf h p)
  | .clear => (none, ∅)
  | .load bs => (none, ((replace bs).run t).state)

/-- **A change adds an object** under a new handle, or it gives out none and leaves the counter
alone. -/
theorem perform_cases (t : Table kind α) (c : Change kind α) :
    (∃ a, c.object? = some a ∧ c.perform t = (some t.fresh, (t.create a).2)) ∨
      (c.perform t).1 = none ∧ (c.isPlain = true → (c.perform t).2.next = t.next) := by
  cases c with
  | create a => exact .inl ⟨a, rfl, rfl⟩
  | findOrCreate p a =>
    rcases t.findOrCreate_cases p a with ⟨h, b, -, -, -, heq⟩ | ⟨-, heq⟩
    · exact .inr (by rw [perform, heq]; exact ⟨rfl, fun _ => rfl⟩)
    · exact .inl ⟨a, rfl, by rw [perform, heq]; rfl⟩
  | updateFirst f => exact .inr ⟨rfl, fun _ => (shrinks_updateFrom f t.toList t).next⟩
  | eraseIf h p =>
    refine .inr ⟨rfl, fun _ => ?_⟩
    rw [perform, Table.eraseIf]
    split <;> rfl
  | clear => exact .inr ⟨rfl, fun hplain => by cases hplain⟩
  | load bs => exact .inr ⟨rfl, fun hplain => by cases hplain⟩
  | _ => exact .inr ⟨rfl, fun _ => rfl⟩

end Change

variable [Binary α]

/-- **Loading**, as it ends: with the table that was read, or with none. -/
theorem replace_cases (bs : Bytes) (t : Table kind α) :
    (∃ s rest, load kind bs = (.ok s, rest) ∧ ((replace bs).run t).state = s ∧
        ((replace bs).run t).value = (.ok s.size, rest)) ∨
      ((replace bs).run t).state = ∅ ∧
        ∃ failure rest, ((replace bs).run t).value = (.error failure, rest) := by
  unfold replace
  cases hload : (load kind bs : Except Cause (Table kind α) × Bytes) with
  | mk result rest =>
    cases result with
    | ok s => exact .inl ⟨s, rest, rfl, rfl, rfl⟩
    | error cause => exact .inr ⟨rfl, _, _, rfl⟩

/-- A change keeps a table proper. -/
theorem Proper.perform {t : Table kind α} (ht : t.Proper) (c : Change kind α) :
    (c.perform t).2.Proper := by
  cases c with
  | create a => exact ht.create a
  | findOrCreate p a =>
    rcases t.findOrCreate_cases p a with ⟨h, b, -, -, -, heq⟩ | ⟨-, heq⟩
    · rw [Change.perform, heq]
      exact ht
    · rw [Change.perform, heq]
      exact ht.create a
  | modify h f => exact ht.modify h f
  | updateFirst f => exact (shrinks_updateFrom f t.toList t).proper ht
  | erase h => exact ht.erase h
  | eraseIf h p => exact ht.eraseIf h p
  | clear => exact .empty
  | load bs =>
    rcases replace_cases bs t with ⟨s, rest, hload, hstate, -⟩ | ⟨hstate, -⟩
    · rw [Change.perform, hstate]
      exact proper_of_load hload
    · rw [Change.perform, hstate]
      exact .empty

/-! ## Runs of changes -/

/-- The table after changes. -/
def after (t : Table kind α) : List (Change kind α) → Table kind α
  | [] => t
  | c :: cs => after (c.perform t).2 cs

/-- **The handles that the counter goes over** in the course of changes: for each new object those
that are passed, and its own. -/
def tried (t : Table kind α) : List (Change kind α) → List (Handle kind)
  | [] => []
  | c :: cs =>
    match (c.perform t).1 with
    | none => tried (c.perform t).2 cs
    | some h => t.passed ++ h :: tried (c.perform t).2 cs

/-- The table is full at no time. -/
def NeverFull (t : Table kind α) : List (Change kind α) → Prop
  | [] => ¬ t.Full
  | c :: cs => ¬ t.Full ∧ NeverFull (c.perform t).2 cs

theorem after_append (t : Table kind α) (cs ds : List (Change kind α)) :
    t.after (cs ++ ds) = (t.after cs).after ds := by
  induction cs generalizing t with
  | nil => rfl
  | cons c cs ih => exact ih _

/-- So does any list of changes. -/
theorem Proper.after {t : Table kind α} (ht : t.Proper) (cs : List (Change kind α)) :
    (t.after cs).Proper := by
  induction cs generalizing t with
  | nil => exact ht
  | cons c cs ih => exact ih (ht.perform c)

/-- A table that never gets full is not full now. -/
theorem NeverFull.head {t : Table kind α} {cs : List (Change kind α)} (h : t.NeverFull cs) :
    ¬ t.Full := by
  cases cs with
  | nil => exact h
  | cons c cs => exact h.1

/-- Nor will it be from any of its changes on. -/
theorem NeverFull.after {t : Table kind α} {cs ds : List (Change kind α)}
    (h : t.NeverFull (cs ++ ds)) :
    (t.after cs).NeverFull ds := by
  induction cs generalizing t with
  | nil => exact h
  | cons c cs ih => exact ih h.2

theorem NeverFull.before {t : Table kind α} {cs ds : List (Change kind α)}
    (h : t.NeverFull (cs ++ ds)) :
    t.NeverFull cs := by
  induction cs generalizing t with
  | nil => exact h.head
  | cons c cs ih => exact ⟨h.1, ih h.2⟩

/-- **The counter takes handles in turn** as long as the table is neither cleared nor loaded. -/
theorem tried_eq_turn {t : Table kind α} {cs : List (Change kind α)} (ht : t.Proper)
    (hroom : t.NeverFull cs) (hplain : ∀ c ∈ cs, c.isPlain = true) :
    ∃ n, t.tried cs = t.next.turn n ∧ (t.after cs).next = t.next.onward n := by
  induction cs generalizing t with
  | nil => exact ⟨0, rfl, rfl⟩
  | cons c cs ih =>
    obtain ⟨hc, hcs⟩ := List.forall_mem_cons.1 hplain
    obtain ⟨n, htried, hnext⟩ := ih (ht.perform c) hroom.2 hcs
    rw [tried, after]
    rcases c.perform_cases t with ⟨a, -, hgives⟩ | ⟨hnone, hkeeps⟩
    · obtain ⟨k, hfresh, hpassed, -⟩ := exists_onward_fresh ht.next hroom.head
      rw [hgives] at htried hnext ⊢
      rw [next_create, hfresh, ← Handle.onward_succ] at htried hnext
      refine ⟨k + 1 + n, ?_, ?_⟩
      · rw [Handle.turn_add, Handle.turn_succ, ← htried, ← hpassed, ← hfresh, List.append_assoc]
        rfl
      · rw [Handle.onward_add, hnext]
    · rw [hnone]
      rw [hkeeps hc] at htried hnext
      exact ⟨n, htried, hnext⟩

/-! ## Fresh names -/

/-- **The table gives out fresh names.** -/
structure FreshNames (t : Table kind α) : Prop where
  /-- Zero names nothing. -/
  zero : t.get? ⟨0⟩ = none
  /-- The counter is at a handle that can name an object. -/
  counter : 1 ≤ t.next.raw.toNat ∧ t.next.raw.toNat ≤ 4294967295
  /-- A new object gets the first handle in turn that is not in use; a whole turn has one. -/
  first : (t.next.turn Handle.count).find? (fun k => !t.contains k) = some t.fresh
  /-- A created object has that handle. -/
  created : ∀ a, ((Change.create a).perform t).1 = some t.fresh
  /-- An object is found if there is one that passes, and else created. -/
  found : ∀ p a, (∃ h b, t.get? h = some b ∧ p b = true) ∧
    (Change.findOrCreate p a).perform t = (none, t) ∨
    (∀ h b, t.get? h = some b → p b = false) ∧
      (Change.findOrCreate p a).perform t = (Change.create a).perform t
  /-- What is added overwrites nothing, nothing else changes, and the counter goes on after it. -/
  added : ∀ (c : Change kind α) (h : Handle kind), (c.perform t).1 = some h → t.get? h = none ∧
    (∃ a, c.object? = some a ∧ (c.perform t).2.get? h = some a) ∧
    (∀ k, k ≠ h → (c.perform t).2.get? k = t.get? k) ∧ (c.perform t).2.next = h.next
  /-- After a load the counter is one past the largest handle, or at one if that is the last or
  there is none. -/
  loaded : ∀ bs n rest, ((replace bs).run t).value = (.ok n, rest) →
    (∀ h, ((replace bs).run t).state.contains h = true →
        (∀ k, ((replace bs).run t).state.contains k = true → k.raw ≤ h.raw) →
        ((replace bs).run t).state.next.raw.toNat = if h.raw.toNat = 4294967295 then 1
        else h.raw.toNat + 1) ∧
      ((∀ h, ((replace bs).run t).state.contains h = false) →
        ((replace bs).run t).state.next.raw.toNat = 1)

/-- The counter of a table that was read is one past the largest handle, going round. -/
theorem next_of_load {t : Table kind α} {bs rest : Bytes} (hload : load kind bs = (.ok t, rest)) :
    (∀ h, t.contains h = true → (∀ k, t.contains k = true → k.raw ≤ h.raw) → t.next = h.next) ∧
      ((∀ h, t.contains h = false) → t.next = ⟨1⟩) := by
  obtain ⟨_, _, m, -, -, rfl⟩ := load_eq_ok.1 hload
  have hmem : ∀ e ∈ m.entries, (ofObjects m).contains e.1 = true := fun e he =>
    contains_iff.2 ⟨e.2, (m.mem_entries_iff e.1 e.2).1 he⟩
  cases hentries : m.entries with
  | nil =>
    have hkeys : m.keys = [] := by rw [Assoc.keys, hentries]; rfl
    have hnone : ∀ h, (ofObjects m).contains h = false := fun h => by
      rw [contains_eq, get?, Assoc.find?_eq_lookup]
      simp only [ofObjects, hentries]
      rfl
    refine ⟨fun h hlive => ?_, fun _ => by simp only [ofObjects, hkeys]⟩
    rw [hnone] at hlive
    cases hlive
  | cons e es =>
    have hkeys : m.keys = e.1 :: es.map Prod.fst := by rw [Assoc.keys, hentries]; rfl
    have hnewest : (ofObjects m).contains e.1 = true :=
      hmem e (by rw [hentries]; exact List.mem_cons_self)
    refine ⟨fun h hlive hmax => ?_, fun hnone => ?_⟩
    · -- the first entry has the largest handle
      obtain ⟨a, ha⟩ := contains_iff.1 hlive
      have hle : h.raw ≤ e.1.raw := by
        have hin : (h, a) ∈ m.entries := (m.mem_entries_iff h a).2 ha
        have hsorted := m.sorted
        rw [hentries] at hin hsorted
        rcases List.mem_cons.1 hin with heq | hin
        · exact heq ▸ UInt32.le_refl _
        · exact UInt32.le_of_lt (Std.compare_eq_lt.1 ((List.pairwise_cons.1 hsorted).1 _ hin))
      have heq : h = e.1 := congrArg Handle.mk (UInt32.le_antisymm hle (hmax e.1 hnewest))
      simp only [ofObjects, hkeys, heq]
    · rw [hnone] at hnewest
      cases hnewest

/-- **A proper table with room gives out fresh names.** -/
theorem Proper.freshNames {t : Table kind α} (ht : t.Proper) (hroom : ¬ t.Full) : t.FreshNames where
  zero := Option.eq_none_iff_forall_ne_some.2 fun a ha =>
    absurd (ht.live ⟨0⟩ a ha) (by simp [Handle.isValid])
  counter := ⟨Handle.isValid_iff.1 ht.next, Nat.le_of_lt_succ t.next.raw.toNat_lt⟩
  first := by
    obtain ⟨n, -, -, hfind⟩ := exists_onward_fresh ht.next hroom
    exact hfind
  created a := rfl
  found p a := by
    rcases t.findOrCreate_cases p a with ⟨h, b, hb, hp, -, heq⟩ | ⟨hnone, heq⟩
    · refine .inl ⟨⟨h, b, hb, hp⟩, ?_⟩
      rw [Change.perform, heq]
      rfl
    · refine .inr ⟨findHandle?_eq_none_iff.1 hnone, ?_⟩
      simp only [Change.perform, heq]
      rfl
  added c h hh := by
    rcases c.perform_cases t with ⟨a, hobject, hgives⟩ | ⟨hnone, -⟩
    · rw [hgives] at hh ⊢
      obtain rfl := Option.some.inj hh
      refine ⟨get?_fresh ht.next hroom, ⟨a, hobject, by rw [get?_create, if_pos rfl]⟩,
        fun k hk => ?_, rfl⟩
      rw [get?_create, if_neg hk]
    · rw [hnone] at hh
      cases hh
  loaded bs n rest hvalue := by
    rcases replace_cases bs t with ⟨s, rest, hload, hstate, -⟩ | ⟨-, failure, rest, hfails⟩
    · obtain ⟨hmax, hnone⟩ := next_of_load hload
      rw [hstate]
      refine ⟨fun h hlive hle => ?_, fun hdead => by rw [hnone hdead]; rfl⟩
      have hlt : h.raw.toNat < 4294967296 := h.raw.toNat_lt
      rw [hmax h hlive hle, Handle.toNat_next]
      simp only [Handle.count]
      split <;> omega
    · rw [hfails] at hvalue
      cases hvalue

/-- **A table is a map with fresh names.** Whatever was done to a new table, as long as it was never
full: a new object gets the first handle in turn that is not in use, overwrites nothing, and leaves
all else alone. If two objects got the same handle, with no clear and no load in between, the
counter went over the last handle from the first of them on and before the second. -/
theorem names_fresh (cs : List (Change kind α)) (hroom : (∅ : Table kind α).NeverFull cs) :
    ((∅ : Table kind α).after cs).FreshNames ∧
      ∀ before c between d rest h, cs = before ++ c :: between ++ d :: rest →
      (∀ e ∈ between, e.isPlain = true) →
        (c.perform ((∅ : Table kind α).after before)).1 = some h →
        (d.perform ((∅ : Table kind α).after (before ++ c :: between))).1 = some h →
        Handle.last ∈ h :: ((∅ : Table kind α).after (before ++ [c])).tried between ++
          ((∅ : Table kind α).after (before ++ c :: between)).passed := by
  have hempty : (∅ : Table kind α).Proper := Proper.empty
  have hdone : ((∅ : Table kind α).after cs).NeverFull [] :=
    NeverFull.after (by rwa [List.append_nil])
  refine ⟨(hempty.after cs).freshNames hdone.head, ?_⟩
  rintro before c between d rest h rfl hplain hc hd
  have hstart := hempty.after before
  have hmiddle := hroom.before.after.2
  have hend := hroom.after.head
  rw [after_append, after] at hend hd ⊢
  rw [after_append, after, after]
  generalize (∅ : Table kind α).after before = t at hc hd hend hmiddle hstart ⊢
  rcases c.perform_cases t with ⟨a, -, hgives⟩ | ⟨hnone, -⟩
  · rw [hgives] at hc hd hend hmiddle ⊢
    obtain rfl := Option.some.inj hc
    have hcreated := hstart.create a
    obtain ⟨n, htried, hnext⟩ := tried_eq_turn hcreated hmiddle hplain
    obtain ⟨k, hfresh, hpassed, -⟩ := exists_onward_fresh (hcreated.after between).next hend
    -- all that the counter goes over is one turn, which leads back to the handle
    have hturn : t.fresh :: (t.create a).2.tried between ++ ((t.create a).2.after between).passed =
        t.fresh.turn (n + k + 1) := by
      rw [hpassed, hnext, htried, next_create, Handle.turn, List.cons_append, ← Handle.turn_add]
    have hback : t.fresh.onward (n + k + 1) = t.fresh := by
      rcases d.perform_cases ((t.create a).2.after between) with ⟨b, -, hgives⟩ | ⟨hnone, -⟩
      · rw [hgives] at hd
        rw [Handle.onward, Handle.onward_add, ← next_create t a, ← hnext, ← hfresh]
        exact Option.some.inj hd
      · rw [hnone] at hd
        cases hd
    rw [hturn]
    exact Handle.last_mem_turn (isValid_fresh hstart.next) hback
  · rw [hnone] at hc
    cases hc

/-- A table with the first and the last handle in use. -/
def worn : Table "item" String :=
  { objects :=
      ((∅ : Assoc (Handle "item") String Handle.newestFirst).insert ⟨1⟩ "a").insert
        Handle.last "z" }

/-- The worn table is loaded, and objects are added, found and removed. -/
def wear : List (Change "item" String) :=
  [.load (worn.save.toOption.getD []), .create "b", .erase ⟨1⟩,
    .findOrCreate (· = "z") "y", .create "c"]

/-- The counter starts at one again and passes the handle in use. It does not go round after that,
so the second object that is added gets another handle than the first. -/
theorem wear_fresh :
    (∅ : Table "item" String).NeverFull wear ∧ ((∅ : Table "item" String).after wear).FreshNames ∧
      ((Change.create "b").perform ((∅ : Table "item" String).after (wear.take 1))).1 = some ⟨2⟩ ∧
      ((Change.create "c").perform ((∅ : Table "item" String).after (wear.take 4))).1 ≠
        some ⟨2⟩ := by
  have hroom : (∅ : Table "item" String).NeverFull wear := by
    refine ⟨?_, ?_, ?_, ?_, ?_, ?_⟩ <;> exact not_full_of_free ⟨9⟩ rfl (by decide +kernel)
  obtain ⟨hnames, hback⟩ := names_fresh wear hroom
  have hfirst : ((Change.create "b").perform ((∅ : Table "item" String).after (wear.take 1))).1 =
      some ⟨2⟩ := by
    decide +kernel
  refine ⟨hroom, hnames, hfirst, fun hsecond => ?_⟩
  have hlast := hback (wear.take 1) (.create "b") [.erase ⟨1⟩,
    .findOrCreate (· = "z") "y"] (.create "c") [] ⟨2⟩ rfl
    (by simp [Change.isPlain]) hfirst hsecond
  exact absurd hlast (by decide +kernel)

end Table

namespace Machine

/-- Hands out a thread that has no marks, and leaves others alone. -/
def offered (t : ThreadHandle) (thread : Thread) : Option ThreadHandle × Thread :=
  if !(thread.claimed || thread.wasClaimed)
    then (some t, { thread with claimed := true, wasClaimed := true })
  else (none, thread)

/-- **Handing out an invocation** is an update of the first thread that has no marks. -/
theorem claimNext_eq_updateFirst (m : Machine) :
    m.claimNext = ((m.threads.updateFirst offered).1,
      { m with threads := (m.threads.updateFirst offered).2 }) := by
  have hupdate :=
    m.threads.updateFirst_of_test (fun thread => !(thread.claimed || thread.wasClaimed))
    fun thread => { thread with claimed := true, wasClaimed := true }
  change m.threads.updateFirst offered = _ at hupdate
  rw [claimNext, hupdate]
  cases m.threads.findHandle? fun thread => !(thread.claimed || thread.wasClaimed) <;> rfl

end Machine

end StepScript
