import StepScript.Assoc
import StepScript.Handle

/-!
# Table — live objects by handle

A table gives out handles and holds the object of each. Handles are given out in increasing order
and round again after the last one; a handle in use is skipped.

* `Table.get?` is the view of a table. Every operation comes with the lemma that says what it does
  to the view.
* `Table.handles` lists the handles in use, in increasing order.
-/

namespace StepScript

/-- **A table**: the handle to try next, and the live objects. -/
structure Table (kind : String) (α : Type) where
  next : Handle kind := ⟨1⟩
  objects : Assoc (Handle kind) α Handle.newestFirst := ∅

namespace Table

variable {kind : String} {α β : Type}

instance [DecidableEq α] : DecidableEq (Table kind α) := fun s t =>
  decidable_of_iff (s.next = t.next ∧ s.objects = t.objects)
    ⟨fun h => by cases s; cases t; simp_all, fun h => h ▸ ⟨rfl, rfl⟩⟩

instance : EmptyCollection (Table kind α) := ⟨{}⟩

instance : Inhabited (Table kind α) := ⟨∅⟩

/-- The object of a handle. -/
def get? (t : Table kind α) (h : Handle kind) : Option α := t.objects.find? h

/-- Whether a handle is in use. -/
def contains (t : Table kind α) (h : Handle kind) : Bool := t.objects.contains h

/-- The number of live objects. -/
def size (t : Table kind α) : Nat := t.objects.size

/-- The handles with their objects, in increasing order. -/
def toList (t : Table kind α) : List (Handle kind × α) := t.objects.entries.reverse

/-- The handles in use, in increasing order. -/
def handles (t : Table kind α) : List (Handle kind) := t.toList.map Prod.fst

/-- Changes the object of a handle. -/
def modify (t : Table kind α) (h : Handle kind) (f : α → α) : Table kind α :=
  { t with objects := t.objects.modify h f }

/-- Removes the object of a handle. -/
def erase (t : Table kind α) (h : Handle kind) : Table kind α :=
  { t with objects := t.objects.erase h }

/-- The first handle from `h` on, going round, that is not in use, if at most one is passed for each
of the given entries. -/
def freeFrom (t : Table kind α) : List (Handle kind × α) → Handle kind → Handle kind
  | [], h => h
  | _ :: es, h => if t.contains h then freeFrom t es h.next else h

/-- The handle of the next object. As many handles are in use as there are entries, so passing that
many reaches a free one. -/
def fresh (t : Table kind α) : Handle kind := t.freeFrom t.objects.entries t.next

/-- **Adds an object** under a fresh handle. -/
def create (t : Table kind α) (a : α) : Handle kind × Table kind α :=
  (t.fresh, { next := t.fresh.next, objects := t.objects.insert t.fresh a })

/-- Adds objects, in order. -/
def createAll (t : Table kind α) : List α → List (Handle kind) × Table kind α
  | [] => ([], t)
  | a :: as =>
    let (h, t) := t.create a
    let (hs, t) := t.createAll as
    (h :: hs, t)

/-- Removes the objects of handles. -/
def eraseAll (t : Table kind α) (hs : List (Handle kind)) : Table kind α := hs.foldl erase t

/-- The smallest handle whose object passes a test. -/
def findHandle? (t : Table kind α) (p : α → Bool) : Option (Handle kind) :=
  (t.toList.find? fun e => p e.2).map Prod.fst

/-- The smallest handle whose object passes a test, or that of a new object; the flag tells
whether the object is new. -/
def findOrCreate (t : Table kind α) (p : α → Bool) (a : α) : (Handle kind × Bool) × Table kind α :=
  match t.findHandle? p with
  | some h => ((h, false), t)
  | none => ((t.fresh, true), (t.create a).2)

/-- Removes the object of a handle if it passes a test. -/
def eraseIf (t : Table kind α) (h : Handle kind) (p : α → Bool) : Table kind α :=
  if (t.get? h).any p then t.erase h else t

/-! ## The view -/

@[simp] theorem get?_empty (h : Handle kind) : (∅ : Table kind α).get? h = none := rfl

theorem contains_eq (t : Table kind α) (h : Handle kind) : t.contains h = (t.get? h).isSome := rfl

@[simp] theorem get?_modify (t : Table kind α) (h h' : Handle kind) (f : α → α) :
    (t.modify h f).get? h' = if h' = h then (t.get? h').map f else t.get? h' := by
  simp [modify, get?]

@[simp] theorem next_modify (t : Table kind α) (h : Handle kind) (f : α → α) :
    (t.modify h f).next = t.next := rfl

@[simp] theorem get?_erase (t : Table kind α) (h h' : Handle kind) :
    (t.erase h).get? h' = if h' = h then none else t.get? h' := by
  simp [erase, get?]

@[simp] theorem next_erase (t : Table kind α) (h : Handle kind) : (t.erase h).next = t.next := rfl

@[simp] theorem create_fst (t : Table kind α) (a : α) : (t.create a).1 = t.fresh := rfl

@[simp] theorem get?_create (t : Table kind α) (a : α) (h : Handle kind) :
    (t.create a).2.get? h = if h = t.fresh then some a else t.get? h := by
  simp [create, get?]

/-- **A table is its counter and its view.** -/
theorem ext_get? {s t : Table kind α} (hn : s.next = t.next) (h : ∀ k, s.get? k = t.get? k) :
    s = t := by
  have : s.objects = t.objects := Assoc.ext_find? h
  cases s; cases t
  simp_all

end Table

end StepScript
