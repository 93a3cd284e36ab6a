import StepScript.Codec.Binary

/-!
# Files/Listing — what a directory holds

A listing is the content of a directory: files and directories by name, each directory with a
listing of its own. The names of a listing are in increasing order (`Listing.Ordered`), so a name
stands for one thing and going through a listing meets the names in order.

* `Listing.find?` is the view of a listing; `Listing.find?_insert` says what `Listing.insert` does
  to it.
* `Listing.putAt` changes a listing somewhere below, and keeps the order (`Listing.Ordered.putAt`).
-/

namespace StepScript

/-- **The content of a directory.** -/
inductive Listing where
  | empty
  | file (name : String) (content : Bytes) (rest : Listing)
  | directory (name : String) (inside rest : Listing)
deriving DecidableEq

/-- What a name stands for. -/
inductive FileNode where
  | file (content : Bytes)
  | directory (inside : Listing)
deriving DecidableEq

namespace Listing

/-- A listing that starts with a node. -/
def cons (name : String) : FileNode → Listing → Listing
  | .file content, rest => .file name content rest
  | .directory inside, rest => .directory name inside rest

/-- The names of a listing, those of inner listings aside. -/
def names : Listing → List String
  | .empty => []
  | .file name _ rest => name :: rest.names
  | .directory name _ rest => name :: rest.names

/-- What a name stands for in a listing. -/
def find? (name : String) : Listing → Option FileNode
  | .empty => none
  | .file name' content rest => if name = name' then some (.file content) else rest.find? name
  | .directory name' inside rest =>
    if name = name' then some (.directory inside) else rest.find? name

/-- **Puts a node under a name**, in place of what was there. -/
def insert (name : String) (node : FileNode) : Listing → Listing
  | .empty => cons name node .empty
  | .file name' content rest =>
    match compare name name' with
    | .lt => cons name node (.file name' content rest)
    | .eq => cons name node rest
    | .gt => .file name' content (rest.insert name node)
  | .directory name' inside rest =>
    match compare name name' with
    | .lt => cons name node (.directory name' inside rest)
    | .eq => cons name node rest
    | .gt => .directory name' inside (rest.insert name node)

/-- **Puts a node under a name into the directory that names lead to.** Names that lead to no
directory leave the listing as it is. -/
def putAt (name : String) (node : FileNode) : List String → Listing → Listing
  | [], l => l.insert name node
  | step :: steps, l =>
    match l.find? step with
    | some (.directory inside) => l.insert step (.directory (putAt name node steps inside))
    | _ => l

/-- **The files of a listing and of all listings inside**, each as the names that lead to it, in
order. -/
def files : Listing → List (List String)
  | .empty => []
  | .file name _ rest => [name] :: rest.files
  | .directory name inside rest => inside.files.map (name :: ·) ++ rest.files

/-! ## Order -/

/-- The names are in strictly increasing order, here and in every listing inside. -/
def Ordered : Listing → Prop
  | .empty => True
  | .file name _ rest => (∀ name' ∈ rest.names, compare name name' = .lt) ∧ rest.Ordered
  | .directory name inside rest =>
    (∀ name' ∈ rest.names, compare name name' = .lt) ∧ inside.Ordered ∧ rest.Ordered

/-- A node whose listing, if it is a directory, is in order. -/
def OrderedNode : FileNode → Prop
  | .file _ => True
  | .directory inside => inside.Ordered

@[simp] theorem names_cons (name : String) (node : FileNode) (rest : Listing) :
    (cons name node rest).names = name :: rest.names := by
  cases node <;> rfl

@[simp] theorem find?_cons (name name' : String) (node : FileNode) (rest : Listing) :
    (cons name' node rest).find? name = if name = name' then some node else rest.find? name := by
  cases node <;> rfl

theorem ordered_cons {name : String} {node : FileNode} {rest : Listing} :
    (cons name node rest).Ordered ↔
      (∀ name' ∈ rest.names, compare name name' = .lt) ∧ OrderedNode node ∧ rest.Ordered := by
  cases node <;> simp [cons, Ordered, OrderedNode]

/-- What a name stands for after a node was put there. -/
theorem find?_insert (name name' : String) (node : FileNode) (l : Listing) :
    (l.insert name node).find? name' = if name' = name then some node else l.find? name' := by
  induction l with
  | empty => simp [insert, find?]
  | file name₀ content rest ih =>
    simp only [insert]
    split
    · simp [find?]
    · rename_i h
      have : name = name₀ := Std.LawfulEqOrd.eq_of_compare h
      grind [find?, find?_cons]
    · rename_i h
      have : name ≠ name₀ := fun e => by simp [e, Std.ReflOrd.compare_self] at h
      grind [find?]
  | directory name₀ inside rest _ ih =>
    simp only [insert]
    split
    · simp [find?]
    · rename_i h
      have : name = name₀ := Std.LawfulEqOrd.eq_of_compare h
      grind [find?, find?_cons]
    · rename_i h
      have : name ≠ name₀ := fun e => by simp [e, Std.ReflOrd.compare_self] at h
      grind [find?]

theorem mem_names_insert {name name' : String} {node : FileNode} {l : Listing}
    (h : name' ∈ (l.insert name node).names) : name' = name ∨ name' ∈ l.names := by
  induction l with
  | empty => simpa [insert, names] using h
  | file name₀ content rest ih =>
    simp only [insert] at h
    split at h <;> grind [names, names_cons]
  | directory name₀ inside rest _ ih =>
    simp only [insert] at h
    split at h <;> grind [names, names_cons]

private theorem lt_all {name name₀ : String} {ns : List String} (h : compare name name₀ = .lt)
    (above : ∀ n ∈ ns, compare name₀ n = .lt) : ∀ n ∈ name₀ :: ns, compare name n = .lt := by
  intro n mem
  rcases List.mem_cons.1 mem with rfl | mem
  · exact h
  · exact Std.TransCmp.lt_trans h (above n mem)

namespace Ordered

theorem insert {l : Listing} (h : l.Ordered) (name : String) {node : FileNode}
    (hn : OrderedNode node) : (l.insert name node).Ordered := by
  induction l with
  | empty => simp [Listing.insert, ordered_cons, names, hn, Ordered]
  | file name₀ content rest ih =>
    simp only [Listing.insert]
    split
    · rename_i lt
      exact ordered_cons.2 ⟨lt_all lt h.1, hn, h⟩
    · rename_i eq
      obtain rfl := Std.LawfulEqOrd.eq_of_compare eq
      exact ordered_cons.2 ⟨h.1, hn, h.2⟩
    · rename_i gt
      refine ⟨fun n mem => ?_, ih h.2⟩
      rcases mem_names_insert mem with rfl | mem
      · exact Std.OrientedCmp.lt_of_gt gt
      · exact h.1 n mem
  | directory name₀ inside rest _ ih =>
    simp only [Listing.insert]
    split
    · rename_i lt
      exact ordered_cons.2 ⟨lt_all lt h.1, hn, h⟩
    · rename_i eq
      obtain rfl := Std.LawfulEqOrd.eq_of_compare eq
      exact ordered_cons.2 ⟨h.1, hn, h.2.2⟩
    · rename_i gt
      refine ⟨fun n mem => ?_, h.2.1, ih h.2.2⟩
      rcases mem_names_insert mem with rfl | mem
      · exact Std.OrientedCmp.lt_of_gt gt
      · exact h.1 n mem

theorem find? {l : Listing} (h : l.Ordered) {name : String} {node : FileNode}
    (found : l.find? name = some node) : OrderedNode node := by
  induction l with
  | empty => simp [Listing.find?] at found
  | file name₀ content rest ih =>
    simp only [Listing.find?] at found
    split at found
    · obtain rfl := Option.some.inj found
      trivial
    · exact ih h.2 found
  | directory name₀ inside rest _ ih =>
    simp only [Listing.find?] at found
    split at found
    · obtain rfl := Option.some.inj found
      exact h.2.1
    · exact ih h.2.2 found

theorem putAt {l : Listing} (h : l.Ordered) (name : String) {node : FileNode}
    (hn : OrderedNode node) (steps : List String) : (Listing.putAt name node steps l).Ordered := by
  induction steps generalizing l with
  | nil => exact h.insert name hn
  | cons step steps ih =>
    simp only [Listing.putAt]
    split
    · rename_i inside found
      exact Ordered.insert h step (show OrderedNode (.directory _) from ih (h.find? found))
    · exact h

end Ordered

end Listing

end StepScript
