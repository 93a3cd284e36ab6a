import StepScript.Files.Listing

/-!
# Proofs/Files/Contents — what a listing holds

A listing holds the files that names lead to, at any depth (`Listing.Holds`). A listing in order
holds one file at most for the same names, the first of the names tells where it is
(`Listing.Holds.first`), and going through the listing meets every file once.

* `Listing.mem_files_iff` — the files of a listing are those it holds.
* `Listing.Ordered.nodup_files` — each of them is met once.
-/

namespace StepScript

namespace Listing

/-- **The file that names lead to**, and its content. -/
inductive Holds : Listing → List String → Bytes → Prop where
  | file {name : String} {content : Bytes} {rest : Listing} :
    Holds (.file name content rest) [name] content
  | afterFile {name : String} {other : Bytes} {rest : Listing} {steps : List String}
    {content : Bytes} :
    Holds rest steps content → Holds (.file name other rest) steps content
  | inside {name : String} {listing rest : Listing} {steps : List String} {content : Bytes} :
    Holds listing steps content → Holds (.directory name listing rest) (name :: steps) content
  | afterDirectory {name : String} {listing rest : Listing} {steps : List String}
    {content : Bytes} :
    Holds rest steps content → Holds (.directory name listing rest) steps content

instance decidableOrdered : (l : Listing) → Decidable l.Ordered
  | .empty => .isTrue trivial
  | .file name _ rest =>
    have := decidableOrdered rest
    inferInstanceAs (Decidable ((∀ later ∈ rest.names, compare name later = .lt) ∧ rest.Ordered))
  | .directory name inside rest =>
    have := decidableOrdered inside
    have := decidableOrdered rest
    inferInstanceAs
      (Decidable ((∀ later ∈ rest.names, compare name later = .lt) ∧ inside.Ordered ∧ rest.Ordered))

/-- The files of a listing are the steps under which it holds something. -/
theorem mem_files_iff {l : Listing} {steps : List String} :
    steps ∈ l.files ↔ ∃ content, l.Holds steps content := by
  constructor
  · intro h
    induction l generalizing steps with
    | empty => cases h
    | file name content rest ih =>
      rcases List.mem_cons.1 h with rfl | h
      · exact ⟨content, .file⟩
      · obtain ⟨content, hheld⟩ := ih h
        exact ⟨content, .afterFile hheld⟩
    | directory name inside rest ihInside ihRest =>
      rcases List.mem_append.1 h with h | h
      · obtain ⟨steps, hmem, rfl⟩ := List.mem_map.1 h
        obtain ⟨content, hheld⟩ := ihInside hmem
        exact ⟨content, .inside hheld⟩
      · obtain ⟨content, hheld⟩ := ihRest h
        exact ⟨content, .afterDirectory hheld⟩
  · rintro ⟨content, h⟩
    induction h with
    | file => exact List.mem_cons_self
    | afterFile _ ih => exact List.mem_cons_of_mem _ ih
    | inside _ ih => exact List.mem_append_left _ (List.mem_map_of_mem ih)
    | afterDirectory _ ih => exact List.mem_append_right _ ih

/-- A file has a name. -/
theorem Holds.ne_nil {l : Listing} {steps : List String} {content : Bytes}
    (h : l.Holds steps content) :
    steps ≠ [] := by
  induction h with
  | file => exact List.cons_ne_nil _ _
  | inside => exact List.cons_ne_nil _ _
  | afterFile _ ih => exact ih
  | afterDirectory _ ih => exact ih

theorem mem_names_of_find? {l : Listing} {name : String} {node : FileNode}
    (h : l.find? name = some node) :
    name ∈ l.names := by
  induction l with
  | empty => cases h
  | file first content rest ih =>
    rw [find?] at h
    split at h
    · next heq => exact heq ▸ List.mem_cons_self
    · exact List.mem_cons_of_mem _ (ih h)
  | directory first inside rest _ ih =>
    rw [find?] at h
    split at h
    · next heq => exact heq ▸ List.mem_cons_self
    · exact List.mem_cons_of_mem _ (ih h)

/-- A name further on is not the first one. -/
theorem ne_of_find? {first name : String} {rest : Listing} {node : FileNode}
    (hordered : ∀ later ∈ rest.names, compare first later = .lt) (h : rest.find? name = some node) :
    name ≠ first := by
  rintro rfl
  have := hordered name (mem_names_of_find? h)
  rw [Std.ReflOrd.compare_self] at this
  cases this

/-- What a name stands for further on, it stands for. -/
theorem find?_cons_of_rest {first name : String} {rest : Listing} {node : FileNode}
    (firstNode : FileNode) (hordered : ∀ later ∈ rest.names, compare first later = .lt)
    (h : rest.find? name = some node) :
    (cons first firstNode rest).find? name = some node := by
  rw [find?_cons, if_neg (ne_of_find? hordered h), h]

/-- **The first step to a file** is the name of the file, or of a directory that holds it. -/
theorem Holds.first {l : Listing} {steps : List String} {content : Bytes}
    (h : l.Holds steps content) (hordered : l.Ordered) :
    (∃ name, steps = [name] ∧ l.find? name = some (.file content)) ∨
      ∃ name steps' inside, steps = name :: steps' ∧ l.find? name = some (.directory inside) ∧
        inside.Holds steps' content := by
  induction h with
  | file => exact .inl ⟨_, rfl, if_pos rfl⟩
  | inside hheld => exact .inr ⟨_, _, _, rfl, if_pos rfl, hheld⟩
  | afterFile _ ih =>
    rcases ih hordered.2 with ⟨name, rfl, hfind⟩ | ⟨name, steps', inside, rfl, hfind, hheld⟩
    · exact .inl ⟨name, rfl, find?_cons_of_rest (.file _) hordered.1 hfind⟩
    · exact .inr ⟨name, steps', inside, rfl, find?_cons_of_rest (.file _) hordered.1 hfind, hheld⟩
  | afterDirectory _ ih =>
    rcases ih hordered.2.2 with ⟨name, rfl, hfind⟩ | ⟨name, steps', inside, rfl, hfind, hheld⟩
    · exact .inl ⟨name, rfl, find?_cons_of_rest (.directory _) hordered.1 hfind⟩
    · exact .inr ⟨name, steps', inside, rfl,
        find?_cons_of_rest (.directory _) hordered.1 hfind, hheld⟩

/-- Names lead to one file at most. -/
theorem Holds.unique {l : Listing} {steps : List String} {c c' : Bytes} (h : l.Holds steps c)
    (h' : l.Holds steps c') (hordered : l.Ordered) : c = c' := by
  induction steps generalizing l with
  | nil => exact absurd rfl h.ne_nil
  | cons name steps ih =>
    rcases h.first hordered with ⟨_, heq, hfind⟩ | ⟨_, _, inside, heq, hfind, hheld⟩
    · cases heq
      rcases h'.first hordered with ⟨_, heq, hfind'⟩ | ⟨_, _, _, heq, hfind', -⟩
      · cases heq
        cases hfind.symm.trans hfind'
        rfl
      · cases heq
        cases hfind.symm.trans hfind'
    · cases heq
      rcases h'.first hordered with ⟨_, heq, hfind'⟩ | ⟨_, _, inside', heq, hfind', hheld'⟩
      · cases heq
        cases hfind.symm.trans hfind'
      · cases heq
        cases hfind.symm.trans hfind'
        exact ih hheld hheld' (hordered.find? hfind)

/-- The steps to a file further on do not start with the first name. -/
theorem notMem_files {first : String} {rest : Listing} (hrest : rest.Ordered)
    (hordered : ∀ later ∈ rest.names, compare first later = .lt) (steps : List String) :
    first :: steps ∉ rest.files := by
  intro hmem
  obtain ⟨content, hheld⟩ := mem_files_iff.1 hmem
  rcases hheld.first hrest with ⟨_, heq, hfind⟩ | ⟨_, _, _, heq, hfind, -⟩
  · cases heq
    exact ne_of_find? hordered hfind rfl
  · cases heq
    exact ne_of_find? hordered hfind rfl

/-- **Every file is listed once.** -/
theorem Ordered.nodup_files {l : Listing} (h : l.Ordered) : l.files.Nodup := by
  induction l with
  | empty => exact .nil
  | file name content rest ih => exact List.nodup_cons.2 ⟨notMem_files h.2 h.1 [], ih h.2⟩
  | directory name inside rest ihInside ihRest =>
    refine List.nodup_append.2 ⟨?_, ihRest h.2.2, ?_⟩
    · exact List.Pairwise.map _ (fun _ _ hne heq => hne (List.cons.inj heq).2) (ihInside h.2.1)
    · rintro _ hin _ hlate rfl
      obtain ⟨steps, -, rfl⟩ := List.mem_map.1 hin
      exact notMem_files h.2.2 h.1 steps hlate

end Listing

end StepScript
