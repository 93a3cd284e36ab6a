import StepScript.Files.Scripts

/-!
# Proofs/Files/Steps — the steps of a path

A path means the sequence of its steps, and a name is one step. So the names that lead to a file,
put together with slashes, mean themselves (`Path.steps_intercalate`), and no two files have the
same such text.
-/

namespace StepScript

namespace Path

/-- **A name that a directory can give to what it holds**: not empty, neither of the two that walks
treat apart, free of slashes and zeros, and not too long. -/
structure IsName (name : String) : Prop where
  nonempty : name ≠ ""
  notHere : name ≠ "."
  notUp : name ≠ ".."
  noSlash : '/' ∉ name.toList
  noNul : '\x00' ∉ name.toList
  short : name.utf8ByteSize ≤ FileTree.maxName

instance (name : String) : Decidable (IsName name) :=
  decidable_of_iff (name ≠ "" ∧ name ≠ "." ∧ name ≠ ".." ∧ '/' ∉ name.toList ∧
    '\x00' ∉ name.toList ∧
      name.utf8ByteSize ≤ FileTree.maxName)
    ⟨fun h => ⟨h.1, h.2.1, h.2.2.1, h.2.2.2.1, h.2.2.2.2.1, h.2.2.2.2.2⟩,
      fun h => ⟨h.nonempty, h.notHere, h.notUp, h.noSlash, h.noNul, h.short⟩⟩

/-! ## Splitting -/

theorem splitSlash_ne_nil (cs : List Char) : splitSlash cs ≠ [] := by
  induction cs with
  | nil => exact List.cons_ne_nil _ _
  | cons c cs ih =>
    rw [splitSlash]
    split
    · exact List.cons_ne_nil _ _
    · split <;> exact List.cons_ne_nil _ _

theorem splitSlash_slash (cs : List Char) : splitSlash ('/' :: cs) = [] :: splitSlash cs := rfl

theorem splitSlash_cons {c : Char} (hc : c ≠ '/') (cs : List Char) :
    splitSlash (c :: cs) = (splitSlash cs).modifyHead (c :: ·) := by
  rw [splitSlash, if_neg hc]
  cases hsplit : splitSlash cs with
  | nil => exact absurd hsplit (splitSlash_ne_nil cs)
  | cons part parts => rfl

/-- A slash between two texts separates their parts. -/
theorem splitSlash_append_slash (front back : List Char) :
    splitSlash (front ++ '/' :: back) = splitSlash front ++ splitSlash back := by
  induction front with
  | nil => rfl
  | cons c front ih =>
    by_cases hc : c = '/'
    · rw [hc, List.cons_append, splitSlash_slash, splitSlash_slash, ih, List.cons_append]
    · rw [List.cons_append, splitSlash_cons hc, splitSlash_cons hc, ih]
      cases hsplit : splitSlash front with
      | nil => exact absurd hsplit (splitSlash_ne_nil front)
      | cons part parts => rfl

/-- What has no slash is one piece. -/
theorem splitSlash_of_notMem {cs : List Char} (h : '/' ∉ cs) : splitSlash cs = [cs] := by
  induction cs with
  | nil => rfl
  | cons c cs ih =>
    obtain ⟨hc, hcs⟩ := not_or.1 (mt List.mem_cons.2 h)
    rw [splitSlash_cons (Ne.symm hc), ih hcs]
    rfl

/-- The parts of a text have no characters of their own. -/
theorem mem_of_mem_splitSlash {cs part : List Char} {c : Char} (hpart : part ∈ splitSlash cs)
    (hc : c ∈ part) : c ∈ cs := by
  induction cs generalizing part with
  | nil =>
    rw [List.mem_singleton.1 hpart] at hc
    exact hc
  | cons d cs ih =>
    by_cases hd : d = '/'
    · rw [hd, splitSlash_slash] at hpart
      rcases List.mem_cons.1 hpart with rfl | hpart
      · cases hc
      · exact List.mem_cons_of_mem _ (ih hpart hc)
    · rw [splitSlash_cons hd] at hpart
      cases hsplit : splitSlash cs with
      | nil => exact absurd hsplit (splitSlash_ne_nil cs)
      | cons first parts =>
        rw [hsplit] at hpart ih
        rcases List.mem_cons.1 hpart with rfl | hpart
        · rcases List.mem_cons.1 hc with rfl | hc
          · exact List.mem_cons_self
          · exact List.mem_cons_of_mem _ (ih List.mem_cons_self hc)
        · exact List.mem_cons_of_mem _ (ih (List.mem_cons_of_mem _ hpart) hc)

/-! ## Steps -/

/-- The steps of two paths with a slash between them are those of the first and those of the
second. -/
theorem steps_append_slash (front back : String) :
    steps (front ++ "/" ++ back) = steps front ++ steps back := by
  have hlist : (front ++ "/" ++ back).toList = front.toList ++ '/' :: back.toList := by simp
  rw [steps, hlist, splitSlash_append_slash, List.filter_append, List.map_append]
  rfl

/-- A name is a path of one step. -/
theorem IsName.steps_eq {name : String} (h : IsName name) : steps name = [name] := by
  have hne : name.toList ≠ [] := fun hnil => h.nonempty (String.toList_eq_nil_iff.1 hnil)
  rw [steps, splitSlash_of_notMem h.noSlash]
  simp [hne]

/-- **Names with slashes between them are the steps of that path.** -/
theorem steps_intercalate {names : List String} (h : ∀ name ∈ names, IsName name) :
    steps ("/".intercalate names) = names := by
  induction names with
  | nil => rfl
  | cons name names ih =>
    obtain ⟨hname, hnames⟩ := List.forall_mem_cons.1 h
    cases names with
    | nil =>
      rw [String.intercalate_singleton]
      exact hname.steps_eq
    | cons next names =>
      rw [String.intercalate_cons_cons, steps_append_slash, hname.steps_eq, ih hnames]
      rfl

/-- The steps of a path have only characters of the path. -/
theorem mem_of_mem_steps {path step : String} {c : Char} (hstep : step ∈ steps path)
    (hc : c ∈ step.toList) : c ∈ path.toList := by
  obtain ⟨part, hpart, rfl⟩ := List.mem_map.1 hstep
  rw [String.toList_ofList] at hc
  exact mem_of_mem_splitSlash (List.mem_filter.1 hpart).1 hc

/-- Joining names adds slashes and nothing else. -/
theorem mem_intercalate {names : List String} {c : Char} (h : c ∈ ("/".intercalate names).toList) :
    c = '/' ∨ ∃ name ∈ names, c ∈ name.toList := by
  induction names with
  | nil => cases h
  | cons name names ih =>
    cases names with
    | nil =>
      rw [String.intercalate_singleton] at h
      exact .inr ⟨name, List.mem_cons_self, h⟩
    | cons next names =>
      rw [String.intercalate_cons_cons] at h
      simp only [String.toList_append, List.mem_append] at h
      rcases h with (h | h) | h
      · exact .inr ⟨name, List.mem_cons_self, h⟩
      · exact .inl (List.mem_singleton.1 h)
      · rcases ih h with h | ⟨later, hlater, h⟩
        · exact .inl h
        · exact .inr ⟨later, List.mem_cons_of_mem _ hlater, h⟩

/-- A text made of names ends with the last of them. -/
theorem intercalate_concat (names : List String) (name : String) :
    ∃ front, "/".intercalate (names ++ [name]) = front ++ name := by
  cases names with
  | nil => exact ⟨"", by simp⟩
  | cons first names =>
    refine ⟨"/".intercalate (first :: names) ++ "/", ?_⟩
    rw [String.intercalate_append_of_ne_nil (List.cons_ne_nil _ _) (List.cons_ne_nil _ _),
      String.intercalate_singleton]

/-! ## Joining -/

/-- **How a path is continued**: a slash stands between the two, which the first may bring along. -/
theorem join_cases {path : String} (hpath : isAbsolute path = false) (base : String) :
    base = "" ∧ join base path = path ∨
      ∃ front, join base path = front ++ "/" ++ path ∧
        (base = front ++ "/" ∨ base = front ∧ base ≠ "") := by
  have hpath : ¬isAbsolute path = true := by simp [hpath]
  by_cases hempty : base = ""
  · refine .inl ⟨hempty, ?_⟩
    rw [join, if_neg hpath, if_pos (by simp [hempty]), hempty, String.empty_append]
  · by_cases hslash : endsInSlash base = true
    · obtain ⟨front, hfront⟩ := List.getLast?_eq_some_iff.1 (of_decide_eq_true hslash)
      have hbase : base = String.ofList front ++ "/" := String.toList_injective (by simp [hfront])
      refine .inr ⟨String.ofList front, ?_, .inl hbase⟩
      rw [join, if_neg hpath, if_pos (by simp [hslash]), ← hbase]
    · refine .inr ⟨base, ?_, .inr ⟨rfl, hempty⟩⟩
      rw [join, if_neg hpath, if_neg (by simp [hempty, hslash])]

/-- Whether a path is absolute is seen at its front. -/
theorem isAbsolute_append {front : String} (h : front ≠ "") (back : String) :
    isAbsolute (front ++ back) = isAbsolute front := by
  obtain ⟨c, cs, hfront⟩ := List.exists_cons_of_ne_nil (mt String.toList_eq_nil_iff.1 h)
  rw [isAbsolute, isAbsolute, String.toList_append, hfront, List.cons_append, List.head?_cons,
    List.head?_cons]

/-- A path that is joined to a base is absolute if the base is. -/
theorem isAbsolute_join {path : String} (hpath : isAbsolute path = false) (base : String) :
    isAbsolute (join base path) = isAbsolute base := by
  rcases join_cases hpath base with ⟨rfl, hjoin⟩ | ⟨front, hjoin, rfl | ⟨rfl, hne⟩⟩
  · rw [hjoin, hpath]
    rfl
  · rw [hjoin, isAbsolute_append (by simp)]
  · rw [hjoin, String.append_assoc, isAbsolute_append hne]

/-- **The steps of two paths follow each other in their join.** -/
theorem steps_join {path : String} (hpath : isAbsolute path = false) (base : String) :
    steps (join base path) = steps base ++ steps path := by
  rcases join_cases hpath base with ⟨rfl, hjoin⟩ | ⟨front, hjoin, rfl | ⟨rfl, -⟩⟩
  · rw [hjoin]
    rfl
  · have hfront : steps (front ++ "/") = steps front := by
      have := steps_append_slash front ""
      rw [String.append_empty] at this
      exact this.trans (List.append_nil _)
    rw [hjoin, steps_append_slash, hfront]
  · rw [hjoin, steps_append_slash]

/-- Joining two paths loses no bytes. -/
theorem size_join {path : String} (hpath : isAbsolute path = false) (base : String) :
    base.utf8ByteSize + path.utf8ByteSize ≤ (join base path).utf8ByteSize := by
  rcases join_cases hpath base with ⟨rfl, hjoin⟩ | ⟨front, hjoin, rfl | ⟨rfl, -⟩⟩
  · rw [hjoin]
    exact Nat.le_of_eq (Nat.zero_add _)
  · exact Nat.le_of_eq (by rw [hjoin, String.utf8ByteSize_append (s := front ++ "/")])
  · rw [hjoin, String.utf8ByteSize_append, String.utf8ByteSize_append]
    omega

theorem join_ne_empty {base path : String} (h : base ≠ "") : join base path ≠ "" := by
  unfold join
  split
  · rintro rfl
    contradiction
  · split <;> simp [h]

/-- Joining two paths adds a slash and nothing else. -/
theorem mem_join {base path : String} {c : Char} (h : c ∈ (join base path).toList) :
    c = '/' ∨ c ∈ base.toList ∨ c ∈ path.toList := by
  unfold join at h
  split at h
  · exact .inr (.inr h)
  · split at h
    · rw [String.toList_append] at h
      exact .inr (List.mem_append.1 h)
    · simp only [String.toList_append, List.mem_append] at h
      rcases h with (h | h) | h
      · exact .inr (.inl h)
      · exact .inl (List.mem_singleton.1 h)
      · exact .inr (.inr h)

theorem endsInSlash_append {back : String} (h : back ≠ "") (front : String) :
    endsInSlash (front ++ back) = endsInSlash back := by
  have hback : back.toList ≠ [] := mt String.toList_eq_nil_iff.1 h
  rw [endsInSlash, endsInSlash, String.toList_append, List.getLast?_append,
    List.getLast?_eq_some_getLast hback, Option.some_or]

/-- A joined path ends in a slash if its second part does. -/
theorem endsInSlash_join {path : String} (hpath : isAbsolute path = false) (hne : path ≠ "")
    (base : String) :
    endsInSlash (join base path) = endsInSlash path := by
  rcases join_cases hpath base with ⟨-, hjoin⟩ | ⟨front, hjoin, -⟩
  · rw [hjoin]
  · rw [hjoin, endsInSlash_append hne]

/-- **Names with slashes between them are a path that starts and ends with a name.** -/
theorem intercalate_names {names : List String} (h : ∀ name ∈ names, IsName name)
    (hne : names ≠ []) :
    "/".intercalate names ≠ "" ∧ isAbsolute ("/".intercalate names) = false ∧
      endsInSlash ("/".intercalate names) = false := by
  have hhead : ∃ name ∈ names, ∃ back, "/".intercalate names = name ++ back := by
    obtain ⟨name, names, rfl⟩ := List.exists_cons_of_ne_nil hne
    refine ⟨name, List.mem_cons_self, ?_⟩
    cases names with
    | nil => exact ⟨"", by simp⟩
    | cons next names => exact ⟨_, String.intercalate_cons_cons.trans String.append_assoc⟩
  have hlast : ∃ name ∈ names, ∃ front, "/".intercalate names = front ++ name := by
    obtain ⟨front, hfront⟩ := intercalate_concat names.dropLast (names.getLast hne)
    rw [List.dropLast_concat_getLast] at hfront
    exact ⟨_, List.getLast_mem hne, front, hfront⟩
  obtain ⟨first, hfirst, back, hback⟩ := hhead
  obtain ⟨last, hlast, front, hfront⟩ := hlast
  refine ⟨?_, ?_, ?_⟩
  · rw [hback]
    exact fun hempty => (h first hfirst).nonempty (by simp_all)
  · rw [hback, isAbsolute_append (h first hfirst).nonempty]
    exact decide_eq_false fun hslash => (h first hfirst).noSlash (List.mem_of_head? hslash)
  · rw [hfront, endsInSlash_append (h last hlast).nonempty]
    exact decide_eq_false fun hslash => (h last hlast).noSlash (List.mem_of_getLast? hslash)

end Path

end StepScript
