import StepScript.Proofs.Files.Contents
import StepScript.Proofs.Files.Steps

/-!
# Proofs/Files/Places — where paths lead

A step of a walk goes down into a directory, stays, or goes up (`FileTree.Enters`), so the place
that a walk reaches follows from its steps alone (`Place.follow`); whether there is anything to walk
on depends on the tree. A file that a directory holds is found by walking along the names that lead
to it.

* `FileTree.placeAt?` — the place that a path leads to.
* `FileTree.find_of_holds` — a file below a directory is found by the path of the directory,
  continued by the names that lead to the file.
-/

namespace StepScript

/-! ## Walks -/

/-- The place reached from a place by one step. -/
def Place.move (place : Place) (step : String) : Place :=
  if step = "." then place else if step = ".." then place.dropLast else place ++ [step]

/-- The place reached from a place along steps. -/
def Place.follow (place : Place) (steps : List String) : Place := steps.foldl Place.move place

namespace Place

/-- A walk goes on from where it came to. -/
theorem follow_append (place : Place) (front back : List String) :
    follow place (front ++ back) = follow (follow place front) back := List.foldl_append

theorem move_of_ne {step : String} (hhere : step ≠ ".") (hup : step ≠ "..") (place : Place) :
    move place step = place ++ [step] := by
  rw [move, if_neg hhere, if_neg hup]

/-- Names that are plain steps lead straight down. -/
theorem follow_names {names : List String} (h : ∀ name ∈ names, Path.IsName name) (place : Place) :
    follow place names = place ++ names := by
  induction names generalizing place with
  | nil => exact (List.append_nil place).symm
  | cons name names ih =>
    obtain ⟨hname, hnames⟩ := List.forall_mem_cons.1 h
    rw [follow, List.foldl_cons, move_of_ne hname.notHere hname.notUp]
    exact (ih hnames _).trans (List.append_assoc place [name] names)

/-- One step adds to a place nothing but itself. -/
theorem mem_drop_move {place : Place} {step name : String} {n : Nat}
    (h : name ∈ (move place step).drop n) :
    name = step ∨ name ∈ place.drop n := by
  unfold move at h
  split at h
  · exact .inr h
  · split at h
    · exact .inr (((List.dropLast_sublist place).drop n).subset h)
    · rw [List.drop_append] at h
      rcases List.mem_append.1 h with h | h
      · exact .inr h
      · exact .inl (List.mem_singleton.1 (List.mem_of_mem_drop h))

/-- **What a walk adds to a place are its steps.** -/
theorem mem_drop_follow {place : Place} {steps : List String} {n : Nat} {name : String}
    (h : name ∈ (follow place steps).drop n) : name ∈ steps ∨ name ∈ place.drop n := by
  induction steps generalizing place with
  | nil => exact .inr h
  | cons step steps ih =>
    rcases ih h with h | h
    · exact .inl (List.mem_cons_of_mem _ h)
    · rcases mem_drop_move h with rfl | h
      · exact .inl List.mem_cons_self
      · exact .inr h

end Place

namespace FileTree

variable {t : FileTree}

/-- The place from which a path starts. -/
def startOf (t : FileTree) (path : String) : Place := if Path.isAbsolute path then [] else t.here

/-- **The place that a path leads to.** Nothing has to be there. -/
def placeAt? (t : FileTree) (path : String) : Option Place :=
  (t.locate path).toOption.map fun r => placeOf r.1 ++ r.2.toList

theorem placeOf_cons (name : String) (listing : Listing) (trail : Trail) :
    placeOf ((name, listing) :: trail) = placeOf trail ++ [name] := by
  simp [placeOf]

theorem placeOf_tail (trail : Trail) : placeOf trail.tail = (placeOf trail).dropLast := by
  cases trail with
  | nil => rfl
  | cons e trail => rw [List.tail_cons, placeOf_cons, List.dropLast_concat]

/-- **One step of a walk**: it stays, goes up, or goes down into a directory. -/
inductive Enters (t : FileTree) (trail : Trail) : String → Trail → Prop where
  | stay : Enters t trail "." trail
  | up : Enters t trail ".." trail.tail
  | down {step : String} {listing : Listing} :
    step ≠ "." → step ≠ ".." → step.utf8ByteSize ≤ maxName →
    (t.inside trail).find? step = some (.directory listing) →
    Enters t trail step ((step, listing) :: trail)

/-- Looking up a name gives what the listing has under it, unless the name is too long. -/
theorem entry?_eq_ok {trail : Trail} {name : String} {node : Option FileNode} :
    t.entry? trail name = .ok node ↔
      name.utf8ByteSize ≤ maxName ∧ (t.inside trail).find? name = node := by
  unfold entry?
  split <;> simp <;> omega

/-- A walk makes its first step and goes on from there. -/
theorem walk_cons_eq_ok {trail trail' : Trail} {step : String} {steps : List String} :
    t.walk trail (step :: steps) = .ok trail' ↔
      ∃ next, t.Enters trail step next ∧ t.walk next steps = .ok trail' := by
  rw [walk]
  constructor
  · intro h
    split at h
    · next hstep => exact ⟨trail, hstep ▸ .stay, h⟩
    · next hstep =>
      split at h
      · next hup => exact ⟨trail.tail, hup ▸ .up, h⟩
      · next hup =>
        split at h
        · cases h
        · cases h
        · cases h
        · next listing hentry =>
          obtain ⟨hshort, hfind⟩ := entry?_eq_ok.1 hentry
          exact ⟨_, .down hstep hup hshort hfind, h⟩
  · rintro ⟨next, hstep, h⟩
    cases hstep with
    | stay => exact h
    | up => exact h
    | down hstep hup hshort hfind =>
      rw [if_neg hstep, if_neg hup, entry?_eq_ok.2 ⟨hshort, hfind⟩]
      exact h

/-- A walk can be taken in two parts. -/
theorem walk_append_eq_ok {trail trail' : Trail} {front back : List String} :
    t.walk trail (front ++ back) = .ok trail' ↔
      ∃ next, t.walk trail front = .ok next ∧ t.walk next back = .ok trail' := by
  induction front generalizing trail with
  | nil => simp [walk]
  | cons step front ih =>
    simp only [List.cons_append, walk_cons_eq_ok, ih]
    grind

theorem walk_concat {trail next trail' : Trail} {steps : List String} {step : String}
    (hwalk : t.walk trail steps = .ok next) (hstep : t.Enters next step trail') :
    t.walk trail (steps ++ [step]) = .ok trail' :=
  walk_append_eq_ok.2 ⟨next, hwalk, walk_cons_eq_ok.2 ⟨trail', hstep, rfl⟩⟩

/-- A step that can be made leads to the place that the step alone says. -/
theorem Enters.placeOf_eq {trail next : Trail} {step : String} (h : t.Enters trail step next) :
    placeOf next = (placeOf trail).move step := by
  cases h with
  | stay => rfl
  | up => exact placeOf_tail trail
  | down hhere hup _ _ => rw [placeOf_cons, Place.move_of_ne hhere hup]

/-- **A walk that succeeds ends where its steps lead.** -/
theorem placeOf_walk {trail trail' : Trail} {steps : List String}
    (h : t.walk trail steps = .ok trail') :
    placeOf trail' = (placeOf trail).follow steps := by
  induction steps generalizing trail with
  | nil =>
    cases h
    rfl
  | cons step steps ih =>
    obtain ⟨next, hstep, h⟩ := walk_cons_eq_ok.1 h
    rw [ih h, hstep.placeOf_eq]
    rfl

theorem ordered_inside {trail : Trail} (htrail : ∀ e ∈ trail, e.2.Ordered) :
    (t.inside trail).Ordered := by
  cases trail with
  | nil => exact t.ordered
  | cons e trail => exact htrail e List.mem_cons_self

/-- A step leads from listings in order to listings in order. -/
theorem Enters.ordered {trail next : Trail} {step : String} (h : t.Enters trail step next)
    (htrail : ∀ e ∈ trail, e.2.Ordered) : ∀ e ∈ next, e.2.Ordered := by
  cases h with
  | stay => exact htrail
  | up => exact fun e he => htrail e (List.mem_of_mem_tail he)
  | down _ _ _ hfind => exact List.forall_mem_cons.2 ⟨(ordered_inside htrail).find? hfind, htrail⟩

/-- A walk never comes to a listing that is out of order. -/
theorem ordered_of_walk {trail trail' : Trail} {steps : List String}
    (h : t.walk trail steps = .ok trail') (htrail : ∀ e ∈ trail, e.2.Ordered) :
    ∀ e ∈ trail', e.2.Ordered := by
  induction steps generalizing trail with
  | nil =>
    cases h
    exact htrail
  | cons step steps ih =>
    obtain ⟨next, hstep, h⟩ := walk_cons_eq_ok.1 h
    exact ih h (hstep.ordered htrail)

/-! ## Paths -/

/-- **How a path is located**: as a directory, or as a name in one. -/
theorem locate_cases {path : String} {trail : Trail} {last : Option String}
    (h : t.locate path = .ok (trail, last)) : refusal? path = none ∧
      (last = none ∧ t.walk [] (t.startOf path ++ Path.steps path) = .ok trail ∨
        ∃ before name, last = some name ∧ name ≠ "." ∧ name ≠ ".." ∧
          Path.steps path = before ++ [name] ∧
          t.walk [] (t.startOf path ++ before) = .ok trail) := by
  unfold startOf
  cases hpath : refusal? path with
  | some fault => simp [locate, hpath] at h
  | none =>
    refine ⟨rfl, ?_⟩
    rcases List.eq_nil_or_concat (Path.steps path) with hsteps | ⟨before, name, hsteps⟩
    · simp only [locate, hpath, hsteps, List.reverse_nil] at h
      rw [hsteps, List.append_nil]
      cases hwalk : t.walk [] (if Path.isAbsolute path then [] else t.here) with
      | error fault => simp [hwalk, Except.map] at h
      | ok trail₀ => simp_all [Except.map]
    · simp only [locate, hpath, hsteps, List.concat_eq_append, List.reverse_append,
        List.reverse_singleton, List.singleton_append, List.reverse_reverse] at h
      cases hwalk : t.walk [] ((if Path.isAbsolute path then [] else t.here) ++ before) with
      | error fault => simp [hwalk] at h
      | ok trail₀ =>
        rw [hwalk] at h
        rw [hsteps, List.concat_eq_append, ← List.append_assoc]
        by_cases hhere : name = "."
        · obtain ⟨rfl, rfl⟩ : trail₀ = trail ∧ none = last := by simpa [hhere] using h
          exact .inl ⟨rfl, walk_concat hwalk (hhere ▸ .stay)⟩
        · by_cases hup : name = ".."
          · obtain ⟨rfl, rfl⟩ : trail₀.tail = trail ∧ none = last := by simpa [hup] using h
            exact .inl ⟨rfl, walk_concat hwalk (hup ▸ .up)⟩
          · obtain ⟨rfl, rfl⟩ : trail₀ = trail ∧ some name = last := by simpa [hhere, hup] using h
            exact .inr ⟨before, name, rfl, hhere, hup, rfl, hwalk⟩

/-- **How a path is located**: by walking along all but its last step, which is kept as a name if it
is one. -/
theorem locate_of_walk {path : String} {before : List String} {name : String} {trail : Trail}
    (hpath : refusal? path = none) (hsteps : Path.steps path = before ++ [name])
    (hhere : name ≠ ".") (hup : name ≠ "..")
    (hwalk : t.walk [] (t.startOf path ++ before) = .ok trail) :
    t.locate path = .ok (trail, some name) := by
  have hreverse : (Path.steps path).reverse = name :: before.reverse := by simp [hsteps]
  unfold startOf at hwalk
  simp only [locate, hpath, hreverse, List.reverse_reverse, hwalk, hhere, hup, if_false]

/-- A path is refused for a null character, for being empty, or for its length. -/
theorem refusal?_eq_none {path : String} :
    refusal? path = none ↔ '\x00' ∉ path.toList ∧ path ≠ "" ∧ path.utf8ByteSize ≤ maxPath := by
  unfold refusal?
  grind [String.isEmpty_iff]

/-- A path continued by names is a path unless it gets too long. -/
theorem refusal?_join {base : String} {names : List String} (hbase : refusal? base = none)
    (hnames : ∀ name ∈ names, Path.IsName name)
    (hsize : (Path.join base ("/".intercalate names)).utf8ByteSize ≤ maxPath) :
    refusal? (Path.join base ("/".intercalate names)) = none := by
  obtain ⟨hnul, hne, -⟩ := refusal?_eq_none.1 hbase
  refine refusal?_eq_none.2 ⟨fun h => ?_, Path.join_ne_empty hne, hsize⟩
  rcases Path.mem_join h with h | h | h
  · cases h
  · exact hnul h
  · rcases Path.mem_intercalate h with h | ⟨name, hname, h⟩
    · cases h
    · exact (hnames name hname).noNul h

/-- A path that is joined to a base is walked from where the base is. -/
theorem startOf_join {path : String} (hpath : Path.isAbsolute path = false) (base : String) :
    t.startOf (Path.join base path) = t.startOf base := by
  rw [startOf, startOf, Path.isAbsolute_join hpath]

/-- The place of a path is where its walk ends, with the name that is left. -/
theorem placeAt?_of_locate {path : String} {trail : Trail} {last : Option String}
    (h : t.locate path = .ok (trail, last)) :
    t.placeAt? path = some (placeOf trail ++ last.toList) := by
  rw [placeAt?, h]
  rfl

/-- **A place that a path leads to is where its steps lead.** -/
theorem follow_of_placeAt? {path : String} {place : Place} (h : t.placeAt? path = some place) :
    refusal? path = none ∧ place = Place.follow [] (t.startOf path ++ Path.steps path) := by
  cases hlocate : t.locate path with
  | error fault => simp [placeAt?, hlocate, Except.toOption] at h
  | ok found =>
    obtain ⟨trail, last⟩ := found
    obtain ⟨hpath, hlast⟩ := locate_cases hlocate
    refine ⟨hpath, ?_⟩
    rw [placeAt?_of_locate hlocate] at h
    cases h
    rcases hlast with ⟨rfl, hwalk⟩ | ⟨before, name, rfl, hhere, hup, hsteps, hwalk⟩
    · exact (List.append_nil _).trans (placeOf_walk hwalk)
    · rw [hsteps, ← List.append_assoc, Place.follow_append, placeOf_walk hwalk]
      exact (Place.move_of_ne hhere hup _).symm

theorem entry?_of_find {path name : String} {trail : Trail} {listing : Listing}
    (hlocate : t.locate path = .ok (trail, some name))
    (h : t.find path = .ok (.directory listing)) :
    t.entry? trail name = .ok (some (.directory listing)) := by
  simp only [find, hlocate] at h
  cases hentry : t.entry? trail name with
  | error fault =>
    rw [hentry] at h
    cases h
  | ok node =>
    rw [hentry] at h
    cases node with
    | none => cases h
    | some node =>
      cases node with
      | file content => cases hslash : Path.endsInSlash path <;> simp [hslash] at h
      | directory listing' =>
        cases h
        rfl

/-- **A directory that a path names is at the end of a walk along the path's steps.** -/
theorem walk_of_find {path : String} {listing : Listing}
    (h : t.find path = .ok (.directory listing)) :
    ∃ trail, t.walk [] (t.startOf path ++ Path.steps path) = .ok trail ∧ t.inside trail = listing ∧
      refusal? path = none ∧ t.placeAt? path = some (placeOf trail) := by
  cases hlocate : t.locate path with
  | error fault => simp [find, hlocate] at h
  | ok found =>
    obtain ⟨trail, last⟩ := found
    have hplace := placeAt?_of_locate hlocate
    obtain ⟨hpath, ⟨rfl, hwalk⟩ | ⟨before, name, rfl, hhere, hup, hsteps, hwalk⟩⟩ :=
      locate_cases hlocate
    · obtain rfl : t.inside trail = listing := by simpa [find, hlocate] using h
      exact ⟨trail, hwalk, rfl, hpath, by rw [hplace, Option.toList_none, List.append_nil]⟩
    · obtain ⟨hshort, hfind⟩ := entry?_eq_ok.1 (entry?_of_find hlocate h)
      refine ⟨(name, listing) :: trail, ?_, rfl, hpath, by rw [hplace, placeOf_cons]; rfl⟩
      rw [hsteps, ← List.append_assoc]
      exact walk_concat hwalk (.down hhere hup hshort hfind)

/-- A file is reached by a walk to its directory. -/
theorem walk_of_holds {trail : Trail} {steps : List String} {content : Bytes}
    (htrail : ∀ e ∈ trail, e.2.Ordered) (hheld : (t.inside trail).Holds steps content)
    (hnames : ∀ name ∈ steps, Path.IsName name) :
    ∃ before name next, steps = before ++ [name] ∧ t.walk trail before = .ok next ∧
      (t.inside next).find? name = some (.file content) := by
  induction steps generalizing trail with
  | nil => exact absurd rfl hheld.ne_nil
  | cons step steps ih =>
    obtain ⟨hstep, hnames⟩ := List.forall_mem_cons.1 hnames
    rcases hheld.first (ordered_inside htrail) with
      ⟨_, heq, hfind⟩ | ⟨_, _, listing, heq, hfind, hheld⟩
    · cases heq
      exact ⟨[], step, trail, rfl, rfl, hfind⟩
    · cases heq
      have henters : t.Enters trail step ((step, listing) :: trail) :=
        .down hstep.notHere hstep.notUp hstep.short hfind
      obtain ⟨before, name, next, rfl, hwalk, hfile⟩ := ih (henters.ordered htrail) hheld hnames
      exact ⟨step :: before, name, next, rfl, walk_cons_eq_ok.2 ⟨_, henters, hwalk⟩, hfile⟩

/-- **A file below a directory is found** by the path of the directory, continued by the names that
lead to the file. -/
theorem find_of_holds {base : String} {listing : Listing} {steps : List String} {content : Bytes}
    (hbase : t.find base = .ok (.directory listing)) (hheld : listing.Holds steps content)
    (hnames : ∀ name ∈ steps, Path.IsName name)
    (hsize : (Path.join base ("/".intercalate steps)).utf8ByteSize ≤ maxPath) :
    t.find (Path.join base ("/".intercalate steps)) = .ok (.file content) ∧
      t.placeAt? (Path.join base ("/".intercalate steps)) = (t.placeAt? base).map (· ++ steps) := by
  obtain ⟨trail, hwalk, rfl, hrefusal, hplace⟩ := walk_of_find hbase
  obtain ⟨before, name, next, rfl, hwalk', hfile⟩ :=
    walk_of_holds (ordered_of_walk hwalk (List.forall_mem_nil _)) hheld hnames
  have hname : Path.IsName name := hnames name (List.mem_append_right _ List.mem_cons_self)
  obtain ⟨hne, hrelative, hslash⟩ := Path.intercalate_names hnames (by simp)
  have hsteps := Path.steps_join hrelative base
  rw [Path.steps_intercalate hnames, ← List.append_assoc] at hsteps
  have hlocate : t.locate (Path.join base ("/".intercalate (before ++ [name]))) =
      .ok (next, some name) := by
    refine locate_of_walk (refusal?_join hrefusal hnames hsize) hsteps hname.notHere hname.notUp ?_
    rw [startOf_join hrelative, ← List.append_assoc]
    exact walk_append_eq_ok.2 ⟨trail, hwalk, hwalk'⟩
  constructor
  · rw [find, hlocate]
    simp only [entry?_eq_ok.2 ⟨hname.short, hfile⟩, Path.endsInSlash_join hrelative hne, hslash]
    rfl
  · rw [placeAt?_of_locate hlocate, hplace, placeOf_walk hwalk']
    have hbefore : ∀ n ∈ before, Path.IsName n := fun n hn => hnames n (List.mem_append_left _ hn)
    rw [Place.follow_names hbefore, List.append_assoc]
    rfl

/-- Every directory that a path leads to has its names in order. -/
theorem ordered_of_find {path : String} {listing : Listing}
    (h : t.find path = .ok (.directory listing)) :
    listing.Ordered := by
  obtain ⟨trail, hwalk, rfl, -⟩ := walk_of_find h
  exact ordered_inside (ordered_of_walk hwalk (List.forall_mem_nil _))

/-- **A path below a directory adds no names of its own.** -/
theorem mem_steps_of_placeAt? {base path step : String} {place : Place} {steps : List String}
    (hbase : t.placeAt? base = some place)
    (h : t.placeAt? (Path.join base path) = some (place ++ steps)) (hstep : step ∈ steps) :
    step ∈ Path.steps path := by
  obtain ⟨-, hplace⟩ := follow_of_placeAt? hbase
  obtain ⟨-, hfollow⟩ := follow_of_placeAt? h
  have hdrop : step ∈ (place ++ steps).drop place.length := by
    rw [List.drop_left]
    exact hstep
  rw [hfollow] at hdrop
  -- an absolute path starts over at the root, so all that it leads through are its own steps
  cases habsolute : Path.isAbsolute path with
  | false =>
    rw [startOf_join habsolute, Path.steps_join habsolute, ← List.append_assoc, Place.follow_append,
      ← hplace] at hdrop
    rcases Place.mem_drop_follow hdrop with hmem | hmem
    · exact hmem
    · rw [List.drop_length] at hmem
      cases hmem
  | true =>
    rw [Path.join, if_pos habsolute, startOf, if_pos habsolute, List.nil_append] at hdrop
    rcases Place.mem_drop_follow hdrop with hmem | hmem
    · exact hmem
    · rw [List.drop_nil] at hmem
      cases hmem

/-- **A path below a directory that is made of names leads to these names.** -/
theorem placeAt?_join_names {base : String} {place place' : Place} {names : List String}
    (hbase : t.placeAt? base = some place) (hnames : ∀ name ∈ names, Path.IsName name)
    (hne : names ≠ []) (h : t.placeAt? (Path.join base ("/".intercalate names)) = some place') :
    place' = place ++ names ∧ (Path.join base ("/".intercalate names)).utf8ByteSize ≤ maxPath := by
  obtain ⟨-, hplace⟩ := follow_of_placeAt? hbase
  obtain ⟨hpath, hfollow⟩ := follow_of_placeAt? h
  obtain ⟨-, hrelative, -⟩ := Path.intercalate_names hnames hne
  refine ⟨?_, (refusal?_eq_none.1 hpath).2.2⟩
  rw [hfollow, startOf_join hrelative, Path.steps_join hrelative, Path.steps_intercalate hnames,
    ← List.append_assoc, Place.follow_append, ← hplace, Place.follow_names hnames]

end FileTree

end StepScript
