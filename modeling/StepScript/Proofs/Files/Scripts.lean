import Mathlib.Data.List.TakeDrop
import Mathlib.Data.List.TakeWhile
import StepScript.Proofs.Files.Places

/-!
# Proofs/Files/Scripts — the names of script files

A file is a script by the end of its name: something, a point, and the extension of a dialect in any
case. The listing of a directory reads that end off the name of the file, the search for a script
off the whole path. They agree on it, so the path made of the names that lead to a script file
stands for that file.

* `Dialect.Names` — the names of script files.
* `ScriptFile.IsIn` — the script files below a directory.
* `FileTree.findScript_of_isIn` — a script file below a directory is found under its own path.
-/

namespace StepScript

/-! ## Extensions -/

namespace Path

/-- What is after the last point of a name, and what is before it. -/
theorem cases_point (name : String) : '.' ∉ name.toList ∨
    ∃ stem ext, '.' ∉ ext.toList ∧ name = stem ++ "." ++ ext := by
  by_cases hpoint : '.' ∈ name.toList
  · obtain ⟨ext, stem, hname, hext⟩ := List.eq_append_cons_of_mem (List.mem_reverse.2 hpoint)
    refine .inr ⟨String.ofList stem.reverse, String.ofList ext.reverse, by simpa using hext, ?_⟩
    apply String.toList_injective
    rw [← List.reverse_reverse name.toList, hname]
    simp
  · exact .inl hpoint

theorem fileExtension?_of_notMem {name : String} (h : '.' ∉ name.toList) :
    fileExtension? name = none := by
  have hall : ∀ c ∈ name.toList.reverse, (c != '.') = true :=
    fun c hc => bne_iff_ne.2 fun heq => h (heq ▸ List.mem_reverse.1 hc)
  rw [fileExtension?, List.span_eq_takeWhile_dropWhile, List.dropWhile_eq_nil_iff.2 hall]

/-- The extension of a file name is what follows its last point, unless nothing stands before
that. -/
theorem fileExtension?_append {ext : String} (h : '.' ∉ ext.toList) (stem : String) :
    fileExtension? (stem ++ "." ++ ext) = if stem = "" then none else some ext := by
  have hall : ∀ c ∈ ext.toList.reverse, (c != '.') = true :=
    fun c hc => bne_iff_ne.2 fun heq => h (heq ▸ List.mem_reverse.1 hc)
  have hreverse : (stem ++ "." ++ ext).toList.reverse =
      ext.toList.reverse ++ '.' :: stem.toList.reverse := by
    simp
  rw [fileExtension?, hreverse, List.span_eq_takeWhile_dropWhile, List.takeWhile_append_of_pos hall,
    List.dropWhile_append_of_pos hall]
  by_cases hstem : stem = ""
  · rw [if_pos hstem, hstem]
    rfl
  · have hne : stem.toList.reverse ≠ [] :=
      mt List.reverse_eq_nil_iff.1 (mt String.toList_eq_nil_iff.1 hstem)
    obtain ⟨c, cs, hcs⟩ := List.exists_cons_of_ne_nil hne
    rw [if_neg hstem, hcs]
    simp

end Path

/-- The extension of a name is what follows its last point, also if nothing stands before that. -/
theorem extension?_append {ext : String} (h : '.' ∉ ext.toList) (front : String) :
    extension? (front ++ "." ++ ext) = some ext := by
  have hall : ∀ c ∈ ext.toList.reverse, decide (c ≠ '.') = true :=
    fun c hc => decide_eq_true fun heq => h (heq ▸ List.mem_reverse.1 hc)
  have hreverse : (front ++ "." ++ ext).toList.reverse =
      ext.toList.reverse ++ '.' :: front.toList.reverse := by
    simp
  rw [extension?, hreverse, List.takeWhile_append_of_pos hall, if_pos (by simp)]
  simp

namespace Dialect

/-- **The name of a script file**: something, a point and the extension of the dialect in any
case. -/
def Names (d : Dialect) (name : String) : Prop :=
  ∃ stem ext, stem ≠ "" ∧ Text.sameKeyword ext d.extension = true ∧ name = stem ++ "." ++ ext

/-- An extension names a dialect in upper and in lower case. -/
theorem ofExtension?_eq_some_iff {ext : String} {d : Dialect} :
    ofExtension? ext = some d ↔ Text.sameKeyword ext d.extension = true := by
  simp only [ofExtension?, Text.sameKeyword, beq_iff_eq]
  refine ⟨fun h => ?_, fun h => ?_⟩
  · split at h
    · cases h
      assumption
    · split at h
      · cases h
        assumption
      · cases h
  · cases d <;> rw [h] <;> decide

theorem notMem_extension {ext : String} {d : Dialect}
    (h : Text.sameKeyword ext d.extension = true) :
    '.' ∉ ext.toList := by
  intro hmem
  have hpoint := Text.mem_of_sameKeyword h hmem
  revert hpoint
  cases d <;> decide

/-- **The extension of a file name tells whether it is that of a script**, and in which dialect. -/
theorem names_iff {d : Dialect} {name : String} :
    d.Names name ↔ (Path.fileExtension? name).bind ofExtension? = some d := by
  constructor
  · rintro ⟨stem, ext, hstem, hext, rfl⟩
    rw [Path.fileExtension?_append (notMem_extension hext), if_neg hstem, Option.bind_some,
      ofExtension?_eq_some_iff.2 hext]
  · intro h
    rcases Path.cases_point name with hpoint | ⟨stem, ext, hpoint, rfl⟩
    · rw [Path.fileExtension?_of_notMem hpoint] at h
      cases h
    · rw [Path.fileExtension?_append hpoint] at h
      split at h
      · cases h
      · next hstem => exact ⟨stem, ext, hstem, ofExtension?_eq_some_iff.1 h, rfl⟩

end Dialect

/-- A name that has the extension of a dialect is looked for as it is, and only there. -/
theorem candidates_of_names {d : Dialect} {name : String} (h : d.Names name) (front : String) :
    candidates (front ++ name) = [(front ++ name, d)] := by
  obtain ⟨stem, ext, -, hext, rfl⟩ := h
  have hpath : front ++ (stem ++ "." ++ ext) = front ++ stem ++ "." ++ ext := by
    simp [String.append_assoc]
  rw [candidates, hpath, extension?_append (Dialect.notMem_extension hext), Option.bind_some,
    Dialect.ofExtension?_eq_some_iff.2 hext]

/-! ## Script files below a directory -/

/-- **A script file**: the names that lead to it, its dialect and its content. -/
structure ScriptFile where
  steps : List String
  dialect : Dialect
  content : Bytes

namespace ScriptFile

/-- The file is below the directory with this listing, and its name is that of a script in the
dialect. -/
def IsIn (s : ScriptFile) (listing : Listing) : Prop :=
  listing.Holds s.steps s.content ∧ ∃ name, s.steps.getLast? = some name ∧ s.dialect.Names name

variable {s s' : ScriptFile} {listing : Listing}

/-- A script file is among the files of the listing it is in. -/
theorem IsIn.mem_files (h : s.IsIn listing) : s.steps ∈ listing.files :=
  Listing.mem_files_iff.2 ⟨s.content, h.1⟩

/-- **Names lead to one script file at most.** -/
theorem IsIn.ext (h : s.IsIn listing) (h' : s'.IsIn listing) (hordered : listing.Ordered)
    (hsteps : s.steps = s'.steps) : s = s' := by
  obtain ⟨steps, dialect, content⟩ := s
  obtain ⟨steps', dialect', content'⟩ := s'
  obtain ⟨hheld, name, hname, hdialect⟩ := h
  obtain ⟨hheld', name', hname', hdialect'⟩ := h'
  obtain rfl : steps = steps' := hsteps
  obtain rfl := hheld.unique hheld' hordered
  cases hname.symm.trans hname'
  cases (Dialect.names_iff.1 hdialect).symm.trans (Dialect.names_iff.1 hdialect')
  rfl

end ScriptFile

namespace FileTree

variable {t : FileTree}

/-- **The files listed as scripts are the script files**, among those whose directory has a path. -/
theorem isListed_iff {directory : String} {steps : List String} :
    isListed directory steps = true ↔
      (∃ d : Dialect, ∃ name, steps.getLast? = some name ∧ d.Names name) ∧
        ("/".intercalate (directory :: steps.dropLast)).utf8ByteSize ≤ maxPath := by
  unfold isListed
  rw [Bool.and_eq_true, decide_eq_true_iff]
  refine and_congr_left fun _ => ?_
  cases steps.getLast? with
  | none => simp
  | some name => simp [isScriptName, Option.isSome_iff_exists, Dialect.names_iff]

/-- A path that fits leads through directories whose paths fit. -/
theorem size_directory {directory : String} {steps : List String}
    (hrelative : Path.isAbsolute ("/".intercalate steps) = false)
    (hsize : (Path.join directory ("/".intercalate steps)).utf8ByteSize ≤ maxPath) :
    ("/".intercalate (directory :: steps.dropLast)).utf8ByteSize ≤ maxPath := by
  have hjoin := Path.size_join hrelative directory
  rcases List.eq_nil_or_concat steps with rfl | ⟨before, name, rfl⟩
  · rw [List.dropLast_nil, String.intercalate_singleton]
    omega
  · rw [List.concat_eq_append] at hjoin hsize ⊢
    rw [List.dropLast_concat]
    cases before with
    | nil =>
      rw [String.intercalate_singleton]
      omega
    | cons first before =>
      have hconcat := congrArg String.utf8ByteSize (String.intercalate_append_of_ne_nil
        (List.cons_ne_nil first before) (List.cons_ne_nil name []) : "/".intercalate _ = _)
      rw [String.utf8ByteSize_append, String.utf8ByteSize_append] at hconcat
      rw [String.intercalate_cons_cons, String.utf8ByteSize_append, String.utf8ByteSize_append]
      omega

/-- The text of a file is its content, if that is a text. -/
theorem textAt_of_find {path : String} {content : Bytes} (h : t.find path = .ok (.file content)) :
    t.textAt path = (Binary.ofUtf8? content).elim (.error .notText) .ok := by
  cases htext : Binary.ofUtf8? content <;> simp [textAt, contentAt, h, htext]

/-- **A script file is found under its own path.** -/
theorem findScript_of_isIn {directory : String} {listing : Listing} {s : ScriptFile}
    (hdirectory : t.find directory = .ok (.directory listing)) (hs : s.IsIn listing)
    (hnames : ∀ name ∈ s.steps, Path.IsName name)
    (hsize : (Path.join directory ("/".intercalate s.steps)).utf8ByteSize ≤ maxPath) :
    t.findScript directory ("/".intercalate s.steps) =
      (Binary.ofUtf8? s.content).elim
        (.error (Cause.unreadable (Path.join directory ("/".intercalate s.steps))
          FileFault.notText.message).failure)
        fun text =>
          .ok { file := "/".intercalate s.steps, dialect := s.dialect, text := text } := by
  obtain ⟨hheld, name, hlast, hdialect⟩ := hs
  obtain ⟨before, hbefore⟩ := List.getLast?_eq_some_iff.1 hlast
  obtain ⟨front, hfront⟩ := Path.intercalate_concat before name
  have hcandidates : candidates ("/".intercalate s.steps) =
      [("/".intercalate s.steps, s.dialect)] := by
    rw [hbefore, hfront]
    exact candidates_of_names hdialect front
  have htext := textAt_of_find (find_of_holds hdirectory hheld hnames hsize).1
  rw [findScript, hcandidates]
  unfold tryCandidates
  cases hcontent : Binary.ofUtf8? s.content <;>
    simp only [htext, hcontent, Option.elim_none, Option.elim_some]

/-! ## Shown names -/

/-- The scripts of a directory are the files below it that are listed, under the names they are
shown by. -/
theorem scriptNames_of_find {directory : String} {listing : Listing}
    (h : t.find directory = .ok (.directory listing)) :
    t.scriptNames directory = (listing.files.filter (isListed directory)).map shownName := by
  rw [scriptNames, h]

/-- A file is shown by the names that lead to it, with a slash for every backslash. -/
theorem toList_shownName (steps : List String) :
    (shownName steps).toList = ("/".intercalate steps).toList.map fun c => if c = '\\'
      then '/' else c :=
  String.toList_map

/-- Where there is no backslash, a file is shown by its own names. -/
theorem shownName_of_notMem {steps : List String} (h : ∀ step ∈ steps, '\\' ∉ step.toList) :
    shownName steps = "/".intercalate steps := by
  apply String.toList_injective
  rw [toList_shownName]
  refine (List.map_congr_left fun c hc => ?_).trans (List.map_id _)
  refine if_neg fun hback => ?_
  rcases Path.mem_intercalate (hback ▸ hc) with hslash | ⟨step, hstep, hmem⟩
  · cases hslash
  · exact h step hstep hmem

/-- No name that is shown has a backslash. -/
theorem notMem_shownName (steps : List String) : '\\' ∉ (shownName steps).toList := by
  rw [toList_shownName]
  intro hmem
  obtain ⟨c, -, hc⟩ := List.mem_map.1 hmem
  split at hc
  · cases hc
  · contradiction

end FileTree

end StepScript
