import Mathlib.Data.Set.List
import StepScript.CommandLine.Run
import StepScript.Proofs.Files.Scripts

/-!
# Proofs/CommandLine/Check — a check reports on the script files themselves

A check lists the script files of a root, asks for each by the name it is listed under, and prints a
line about what it gets. It gets that very file unless the names that lead to it spell something
else: a backslash is shown as a slash, so the listed name is then a path of its own, and a path can
be too long.

* `CommandLine.ReportsOn` — what a check makes of one script file.
* `CommandLine.ReportsEach` — what it prints, if it reports on every script file.
* `CommandLine.reportsEach_iff` — exactly when that is so.
-/

namespace StepScript

namespace ScriptFile

/-- The path of a script file below its directory. -/
def path (s : ScriptFile) : String := "/".intercalate s.steps

/-- The path of the file spells the names that lead to it, and can be used below the directory. -/
def Plain (s : ScriptFile) (directory : String) : Prop :=
  (∀ step ∈ s.steps, '\\' ∉ step.toList) ∧
    (Path.join directory s.path).utf8ByteSize ≤ FileTree.maxPath

/-- **What reading the file's own content gives**: the number of commands to run, or the kind of
failure. -/
def outcome (s : ScriptFile) (name : String) : Except FailureKind Nat :=
  (Binary.ofUtf8? s.content).elim (.error .readFailed) fun text =>
    ((Script.read name s.dialect text).map fun r => r.1.runnableCount).mapError Failure.kind

end ScriptFile

namespace CommandLine

variable {t : FileTree} {root path : String} {listing : Listing} {s : ScriptFile}

/-- The line about a script. -/
def reportLine (name : String) : Except FailureKind Nat → String
  | .ok count => "CHECK:" ++ name ++ ":OK:" ++ toString count
  | .error kind => "CHECK:" ++ name ++ ":ERROR:" ++ kind.code

/-- **The report on verdicts**: a line for each, how many there are and how many are failures. -/
def summary (verdicts : List (String × Except FailureKind Nat)) : Printed :=
  let failed := verdicts.countP fun v => !v.2.isOk
  { code := if failed = 0 then 0 else 1
    lines := verdicts.map (fun v => reportLine v.1 v.2) ++
      ["CHECKED:" ++ toString verdicts.length, "FAILED:" ++ toString failed] }

/-- **A check reports on a script file** below the directory, under a name: the name is listed and
leads to the file, a search for it gives the file's own text, and the line printed under it is about
that text. -/
structure ReportsOn (t : FileTree) (root directory : String) (s : ScriptFile) (name : String) :
    Prop where
  listed : name ∈ t.scriptNames directory
  placed : t.placeAt? (Path.join directory name) = (t.placeAt? directory).map (· ++ s.steps)
  found : ∀ text, Binary.ofUtf8? s.content = some text →
    t.findScript directory name = .ok { file := name, dialect := s.dialect, text }
  printed : ∃ printed, ((checkScripts root).run t).value = .ok printed ∧
    reportLine name (s.outcome name) ∈ printed.lines

/-- **A check reports on every script file**, once and under a name of its own. -/
structure ReportsEach (t : FileTree) (root directory : String) (listing : Listing)
    (scripts : List ScriptFile) (name : ScriptFile → String) : Prop where
  once : scripts.Nodup
  all : ∀ s, s ∈ scripts ↔ s.IsIn listing
  named : (scripts.map name).Nodup
  listed : t.scriptNames directory = scripts.map name
  each : ∀ s ∈ scripts, ReportsOn t root directory s (name s)
  printed : ((checkScripts root).run t).value =
    .ok (summary (scripts.map fun s => (name s, s.outcome (name s))))

/-! ## What is printed -/

/-- What a check of a name comes to. -/
def verdict (t : FileTree) (directory name : String) : Except FailureKind Nat :=
  ((checkScript t directory name).map fun r => r.1.runnableCount).mapError Failure.kind

/-- **A check prints the report on the verdicts** about the listed names. -/
theorem value_checkScripts (hroot : resolveRoot t root = .ok path) :
    ((checkScripts root).run t).value =
      .ok (summary ((t.scriptNames (Path.join path scriptDirectory)).map
      fun name => (name, verdict t (Path.join path scriptDirectory) name))) := by
  have hline : ∀ name (r : Except Failure (Script × List Diagnostic)), checkLine name r =
      reportLine name ((r.map fun r => r.1.runnableCount).mapError Failure.kind) := by
    intro name r
    cases r <;> rfl
  have hisOk : ∀ r : Except Failure (Script × List Diagnostic),
      ((r.map fun r => r.1.runnableCount).mapError Failure.kind).isOk = r.isOk := by
    intro r
    cases r <;> rfl
  rw [checkScripts, Act.run_get_bind]
  simp only [hroot]
  simp only [Act.run_bind, Act.run_pure, summary, verdict, List.map_map, List.countP_map,
    Function.comp_def, hline, hisOk, List.length_map]

/-- **The verdict under a file's own path is about the file.** -/
theorem verdict_of_isIn {directory : String}
    (hdirectory : t.find directory = .ok (.directory listing)) (hs : s.IsIn listing)
    (hnames : ∀ name ∈ s.steps, Path.IsName name) (hplain : s.Plain directory) :
    verdict t directory s.path = s.outcome s.path := by
  rw [verdict, checkScript, ScriptFile.path,
    FileTree.findScript_of_isIn hdirectory hs hnames hplain.2, ScriptFile.outcome]
  cases Binary.ofUtf8? s.content <;> rfl

/-! ## Plain files -/

/-- A script file that is spelled plainly is among those that a listing of scripts shows. -/
theorem mem_filter_of_plain {directory : String} (hs : s.IsIn listing)
    (hnames : ∀ name ∈ s.steps, Path.IsName name) (hplain : s.Plain directory) :
    s.steps ∈ listing.files.filter (FileTree.isListed directory) := by
  obtain ⟨-, hrelative, -⟩ := Path.intercalate_names hnames hs.1.ne_nil
  refine List.mem_filter.2 ⟨hs.mem_files, FileTree.isListed_iff.2 ⟨⟨s.dialect, hs.2⟩, ?_⟩⟩
  exact FileTree.size_directory hrelative hplain.2

/-- **A check reports on every plain script file**, under its path. -/
theorem reportsOn_of_plain (hroot : resolveRoot t root = .ok path)
    (hlisting : t.find (Path.join path scriptDirectory) = .ok (.directory listing))
    (hs : s.IsIn listing) (hnames : ∀ name ∈ s.steps, Path.IsName name)
    (hplain : s.Plain (Path.join path scriptDirectory)) :
    ReportsOn t root (Path.join path scriptDirectory) s s.path := by
  have hlisted : s.path ∈ t.scriptNames (Path.join path scriptDirectory) := by
    rw [FileTree.scriptNames_of_find hlisting, ScriptFile.path,
      ← FileTree.shownName_of_notMem hplain.1]
    exact List.mem_map_of_mem (mem_filter_of_plain hs hnames hplain)
  refine ⟨hlisted, ?_, fun text htext => ?_, _, value_checkScripts hroot, ?_⟩
  · exact (FileTree.find_of_holds hlisting hs.1 hnames hplain.2).2
  · rw [ScriptFile.path, FileTree.findScript_of_isIn hlisting hs hnames hplain.2, htext]
    rfl
  · rw [← verdict_of_isIn hlisting hs hnames hplain]
    refine List.mem_append_left _ (List.mem_map.2 ⟨_, List.mem_map_of_mem hlisted, rfl⟩)

/-- The script files among listed files. -/
theorem exists_scripts (directory : String) (listing : Listing) :
    ∃ scripts : List ScriptFile,
      scripts.map ScriptFile.steps = listing.files.filter (FileTree.isListed directory) ∧
        ∀ s ∈ scripts, s.IsIn listing := by
  have hrange : listing.files.filter (FileTree.isListed directory) ∈
      Set.range (List.map fun s : { s : ScriptFile // s.IsIn listing } => s.1.steps) := by
    rw [Set.range_list_map]
    intro steps hsteps
    obtain ⟨hmem, hlisted⟩ := List.mem_filter.1 hsteps
    obtain ⟨content, hheld⟩ := Listing.mem_files_iff.1 hmem
    obtain ⟨⟨d, hname⟩, -⟩ := FileTree.isListed_iff.1 hlisted
    exact ⟨⟨⟨steps, d, content⟩, hheld, hname⟩, rfl⟩
  obtain ⟨scripts, hscripts⟩ := hrange
  refine ⟨scripts.map Subtype.val, by rw [← hscripts, List.map_map]; rfl, ?_⟩
  intro s hs
  obtain ⟨s, -, rfl⟩ := List.mem_map.1 hs
  exact s.2

/-- **If all script files are plain, a check reports on each.** -/
theorem reportsEach_of_plain (hroot : resolveRoot t root = .ok path)
    (hlisting : t.find (Path.join path scriptDirectory) = .ok (.directory listing))
    (hnames : ∀ steps ∈ listing.files, ∀ name ∈ steps, Path.IsName name)
    (hplain : ∀ s : ScriptFile, s.IsIn listing → s.Plain (Path.join path scriptDirectory)) :
    ∃ scripts, ReportsEach t root (Path.join path scriptDirectory) listing scripts
      ScriptFile.path := by
  have hordered := FileTree.ordered_of_find hlisting
  have hsteps : ∀ s : ScriptFile, s.IsIn listing → ∀ name ∈ s.steps, Path.IsName name :=
    fun s hs => hnames s.steps hs.mem_files
  obtain ⟨scripts, hscripts, hin⟩ := exists_scripts (Path.join path scriptDirectory) listing
  have honce : (scripts.map ScriptFile.steps).Nodup := hscripts ▸ hordered.nodup_files.filter _
  have hlisted : t.scriptNames (Path.join path scriptDirectory) = scripts.map ScriptFile.path := by
    rw [FileTree.scriptNames_of_find hlisting, ← hscripts, List.map_map]
    exact List.map_congr_left fun s hs => FileTree.shownName_of_notMem (hplain s (hin s hs)).1
  refine ⟨scripts, ?_, fun s => ⟨hin s, fun hs => ?_⟩, ?_, hlisted, fun s hs => ?_, ?_⟩
  · exact List.Pairwise.of_map _ (fun _ _ => mt (congrArg ScriptFile.steps)) honce
  · have hmem : s.steps ∈ scripts.map ScriptFile.steps := by
      rw [hscripts]
      exact mem_filter_of_plain hs (hsteps s hs) (hplain s hs)
    obtain ⟨s', hs', heq⟩ := List.mem_map.1 hmem
    exact (hin s' hs').ext hs hordered heq ▸ hs'
  · refine List.pairwise_map.2
      ((List.pairwise_map.1 honce).imp_of_mem fun {a b} ha hb hne heq => hne ?_)
    rw [← Path.steps_intercalate (hsteps a (hin a ha)),
      ← Path.steps_intercalate (hsteps b (hin b hb))]
    exact congrArg Path.steps heq
  · exact reportsOn_of_plain hroot hlisting (hin s hs) (hsteps s (hin s hs)) (hplain s (hin s hs))
  · rw [value_checkScripts hroot, hlisted, List.map_map]
    refine congrArg (Except.ok ∘ summary) (List.map_congr_left fun s hs => ?_)
    exact congrArg _ (verdict_of_isIn hlisting (hin s hs) (hsteps s (hin s hs))
      (hplain s (hin s hs)))

/-- **If a check reports on each script file, all are plain.** -/
theorem ReportsEach.plain {scripts : List ScriptFile} {name : ScriptFile → String}
    {directory : String} (h : ReportsEach t root directory listing scripts name)
    (hlisting : t.find directory = .ok (.directory listing))
    (hnames : ∀ steps ∈ listing.files, ∀ name ∈ steps, Path.IsName name) (hs : s.IsIn listing) :
    s.Plain directory := by
  obtain ⟨trail, -, -, -, hplace⟩ := FileTree.walk_of_find hlisting
  have hplaced : ∀ s : ScriptFile, s.IsIn listing →
      t.placeAt? (Path.join directory (name s)) = some (FileTree.placeOf trail ++ s.steps) := by
    intro s hs
    rw [(h.each s ((h.all s).2 hs)).placed, hplace]
    rfl
  -- a listed name shows no backslash, and leads only through its own steps
  have hshown : ∀ s : ScriptFile, s.IsIn listing →
      ∃ steps ∈ listing.files.filter (FileTree.isListed directory),
      FileTree.shownName steps = name s := by
    intro s hs
    have hlisted := (h.each s ((h.all s).2 hs)).listed
    rw [FileTree.scriptNames_of_find hlisting] at hlisted
    exact List.mem_map.1 hlisted
  have hback : ∀ s : ScriptFile, s.IsIn listing → ∀ step ∈ s.steps, '\\' ∉ step.toList := by
    intro s hs step hstep hmem
    obtain ⟨steps, -, hname⟩ := hshown s hs
    have hmem :=
      Path.mem_of_mem_steps (FileTree.mem_steps_of_placeAt? hplace (hplaced s hs) hstep) hmem
    exact FileTree.notMem_shownName steps (hname ▸ hmem)
  refine ⟨hback s hs, ?_⟩
  -- so the file it is listed for is the file itself
  obtain ⟨steps, hsteps, hname⟩ := hshown s hs
  obtain ⟨hmem, hlisted⟩ := List.mem_filter.1 hsteps
  obtain ⟨content, hheld⟩ := Listing.mem_files_iff.1 hmem
  obtain ⟨⟨d, hdialect⟩, -⟩ := FileTree.isListed_iff.1 hlisted
  have hin : ScriptFile.IsIn ⟨steps, d, content⟩ listing := ⟨hheld, hdialect⟩
  rw [FileTree.shownName_of_notMem (hback _ hin)] at hname
  have hplaced := hplaced s hs
  rw [← hname] at hplaced
  obtain ⟨heq, hsize⟩ :=
    FileTree.placeAt?_join_names hplace (hnames steps hmem) hheld.ne_nil hplaced
  rw [ScriptFile.path, List.append_cancel_left heq]
  exact hsize

/-- **A check reports on the script files themselves, as long as their paths spell them.** Every
plain script file is reported on, whatever else there is; and a check reports on each script file,
once and under a name of its own, exactly if all of them are plain. -/
theorem reportsEach_iff (hroot : resolveRoot t root = .ok path)
    (hlisting : t.find (Path.join path scriptDirectory) = .ok (.directory listing))
    (hnames : ∀ steps ∈ listing.files, ∀ name ∈ steps, Path.IsName name) :
    (∀ s : ScriptFile, s.IsIn listing → s.Plain (Path.join path scriptDirectory) →
        ReportsOn t root (Path.join path scriptDirectory) s s.path) ∧
      ((∃ scripts name, ReportsEach t root (Path.join path scriptDirectory) listing scripts name) ↔
        ∀ s : ScriptFile, s.IsIn listing → s.Plain (Path.join path scriptDirectory)) := by
  refine ⟨fun s hs hplain => ?_, ?_, fun hplain => ?_⟩
  · exact reportsOn_of_plain hroot hlisting hs (hnames s.steps hs.mem_files) hplain
  · rintro ⟨scripts, name, h⟩ s hs
    exact h.plain hlisting hnames hs
  · obtain ⟨scripts, h⟩ := reportsEach_of_plain hroot hlisting hnames hplain
    exact ⟨scripts, ScriptFile.path, h⟩

/-- Scripts in both dialects, at two depths, with points and capitals in their names, beside a file
that is none. -/
def plainScripts : Listing :=
  .file "Main.v2.INI" (Binary.utf8 "set $x 1\nset $y 2\n")
    (.directory "lib" (.file "empty.json" (Binary.utf8 "[]") .empty)
      (.file "notes.txt" (Binary.utf8 "nothing") .empty))

/-- A root with these scripts. -/
def plainRoot : FileTree where
  root := .directory "r" (.directory "commands" plainScripts .empty) .empty
  ordered := by decide +kernel

/-- The script in the inner directory. -/
def emptyScript : ScriptFile := ⟨["lib", "empty.json"], .json, Binary.utf8 "[]"⟩

/-- Under a root whose files are spelled plainly, a check reports on each script file: one with two
commands, and one in a directory below that is no document of commands. -/
theorem plainRoot_reported : resolveRoot plainRoot "r" = .ok "/r" ∧
    plainRoot.find (Path.join "/r" scriptDirectory) = .ok (.directory plainScripts) ∧
    (∀ steps ∈ plainScripts.files, ∀ name ∈ steps, Path.IsName name) ∧
    emptyScript.IsIn plainScripts ∧
    ReportsOn plainRoot "r" (Path.join "/r" scriptDirectory) emptyScript emptyScript.path ∧
    (∃ scripts name, ReportsEach plainRoot "r" (Path.join "/r" scriptDirectory)
      plainScripts scripts name) ∧
    ((checkScripts "r").run plainRoot).value = .ok
      { code := 1
        lines := ["CHECK:Main.v2.INI:OK:2", "CHECK:lib/empty.json:ERROR:PARSE_MALFORMED_JSON",
          "CHECKED:2", "FAILED:1"] } := by
  have hroot : resolveRoot plainRoot "r" = .ok "/r" ∧
      plainRoot.find (Path.join "/r" scriptDirectory) = .ok (.directory plainScripts) := by
    decide +kernel
  have hnames : ∀ steps ∈ plainScripts.files, ∀ name ∈ steps, Path.IsName name := by decide +kernel
  have hplain : ∀ steps ∈ plainScripts.files, (∀ step ∈ steps, '\\' ∉ step.toList) ∧
      (Path.join (Path.join "/r" scriptDirectory) ("/".intercalate steps)).utf8ByteSize ≤
        FileTree.maxPath := by
    decide +kernel
  have hplain : ∀ s : ScriptFile, s.IsIn plainScripts → s.Plain (Path.join "/r" scriptDirectory) :=
    fun s hs => hplain s.steps hs.mem_files
  have hin : emptyScript.IsIn plainScripts :=
    ⟨.afterFile (.inside .file), "empty.json", rfl, "empty", "json", by decide +kernel⟩
  obtain ⟨hreportsOn, hreportsEach⟩ := reportsEach_iff hroot.1 hroot.2 hnames
  refine ⟨hroot.1, hroot.2, hnames, hin, ?_, hreportsEach.2 hplain, by decide +kernel⟩
  exact hreportsOn emptyScript hin (hplain emptyScript hin)

/-- A script whose name has a backslash. -/
def crookedScripts : Listing := .file "a\\b.ini" (Binary.utf8 "x") .empty

/-- A root with this script. -/
def crookedRoot : FileTree where
  root := .directory "r" (.directory "commands" crookedScripts .empty) .empty
  ordered := by decide +kernel

/-- With a backslash in its name, a script is listed under the path of another file. The check finds
nothing there, so there is no report on the script, which would have been read. -/
theorem crookedRoot_not_reported : resolveRoot crookedRoot "r" = .ok "/r" ∧
    crookedRoot.find (Path.join "/r" scriptDirectory) = .ok (.directory crookedScripts) ∧
    (∀ steps ∈ crookedScripts.files, ∀ name ∈ steps, Path.IsName name) ∧
    ScriptFile.outcome ⟨["a\\b.ini"], .line, Binary.utf8 "x"⟩ "a\\b.ini" = .ok 1 ∧
    ((checkScripts "r").run crookedRoot).value =
      .ok { code := 1,
            lines := ["CHECK:a/b.ini:ERROR:PARSE_FILE_NOT_FOUND", "CHECKED:1", "FAILED:1"] } ∧
    ¬∃ scripts name,
      ReportsEach crookedRoot "r" (Path.join "/r" scriptDirectory) crookedScripts scripts name := by
  have hroot : resolveRoot crookedRoot "r" = .ok "/r" ∧
      crookedRoot.find (Path.join "/r" scriptDirectory) = .ok (.directory crookedScripts) := by
    decide +kernel
  have hnames : ∀ steps ∈ crookedScripts.files, ∀ name ∈ steps, Path.IsName name := by
    decide +kernel
  have hin : ScriptFile.IsIn ⟨["a\\b.ini"], .line, Binary.utf8 "x"⟩ crookedScripts :=
    ⟨.file, "a\\b.ini", rfl, "a\\b", "ini", by decide +kernel⟩
  refine ⟨hroot.1, hroot.2, hnames, by decide +kernel, by decide +kernel, ?_⟩
  rintro ⟨scripts, name, h⟩
  exact (h.plain hroot.2 hnames hin).1 "a\\b.ini" List.mem_cons_self (by decide +kernel)

end CommandLine

end StepScript
