import Mathlib.Logic.Relation
import StepScript.Proofs.Machine.Ownership
import StepScript.Proofs.Script.Extent

/-!
# Proofs/Machine/Sound — what holds of a machine between operations

Besides ownership, the contents of the objects fit together: a frame's cursor, labels and return
addresses stay within its commands, and what it remembers of the last scan is what a scan would find
now. A target without entity runs nothing, and an invocation that is claimed was claimed before.

* `Machine.FrameSound`, `Machine.Sound` — the invariant.
* `Machine.Edit`, `Machine.Move` — the changes a machine can undergo, one constructor for each; an
  edit leaves all links alone.
* `Machine.Sound.moves` — the invariant outlives every sequence of changes.
-/

namespace StepScript

/-- The script was read from a text whose lines a machine word can number. -/
def Script.Readable (script : Script) : Prop :=
  ∃ name dialect text warnings,
    Script.read name dialect text = .ok (script, warnings) ∧ text.length < UInt64.size

namespace Machine

variable {m m' : Machine}

/-! ## Scanning again

A scan that starts where the last one stopped finds the same at once. This is what allows a frame to
remember the result. -/

/-- A scan depends on the commands it goes over only. -/
theorem scanFrom_congr {hs : List CommandHandle}
    (h : ∀ c ∈ hs, m'.commands.get? c = m.commands.get? c) (index : Nat) :
    m'.scanFrom index hs = m.scanFrom index hs := by
  induction hs generalizing index with
  | nil => rfl
  | cons c hs ih =>
    obtain ⟨hc, hrest⟩ := List.forall_mem_cons.1 h
    simp only [scanFrom, hc, ih hrest]

/-- It ends between where it starts and the end of the commands. -/
theorem index_scanFrom (m : Machine) (index : Nat) (hs : List CommandHandle) :
    index ≤ (m.scanFrom index hs).index ∧ (m.scanFrom index hs).index ≤ index + hs.length := by
  induction hs generalizing index with
  | nil => exact ⟨Nat.le_refl _, Nat.le_refl _⟩
  | cons c hs ih =>
    have hrest := ih (index + 1)
    simp only [scanFrom, List.length_cons]
    split
    · exact ⟨by simp only; omega, by simp only; omega⟩
    · split
      · exact ⟨Nat.le_refl _, Nat.le_add_right _ _⟩
      · exact ⟨by omega, by omega⟩

/-- A scan from where a scan ended finds the same there. -/
theorem scanFrom_again (m : Machine) (index : Nat) (hs : List CommandHandle) :
    m.scanFrom (m.scanFrom index hs).index (hs.drop ((m.scanFrom index hs).index - index)) =
      { readiness := (m.scanFrom index hs).readiness, index := (m.scanFrom index hs).index } := by
  induction hs generalizing index with
  | nil => simp [scanFrom]
  | cons c hs ih =>
    have hrest := index_scanFrom m (index + 1) hs
    have hstep : ∀ n, index + 1 ≤ n → (c :: hs).drop (n - index) = hs.drop (n - (index + 1)) := by
      intro n hn
      rw [show n - index = n - (index + 1) + 1 by omega, List.drop_succ_cons]
    cases hget : m.commands.get? c with
    | none =>
      simp only [scanFrom, hget, hstep _ hrest.1]
      exact ih (index + 1)
    | some command =>
      by_cases hrun : command.isRunnable = true
      · simp only [scanFrom, hget, hrun, if_true, Nat.sub_self, List.drop_zero]
      · simp only [scanFrom, hget, hrun, Bool.false_eq_true, if_false, hstep _ hrest.1]
        exact ih (index + 1)

/-! ## The invariant -/

/-- **The contents of a frame fit together.** -/
structure FrameSound (m : Machine) (frame : Frame) : Prop where
  cursor : frame.cursor ≤ frame.commands.length
  declared : ∃ commands, frame.commands.map m.commands.get? = commands.map some ∧
    Declared commands frame.gotos frame.gosubs
  returns : ∀ index ∈ frame.returns, index < frame.commands.length
  pending : ∀ call, frame.pending = some call → call.source.line < UInt64.size
  /-- What the last scan found is found again. -/
  memo : frame.readiness ≠ .unknown →
    m.scanFrom frame.cursor (frame.commands.drop frame.cursor) =
      { readiness := frame.readiness, index := frame.cursor }

/-- **What holds of a machine between operations.** -/
structure Sound (m : Machine) : Prop where
  owned : m.Owned
  proper : m.Proper
  frame : ∀ f frame, m.frames.get? f = some frame → m.FrameSound frame
  line : ∀ c command, m.commands.get? c = some command → command.line < UInt64.size
  entity : ∀ g target, m.targets.get? g = some target → target.entity = none → target.threads = []
  claim : ∀ t thread, m.threads.get? t = some thread → thread.claimed = true →
    thread.wasClaimed = true

/-- Whether a frame is sound depends on its own commands only. -/
theorem FrameSound.congr {frame : Frame} (h : m.FrameSound frame)
    (hc : ∀ c ∈ frame.commands, m'.commands.get? c = m.commands.get? c) : m'.FrameSound frame where
  cursor := h.cursor
  declared := by
    obtain ⟨commands, hcommands, hdeclared⟩ := h.declared
    exact ⟨commands, (List.map_congr_left hc).trans hcommands, hdeclared⟩
  returns := h.returns
  pending := h.pending
  memo hready := by
    rw [scanFrom_congr fun c hmem => hc c (List.mem_of_mem_drop hmem)]
    exact h.memo hready

/-- Labels lie within the commands of a sound frame. -/
theorem FrameSound.goto_lt {frame : Frame} {key : String} {index : Nat} (h : m.FrameSound frame)
    (hkey : frame.gotos.find? key = some index) : index < frame.commands.length := by
  obtain ⟨commands, hcommands, hdeclared⟩ := h.declared
  obtain ⟨c, name, hc, -⟩ := hdeclared.label key index hkey
  have hlength := congrArg List.length hcommands
  rw [List.length_map, List.length_map] at hlength
  rw [hlength]
  exact (List.getElem?_eq_some_iff.1 hc).1

theorem FrameSound.gosub_lt {frame : Frame} {key : String} {index : Nat} (h : m.FrameSound frame)
    (hkey : frame.gosubs.find? key = some index) : index < frame.commands.length := by
  obtain ⟨commands, hcommands, hdeclared⟩ := h.declared
  obtain ⟨c, hc, -⟩ := hdeclared.subroutine key index hkey
  have hlength := congrArg List.length hcommands
  rw [List.length_map, List.length_map] at hlength
  rw [hlength]
  exact (List.getElem?_eq_some_iff.1 hc).1

/-- A new machine is sound. -/
theorem Sound.empty : (∅ : Machine).Sound where
  owned := Owned.empty
  proper := ⟨Table.Proper.empty, Table.Proper.empty, Table.Proper.empty, Table.Proper.empty⟩
  frame _ _ := nofun
  line _ _ := nofun
  entity _ _ := nofun
  claim _ _ := nofun

/-! ## The changes of a machine -/

/-- **The changes of a frame** while its script runs. -/
inductive FrameEdit (m : Machine) (frame : Frame) : Frame → Prop where
  | assign (name value : String) :
    FrameEdit m frame { frame with vars := frame.vars.insert name value }
  | result (value : String) : FrameEdit m frame { frame with result := value }
  | enterSub {index : Nat} (h : index < frame.commands.length) :
    FrameEdit m frame { frame with returns := index :: frame.returns }
  | leaveSub : FrameEdit m frame { frame with returns := frame.returns.tail }
  | move (index : Nat) : FrameEdit m frame (frame.moveTo index)
  /-- A scan and what it found. -/
  | scan : FrameEdit m frame
      { frame with
        cursor := min (m.scanFrom frame.cursor (frame.commands.drop frame.cursor)).index
          frame.commands.length
        readiness := (m.scanFrom frame.cursor (frame.commands.drop frame.cursor)).readiness }
  /-- A call that the host will complete, by the line at the index. -/
  | park {index : Nat} {c : CommandHandle} {command : Command} {call : PendingCall}
    (hc : frame.commands[index]? = some c) (hcommand : m.commands.get? c = some command)
    (hsource : call.source = ⟨frame.script, command.line⟩) :
    FrameEdit m frame
      { frame with cursor := index + 1, readiness := .unknown, pending := some call }
  | complete (value : String) : FrameEdit m frame { frame with result := value, pending := none }

/-- **The changes of contents**: of one frame, or of one variable elsewhere. -/
inductive Edit : Machine → Machine → Prop where
  | frame {m : Machine} {f : FrameHandle} {frame : Frame} {u : Frame → Frame}
    (hf : m.frames.get? f = some frame) (hu : m.FrameEdit frame (u frame)) :
    Edit m (m.modifyFrame f u)
  | threadVariable {m : Machine} (t : ThreadHandle) (name value : String) :
    Edit m (m.modifyThread t fun thread => { thread with vars := thread.vars.insert name value })
  | targetVariable {m : Machine} (g : TargetHandle) (name value : String) :
    Edit m (m.modifyTarget g fun target => { target with vars := target.vars.insert name value })
  | globalVariable {m : Machine} (name value : String) :
    Edit m { m with globals := m.globals.insert name value }

/-- **The changes of a machine.** -/
inductive Move : Machine → Machine → Prop where
  | edit {m m' : Machine} (h : Edit m m') : Move m m'
  | claim {m : Machine} (t : ThreadHandle) :
    Move m (m.modifyThread t fun thread => { thread with claimed := true, wasClaimed := true })
  | push {m : Machine} {t : ThreadHandle} {thread : Thread} {script : Script} {args : List String}
    (ht : m.threads.get? t = some thread) (hscript : script.Readable)
    (hroom : (m.pushed t script args).Roomy) : Move m (m.pushed t script args)
  | start {m : Machine} {entity : EntityId} {name : String} {script : Script}
    (hbefore : m.Roomy) (hscript : script.Readable) (hroom : (m.started entity name script).Roomy) :
    Move m (m.started entity name script)
  | withdraw {m : Machine} (entity : EntityId) : Move m (m.withdrawn entity)
  /-- The innermost frame goes, and another takes its place. -/
  | leave {m : Machine} {t : ThreadHandle} {f : FrameHandle} {below : List FrameHandle}
    (ht : m.stackAt t = some (f :: below)) (hbelow : below ≠ []) :
    Move m ((m.unstack t f).removeFrame f)
  | cleanup {m : Machine} (t : ThreadHandle) : Move m (m.cleanup t)
  | reset {m : Machine} : Move m m.reset

/-! ## Contents -/

/-- A change of a frame keeps its links. -/
theorem FrameEdit.links {frame frame' : Frame} (h : m.FrameEdit frame frame') :
    frame'.thread = frame.thread ∧ frame'.commands = frame.commands := by
  cases h <;> exact ⟨rfl, rfl⟩

/-- **A scan keeps a frame in order.** -/
theorem FrameSound.scan {frame : Frame} (h : m.FrameSound frame) :
    m.FrameSound
      { frame with
        cursor := min (m.scanFrom frame.cursor (frame.commands.drop frame.cursor)).index
          frame.commands.length
        readiness := (m.scanFrom frame.cursor (frame.commands.drop frame.cursor)).readiness } := by
  refine ⟨Nat.min_le_right _ _, h.declared, h.returns, h.pending, fun _ => ?_⟩
  have hindex := index_scanFrom m frame.cursor (frame.commands.drop frame.cursor)
  have hcursor := h.cursor
  rw [List.length_drop] at hindex
  -- the scan stops within the commands, so nothing is cut off
  have hmin : min (m.scanFrom frame.cursor (frame.commands.drop frame.cursor)).index
      frame.commands.length
        = (m.scanFrom frame.cursor (frame.commands.drop frame.cursor)).index := by omega
  have hagain := scanFrom_again m frame.cursor (frame.commands.drop frame.cursor)
  rw [List.drop_drop, Nat.add_sub_cancel' hindex.1] at hagain
  simp only [hmin]
  exact hagain

/-- **A change of a frame keeps it in order.** -/
theorem FrameSound.edit {frame frame' : Frame} (h : m.FrameSound frame)
    (hline : ∀ c command, m.commands.get? c = some command → command.line < UInt64.size)
    (he : m.FrameEdit frame frame') : m.FrameSound frame' := by
  cases he with
  | assign name value => exact ⟨h.cursor, h.declared, h.returns, h.pending, h.memo⟩
  | result value => exact ⟨h.cursor, h.declared, h.returns, h.pending, h.memo⟩
  | enterSub hindex =>
    refine ⟨h.cursor, h.declared, fun index hmem => ?_, h.pending, h.memo⟩
    rcases List.mem_cons.1 hmem with rfl | hmem
    · exact hindex
    · exact h.returns index hmem
  | leaveSub =>
    exact ⟨h.cursor, h.declared, fun index hmem => h.returns index (List.mem_of_mem_tail hmem),
      h.pending, h.memo⟩
  | move index =>
    exact ⟨Nat.min_le_right _ _, h.declared, h.returns, h.pending, fun hne => absurd rfl hne⟩
  | scan => exact h.scan
  | park hc hcommand hsource =>
    refine ⟨(List.getElem?_eq_some_iff.1 hc).1, h.declared, h.returns, fun call hcall => ?_,
      fun hne => absurd rfl hne⟩
    cases hcall
    rw [hsource]
    exact hline _ _ hcommand
  | complete value => exact ⟨h.cursor, h.declared, h.returns, nofun, h.memo⟩

namespace Sound

/-- **A change of one frame.** -/
theorem modifyFrame {f : FrameHandle} {frame : Frame} {u : Frame → Frame} (h : m.Sound)
    (hf : m.frames.get? f = some frame) (hu : m.FrameEdit frame (u frame)) :
    (m.modifyFrame f u).Sound where
  owned := by
    refine h.owned.congr (SameLinks.modifyFrame fun frame' hf' => ?_)
    rw [hf] at hf'
    cases hf'
    exact hu.links
  proper := ⟨h.proper.targets, h.proper.threads, h.proper.frames.modify f u, h.proper.commands⟩
  frame k frame' hk := by
    rw [frames_modifyFrame, Table.get?_modify] at hk
    refine FrameSound.congr (m := m) ?_ fun _ _ => rfl
    split at hk
    · next heq =>
      rw [heq, hf] at hk
      cases hk
      exact (h.frame f frame hf).edit h.line hu
    · exact h.frame k frame' hk
  line := h.line
  entity := h.entity
  claim := h.claim

/-- A change of one thread that neither moves it nor claims it secretly. -/
theorem modifyThread {t : ThreadHandle} {u : Thread → Thread} (h : m.Sound)
    (hu : ∀ thread, m.threads.get? t = some thread →
      (u thread).target = thread.target ∧ (u thread).stack = thread.stack)
    (hclaim : ∀ thread, m.threads.get? t = some thread →
      (u thread).claimed = true → (u thread).wasClaimed = true) : (m.modifyThread t u).Sound where
  owned := h.owned.congr (SameLinks.modifyThread hu)
  proper := ⟨h.proper.targets, h.proper.threads.modify t u, h.proper.frames, h.proper.commands⟩
  frame f frame hf := (h.frame f frame hf).congr fun _ _ => rfl
  line := h.line
  entity := h.entity
  claim k thread hk := by
    rw [threads_modifyThread, Table.get?_modify] at hk
    split at hk
    · next heq =>
      obtain ⟨old, hold, rfl⟩ := Option.map_eq_some_iff.1 hk
      exact hclaim old (heq ▸ hold)
    · exact h.claim k thread hk

/-- A change of one target that keeps its list, and its entity unless nothing runs on it. -/
theorem modifyTarget {g : TargetHandle} {u : Target → Target} (h : m.Sound)
    (hu : ∀ target, m.targets.get? g = some target → (u target).threads = target.threads)
    (hentity : ∀ target, m.targets.get? g = some target →
      (u target).entity = none → target.entity = none ∨ target.threads = []) :
    (m.modifyTarget g u).Sound where
  owned := h.owned.congr (SameLinks.modifyTarget hu)
  proper := ⟨h.proper.targets.modify g u, h.proper.threads, h.proper.frames, h.proper.commands⟩
  frame f frame hf := (h.frame f frame hf).congr fun _ _ => rfl
  line := h.line
  entity k target hk hnone := by
    rw [targets_modifyTarget, Table.get?_modify] at hk
    split at hk
    · next heq =>
      obtain ⟨old, hold, rfl⟩ := Option.map_eq_some_iff.1 hk
      have hg : m.targets.get? g = some old := heq ▸ hold
      rw [hu old hg]
      rcases hentity old hg hnone with hnone | hnil
      · exact h.entity k old hold hnone
      · exact hnil
    · exact h.entity k target hk hnone
  claim := h.claim

theorem setGlobals {vars : Vars} (h : m.Sound) : ({ m with globals := vars } : Machine).Sound where
  owned := ⟨h.owned.listed, h.owned.stacked, h.owned.held, h.owned.occupied⟩
  proper := ⟨h.proper.targets, h.proper.threads, h.proper.frames, h.proper.commands⟩
  frame f frame hf := (h.frame f frame hf).congr fun _ _ => rfl
  line := h.line
  entity := h.entity
  claim := h.claim

/-! ## Removal -/

/-- **Cancelling an invocation.** -/
theorem cleanup (h : m.Sound) (t : ThreadHandle) : (m.cleanup t).Sound where
  owned := h.owned.cleanup t
  proper := (Shrinks.cleanup m t).proper h.proper
  frame f frame hf := by
    obtain ⟨hf, hstacks⟩ := get?_frames_cleanup.1 hf
    refine (h.frame f frame hf).congr fun c hc => Option.ext fun command => ?_
    rw [get?_commands_cleanup, and_iff_left]
    rintro e he ⟨other, hother, hmem⟩
    exact hstacks (h.owned.frame_unique hother hf hmem hc ▸ he)
  line c command hc := h.line c command (get?_commands_cleanup.1 hc).1
  entity g target hg hnone := by
    rw [get?_targets_cleanup] at hg
    obtain ⟨old, hold, rfl⟩ := Option.map_eq_some_iff.1 hg
    rw [h.entity g old hold hnone]
    rfl
  claim k thread hk := h.claim k thread (get?_threads_cleanup.1 hk).1

/-- **Taking the innermost frame away**, if it is not the only one. -/
theorem leave {t : ThreadHandle} {f : FrameHandle} {below : List FrameHandle} (h : m.Sound)
    (ht : m.stackAt t = some (f :: below)) (hbelow : below ≠ []) :
    ((m.unstack t f).removeFrame f).Sound where
  owned := h.owned.leave ht hbelow
  proper := (Shrinks.leave m t f).proper h.proper
  frame e frame he := by
    obtain ⟨he, hne⟩ := get?_frames_removeFrame.1 he
    refine (h.frame e frame he).congr fun c hc => get?_commands_leave ?_
    rintro ⟨other, hother, hmem⟩
    exact hne (h.owned.frame_unique he hother hc hmem)
  line c command hc := h.line c command (get?_commands_removeFrame.1 hc).1
  entity := by
    rw [targets_removeFrame, targets_unstack]
    exact h.entity
  claim k thread hk := by
    rw [threads_removeFrame, get?_threads_unstack] at hk
    split at hk
    · obtain ⟨old, hold, rfl⟩ := Option.map_eq_some_iff.1 hk
      exact h.claim k old hold
    · exact h.claim k thread hk

/-! ## Growth -/

/-- A frame that just entered a script is in order. -/
theorem frameSound_newFrame {t : ThreadHandle} {script : Script} {args : List String} (h : m.Sound)
    (hscript : script.Readable) (hroom : ¬ (m.commands.createAll script.commands).2.Full)
    (hcommands : m'.commands = (m.commands.createAll script.commands).2) :
    m'.FrameSound (newFrame t script (m.commands.createAll script.commands).1 args) where
  cursor := Nat.zero_le _
  declared := by
    obtain ⟨name, dialect, text, warnings, hread, -⟩ := hscript
    refine ⟨script.commands, ?_, Script.declared hread⟩
    rw [hcommands]
    exact Table.map_get?_createAll h.proper.commands hroom
  returns _ := nofun
  pending _ := nofun
  memo hne := absurd rfl hne

/-- A frame that was there is not touched by new commands. -/
theorem frameSound_old {f : FrameHandle} {frame : Frame} {script : Script} (h : m.Sound)
    (hf : m.frames.get? f = some frame) (hroom : ¬ (m.commands.createAll script.commands).2.Full)
    (hcommands : m'.commands = (m.commands.createAll script.commands).2) : m'.FrameSound frame := by
  refine (h.frame f frame hf).congr fun c hc => ?_
  obtain ⟨command, hcommand⟩ := h.owned.command_of_listed hf hc
  rw [hcommands]
  refine Table.get?_createAll_of_notMem fun hmem => ?_
  rw [(Table.createAll_fresh h.proper.commands hroom).2 c hmem] at hcommand
  cases hcommand

theorem line_createAll {script : Script} {c : CommandHandle} {command : Command} (h : m.Sound)
    (hscript : script.Readable)
    (hc : (m.commands.createAll script.commands).2.get? c = some command) :
    command.line < UInt64.size := by
  obtain ⟨name, dialect, text, warnings, hread, htext⟩ := hscript
  rcases Table.get?_createAll_cases hc with hmem | hc
  · exact Nat.lt_of_le_of_lt (Script.line_le hread command hmem) htext
  · exact h.line c command hc

/-- **Entering a script.** -/
theorem pushed {t : ThreadHandle} {thread : Thread} {script : Script} {args : List String}
    (h : m.Sound) (ht : m.threads.get? t = some thread) (hscript : script.Readable)
    (hroom : (m.pushed t script args).Roomy) : (m.pushed t script args).Sound where
  owned := h.owned.pushed h.proper hroom ht
  proper := ⟨h.proper.targets, h.proper.threads.modify t _, h.proper.frames.create _,
    h.proper.commands.createAll _⟩
  frame f frame hf := by
    rw [get?_frames_pushed] at hf
    split at hf
    · cases hf
      exact h.frameSound_newFrame hscript hroom.commands (commands_pushed t script args)
    · exact h.frameSound_old hf hroom.commands (commands_pushed t script args)
  line c command hc := h.line_createAll hscript hc
  entity := h.entity
  claim k thread hk := by
    rw [get?_threads_pushed] at hk
    split at hk
    · obtain ⟨old, hold, rfl⟩ := Option.map_eq_some_iff.1 hk
      exact h.claim k old hold
    · exact h.claim k thread hk

/-- **A machine with the same objects** is as sound; its counters do not matter. -/
theorem congr (h : m.Sound) (hproper : m'.Proper)
    (htargets : ∀ g, m'.targets.get? g = m.targets.get? g)
    (hthreads : ∀ t, m'.threads.get? t = m.threads.get? t)
    (hframes : ∀ f, m'.frames.get? f = m.frames.get? f)
    (hcommands : ∀ c, m'.commands.get? c = m.commands.get? c) : m'.Sound where
  owned := h.owned.congr
    { threadList := fun g => by rw [threadList, htargets]; rfl
      targetAt := fun t => by rw [targetAt, hthreads]; rfl
      stackAt := fun t => by rw [stackAt, hthreads]; rfl
      threadAt := fun f => by rw [threadAt, hframes]; rfl
      commandsAt := fun f => by rw [commandsAt, hframes]; rfl
      live := fun c => by rw [hcommands] }
  proper := hproper
  frame f frame hf := (h.frame f frame (hframes f ▸ hf)).congr fun c _ => hcommands c
  line c command hc := h.line c command (hcommands c ▸ hc)
  entity g target hg := h.entity g target (htargets g ▸ hg)
  claim t thread ht := h.claim t thread (hthreads t ▸ ht)

/-- **Finding or making the target of an entity.** -/
theorem hosting (h : m.Sound) (hroom : m.Roomy) (entity : EntityId) : (m.hosting entity).Sound := by
  obtain ⟨target, htarget, hhome, hother, hcases⟩ := home_spec h.proper.targets hroom.targets entity
  have hproper : (m.home entity).2.Proper := by
    rcases hcases with ⟨-, heq⟩ | ⟨-, -, heq⟩
    · rw [heq]
      exact h.proper.targets
    · rw [heq]
      exact h.proper.targets.create _
  refine ⟨h.owned.hosting h.proper hroom entity,
    ⟨hproper, h.proper.threads, h.proper.frames, h.proper.commands⟩,
    fun f frame hf => (h.frame f frame hf).congr fun _ _ => rfl, h.line,
    fun g old hg hnone => ?_, h.claim⟩
  change (m.home entity).2.get? g = some old at hg
  by_cases heq : g = (m.home entity).1.1
  · rw [heq, hhome] at hg
    cases hg
    rw [htarget] at hnone
    cases hnone
  · exact h.entity g old (hother g heq ▸ hg) hnone

/-- **Removing a target** that lists nothing. -/
theorem eraseTarget {g : TargetHandle} (h : m.Sound) (hg : m.threadList g = some []) :
    ({ m with targets := m.targets.erase g } : Machine).Sound where
  owned := h.owned.eraseTarget hg
  proper := ⟨h.proper.targets.erase g, h.proper.threads, h.proper.frames, h.proper.commands⟩
  frame f frame hf := (h.frame f frame hf).congr fun _ _ => rfl
  line := h.line
  entity k target hk := by
    rw [Table.get?_erase] at hk
    split at hk
    · cases hk
    · exact h.entity k target hk
  claim := h.claim

/-- **A new invocation.** -/
theorem attached {t : ThreadHandle} {g : TargetHandle} {script : Script} (h : m.Sound)
    (hroom : ¬ m.frames.Full) (hscript : script.Readable) (ha : Attached t g script m m')
    (hproper : m'.Proper) (hafter : ¬ m'.commands.Full) : m'.Sound := by
  have hnew : m.frames.get? m.frames.fresh = none := Table.get?_fresh h.proper.frames.next hroom
  have hcommands := ha.commands
  rw [hcommands] at hafter
  refine ⟨h.owned.attached h.proper hnew hafter ha, hproper, fun f frame hf => ?_,
    fun c command hc => h.line_createAll hscript (hcommands ▸ hc), fun k target hk hnone => ?_,
    fun k thread hk => ?_⟩
  · rw [ha.frame] at hf
    split at hf
    · cases hf
      exact h.frameSound_newFrame hscript hafter hcommands
    · exact h.frameSound_old hf hafter hcommands
  · rw [ha.target] at hk
    obtain ⟨old, hold, rfl⟩ := Option.map_eq_some_iff.1 hk
    by_cases heq : k = g
    · obtain ⟨target, htarget, hentity⟩ := ha.home
      rw [heq, htarget] at hold
      cases hold
      simp only [heq, if_true] at hnone
      exact absurd hnone hentity
    · simp only [heq, if_false] at hnone ⊢
      exact h.entity k old hold hnone
  · by_cases heq : k = t
    · obtain ⟨own, hown, -, -, hclaim⟩ := ha.own
      rw [heq, hown] at hk
      cases hk
      exact hclaim
    · exact h.claim k thread (ha.thread k heq ▸ hk)

/-- **Starting a script.** -/
theorem started {entity : EntityId} {name : String} {script : Script} (h : m.Sound)
    (hbefore : m.Roomy) (hscript : script.Readable)
    (hroom : (m.started entity name script).Roomy) : (m.started entity name script).Sound := by
  have hhosting := h.hosting hbefore entity
  refine hhosting.attached hbefore.frames hscript
    (attached_started h.proper hbefore entity name script) ?_ hroom.commands
  exact ⟨hhosting.proper.targets.modify _ _, (h.proper.threads.create _).modify _ _,
    h.proper.frames.create _, h.proper.commands.createAll _⟩

theorem withdrawn (h : m.Sound) (entity : EntityId) : (m.withdrawn entity).Sound := by
  refine h.congr ⟨?_, h.proper.threads.skip, h.proper.frames, h.proper.commands⟩ (fun g => ?_)
    (fun _ => rfl) (fun _ => rfl) fun _ => rfl
  · rw [Machine.withdrawn]
    split
    · exact h.proper.targets.skip
    · exact h.proper.targets
  · rw [Machine.withdrawn]
    split <;> rfl

theorem edit (h : m.Sound) (hedit : Edit m m') : m'.Sound := by
  cases hedit with
  | frame hf hu => exact h.modifyFrame hf hu
  | threadVariable t name value =>
    exact h.modifyThread (fun _ _ => ⟨rfl, rfl⟩) fun thread ht => h.claim t thread ht
  | targetVariable g name value => exact h.modifyTarget (fun _ _ => rfl) fun _ _ => Or.inl
  | globalVariable name value => exact h.setGlobals

/-- **The invariant outlives every change.** -/
theorem move (h : m.Sound) (hmove : Move m m') : m'.Sound := by
  cases hmove with
  | edit hedit => exact h.edit hedit
  | claim t => exact h.modifyThread (fun _ _ => ⟨rfl, rfl⟩) fun _ _ _ => rfl
  | push ht hscript hroom => exact h.pushed ht hscript hroom
  | start hbefore hscript hroom => exact h.started hbefore hscript hroom
  | withdraw entity => exact h.withdrawn entity
  | leave ht hbelow => exact h.leave ht hbelow
  | cleanup t => exact h.cleanup t
  | reset => exact Sound.empty

/-- **Moves keep a machine sound.** -/
theorem moves (h : m.Sound) (hmoves : Relation.ReflTransGen Move m m') : m'.Sound := by
  induction hmoves with
  | refl => exact h
  | tail _ hmove ih => exact ih.move hmove

end Sound

end Machine

end StepScript
