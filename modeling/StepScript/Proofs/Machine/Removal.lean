import StepScript.Machine.Basic
import StepScript.Proofs.Table.View

/-!
# Proofs/Machine/Removal — what is left after a removal

Removing frames or invocations takes objects away and, for an invocation, an entry off a target's
list; it changes nothing else. The lemmas say for each table which objects are left, and hold of
every machine, also one whose links are broken.

* `Machine.Stacks`, `Machine.Lists` — the two downward links a removal follows: a thread stacks
  frames, a frame lists commands.
* `Machine.get?_frames_removeFrames`, … — after the removal of several frames.
* `Machine.get?_threads_cleanupAll`, … — after the removal of several invocations.
-/

namespace StepScript.Machine

variable {m m' : Machine}

/-- The thread has the frame on its stack. -/
def Stacks (m : Machine) (t : ThreadHandle) (f : FrameHandle) : Prop :=
  ∃ thread, m.threads.get? t = some thread ∧ f ∈ thread.stack

/-- The frame lists the command. -/
def Lists (m : Machine) (f : FrameHandle) (c : CommandHandle) : Prop :=
  ∃ frame, m.frames.get? f = some frame ∧ c ∈ frame.commands

/-- Machines are the same if their tables and their global variables are. -/
theorem ext_tables (htargets : m.targets = m'.targets) (hthreads : m.threads = m'.threads)
    (hframes : m.frames = m'.frames) (hcommands : m.commands = m'.commands)
    (hglobals : m.globals = m'.globals) : m = m' := by
  cases m; cases m'
  simp_all

/-! ## Updates of one object -/

/-- A change of one object changes one table; the others are as they were. -/
@[simp] theorem targets_modifyTarget (m : Machine) (g : TargetHandle) (u : Target → Target) :
    (m.modifyTarget g u).targets = m.targets.modify g u := rfl

@[simp] theorem threads_modifyTarget (m : Machine) (g : TargetHandle) (u : Target → Target) :
    (m.modifyTarget g u).threads = m.threads := rfl

@[simp] theorem frames_modifyTarget (m : Machine) (g : TargetHandle) (u : Target → Target) :
    (m.modifyTarget g u).frames = m.frames := rfl

@[simp] theorem commands_modifyTarget (m : Machine) (g : TargetHandle) (u : Target → Target) :
    (m.modifyTarget g u).commands = m.commands := rfl

@[simp] theorem globals_modifyTarget (m : Machine) (g : TargetHandle) (u : Target → Target) :
    (m.modifyTarget g u).globals = m.globals := rfl

@[simp] theorem targets_modifyThread (m : Machine) (t : ThreadHandle) (u : Thread → Thread) :
    (m.modifyThread t u).targets = m.targets := rfl

@[simp] theorem threads_modifyThread (m : Machine) (t : ThreadHandle) (u : Thread → Thread) :
    (m.modifyThread t u).threads = m.threads.modify t u := rfl

@[simp] theorem frames_modifyThread (m : Machine) (t : ThreadHandle) (u : Thread → Thread) :
    (m.modifyThread t u).frames = m.frames := rfl

@[simp] theorem commands_modifyThread (m : Machine) (t : ThreadHandle) (u : Thread → Thread) :
    (m.modifyThread t u).commands = m.commands := rfl

@[simp] theorem globals_modifyThread (m : Machine) (t : ThreadHandle) (u : Thread → Thread) :
    (m.modifyThread t u).globals = m.globals := rfl

@[simp] theorem targets_modifyFrame (m : Machine) (f : FrameHandle) (u : Frame → Frame) :
    (m.modifyFrame f u).targets = m.targets := rfl

@[simp] theorem threads_modifyFrame (m : Machine) (f : FrameHandle) (u : Frame → Frame) :
    (m.modifyFrame f u).threads = m.threads := rfl

@[simp] theorem frames_modifyFrame (m : Machine) (f : FrameHandle) (u : Frame → Frame) :
    (m.modifyFrame f u).frames = m.frames.modify f u := rfl

@[simp] theorem commands_modifyFrame (m : Machine) (f : FrameHandle) (u : Frame → Frame) :
    (m.modifyFrame f u).commands = m.commands := rfl

@[simp] theorem globals_modifyFrame (m : Machine) (f : FrameHandle) (u : Frame → Frame) :
    (m.modifyFrame f u).globals = m.globals := rfl

/-! ## Removing a frame -/

@[simp] theorem targets_removeFrame (m : Machine) (f : FrameHandle) :
    (m.removeFrame f).targets = m.targets := by
  unfold removeFrame
  split <;> rfl

@[simp] theorem threads_removeFrame (m : Machine) (f : FrameHandle) :
    (m.removeFrame f).threads = m.threads := by
  unfold removeFrame
  split <;> rfl

@[simp] theorem globals_removeFrame (m : Machine) (f : FrameHandle) :
    (m.removeFrame f).globals = m.globals := by
  unfold removeFrame
  split <;> rfl

/-- Removing a frame removes it from the table of frames, and its commands. -/
@[simp] theorem frames_removeFrame (m : Machine) (f : FrameHandle) :
    (m.removeFrame f).frames = m.frames.erase f := by
  unfold removeFrame
  split
  · next h => exact (Table.erase_eq_self h).symm
  · rfl

theorem next_commands_removeFrame (m : Machine) (f : FrameHandle) :
    (m.removeFrame f).commands.next = m.commands.next := by
  unfold removeFrame
  split
  · rfl
  · exact Table.next_eraseAll _ _

theorem get?_frames_removeFrame {f k : FrameHandle} {frame : Frame} :
    (m.removeFrame f).frames.get? k = some frame ↔ m.frames.get? k = some frame ∧ k ≠ f := by
  rw [frames_removeFrame, Table.get?_erase]
  by_cases hk : k = f <;> simp [hk]

/-- The commands of the frame go with it. -/
theorem get?_commands_removeFrame {f : FrameHandle} {c : CommandHandle} {command : Command} :
    (m.removeFrame f).commands.get? c = some command ↔
      m.commands.get? c = some command ∧ ¬ m.Lists f c := by
  unfold removeFrame
  split
  · next h => simp [Lists, h]
  · next frame h =>
    simp only [Table.get?_eraseAll, Lists, h, Option.some.injEq, exists_eq_left']
    by_cases hc : c ∈ frame.commands <;> simp [hc]

/-- The other frames list what they listed. -/
theorem lists_removeFrame {f k : FrameHandle} {c : CommandHandle} :
    (m.removeFrame f).Lists k c ↔ m.Lists k c ∧ k ≠ f := by
  simp only [Lists, get?_frames_removeFrame]
  constructor
  · rintro ⟨frame, ⟨hk, hne⟩, hc⟩
    exact ⟨⟨frame, hk, hc⟩, hne⟩
  · rintro ⟨⟨frame, hk, hc⟩, hne⟩
    exact ⟨frame, ⟨hk, hne⟩, hc⟩

/-! ## Removing several frames -/

@[simp] theorem targets_removeFrames (m : Machine) (fs : List FrameHandle) :
    (fs.foldl removeFrame m).targets = m.targets := by
  induction fs generalizing m with
  | nil => rfl
  | cons f fs ih => rw [List.foldl_cons, ih, targets_removeFrame]

@[simp] theorem threads_removeFrames (m : Machine) (fs : List FrameHandle) :
    (fs.foldl removeFrame m).threads = m.threads := by
  induction fs generalizing m with
  | nil => rfl
  | cons f fs ih => rw [List.foldl_cons, ih, threads_removeFrame]

@[simp] theorem globals_removeFrames (m : Machine) (fs : List FrameHandle) :
    (fs.foldl removeFrame m).globals = m.globals := by
  induction fs generalizing m with
  | nil => rfl
  | cons f fs ih => rw [List.foldl_cons, ih, globals_removeFrame]

theorem next_frames_removeFrames (m : Machine) (fs : List FrameHandle) :
    (fs.foldl removeFrame m).frames.next = m.frames.next := by
  induction fs generalizing m with
  | nil => rfl
  | cons f fs ih => rw [List.foldl_cons, ih, frames_removeFrame, Table.next_erase]

theorem next_commands_removeFrames (m : Machine) (fs : List FrameHandle) :
    (fs.foldl removeFrame m).commands.next = m.commands.next := by
  induction fs generalizing m with
  | nil => rfl
  | cons f fs ih => rw [List.foldl_cons, ih, next_commands_removeFrame]

theorem get?_frames_removeFrames {fs : List FrameHandle} {k : FrameHandle} {frame : Frame} :
    (fs.foldl removeFrame m).frames.get? k = some frame ↔
      m.frames.get? k = some frame ∧ k ∉ fs := by
  induction fs generalizing m with
  | nil => simp
  | cons f fs ih =>
    rw [List.foldl_cons, ih, get?_frames_removeFrame, List.mem_cons, not_or, and_assoc]

/-- When frames are removed in turn, the commands of all of them go. -/
theorem get?_commands_removeFrames {fs : List FrameHandle} {c : CommandHandle} {command : Command} :
    (fs.foldl removeFrame m).commands.get? c = some command ↔
      m.commands.get? c = some command ∧ ∀ f ∈ fs, ¬ m.Lists f c := by
  induction fs generalizing m with
  | nil => simp
  | cons f fs ih =>
    rw [List.foldl_cons, ih, get?_commands_removeFrame]
    simp only [lists_removeFrame, List.forall_mem_cons, and_assoc]
    constructor
    · rintro ⟨hc, hf, hfs⟩
      refine ⟨hc, hf, fun k hk hlists => ?_⟩
      by_cases hkf : k = f
      · exact hf (hkf ▸ hlists)
      · exact hfs k hk ⟨hlists, hkf⟩
    · rintro ⟨hc, hf, hfs⟩
      exact ⟨hc, hf, fun k hk hlists => hfs k hk hlists.1⟩

/-! ## Removing an invocation -/

/-- Whether the thread is live and runs on the target. -/
def runsOn (m : Machine) (t : ThreadHandle) (g : TargetHandle) : Bool :=
  (m.threads.get? t).any (·.target = g)

/-- An invocation runs on a target if it names it. -/
theorem runsOn_iff {t : ThreadHandle} {g : TargetHandle} :
    m.runsOn t g = true ↔ ∃ thread, m.threads.get? t = some thread ∧ thread.target = g := by
  simp [runsOn, Option.any_eq_true]

theorem cleanup_of_get?_eq_none {t : ThreadHandle} (h : m.threads.get? t = none) :
    m.cleanup t = m := by
  rw [cleanup, h]

/-- **Cancelling an invocation** takes it off its target's list, and its frames with their commands
out of the machine. -/
theorem cleanup_of_get?_eq_some {t : ThreadHandle} {thread : Thread}
    (h : m.threads.get? t = some thread) :
    m.cleanup t = thread.stack.foldl removeFrame
      (({ m with threads := m.threads.erase t } : Machine).modifyTarget thread.target fun target =>
        { target with threads := target.threads.filter (· ≠ t) }) := by
  rw [cleanup, h]

@[simp] theorem threads_cleanup (m : Machine) (t : ThreadHandle) :
    (m.cleanup t).threads = m.threads.erase t := by
  cases h : m.threads.get? t with
  | none => rw [cleanup_of_get?_eq_none h, Table.erase_eq_self h]
  | some thread => rw [cleanup_of_get?_eq_some h, threads_removeFrames, threads_modifyTarget]

@[simp] theorem globals_cleanup (m : Machine) (t : ThreadHandle) :
    (m.cleanup t).globals = m.globals := by
  cases h : m.threads.get? t with
  | none => rw [cleanup_of_get?_eq_none h]
  | some thread => rw [cleanup_of_get?_eq_some h, globals_removeFrames, globals_modifyTarget]

theorem next_targets_cleanup (m : Machine) (t : ThreadHandle) :
    (m.cleanup t).targets.next = m.targets.next := by
  cases h : m.threads.get? t with
  | none => rw [cleanup_of_get?_eq_none h]
  | some thread =>
    rw [cleanup_of_get?_eq_some h, targets_removeFrames, targets_modifyTarget, Table.next_modify]

theorem next_frames_cleanup (m : Machine) (t : ThreadHandle) :
    (m.cleanup t).frames.next = m.frames.next := by
  cases h : m.threads.get? t with
  | none => rw [cleanup_of_get?_eq_none h]
  | some thread => rw [cleanup_of_get?_eq_some h, next_frames_removeFrames, frames_modifyTarget]

theorem next_commands_cleanup (m : Machine) (t : ThreadHandle) :
    (m.cleanup t).commands.next = m.commands.next := by
  cases h : m.threads.get? t with
  | none => rw [cleanup_of_get?_eq_none h]
  | some thread => rw [cleanup_of_get?_eq_some h, next_commands_removeFrames, commands_modifyTarget]

/-- The invocation is gone and the others stay. -/
theorem get?_threads_cleanup {t k : ThreadHandle} {thread : Thread} :
    (m.cleanup t).threads.get? k = some thread ↔ m.threads.get? k = some thread ∧ k ≠ t := by
  rw [threads_cleanup, Table.get?_erase]
  by_cases hk : k = t <;> simp [hk]

/-- The target of the invocation forgets it; the other targets keep their lists. -/
theorem get?_targets_cleanup (m : Machine) (t : ThreadHandle) (g : TargetHandle) :
    (m.cleanup t).targets.get? g = (m.targets.get? g).map fun target =>
      { target with
        threads := target.threads.filter fun k => !(decide (k = t) && m.runsOn k g) } := by
  cases h : m.threads.get? t with
  | none =>
    have hkeep : ∀ ks : List ThreadHandle,
        (ks.filter fun k => !(decide (k = t) && m.runsOn k g)) = ks := by
      refine fun ks => List.filter_eq_self.2 fun k _ => ?_
      by_cases hk : k = t <;> simp [hk, runsOn, h]
    rw [cleanup_of_get?_eq_none h]
    cases m.targets.get? g <;> simp only [hkeep, Option.map_none, Option.map_some]
  | some thread =>
    rw [cleanup_of_get?_eq_some h, targets_removeFrames, targets_modifyTarget, Table.get?_modify]
    by_cases hg : g = thread.target
    · subst hg
      have hfilter : ∀ k, (!(decide (k = t) && m.runsOn k thread.target)) = decide (k ≠ t) := by
        intro k
        by_cases hk : k = t <;> simp [hk, runsOn, h]
      simp only [if_true, hfilter]
    · have hkeep : ∀ ks : List ThreadHandle,
          (ks.filter fun k => !(decide (k = t) && m.runsOn k g)) = ks := by
        refine fun ks => List.filter_eq_self.2 fun k _ => ?_
        by_cases hk : k = t <;> simp [hk, runsOn, h, Ne.symm hg]
      rw [if_neg hg]
      cases m.targets.get? g <;> simp only [hkeep, Option.map_none, Option.map_some]

/-- The frames on its stack are gone and the others stay. -/
theorem get?_frames_cleanup {t : ThreadHandle} {f : FrameHandle} {frame : Frame} :
    (m.cleanup t).frames.get? f = some frame ↔
      m.frames.get? f = some frame ∧ ¬ m.Stacks t f := by
  cases h : m.threads.get? t with
  | none => simp [cleanup_of_get?_eq_none h, Stacks, h]
  | some thread =>
    rw [cleanup_of_get?_eq_some h, get?_frames_removeFrames, frames_modifyTarget]
    simp [Stacks, h]

/-- The commands of those frames are gone and the others stay. -/
theorem get?_commands_cleanup {t : ThreadHandle} {c : CommandHandle} {command : Command} :
    (m.cleanup t).commands.get? c = some command ↔
      m.commands.get? c = some command ∧ ∀ f, m.Stacks t f → ¬ m.Lists f c := by
  cases h : m.threads.get? t with
  | none => simp [cleanup_of_get?_eq_none h, Stacks, h]
  | some thread =>
    rw [cleanup_of_get?_eq_some h, get?_commands_removeFrames, commands_modifyTarget]
    simp [Stacks, h, Lists]

theorem stacks_cleanup {t k : ThreadHandle} {f : FrameHandle} :
    (m.cleanup t).Stacks k f ↔ m.Stacks k f ∧ k ≠ t := by
  simp only [Stacks, get?_threads_cleanup]
  constructor
  · rintro ⟨thread, ⟨hk, hne⟩, hf⟩
    exact ⟨⟨thread, hk, hf⟩, hne⟩
  · rintro ⟨⟨thread, hk, hf⟩, hne⟩
    exact ⟨thread, ⟨hk, hne⟩, hf⟩

theorem lists_cleanup {t : ThreadHandle} {f : FrameHandle} {c : CommandHandle} :
    (m.cleanup t).Lists f c ↔ m.Lists f c ∧ ¬ m.Stacks t f := by
  simp only [Lists, get?_frames_cleanup]
  constructor
  · rintro ⟨frame, ⟨hf, hne⟩, hc⟩
    exact ⟨⟨frame, hf, hc⟩, hne⟩
  · rintro ⟨⟨frame, hf, hc⟩, hne⟩
    exact ⟨frame, ⟨hf, hne⟩, hc⟩

theorem runsOn_cleanup {t k : ThreadHandle} {g : TargetHandle} :
    (m.cleanup t).runsOn k g = (m.runsOn k g && decide (k ≠ t)) := by
  rw [runsOn, threads_cleanup, Table.get?_erase]
  by_cases hk : k = t <;> simp [hk, runsOn]

/-! ## Removing several invocations -/

@[simp] theorem globals_cleanupAll (m : Machine) (ts : List ThreadHandle) :
    (ts.foldl cleanup m).globals = m.globals := by
  induction ts generalizing m with
  | nil => rfl
  | cons t ts ih => rw [List.foldl_cons, ih, globals_cleanup]

theorem next_targets_cleanupAll (m : Machine) (ts : List ThreadHandle) :
    (ts.foldl cleanup m).targets.next = m.targets.next := by
  induction ts generalizing m with
  | nil => rfl
  | cons t ts ih => rw [List.foldl_cons, ih, next_targets_cleanup]

theorem next_threads_cleanupAll (m : Machine) (ts : List ThreadHandle) :
    (ts.foldl cleanup m).threads.next = m.threads.next := by
  induction ts generalizing m with
  | nil => rfl
  | cons t ts ih => rw [List.foldl_cons, ih, threads_cleanup, Table.next_erase]

theorem next_frames_cleanupAll (m : Machine) (ts : List ThreadHandle) :
    (ts.foldl cleanup m).frames.next = m.frames.next := by
  induction ts generalizing m with
  | nil => rfl
  | cons t ts ih => rw [List.foldl_cons, ih, next_frames_cleanup]

theorem next_commands_cleanupAll (m : Machine) (ts : List ThreadHandle) :
    (ts.foldl cleanup m).commands.next = m.commands.next := by
  induction ts generalizing m with
  | nil => rfl
  | cons t ts ih => rw [List.foldl_cons, ih, next_commands_cleanup]

theorem get?_threads_cleanupAll {ts : List ThreadHandle} {k : ThreadHandle} {thread : Thread} :
    (ts.foldl cleanup m).threads.get? k = some thread ↔
      m.threads.get? k = some thread ∧ k ∉ ts := by
  induction ts generalizing m with
  | nil => simp
  | cons t ts ih =>
    rw [List.foldl_cons, ih, get?_threads_cleanup, List.mem_cons, not_or, and_assoc]

theorem get?_targets_cleanupAll (m : Machine) (ts : List ThreadHandle) (g : TargetHandle) :
    (ts.foldl cleanup m).targets.get? g = (m.targets.get? g).map fun target =>
      { target with
        threads := target.threads.filter fun k => !(decide (k ∈ ts) && m.runsOn k g) } := by
  induction ts generalizing m with
  | nil =>
    rw [List.foldl_nil]
    cases m.targets.get? g <;> simp [List.filter_eq_self.2]
  | cons t ts ih =>
    rw [List.foldl_cons, ih, get?_targets_cleanup]
    cases m.targets.get? g with
    | none => rfl
    | some target =>
      simp only [Option.map_some, List.filter_filter, runsOn_cleanup]
      have hsame : ∀ k, ((!(decide (k ∈ ts) && (m.runsOn k g && decide (k ≠ t))))
          && !(decide (k = t) && m.runsOn k g)) = !(decide (k ∈ t :: ts) && m.runsOn k g) := by
        intro k
        by_cases hk : k = t <;> simp [hk]
      simp only [hsame]

/-- When invocations are cancelled in turn, the frames on the stack of each go. -/
theorem get?_frames_cleanupAll {ts : List ThreadHandle} {f : FrameHandle} {frame : Frame} :
    (ts.foldl cleanup m).frames.get? f = some frame ↔
      m.frames.get? f = some frame ∧ ∀ t ∈ ts, ¬ m.Stacks t f := by
  induction ts generalizing m with
  | nil => simp
  | cons t ts ih =>
    rw [List.foldl_cons, ih, get?_frames_cleanup]
    simp only [stacks_cleanup, List.forall_mem_cons, and_assoc]
    constructor
    · rintro ⟨hf, ht, hts⟩
      refine ⟨hf, ht, fun k hk hstacks => ?_⟩
      by_cases hkt : k = t
      · exact ht (hkt ▸ hstacks)
      · exact hts k hk ⟨hstacks, hkt⟩
    · rintro ⟨hf, ht, hts⟩
      exact ⟨hf, ht, fun k hk hstacks => hts k hk hstacks.1⟩

theorem get?_commands_cleanupAll {ts : List ThreadHandle} {c : CommandHandle} {command : Command} :
    (ts.foldl cleanup m).commands.get? c = some command ↔
      m.commands.get? c = some command ∧ ∀ t ∈ ts, ∀ f, m.Stacks t f → ¬ m.Lists f c := by
  induction ts generalizing m with
  | nil => simp
  | cons t ts ih =>
    rw [List.foldl_cons, ih, get?_commands_cleanup]
    simp only [stacks_cleanup, lists_cleanup, List.forall_mem_cons, and_assoc]
    constructor
    · rintro ⟨hc, ht, hts⟩
      refine ⟨hc, ht, fun k hk f hstacks hlists => ?_⟩
      by_cases hkt : k = t
      · exact ht f (hkt ▸ hstacks) hlists
      · exact hts k hk f ⟨hstacks, hkt⟩ ⟨hlists, fun hstacked => ht f hstacked hlists⟩
    · rintro ⟨hc, ht, hts⟩
      exact ⟨hc, ht, fun k hk f hstacks hlists => hts k hk f hstacks.1 hlists.1⟩

/-! ## Taking a frame off a stack -/

@[simp] theorem targets_unstack (m : Machine) (t : ThreadHandle) (f : FrameHandle) :
    (m.unstack t f).targets = m.targets := rfl

@[simp] theorem frames_unstack (m : Machine) (t : ThreadHandle) (f : FrameHandle) :
    (m.unstack t f).frames = m.frames := rfl

@[simp] theorem commands_unstack (m : Machine) (t : ThreadHandle) (f : FrameHandle) :
    (m.unstack t f).commands = m.commands := rfl

@[simp] theorem globals_unstack (m : Machine) (t : ThreadHandle) (f : FrameHandle) :
    (m.unstack t f).globals = m.globals := rfl

/-- Taking a frame off a stack leaves the other stacks as they were. -/
theorem get?_threads_unstack (m : Machine) (t k : ThreadHandle) (f : FrameHandle) :
    (m.unstack t f).threads.get? k =
      if k = t then (m.threads.get? k).map fun thread =>
        { thread with stack := thread.stack.filter (· ≠ f) }
      else m.threads.get? k :=
  Table.get?_modify m.threads t k _

/-- Taking a frame away leaves the commands that it does not list. -/
theorem get?_commands_leave {t : ThreadHandle} {f : FrameHandle} {c : CommandHandle}
    (hc : ¬ m.Lists f c) : ((m.unstack t f).removeFrame f).commands.get? c = m.commands.get? c := by
  refine Option.ext fun command => ?_
  rw [get?_commands_removeFrame, commands_unstack]
  exact and_iff_left hc

end StepScript.Machine
