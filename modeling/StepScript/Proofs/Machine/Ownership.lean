import StepScript.Proofs.Machine.Forest
import StepScript.Proofs.Machine.Growth

/-!
# Proofs/Machine/Ownership — every object has one owner

Targets own threads, threads own frames, frames own commands. On each level the lists of the owners
and the pointers of the owned agree (`Forest`); a command has no pointer, so there it is enough that
some pointers exist. No thread is without a frame.

* `Machine.Owned` — the invariant, with its consequences for single objects.
* `Machine.SameLinks` — two machines that differ in no link; the invariant does not tell them apart.
* `Machine.Owned.cleanup`, `Machine.Owned.leave`, `Machine.Owned.pushed`, `Machine.Owned.attached` —
  it outlives every change of the links.
-/

namespace StepScript.Machine

variable {m m' : Machine}

/-! ## Links -/

/-- The threads that a target lists. -/
def threadList (m : Machine) (g : TargetHandle) : Option (List ThreadHandle) :=
  (m.targets.get? g).map Target.threads

/-- The target that a thread names. -/
def targetAt (m : Machine) (t : ThreadHandle) : Option TargetHandle :=
  (m.threads.get? t).map Thread.target

/-- The frames on the stack of a thread. -/
def stackAt (m : Machine) (t : ThreadHandle) : Option (List FrameHandle) :=
  (m.threads.get? t).map Thread.stack

/-- The thread that a frame names. -/
def threadAt (m : Machine) (f : FrameHandle) : Option ThreadHandle :=
  (m.frames.get? f).map Frame.thread

/-- The commands that a frame lists. -/
def commandsAt (m : Machine) (f : FrameHandle) : Option (List CommandHandle) :=
  (m.frames.get? f).map Frame.commands

/-- **Every object has exactly one owner**, and no thread is without a frame. -/
structure Owned (m : Machine) : Prop where
  listed : Forest m.threadList m.targetAt
  stacked : Forest m.stackAt m.threadAt
  held : ∃ owner, Forest m.commandsAt owner ∧
    ∀ c, (m.commands.get? c).isSome = (owner c).isSome
  occupied : ∀ t, m.stackAt t ≠ some []

/-- A frame lists a command exactly if the command's pointer says so. -/
theorem lists_iff_owner {f : FrameHandle} {c : CommandHandle}
    {owner : CommandHandle → Option FrameHandle} (h : Forest m.commandsAt owner) :
    m.Lists f c ↔ owner c = some f := by
  rw [h.owner_iff]
  simp only [Lists, commandsAt, Option.map_eq_some_iff]
  constructor
  · rintro ⟨frame, hf, hc⟩
    exact ⟨frame.commands, ⟨frame, hf, rfl⟩, hc⟩
  · rintro ⟨_, ⟨frame, hf, rfl⟩, hc⟩
    exact ⟨frame, hf, hc⟩

/-- The two machines have the same objects with the same links. -/
structure SameLinks (m m' : Machine) : Prop where
  threadList : ∀ g, m'.threadList g = m.threadList g
  targetAt : ∀ t, m'.targetAt t = m.targetAt t
  stackAt : ∀ t, m'.stackAt t = m.stackAt t
  threadAt : ∀ f, m'.threadAt f = m.threadAt f
  commandsAt : ∀ f, m'.commandsAt f = m.commandsAt f
  live : ∀ c, (m'.commands.get? c).isSome = (m.commands.get? c).isSome

namespace SameLinks

theorem refl (m : Machine) : SameLinks m m :=
  ⟨fun _ => rfl, fun _ => rfl, fun _ => rfl, fun _ => rfl, fun _ => rfl, fun _ => rfl⟩

theorem trans {m₁ m₂ m₃ : Machine} (h : SameLinks m₁ m₂) (h' : SameLinks m₂ m₃) :
    SameLinks m₁ m₃ where
  threadList g := (h'.threadList g).trans (h.threadList g)
  targetAt t := (h'.targetAt t).trans (h.targetAt t)
  stackAt t := (h'.stackAt t).trans (h.stackAt t)
  threadAt f := (h'.threadAt f).trans (h.threadAt f)
  commandsAt f := (h'.commandsAt f).trans (h.commandsAt f)
  live c := (h'.live c).trans (h.live c)

/-- A target may change in anything but its list. -/
theorem modifyTarget {g : TargetHandle} {u : Target → Target}
    (hu : ∀ target, m.targets.get? g = some target → (u target).threads = target.threads) :
    SameLinks m (m.modifyTarget g u) where
  threadList k := Table.map_get?_modify m.targets k hu
  targetAt _ := rfl
  stackAt _ := rfl
  threadAt _ := rfl
  commandsAt _ := rfl
  live _ := rfl

/-- A thread may change in anything but its target and its stack. -/
theorem modifyThread {t : ThreadHandle} {u : Thread → Thread}
    (hu : ∀ thread, m.threads.get? t = some thread →
      (u thread).target = thread.target ∧ (u thread).stack = thread.stack) :
    SameLinks m (m.modifyThread t u) where
  threadList _ := rfl
  targetAt k := Table.map_get?_modify m.threads k fun thread ht => (hu thread ht).1
  stackAt k := Table.map_get?_modify m.threads k fun thread ht => (hu thread ht).2
  threadAt _ := rfl
  commandsAt _ := rfl
  live _ := rfl

/-- A frame may change in anything but its thread and its commands. -/
theorem modifyFrame {f : FrameHandle} {u : Frame → Frame}
    (hu : ∀ frame, m.frames.get? f = some frame →
      (u frame).thread = frame.thread ∧ (u frame).commands = frame.commands) :
    SameLinks m (m.modifyFrame f u) where
  threadList _ := rfl
  targetAt _ := rfl
  stackAt _ := rfl
  threadAt k := Table.map_get?_modify m.frames k fun frame hf => (hu frame hf).1
  commandsAt k := Table.map_get?_modify m.frames k fun frame hf => (hu frame hf).2
  live _ := rfl

end SameLinks

/-- The frame that leaves is taken off its stack, and other stacks are as they were. -/
theorem stackAt_of_leave {t : ThreadHandle} {f : FrameHandle} {below : List FrameHandle}
    (hf : f ∉ below) (ht : m.stackAt t = some (f :: below)) (k : ThreadHandle) :
    ((m.unstack t f).removeFrame f).stackAt k = if k = t then some below else m.stackAt k := by
  rw [stackAt, threads_removeFrame, get?_threads_unstack]
  by_cases hk : k = t
  · obtain ⟨thread, hthread, hstack⟩ := Option.map_eq_some_iff.1 ht
    have hfilter : (f :: below).filter (fun e => decide (e ≠ f)) = below := by
      rw [List.filter_cons_of_neg (by simp), List.filter_eq_self]
      exact fun e he => decide_eq_true fun heq => hf (heq ▸ he)
    simp only [hk, if_true, hthread, Option.map_some, hstack, hfilter]
  · rw [if_neg hk, if_neg hk]
    rfl

theorem stackAt_pushed {t : ThreadHandle} {fs : List FrameHandle} (ht : m.stackAt t = some fs)
    (script : Script) (args : List String) (k : ThreadHandle) :
    (m.pushed t script args).stackAt k = if k = t then some (m.frames.fresh :: fs)
      else m.stackAt k := by
  rw [stackAt, get?_threads_pushed]
  by_cases hk : k = t
  · obtain ⟨thread, hthread, rfl⟩ := Option.map_eq_some_iff.1 ht
    rw [if_pos hk, if_pos hk, hk, hthread]
    rfl
  · rw [if_neg hk, if_neg hk]
    rfl

namespace Owned

/-- Who owns what depends on links only. -/
theorem congr (h : m.Owned) (hs : SameLinks m m') : m'.Owned where
  listed := h.listed.congr hs.threadList hs.targetAt
  stacked := h.stacked.congr hs.stackAt hs.threadAt
  held := by
    obtain ⟨owner, hforest, hlive⟩ := h.held
    exact ⟨owner, hforest.congr hs.commandsAt fun _ => rfl, fun c => (hs.live c).trans (hlive c)⟩
  occupied t := hs.stackAt t ▸ h.occupied t

theorem empty : (∅ : Machine).Owned where
  listed := Forest.empty (fun _ => rfl) fun _ => rfl
  stacked := Forest.empty (fun _ => rfl) fun _ => rfl
  held := ⟨fun _ => none, Forest.empty (fun _ => rfl) fun _ => rfl, fun _ => rfl⟩
  occupied _ := nofun

/-! ## What it says about single objects -/

variable {g : TargetHandle} {target : Target} {t : ThreadHandle} {thread : Thread}
  {f : FrameHandle} {frame : Frame} {c : CommandHandle}

theorem nodup_threads (h : m.Owned) (hg : m.targets.get? g = some target) : target.threads.Nodup :=
  h.listed.nodup (p := g) (by rw [threadList, hg]; rfl)

/-- Every invocation is listed by its target. -/
theorem target_of_thread (h : m.Owned) (ht : m.threads.get? t = some thread) :
    ∃ target, m.targets.get? thread.target = some target ∧ t ∈ target.threads := by
  have howner : m.targetAt t = some thread.target := by rw [targetAt, ht]; rfl
  obtain ⟨ts, hts, hmem⟩ := h.listed.owner_iff.1 howner
  obtain ⟨target, htarget, rfl⟩ := Option.map_eq_some_iff.1 hts
  exact ⟨target, htarget, hmem⟩

/-- Whatever a target lists is an invocation on it. -/
theorem thread_of_listed (h : m.Owned) (hg : m.targets.get? g = some target)
    (ht : t ∈ target.threads) : ∃ thread, m.threads.get? t = some thread ∧ thread.target = g := by
  have howner := h.listed.owner_of_mem (p := g) (by rw [threadList, hg]; rfl) ht
  exact Option.map_eq_some_iff.1 howner

theorem nodup_stack (h : m.Owned) (ht : m.threads.get? t = some thread) : thread.stack.Nodup :=
  h.stacked.nodup (p := t) (by rw [stackAt, ht]; rfl)

theorem stack_ne_nil (h : m.Owned) (ht : m.threads.get? t = some thread) : thread.stack ≠ [] := by
  intro hnil
  exact h.occupied t (by rw [stackAt, ht, Option.map_some, hnil])

/-- Whatever is on a stack is a frame of that invocation. -/
theorem frame_of_stacked (h : m.Owned) (ht : m.threads.get? t = some thread)
    (hf : f ∈ thread.stack) : ∃ frame, m.frames.get? f = some frame ∧ frame.thread = t := by
  have howner := h.stacked.owner_of_mem (p := t) (by rw [stackAt, ht]; rfl) hf
  exact Option.map_eq_some_iff.1 howner

/-- Every frame is on the stack of its invocation. -/
theorem thread_of_frame (h : m.Owned) (hf : m.frames.get? f = some frame) :
    ∃ thread, m.threads.get? frame.thread = some thread ∧ f ∈ thread.stack := by
  have howner : m.threadAt f = some frame.thread := by rw [threadAt, hf]; rfl
  obtain ⟨fs, hfs, hmem⟩ := h.stacked.owner_iff.1 howner
  obtain ⟨thread, hthread, rfl⟩ := Option.map_eq_some_iff.1 hfs
  exact ⟨thread, hthread, hmem⟩

/-- A frame stands on the stack of the thread it names and on no other. -/
theorem stacks_iff (h : m.Owned) : m.Stacks t f ↔ m.threadAt f = some t := by
  constructor
  · rintro ⟨thread, ht, hf⟩
    exact h.stacked.owner_of_mem (by rw [stackAt, ht]; rfl) hf
  · intro hf
    obtain ⟨frame, hframe, rfl⟩ := Option.map_eq_some_iff.1 hf
    exact h.thread_of_frame hframe

theorem nodup_commands (h : m.Owned) (hf : m.frames.get? f = some frame) :
    frame.commands.Nodup := by
  obtain ⟨owner, hforest, -⟩ := h.held
  exact hforest.nodup (p := f) (by rw [commandsAt, hf]; rfl)

theorem command_of_listed (h : m.Owned) (hf : m.frames.get? f = some frame)
    (hc : c ∈ frame.commands) : ∃ command, m.commands.get? c = some command := by
  obtain ⟨owner, hforest, hlive⟩ := h.held
  have howner := hforest.owner_of_mem (p := f) (by rw [commandsAt, hf]; rfl) hc
  rw [← Option.isSome_iff_exists, hlive, howner]
  rfl

/-- Every command is one of a frame. -/
theorem frame_of_command {command : Command} (h : m.Owned) (hc : m.commands.get? c = some command) :
    ∃ f frame, m.frames.get? f = some frame ∧ c ∈ frame.commands := by
  obtain ⟨owner, hforest, hlive⟩ := h.held
  have hsome : (owner c).isSome = true := by rw [← hlive, hc]; rfl
  obtain ⟨f, hf⟩ := Option.isSome_iff_exists.1 hsome
  obtain ⟨cs, hcs, hmem⟩ := hforest.owner_iff.1 hf
  obtain ⟨frame, hframe, rfl⟩ := Option.map_eq_some_iff.1 hcs
  exact ⟨f, frame, hframe, hmem⟩

/-- No command is of two frames. -/
theorem frame_unique {f' : FrameHandle} {frame' : Frame} (h : m.Owned)
    (hf : m.frames.get? f = some frame) (hf' : m.frames.get? f' = some frame')
    (hc : c ∈ frame.commands) (hc' : c ∈ frame'.commands) : f = f' := by
  obtain ⟨owner, hforest, -⟩ := h.held
  have hown := hforest.owner_of_mem (p := f) (by rw [commandsAt, hf]; rfl) hc
  have hown' := hforest.owner_of_mem (p := f') (by rw [commandsAt, hf']; rfl) hc'
  rw [hown] at hown'
  exact Option.some.inj hown'

/-! ## Removal -/

/-- A removal that takes frames with their commands leaves the commands of the other frames. -/
theorem held_of_removal (h : m.Owned) (keep : FrameHandle → Bool)
    (hframes : ∀ f, m'.commandsAt f = if keep f then m.commandsAt f else none)
    (hcommands : ∀ c, (m'.commands.get? c).isSome = true ↔
      (m.commands.get? c).isSome = true ∧ ∀ f, keep f = false → ¬ m.Lists f c) :
    ∃ owner, Forest m'.commandsAt owner ∧ ∀ c, (m'.commands.get? c).isSome = (owner c).isSome := by
  obtain ⟨owner, hforest, hlive⟩ := h.held
  refine ⟨fun c => (owner c).filter keep,
    hforest.keepParents keep hframes fun _ => rfl, fun c => ?_⟩
  rw [Bool.eq_iff_iff, hcommands, hlive]
  simp only [lists_iff_owner hforest]
  cases howner : owner c with
  | none => simp
  | some f =>
    simp only [Option.isSome_some, true_and, Option.some.injEq, Option.isSome_filter,
      Option.any_some]
    constructor
    · intro hkeep
      by_cases hk : keep f = true
      · exact hk
      · exact absurd rfl (hkeep f (Bool.eq_false_iff.2 hk))
    · rintro hk e he rfl
      rw [hk] at he
      cases he

/-- **Cancelling an invocation** keeps ownership. -/
theorem cleanup (h : m.Owned) (t : ThreadHandle) : (m.cleanup t).Owned := by
  have hthread : ∀ k, (m.cleanup t).threads.get? k = if decide (k ≠ t)
      then m.threads.get? k else none := by
    intro k
    rw [threads_cleanup, Table.get?_erase]
    by_cases hk : k = t <;> simp [hk]
  have hframe : ∀ f, (m.cleanup t).frames.get? f =
      if decide (m.threadAt f ≠ some t) then m.frames.get? f else none := by
    intro f
    refine Option.ext fun frame => ?_
    rw [get?_frames_cleanup, h.stacks_iff]
    by_cases hf : m.threadAt f = some t <;> simp [hf]
  refine ⟨?_, ?_, ?_, fun k => ?_⟩
  · refine h.listed.keepChildren (fun k => decide (k ≠ t)) (fun g => ?_) fun k => ?_
    · rw [threadList, get?_targets_cleanup, threadList, Option.map_map, Option.map_map]
      cases hg : m.targets.get? g with
      | none => rfl
      | some target =>
        refine congrArg some (List.filter_congr fun k hk => ?_)
        obtain ⟨thread, hthread, htarget⟩ := h.thread_of_listed hg hk
        have hruns : m.runsOn k g = true := runsOn_iff.2 ⟨thread, hthread, htarget⟩
        simp [hruns]
    · rw [targetAt, hthread, targetAt]
      split <;> rfl
  · refine h.stacked.keepParents (fun k => decide (k ≠ t)) (fun k => ?_) fun f => ?_
    · rw [stackAt, hthread, stackAt]
      split <;> rfl
    · rw [threadAt, hframe, threadAt]
      cases hf : m.frames.get? f with
      | none => simp
      | some frame => by_cases heq : frame.thread = t <;> simp [Option.filter, heq]
  · refine h.held_of_removal (fun f => decide (m.threadAt f ≠ some t)) (fun f => ?_) fun c => ?_
    · rw [commandsAt, hframe, commandsAt]
      split <;> rfl
    · simp only [Option.isSome_iff_exists, get?_commands_cleanup, h.stacks_iff, exists_and_right,
        decide_eq_false_iff_not, ne_eq, Decidable.not_not]
  · rw [stackAt, hthread]
    split
    · exact h.occupied k
    · nofun

/-- The stacks after the innermost frame of a thread was taken away. -/
theorem stackAt_leave {below : List FrameHandle} (h : m.Owned)
    (ht : m.stackAt t = some (f :: below)) (k : ThreadHandle) :
    ((m.unstack t f).removeFrame f).stackAt k = if k = t then some below else m.stackAt k :=
  stackAt_of_leave (List.nodup_cons.1 (h.stacked.nodup ht)).1 ht k

/-- **Taking the innermost frame away** keeps ownership, if it is not the only one. -/
theorem leave {below : List FrameHandle} (h : m.Owned) (ht : m.stackAt t = some (f :: below))
    (hbelow : below ≠ []) : ((m.unstack t f).removeFrame f).Owned := by
  have howner : m.threadAt f = some t := h.stacked.owner_of_mem ht List.mem_cons_self
  have hnotMem : f ∉ below := (List.nodup_cons.1 (h.stacked.nodup ht)).1
  have hframe : ∀ e, ((m.unstack t f).removeFrame f).frames.get? e =
      if decide (e ≠ f) then m.frames.get? e else none := by
    intro e
    rw [frames_removeFrame, frames_unstack, Table.get?_erase]
    by_cases he : e = f <;> simp [he]
  refine ⟨?_, ?_, ?_, fun k => ?_⟩
  · refine h.listed.congr (fun _ => ?_) fun k => ?_
    · rw [threadList, targets_removeFrame, targets_unstack]
      rfl
    · rw [targetAt, threads_removeFrame, unstack, threads_modifyThread]
      exact Table.map_get?_modify m.threads k fun _ _ => rfl
  · refine h.stacked.keepChildren (fun e => decide (e ≠ f)) (fun k => ?_) fun e => ?_
    · -- only the stack of `t` holds the frame
      have hkeep : ∀ fs, m.stackAt k = some fs → k ≠ t →
          fs.filter (fun e => decide (e ≠ f)) = fs := by
        refine fun fs hfs hk => List.filter_eq_self.2 fun e he => decide_eq_true fun heq => hk ?_
        have := h.stacked.owner_of_mem hfs (heq ▸ he)
        rw [howner] at this
        exact (Option.some.inj this).symm
      rw [h.stackAt_leave ht]
      by_cases hk : k = t
      · rw [if_pos hk, hk, ht, Option.map_some, List.filter_cons_of_neg (by simp),
          List.filter_eq_self.2]
        exact fun e he => decide_eq_true fun heq => hnotMem (heq ▸ he)
      · rw [if_neg hk]
        cases hget : m.stackAt k with
        | none => rfl
        | some fs => rw [Option.map_some, hkeep fs hget hk]
    · rw [threadAt, hframe, threadAt]
      split <;> rfl
  · refine h.held_of_removal (fun e => decide (e ≠ f)) (fun e => ?_) fun c => ?_
    · rw [commandsAt, hframe, commandsAt]
      split <;> rfl
    · simp only [Option.isSome_iff_exists, get?_commands_removeFrame, commands_unstack,
        decide_eq_false_iff_not, ne_eq, Decidable.not_not, forall_eq, exists_and_right]
      rfl
  · rw [h.stackAt_leave ht]
    split
    · exact fun heq => hbelow (Option.some.inj heq)
    · exact h.occupied k

/-! ## Growth -/

/-- A new frame with new commands joins those that are there. -/
theorem held_of_growth {script : Script} (h : m.Owned) (hproper : m.Proper)
    (hroom : ¬ (m.commands.createAll script.commands).2.Full) (hf : m.frames.get? f = none)
    (hframes : ∀ e, m'.commandsAt e =
      if e = f then some (m.commands.createAll script.commands).1 else m.commandsAt e)
    (hcommands : m'.commands = (m.commands.createAll script.commands).2) :
    ∃ owner, Forest m'.commandsAt owner ∧ ∀ c, (m'.commands.get? c).isSome = (owner c).isSome := by
  obtain ⟨owner, hforest, hlive⟩ := h.held
  obtain ⟨hnodup, hnew⟩ := Table.createAll_fresh hproper.commands hroom
  refine ⟨fun c => if c ∈ (m.commands.createAll script.commands).1 then some f else owner c,
    hforest.addParent (p := f) ?_ hnodup (fun c hc => ?_) hframes fun _ => rfl, fun c => ?_⟩
  · rw [commandsAt, hf]
    rfl
  · rw [← Option.isNone_iff_eq_none, ← Option.not_isSome, ← hlive, hnew c hc]
    rfl
  · simp only [hcommands]
    by_cases hc : c ∈ (m.commands.createAll script.commands).1
    · rw [if_pos hc]
      have hmem : (m.commands.createAll script.commands).2.get? c ∈ script.commands.map some := by
        rw [← Table.map_get?_createAll hproper.commands hroom]
        exact List.mem_map_of_mem hc
      obtain ⟨command, -, hget⟩ := List.mem_map.1 hmem
      rw [← hget]
      rfl
    · rw [if_neg hc, Table.get?_createAll_of_notMem hc, hlive]

/-- **Entering a script** on a live invocation keeps ownership, unless a table becomes full. -/
theorem pushed {script : Script} {args : List String} (h : m.Owned) (hproper : m.Proper)
    (hroom : (m.pushed t script args).Roomy) (ht : m.threads.get? t = some thread) :
    (m.pushed t script args).Owned := by
  have hfresh : m.frames.get? m.frames.fresh = none :=
    Table.get?_fresh hproper.frames.next fun hfull => hroom.frames (hfull.create _)
  have hstack := stackAt_pushed (m := m) (by rw [stackAt, ht]; rfl) script args
  refine ⟨?_, ?_, ?_, fun k => ?_⟩
  · refine h.listed.congr (fun _ => rfl) fun k => ?_
    exact Table.map_get?_modify m.threads k fun _ _ => rfl
  · refine h.stacked.addChild (p := t) (l := thread.stack) ?_ ?_ (List.Perm.refl _)
      hstack fun f => ?_
    · rw [stackAt, ht]
      rfl
    · rw [threadAt, hfresh]
      rfl
    · rw [threadAt, get?_frames_pushed, threadAt]
      split <;> rfl
  · refine h.held_of_growth hproper hroom.commands hfresh (fun f => ?_)
      (commands_pushed t script args)
    rw [commandsAt, get?_frames_pushed, commandsAt]
    split <;> rfl
  · rw [hstack]
    split
    · nofun
    · exact h.occupied k

/-- **A new target** lists nothing yet. -/
theorem hosting (h : m.Owned) (hproper : m.Proper) (hroom : m.Roomy) (entity : EntityId) :
    (m.hosting entity).Owned := by
  obtain ⟨target, -, hhome, hother, ⟨hlive, heq⟩ | ⟨hdead, rfl, heq⟩⟩ :=
    home_spec hproper.targets hroom.targets entity
  · have hsame : m.hosting entity = m := by rw [Machine.hosting, heq]
    rw [hsame]
    exact h
  · refine ⟨h.listed.addParent (p := (m.home entity).1.1) (l := []) ?_ List.nodup_nil
      (List.forall_mem_nil _) (fun g => ?_) fun t => ?_, h.stacked, h.held, h.occupied⟩
    · rw [threadList, hdead]
      rfl
    · by_cases hg : g = (m.home entity).1.1
      · rw [if_pos hg, hg, threadList, Machine.hosting, hhome]
        rfl
      · rw [if_neg hg, threadList, Machine.hosting, hother g hg]
        rfl
    · rw [if_neg List.not_mem_nil]
      rfl

/-- **A target that lists nothing** can go. -/
theorem eraseTarget (h : m.Owned) (hg : m.threadList g = some []) :
    ({ m with targets := m.targets.erase g } : Machine).Owned := by
  refine ⟨h.listed.keepParents (fun k => decide (k ≠ g)) (fun k => ?_) fun t => ?_, h.stacked,
    h.held, h.occupied⟩
  · rw [threadList, Table.get?_erase]
    by_cases hk : k = g <;> simp [hk, threadList]
  · -- no invocation names the target
    have hnone : m.targetAt t ≠ some g := by
      intro ht
      obtain ⟨ts, hts, hmem⟩ := h.listed.owner_iff.1 ht
      rw [hg] at hts
      cases hts
      exact absurd hmem List.not_mem_nil
    change m.targetAt t = _
    cases ht : m.targetAt t with
    | none => rfl
    | some k =>
      have hk : k ≠ g := fun heq => hnone (heq ▸ ht)
      simp [Option.filter, hk]

/-- **A new invocation** keeps ownership, unless a table was or becomes full. -/
theorem attached {script : Script} (h : m.Owned) (hproper : m.Proper)
    (hnew : m.frames.get? m.frames.fresh = none)
    (hroom : ¬ (m.commands.createAll script.commands).2.Full) (ha : Attached t g script m m') :
    m'.Owned := by
  obtain ⟨target, htarget, -⟩ := ha.home
  obtain ⟨thread, hthread, hnamed, hstack, -⟩ := ha.own
  have hlists : ∀ k, m'.threadList k =
      if k = g then some (target.threads ++ [t]) else m.threadList k := by
    intro k
    rw [threadList, ha.target]
    by_cases hk : k = g
    · simp [hk, htarget]
    · simp [hk, threadList]
  have hthreads : ∀ k, m'.threads.get? k = if k = t then some thread else m.threads.get? k := by
    intro k
    by_cases hk : k = t
    · rw [if_pos hk, hk, hthread]
    · rw [if_neg hk, ha.thread k hk]
  refine ⟨?_, ?_, ?_, fun k => ?_⟩
  · refine h.listed.addChild (l := target.threads) ?_ ?_ (List.perm_append_singleton _ _) hlists
      fun k => ?_
    · rw [threadList, htarget]
      rfl
    · rw [targetAt, ha.new]
      rfl
    · rw [targetAt, hthreads, targetAt]
      by_cases hk : k = t <;> simp [hk, hnamed]
  · refine h.stacked.addParent (p := t) (l := [m.frames.fresh]) ?_ (by simp) ?_
      (fun k => ?_) fun f => ?_
    · rw [stackAt, ha.new]
      rfl
    · simp [threadAt, hnew]
    · rw [stackAt, hthreads, stackAt]
      by_cases hk : k = t <;> simp [hk, hstack]
    · rw [threadAt, ha.frame, threadAt]
      by_cases hf : f = m.frames.fresh <;> simp [hf, newFrame]
  · refine h.held_of_growth hproper hroom hnew (fun f => ?_) ha.commands
    rw [commandsAt, ha.frame, commandsAt]
    split <;> rfl
  · rw [stackAt, hthreads]
    by_cases hk : k = t
    · simp [hk, hstack]
    · rw [if_neg hk]
      exact h.occupied k

end Owned

end StepScript.Machine
