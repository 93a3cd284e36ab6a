import StepScript.Proofs.Machine.EndCalls

/-!
# Proofs/Machine/Mend — loading a damaged save

Bytes that read as a machine may have any links at all. The repair visits the objects of one kind
after the other; each pass brings the objects it has visited in order and keeps what the passes
before have achieved. No pass adds an object (`Machine.Fewer`), so at the end of a pass every object
was visited.

* `Machine.Anchored`, `Machine.Placed`, `Machine.Stocked` — what the passes over invocations, frames
  and again invocations achieve.
* `Machine.Mended` — the links of a loaded machine.
-/

namespace StepScript

/-- The diagnostic is not about a call that could not be completed. -/
def Diagnostic.Harmless : Diagnostic → Prop
  | .unfinishedCall _ _ => False
  | _ => True

namespace Machine

variable {m m' : Machine} {t : ThreadHandle} {f : FrameHandle} {g : TargetHandle}

/-! ## Fewer objects -/

/-- **No invocation and no frame is new**, none is claimed and none is scanned. -/
structure Fewer (m m' : Machine) : Prop where
  thread : ∀ t thread, m'.threads.get? t = some thread →
    ∃ old, m.threads.get? t = some old ∧ thread.claimed = old.claimed
  frame : ∀ f frame, m'.frames.get? f = some frame →
    ∃ old, m.frames.get? f = some old ∧ frame.readiness = old.readiness

namespace Fewer

theorem refl (m : Machine) : Fewer m m :=
  ⟨fun _ thread ht => ⟨thread, ht, rfl⟩, fun _ frame hf => ⟨frame, hf, rfl⟩⟩

theorem trans {m'' : Machine} (h : Fewer m m') (h' : Fewer m' m'') : Fewer m m'' where
  thread t thread ht := by
    obtain ⟨mid, hmid, hclaimed⟩ := h'.thread t thread ht
    obtain ⟨old, hold, hclaimed'⟩ := h.thread t mid hmid
    exact ⟨old, hold, hclaimed.trans hclaimed'⟩
  frame f frame hf := by
    obtain ⟨mid, hmid, hready⟩ := h'.frame f frame hf
    obtain ⟨old, hold, hready'⟩ := h.frame f mid hmid
    exact ⟨old, hold, hready.trans hready'⟩

/-- An invocation that is there after a pass is among those that the pass goes through. -/
theorem mem_threads (h : Fewer m m') {thread : Thread} (ht : m'.threads.get? t = some thread) :
    t ∈ m.threads.handles := by
  obtain ⟨old, hold, -⟩ := h.thread t thread ht
  exact Table.mem_handles_iff.2 (by rw [hold]; rfl)

/-- So is a frame. -/
theorem mem_frames (h : Fewer m m') {frame : Frame} (hf : m'.frames.get? f = some frame) :
    f ∈ m.frames.handles := by
  obtain ⟨old, hold, -⟩ := h.frame f frame hf
  exact Table.mem_handles_iff.2 (by rw [hold]; rfl)

/-- A change of targets alone. -/
theorem modifyTarget (m : Machine) (g : TargetHandle) (u : Target → Target) :
    Fewer m (m.modifyTarget g u) :=
  ⟨(Fewer.refl m).thread, (Fewer.refl m).frame⟩

/-- Removing an invocation adds nothing. -/
theorem cleanup (m : Machine) (t : ThreadHandle) : Fewer m (m.cleanup t) where
  thread _ thread hk := ⟨thread, (get?_threads_cleanup.1 hk).1, rfl⟩
  frame _ frame hf := ⟨frame, (get?_frames_cleanup.1 hf).1, rfl⟩

theorem cleanupAll (m : Machine) (ts : List ThreadHandle) :
    Fewer m (ts.foldl Machine.cleanup m) where
  thread _ thread hk := ⟨thread, (get?_threads_cleanupAll.1 hk).1, rfl⟩
  frame _ frame hf := ⟨frame, (get?_frames_cleanupAll.1 hf).1, rfl⟩

theorem removeFrame (m : Machine) (f : FrameHandle) : Fewer m (m.removeFrame f) where
  thread _ thread ht := ⟨thread, by rwa [threads_removeFrame] at ht, rfl⟩
  frame _ frame hk := ⟨frame, (get?_frames_removeFrame.1 hk).1, rfl⟩

/-- Nor does changing a stack. -/
theorem restack (m : Machine) (t : ThreadHandle) (stack : List FrameHandle) :
    Fewer m (m.modifyThread t fun thread => { thread with stack }) where
  thread k thread hk := by
    rw [threads_modifyThread, Table.get?_modify] at hk
    split at hk
    · obtain ⟨old, hold, rfl⟩ := Option.map_eq_some_iff.1 hk
      exact ⟨old, hold, rfl⟩
    · exact ⟨thread, hk, rfl⟩
  frame := (Fewer.refl m).frame

end Fewer

/-! ## Passes -/

section

variable {α : Type} {R : Machine → Prop} {Q : Machine → α → Prop}

/-- **A visit of one object**: it adds nothing and keeps `R`, achieves `Q` for the object and keeps
it for the others. -/
structure Visit (R : Machine → Prop) (Q : Machine → α → Prop) (m : Machine) (a : α)
    (o : Outcome Machine Unit) : Prop where
  fewer : Fewer m o.state
  keep : R m → R o.state
  visited : Q o.state a
  others : ∀ b, Q m b → Q o.state b
  harmless : ∀ d ∈ o.log, d.Harmless

/-- A visit that does nothing is one, if the object is in order already. -/
theorem Visit.still {a : α} (h : Q m a) : Visit R Q m a ⟨(), m, []⟩ :=
  ⟨.refl m, id, h, fun _ => id, List.forall_mem_nil _⟩

/-- **A pass** over several objects achieves `Q` for all of them. -/
theorem Visit.all {f : α → Act Machine Unit} (h : ∀ a m, Visit R Q m a ((f a).run m)) {as : List α}
    {log : List Diagnostic} (hnodup : as.Nodup) (hrun : (Act.forEach f as).run m = ⟨(), m', log⟩) :
    Fewer m m' ∧ (R m → R m') ∧ (∀ a ∈ as, Q m' a) ∧ ∀ d ∈ log, d.Harmless := by
  have hall := Act.forEach_spec (f := f) (s := m)
    (p := fun done m' => Fewer m m' ∧ (R m → R m') ∧ ∀ a ∈ done, Q m' a) (q := Diagnostic.Harmless)
    hnodup ⟨.refl m, id, List.forall_mem_nil _⟩ ?_
  · rw [hrun] at hall
    obtain ⟨⟨hfewer, hkeep, hdone⟩, hlog⟩ := hall
    exact ⟨hfewer, hkeep, hdone, hlog⟩
  · rintro done a m' - - ⟨hfewer, hkeep, hdone⟩
    refine ⟨⟨hfewer.trans (h a m').fewer, fun hm => (h a m').keep (hkeep hm), fun b hb => ?_⟩,
      (h a m').harmless⟩
    rcases List.mem_append.1 hb with hb | hb
    · exact (h a m').others b (hdone b hb)
    · exact List.mem_singleton.1 hb ▸ (h a m').visited

end

/-- The first pass cancels invocations, and there is nothing yet that it could spoil. -/
theorem visit_remapTarget (s : Setting) (g : TargetHandle) (m : Machine) :
    Visit (fun _ => True) (fun _ _ => True) m g ((remapTarget s g).run m) := by
  simp only [remapTarget, Act.run_get_bind]
  split
  · exact .still trivial
  · split
    · exact .still trivial
    · split
      · exact ⟨.modifyTarget m g _, id, trivial, fun _ => id, List.forall_mem_nil _⟩
      · refine ⟨(Fewer.modifyTarget m g _).trans (.cleanupAll _ _), id, trivial, fun _ => id, ?_⟩
        exact List.forall_mem_singleton.2 trivial

/-! ## Invocations -/

/-- **The invocation, if it is live, is listed by its target.** -/
def Anchored (m : Machine) (t : ThreadHandle) : Prop :=
  ∀ thread, m.threads.get? t = some thread →
    ∃ target, m.targets.get? thread.target = some target ∧ t ∈ target.threads

/-- An invocation whose target lists it stays so when another is cancelled. -/
theorem Anchored.cleanup (h : m.Anchored t) (k : ThreadHandle) : (m.cleanup k).Anchored t := by
  intro thread ht
  obtain ⟨ht, hne⟩ := get?_threads_cleanup.1 ht
  obtain ⟨target, htarget, hmem⟩ := h thread ht
  refine ⟨_, by rw [get?_targets_cleanup, htarget]; rfl, List.mem_filter.2 ⟨hmem, ?_⟩⟩
  simp [hne]

/-- Lists may grow, and lose invocations that are not live. -/
theorem Anchored.modifyTarget (h : m.Anchored t) (g : TargetHandle) {u : Target → Target}
    (hkeep : ∀ target, m.threads.contains t = true → t ∈ target.threads → t ∈ (u target).threads) :
    (m.modifyTarget g u).Anchored t := by
  intro thread ht
  obtain ⟨target, htarget, hmem⟩ := h thread ht
  rw [targets_modifyTarget, Table.get?_modify]
  split
  · exact ⟨u target, by rw [htarget]; rfl, hkeep target (Table.contains_iff.2 ⟨thread, ht⟩) hmem⟩
  · exact ⟨target, htarget, hmem⟩

/-- **Relinking an invocation** anchors it, and leaves the others as they are. -/
theorem visit_relinkThread (t : ThreadHandle) (m : Machine) :
    Visit (fun _ => True) Anchored m t ((relinkThread t).run m) := by
  have hcancel : ∀ d : Diagnostic, d.Harmless →
      Visit (fun _ => True) Anchored m t ⟨(), m.cleanup t, [d]⟩ := fun d hd =>
    ⟨.cleanup m t, id, fun _ ht => absurd rfl (get?_threads_cleanup.1 ht).2,
      fun _ hk => hk.cleanup t, List.forall_mem_singleton.2 hd⟩
  simp only [relinkThread, Act.run_get_bind]
  cases ht : m.threads.get? t with
  | none => exact .still (by simp [Anchored, ht])
  | some thread =>
    cases htarget : m.targets.get? thread.target with
    | none =>
      simp only [htarget]
      exact hcancel _ trivial
    | some target =>
      simp only [htarget, Act.run_ite]
      split
      · exact hcancel _ trivial
      · split
        · next hmem => exact .still (by simp [Anchored, ht, htarget, hmem])
        · refine ⟨.modifyTarget m _ _, id, ?_, fun k hk => hk.modifyTarget _ ?_,
            List.forall_mem_nil _⟩
          · simp [Anchored, ht, htarget]
          · exact fun _ _ hmem => List.mem_append_left _ hmem

theorem visit_pruneTarget (g : TargetHandle) (m : Machine) :
    Visit (fun m => ∀ t, m.Anchored t) (fun _ _ => True) m g ((pruneTarget g).run m) :=
  ⟨.modifyTarget m g _,
    fun h t => (h t).modifyTarget g fun _ hlive hmem => List.mem_filter.2 ⟨hmem, hlive⟩,
    trivial, fun _ => id, List.forall_mem_nil _⟩

/-! ## Frames -/

/-- **The frame, if it is live, is on the stack of its invocation.** -/
def Placed (m : Machine) (f : FrameHandle) : Prop :=
  ∀ frame, m.frames.get? f = some frame → m.Stacks frame.thread f

theorem Anchored.removeFrame (h : m.Anchored t) (f : FrameHandle) :
    (m.removeFrame f).Anchored t := by
  intro thread ht
  rw [threads_removeFrame] at ht
  rw [targets_removeFrame]
  exact h thread ht

theorem stacks_removeFrame {k : FrameHandle} : (m.removeFrame f).Stacks t k ↔ m.Stacks t k := by
  rw [Stacks, threads_removeFrame, Stacks]

/-- **Relinking a frame** places it, and leaves the others as they are. -/
theorem visit_relinkFrame (f : FrameHandle) (m : Machine) :
    Visit (fun m => ∀ t, m.Anchored t) Placed m f ((relinkFrame f).run m) := by
  simp only [relinkFrame, Act.run_get_bind]
  cases hf : m.frames.get? f with
  | none => exact .still (by simp [Placed, hf])
  | some frame =>
    simp only [Act.run_ite]
    split
    · next hstack =>
      simp only [Option.any_eq_true, decide_eq_true_eq] at hstack
      exact .still (by simpa [Placed, hf, Stacks] using hstack)
    · refine ⟨.removeFrame m f, fun h t => (h t).removeFrame f, fun old hold => ?_,
        fun k hk old hold => ?_, List.forall_mem_singleton.2 trivial⟩
      · exact absurd rfl (get?_frames_removeFrame.1 hold).2
      · exact stacks_removeFrame.2 (hk old (get?_frames_removeFrame.1 hold).1)

/-! ## Stacks -/

/-- **The invocation, if it is live, has frames, and all of them are live.** -/
def Stocked (m : Machine) (t : ThreadHandle) : Prop :=
  ∀ thread, m.threads.get? t = some thread → thread.stack ≠ [] ∧
    ∀ f ∈ thread.stack, m.frames.contains f = true

/-- A frame that is on its stack stays there when an invocation is cancelled, or goes with it. -/
theorem Placed.cleanup (h : m.Placed f) (t : ThreadHandle) : (m.cleanup t).Placed f := by
  intro frame hf
  obtain ⟨hf, hnot⟩ := get?_frames_cleanup.1 hf
  exact stacks_cleanup.2 ⟨h frame hf, fun heq => hnot (heq ▸ h frame hf)⟩

section

variable {thread : Thread} (ht : m.threads.get? t = some thread)

include ht

/-- An invocation without live frames is removed; no frame goes with it. -/
theorem frames_cleanup_of_lost (hlost : thread.stack.filter m.frames.contains = [])
    (f : FrameHandle) :
    (m.cleanup t).frames.get? f = m.frames.get? f := by
  refine Option.ext fun frame => ?_
  rw [get?_frames_cleanup]
  refine and_iff_left_of_imp fun hf => ?_
  rintro ⟨thread', ht', hmem⟩
  rw [ht] at ht'
  cases ht'
  have hlive : f ∈ thread.stack.filter m.frames.contains :=
    List.mem_filter.2 ⟨hmem, Table.contains_iff.2 ⟨frame, hf⟩⟩
  rw [hlost] at hlive
  cases hlive

/-- Cancelling an invocation that has lost all its frames takes no frame from another. -/
theorem Stocked.cleanup_of_lost (hlost : thread.stack.filter m.frames.contains = [])
    {k : ThreadHandle} (h : m.Stocked k) : (m.cleanup t).Stocked k := by
  intro thread' hk
  obtain ⟨hne, hlive⟩ := h thread' (get?_threads_cleanup.1 hk).1
  refine ⟨hne, fun f hf => ?_⟩
  rw [Table.contains_eq, frames_cleanup_of_lost ht hlost, ← Table.contains_eq]
  exact hlive f hf

/-- A frame stays on its stack when those that are gone are taken off. -/
theorem Placed.restack (h : m.Placed f) :
    (m.modifyThread t fun old =>
      { old with stack := thread.stack.filter m.frames.contains }).Placed f := by
  intro frame hf
  obtain ⟨owner, howner, hmem⟩ := h frame hf
  rw [Stacks, threads_modifyThread, Table.get?_modify]
  split
  · next heq =>
    rw [heq, ht] at howner
    cases howner
    exact ⟨_, by rw [heq, ht]; rfl, List.mem_filter.2 ⟨hmem, Table.contains_iff.2 ⟨frame, hf⟩⟩⟩
  · exact ⟨owner, howner, hmem⟩

end

theorem Anchored.restack {k : ThreadHandle} (h : m.Anchored k) (t : ThreadHandle)
    (stack : List FrameHandle) :
    (m.modifyThread t fun thread => { thread with stack }).Anchored k := by
  intro thread hk
  rw [threads_modifyThread, Table.get?_modify] at hk
  split at hk
  · obtain ⟨old, hold, rfl⟩ := Option.map_eq_some_iff.1 hk
    exact h old hold
  · exact h thread hk

/-- **Pruning a stack** stocks the invocation, and leaves the others as they are. -/
theorem visit_pruneThread (t : ThreadHandle) (m : Machine) :
    Visit (fun m => (∀ t, m.Anchored t) ∧ ∀ f, m.Placed f) Stocked m t ((pruneThread t).run m) := by
  simp only [pruneThread, Act.run_get_bind]
  cases ht : m.threads.get? t with
  | none => exact .still (by simp [Stocked, ht])
  | some thread =>
    simp only [Act.run_ite, List.isEmpty_iff]
    split
    · next hlost =>
      exact ⟨.cleanup m t, fun h => ⟨fun k => (h.1 k).cleanup t, fun f => (h.2 f).cleanup t⟩,
        fun _ hk => absurd rfl (get?_threads_cleanup.1 hk).2,
        fun _ hk => hk.cleanup_of_lost ht hlost,
        List.forall_mem_singleton.2 trivial⟩
    · next hne =>
      have hstocked : ∀ k, k = t ∨ m.Stocked k → (m.modifyThread t fun old =>
          { old with stack := thread.stack.filter m.frames.contains }).Stocked k := by
        intro k hk other hother
        rw [threads_modifyThread, Table.get?_modify] at hother
        split at hother
        · obtain ⟨old, hold, rfl⟩ := Option.map_eq_some_iff.1 hother
          exact ⟨hne, fun f hf => (List.mem_filter.1 hf).2⟩
        · next hkt => exact (hk.resolve_left hkt) other hother
      exact ⟨.restack m t _, fun h => ⟨fun k => (h.1 k).restack t _, fun f => (h.2 f).restack ht⟩,
        hstocked t (.inl rfl), fun k hk => hstocked k (.inr hk), List.forall_mem_nil _⟩

/-! ## Commands and calls -/

/-- **The links of a loaded machine.** Claims, scans and open calls are forgotten. -/
structure Mended (m : Machine) : Prop where
  target : ∀ t thread, m.threads.get? t = some thread →
    ∃ target, m.targets.get? thread.target = some target ∧ t ∈ target.threads
  stack : ∀ t thread, m.threads.get? t = some thread → thread.stack ≠ [] ∧
    ∀ f ∈ thread.stack, ∃ frame, m.frames.get? f = some frame
  stacked : ∀ f frame, m.frames.get? f = some frame →
    ∃ thread, m.threads.get? frame.thread = some thread ∧ f ∈ thread.stack
  held : ∀ c command, m.commands.get? c = some command →
    ∃ f frame, m.frames.get? f = some frame ∧ c ∈ frame.commands
  pending : ∀ f frame, m.frames.get? f = some frame → frame.pending = none
  claimed : ∀ t thread, m.threads.get? t = some thread → thread.claimed = false
  readiness : ∀ f frame, m.frames.get? f = some frame → frame.readiness = .unknown

/-- What the passes achieve depends on links only. -/
theorem Anchored.congr (h : m.Anchored t) (hlinks : SameLinks m m') : m'.Anchored t := by
  intro thread ht
  have htarget := hlinks.targetAt t
  rw [targetAt, ht] at htarget
  obtain ⟨old, hold, hsame⟩ := Option.map_eq_some_iff.1 htarget.symm
  obtain ⟨target, hget, hmem⟩ := h old hold
  have hlist := hlinks.threadList old.target
  rw [Machine.threadList, Machine.threadList, hget] at hlist
  obtain ⟨target', hget', hthreads⟩ := Option.map_eq_some_iff.1 hlist
  exact ⟨target', hsame ▸ hget', hthreads ▸ hmem⟩

theorem Placed.congr (h : m.Placed f) (hlinks : SameLinks m m') : m'.Placed f := by
  intro frame hf
  have hthread := hlinks.threadAt f
  rw [threadAt, hf] at hthread
  obtain ⟨old, hold, hsame⟩ := Option.map_eq_some_iff.1 hthread.symm
  obtain ⟨thread, ht, hmem⟩ := h old hold
  have hstack := hlinks.stackAt old.thread
  rw [stackAt, stackAt, ht] at hstack
  obtain ⟨thread', ht', hframes⟩ := Option.map_eq_some_iff.1 hstack
  exact ⟨thread', hsame ▸ ht', hframes ▸ hmem⟩

theorem Stocked.congr (h : m.Stocked t) (hlinks : SameLinks m m') : m'.Stocked t := by
  intro thread ht
  have hstack := hlinks.stackAt t
  rw [stackAt, ht] at hstack
  obtain ⟨old, hold, hsame⟩ := Option.map_eq_some_iff.1 hstack.symm
  obtain ⟨hne, hlive⟩ := h old hold
  refine ⟨hsame ▸ hne, fun f hf => ?_⟩
  have hframe := congrArg Option.isSome (hlinks.threadAt f)
  rw [threadAt, threadAt, Option.isSome_map, Option.isSome_map, ← Table.contains_eq,
    ← Table.contains_eq] at hframe
  rw [hframe]
  exact hlive f (hsame ▸ hf)

theorem lists_congr (hlinks : SameLinks m m') {c : CommandHandle} (h : m.Lists f c) :
    m'.Lists f c := by
  obtain ⟨frame, hf, hmem⟩ := h
  have hcommands := hlinks.commandsAt f
  rw [commandsAt, commandsAt, hf] at hcommands
  obtain ⟨frame', hf', hsame⟩ := Option.map_eq_some_iff.1 hcommands
  exact ⟨frame', hf', hsame ▸ hmem⟩

/-- The computation reports nothing about calls that could not be completed. -/
def Harmless {α : Type} (x : Act Machine α) : Prop := ∀ m, ∀ d ∈ (x.run m).log, d.Harmless

section

variable {α β : Type}

/-- What reports nothing but harmless things can be chained. -/
theorem Harmless.bind {x : Act Machine α} {y : α → Act Machine β} (hx : Harmless x)
    (hy : ∀ a, Harmless (y a)) : Harmless (x >>= y) := fun m =>
  List.forall_mem_append.2 ⟨hx m, hy _ _⟩

theorem harmless_pure (a : α) : Harmless (pure a) := fun _ => List.forall_mem_nil _

theorem harmless_get : Harmless get := fun _ => List.forall_mem_nil _

theorem harmless_set (m : Machine) : Harmless (set m : Act Machine Unit) :=
  fun _ => List.forall_mem_nil _

theorem harmless_report {d : Diagnostic} (h : d.Harmless) : Harmless (Act.report d) := fun _ =>
  List.forall_mem_singleton.2 h

end

theorem harmless_targetOf (t : ThreadHandle) : Harmless (targetOf t) := by
  refine harmless_get.bind fun m => ?_
  split
  · exact harmless_pure _
  · split
    · exact harmless_pure _
    · exact (harmless_report (by trivial)).bind fun _ => harmless_pure _

theorem harmless_setVar (v : Vantage) (scope : Scope) (name value : String) :
    Harmless (setVar v scope name value) := by
  refine harmless_get.bind fun m => ?_
  cases scope with
  | frame =>
    dsimp only
    split
    · exact harmless_pure _
    · split
      · exact (harmless_set _).bind fun _ => harmless_pure _
      · exact (harmless_report (by trivial)).bind fun _ => harmless_pure _
  | thread =>
    dsimp only
    split
    · exact (harmless_set _).bind fun _ => harmless_pure _
    · exact (harmless_report (by trivial)).bind fun _ => harmless_pure _
  | target =>
    refine (harmless_targetOf _).bind fun g => ?_
    cases g with
    | none => exact harmless_pure _
    | some g => exact (harmless_set _).bind fun _ => harmless_pure _
  | global => exact (harmless_set _).bind fun _ => harmless_pure _

theorem harmless_assignToken (v : Vantage) (token value : String) :
    Harmless (assignToken v token value) := by
  unfold assignToken
  cases TokenRef.of token with
  | var scope name => exact harmless_setVar v scope name value
  | result => exact (harmless_report (by trivial)).bind fun _ => harmless_pure _
  | literal text => exact (harmless_report (by trivial)).bind fun _ => harmless_pure _
  | unknownScope text => exact (harmless_report (by trivial)).bind fun _ => harmless_pure _

/-- Completing a call reports no object as lost. -/
theorem harmless_completeCall (f : FrameHandle) (result : String) :
    Harmless (completeCall f result) := by
  refine harmless_get.bind fun m => ?_
  split
  · exact harmless_pure _
  · split
    · exact harmless_pure _
    · refine (harmless_set _).bind fun _ => ?_
      split
      · exact harmless_pure _
      · refine Harmless.bind ?_ fun t => ?_
        · refine harmless_get.bind fun m => ?_
          split
          · exact harmless_pure _
          · split
            · exact harmless_pure _
            · exact (harmless_report (by trivial)).bind fun _ => harmless_pure _
        · cases t with
          | error failure => exact harmless_pure _
          | ok t => exact (harmless_assignToken _ _ _).bind fun _ => harmless_pure _

/-- **No call fails to end** if the invocation of every frame is there. -/
theorem Housed.harmless_endCalls (h : m.Housed) :
    ∀ d ∈ ((Act.forEach endCall m.frames.handles).run m).log, d.Harmless := by
  refine (Act.forEach_spec (p := Ended m) m.frames.nodup_handles (Ended.init m) ?_).2
  intro done f m' hf _ hdone
  refine ⟨hdone.step h hf, ?_⟩
  rcases endCall_cases (hdone.housed h) f with ⟨-, hrun⟩ | ⟨frame, call, -, -, hrun⟩
  · rw [hrun]
    exact List.forall_mem_nil _
  · rw [hrun]
    exact harmless_completeCall f "" m'

/-! ## The whole repair -/

/-- Every frame at the end was there before its call ended, and differs in that only. -/
theorem Ended.get?_frames (h : Ended m m.frames.handles m') {frame : Frame}
    (hf : m'.frames.get? f = some frame) :
    ∃ old, m.frames.get? f = some old ∧ frame.bare = old.ended.bare := by
  have hbare := h.frames f
  rw [hf] at hbare
  obtain ⟨old, hold, hsame⟩ := Option.map_eq_some_iff.1 hbare.symm
  rw [if_pos (Table.mem_handles_iff.2 (by rw [hold]; rfl))] at hsame
  exact ⟨old, hold, hsame.symm⟩

/-- After the passes over links, removing stray commands and ending the open calls completes the
repair. -/
theorem Ended.mended (h : Ended m.pruneCommands m.frames.handles m') (hanchored : ∀ t, m.Anchored t)
    (hplaced : ∀ f, m.Placed f) (hstocked : ∀ t, m.Stocked t)
    (hclaimed : ∀ t thread, m.threads.get? t = some thread → thread.claimed = false)
    (hready : ∀ f frame, m.frames.get? f = some frame → frame.readiness = .unknown) :
    m'.Mended where
  target t := Anchored.congr (m := m.pruneCommands) (hanchored t) h.edits.sameLinks
  stack t thread ht := by
    obtain ⟨hne, hlive⟩ :=
      Stocked.congr (m := m.pruneCommands) (hstocked t) h.edits.sameLinks thread ht
    exact ⟨hne, fun f hf => Table.contains_iff.1 (hlive f hf)⟩
  stacked f := Placed.congr (m := m.pruneCommands) (hplaced f) h.edits.sameLinks
  held c command hc := by
    rw [h.edits.commands] at hc
    obtain ⟨-, f, hlisted⟩ := get?_commands_pruneCommands.1 hc
    obtain ⟨frame, hf, hmem⟩ := lists_congr (m := m.pruneCommands) h.edits.sameLinks hlisted
    exact ⟨f, frame, hf, hmem⟩
  pending f frame hf := by
    obtain ⟨old, -, hsame⟩ := h.get?_frames hf
    have hpending : frame.bare.pending = old.ended.bare.pending := by rw [hsame]
    exact hpending
  claimed t thread ht := by
    have hbare := h.threads t
    rw [ht] at hbare
    obtain ⟨old, hold, hsame⟩ := Option.map_eq_some_iff.1 hbare.symm
    have hcopy : thread.bare.claimed = old.bare.claimed := by rw [hsame]
    exact hcopy.trans (hclaimed t old hold)
  readiness f frame hf := by
    obtain ⟨old, hold, hsame⟩ := h.get?_frames hf
    have hcopy : frame.bare.readiness = old.ended.bare.readiness := by rw [hsame]
    exact hcopy.trans (hready f old hold)

/-- **The repair mends a machine** whose claims and scans are forgotten, and ends every open
call. -/
theorem mended_repair
    (hclaimed : ∀ t thread, m.threads.get? t = some thread → thread.claimed = false)
    (hready : ∀ f frame, m.frames.get? f = some frame → frame.readiness = .unknown) (s : Setting) :
    ((repair s).run m).state.Mended ∧ ∀ d ∈ ((repair s).run m).log, d.Harmless := by
  obtain ⟨m₁, l₁, m₂, l₂, m₃, l₃, m₄, l₄, m₅, l₅, m₆, l₆, hm₁, hm₂, hm₃, hm₄, hm₅, hm₆, hrun⟩ :=
    repair_passes s m
  obtain ⟨hfewer₁, -, -, hlog₁⟩ := Visit.all (visit_remapTarget s) m.targets.nodup_handles hm₁
  obtain ⟨hfewer₂, -, hvisited₂, hlog₂⟩ := Visit.all visit_relinkThread m₁.threads.nodup_handles hm₂
  obtain ⟨hfewer₃, hkeep₃, -, hlog₃⟩ := Visit.all visit_pruneTarget m₂.targets.nodup_handles hm₃
  obtain ⟨hfewer₄, hkeep₄, hvisited₄, hlog₄⟩ :=
    Visit.all visit_relinkFrame m₃.frames.nodup_handles hm₄
  obtain ⟨hfewer₅, hkeep₅, hvisited₅, hlog₅⟩ :=
    Visit.all visit_pruneThread m₄.threads.nodup_handles hm₅
  -- what is live after a pass was visited by it
  have hanchored : ∀ t, m₂.Anchored t := fun t thread ht =>
    hvisited₂ t (hfewer₂.mem_threads ht) thread ht
  have hplaced : ∀ f, m₄.Placed f := fun f frame hf => hvisited₄ f (hfewer₄.mem_frames hf) frame hf
  obtain ⟨hanchored, hplaced⟩ := hkeep₅ ⟨hkeep₄ (hkeep₃ hanchored), hplaced⟩
  have hstocked : ∀ t, m₅.Stocked t := fun t thread ht =>
    hvisited₅ t (hfewer₅.mem_threads ht) thread ht
  have hhoused : m₅.pruneCommands.Housed := fun f frame hf => by
    obtain ⟨thread, hthread, -⟩ := hplaced f frame hf
    exact ⟨thread, hthread⟩
  have hended := hhoused.ended
  have hlog₆ := hhoused.harmless_endCalls
  rw [hm₆] at hended hlog₆
  rw [hrun]
  refine ⟨?_, by simpa only [List.forall_mem_append] using
    ⟨hlog₁, hlog₂, hlog₃, hlog₄, hlog₅, hlog₆⟩⟩
  have hfewer := (((hfewer₁.trans hfewer₂).trans hfewer₃).trans hfewer₄).trans hfewer₅
  exact hended.mended hanchored hplaced hstocked
    (fun t thread ht => by
      obtain ⟨old, hold, hsame⟩ := hfewer.thread t thread ht
      exact hsame.trans (hclaimed t old hold))
    fun f frame hf => by
      obtain ⟨old, hold, hsame⟩ := hfewer.frame f frame hf
      exact hsame.trans (hready f old hold)

/-! ## Reading -/

/-- Claims are not part of a save. -/
theorem claimed_of_decode {payload rest : Bytes} {thread : Thread}
    (h : Binary.decode payload = some (thread, rest)) : thread.claimed = false := by
  iterate 5 obtain ⟨_, -, h⟩ := Option.bind_eq_some_iff.1 h
  cases h
  rfl

/-- Nor is what is known about the command at a cursor. -/
theorem readiness_of_decode {payload rest : Bytes} {frame : Frame}
    (h : Binary.decode payload = some (frame, rest)) : frame.readiness = .unknown := by
  iterate 12 obtain ⟨_, -, h⟩ := Option.bind_eq_some_iff.1 h
  cases h
  rfl

/-- **A machine that was just read** is unclaimed and unscanned. -/
theorem read_forgets {bs : Bytes} (h : read bs = .ok m) :
    (∀ t thread, m.threads.get? t = some thread → thread.claimed = false) ∧
      ∀ f frame, m.frames.get? f = some frame → frame.readiness = .unknown := by
  obtain ⟨_, _, _, _, _, _, -, -, hthreads, hframes, -, -⟩ := read_eq_ok.1 h
  exact ⟨Table.forall_of_load (fun _ _ _ _ => claimed_of_decode) hthreads,
    Table.forall_of_load (fun _ _ _ _ => readiness_of_decode) hframes⟩

/-- **Every save that can be read is mended.** No call fails to end. -/
theorem mended_of_load (s : Setting) (bs : Bytes) (m : Machine)
    (hload : ((load s bs).run m).value = .ok ()) :
    ((load s bs).run m).state.Mended ∧
      ∀ f failure, Diagnostic.unfinishedCall f failure ∉ ((load s bs).run m).log := by
  cases hread : read bs with
  | error refusal =>
    rw [value_load_error hread] at hload
    cases hload
  | ok fresh =>
    obtain ⟨hclaimed, hready⟩ := read_forgets hread
    obtain ⟨hmended, hlog⟩ := mended_repair hclaimed hready s
    rw [run_load_ok hread]
    dsimp only
    exact ⟨hmended, fun f failure hmem => hlog _ hmem⟩

/-- A machine with broken links: the target lists an invocation that is gone and not the one there
is, a frame is gone from the stack, another belongs to no invocation, one command to no frame, and a
call is open. -/
def damaged : Machine where
  targets := Table.ofObjects ((∅ : Assoc _ _ _).insert ⟨1⟩ { entity := some ⟨7⟩, threads := [⟨9⟩] })
  threads := Table.ofObjects ((∅ : Assoc _ _ _).insert ⟨1⟩
    { target := ⟨1⟩, script := "greet", stack := [⟨5⟩, ⟨1⟩] })
  frames := Table.ofObjects (((∅ : Assoc _ _ _).insert ⟨1⟩
    { thread := ⟨1⟩, script := "greet", dialect := .line, commands := [⟨1⟩], gotos := ∅,
      gosubs := ∅, pending := some ⟨"ask", ⟨"greet", 1⟩, some "$thread#name"⟩ }).insert ⟨2⟩
    { thread := ⟨4⟩, script := "greet", dialect := .line, commands := [], gotos := ∅, gosubs := ∅ })
  commands :=
    Table.ofObjects (((∅ : Assoc _ _ _).insert ⟨1⟩ ⟨1, ["say", "hello"]⟩).insert ⟨3⟩ ⟨1, ["end"]⟩)

/-- What a load makes of it: the target lists the invocation, the missing frame is off the stack,
the call has ended with an empty result, and the frame and the command that belong to nothing are
gone. -/
def repaired : Machine where
  targets := Table.ofObjects
    ((∅ : Assoc _ _ _).insert ⟨1⟩ { entity := some ⟨7⟩, threads := [⟨1⟩] })
  threads := Table.ofObjects ((∅ : Assoc _ _ _).insert ⟨1⟩
    { target := ⟨1⟩, script := "greet", vars := (∅ : Vars).insert "name" "", stack := [⟨1⟩] })
  frames := ⟨⟨3⟩, (∅ : Assoc _ _ _).insert ⟨1⟩
    { thread := ⟨1⟩, script := "greet", dialect := .line, commands := [⟨1⟩], gotos := ∅,
      gosubs := ∅ }⟩
  commands := ⟨⟨4⟩, (∅ : Assoc _ _ _).insert ⟨1⟩ ⟨1, ["say", "hello"]⟩⟩

/-- The save of the machine with broken links is accepted, and comes back mended, with the objects
that are worth keeping. -/
theorem damaged_mended :
    ∃ bs, damaged.save = .ok bs ∧ ((load {} bs).run ∅).value = .ok () ∧
      ((load {} bs).run ∅).state.Mended ∧
      (∀ f failure, Diagnostic.unfinishedCall f failure ∉ ((load {} bs).run ∅).log) ∧
      ((load {} bs).run ∅).state = repaired ∧
      repaired.targets.contains ⟨1⟩ = true ∧ repaired.threads.contains ⟨1⟩ = true ∧
      repaired.frames.contains ⟨1⟩ = true ∧ repaired.commands.contains ⟨1⟩ = true := by
  obtain ⟨bs, hsave, hload, hstate⟩ : ∃ bs, damaged.save = .ok bs ∧
      ((load {} bs).run ∅).value = .ok () ∧ ((load {} bs).run ∅).state = repaired := by
    refine ⟨damaged.save.toOption.getD [], ?_⟩
    decide +kernel
  obtain ⟨hmended, hlog⟩ := mended_of_load {} bs ∅ hload
  exact ⟨bs, hsave, hload, hmended, hlog, hstate, by decide +kernel⟩

end Machine

end StepScript
