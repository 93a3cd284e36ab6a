import StepScript.Proofs.Host.Overtaken
import StepScript.Proofs.Host.Signal

/-!
# Proofs/Host/Awaited — frames that wait for the completion of a call

As long as hosts leave the machine alone while they are asked, only innermost frames wait. A host
that steps an invocation while it looks for a script of that very invocation can make a frame wait
and then have the script put on top of it. When the script ends, the frames below go with it that
have nothing left to run; whether they wait is not asked. Nothing else takes a waiting frame away
but the cancellation of its invocation.

* `Machine.Sweeps` — the step of a frame takes another off the stack with it.
* `Host.Run` — what hosts do, with the moments at which operations begin and go on, at any depth.
* `Machine.Reentered.lost_iff_taken` — between any two moments, a frame that waits is lost exactly
  if its invocation is cancelled or a step sweeps it away.
-/

/-- Tests that agree on the members of a list take the same front of it. -/
theorem List.takeWhile_congr {α : Type} {p q : α → Bool} {as : List α} (h : ∀ a ∈ as, p a = q a) :
    as.takeWhile p = as.takeWhile q := by
  induction as with
  | nil => rfl
  | cons a as ih =>
    obtain ⟨ha, has⟩ := List.forall_mem_cons.1 h
    rw [List.takeWhile_cons, List.takeWhile_cons, ha, ih has]

namespace StepScript

namespace Machine

variable {m m' : Machine} {t : ThreadHandle} {f k : FrameHandle} {below : List FrameHandle}

/-! ## Frames with nothing left to run -/

/-- Whether a frame waits for the host, if it is there. -/
def waitAt (m : Machine) (f : FrameHandle) : Option Bool :=
  (m.frames.get? f).map fun frame => frame.pending.isSome

/-- Whether a frame is there and no command from its cursor on can run. -/
def isSpent (m : Machine) (f : FrameHandle) : Bool :=
  (m.frames.get? f).any fun frame =>
    (frame.commands.drop frame.cursor).all fun c => !(m.commands.get? c).any Command.isRunnable

/-- **The step of one frame takes another with it**: the first is innermost and does not wait, and
the frames from it to the other have nothing left to run. -/
def Sweeps (m : Machine) (k f : FrameHandle) : Prop :=
  ∃ t below, m.stackAt t = some (k :: below) ∧ m.pendingAt k = none ∧
    f ∈ (k :: below).takeWhile m.isSpent

theorem waitAt_congr
    (h : (m'.frames.get? f).map Frame.pending = (m.frames.get? f).map Frame.pending) :
    m'.waitAt f = m.waitAt f := by
  have hsome := congrArg (Option.map Option.isSome) h
  rwa [Option.map_map, Option.map_map] at hsome

theorem waitAt_eq_none : m.waitAt f = none ↔ m.frames.get? f = none := Option.map_eq_none_iff

/-- A frame waits if there is a call that it waits for. -/
theorem waitAt_eq_true : m.waitAt f = some true ↔ (m.pendingAt f).isSome = true := by
  rw [waitAt, pendingAt]
  cases m.frames.get? f <;> simp

/-- Readying a frame makes no frame wait and ends no wait; nor do the changes below. -/
theorem waitAt_readied (m : Machine) (k f : FrameHandle) : (m.readied k).waitAt f = m.waitAt f :=
  waitAt_congr (Table.map_get?_modify m.frames f fun _ _ => rfl)

theorem waitAt_moveCursor (m : Machine) (k : FrameHandle) (index : Nat) (f : FrameHandle) :
    (m.moveCursor k index).waitAt f = m.waitAt f :=
  waitAt_congr (Table.map_get?_modify m.frames f fun _ _ => rfl)

theorem waitAt_delivered (m : Machine) (v : Vantage) (assignTo : Option String) (value : String)
    (f : FrameHandle) :
    (m.delivered v assignTo value).waitAt f = m.waitAt f := by
  have hbare := congrArg (Option.map Frame.pending) (bare_frames_delivered m v assignTo value f)
  rw [Option.map_map, Option.map_map] at hbare
  exact waitAt_congr hbare

/-- A frame that leaves its stack is gone, and all others wait as before. -/
theorem waitAt_leave (m : Machine) (t : ThreadHandle) (k f : FrameHandle) :
    ((m.unstack t k).removeFrame k).waitAt f = if f = k then none else m.waitAt f := by
  rw [waitAt, frames_removeFrame, frames_unstack, Table.get?_erase]
  split <;> rfl

/-- A scan comes to the end exactly if nothing can run. -/
theorem readiness_scanFrom (m : Machine) (index : Nat) (cs : List CommandHandle) :
    (m.scanFrom index cs).readiness = .exhausted ↔
      (cs.all fun c => !(m.commands.get? c).any Command.isRunnable) = true := by
  induction cs generalizing index with
  | nil => simp [scanFrom]
  | cons c cs ih =>
    cases hc : m.commands.get? c with
    | none => simp [scanFrom, hc, ih]
    | some command => by_cases hrun : command.isRunnable = true <;> simp [scanFrom, hc, hrun, ih]

/-- A frame is spent if a scan of it finds nothing to run. -/
theorem isSpent_iff {frame : Frame} (hf : m.frames.get? f = some frame) :
    m.isSpent f = true ↔ (m.scanOf frame).readiness = .exhausted := by
  rw [isSpent, hf, Option.any_some, scanOf, readiness_scanFrom]

/-- A frame has as much to run as before if it and its commands are the same. -/
theorem isSpent_congr (hframe : m'.frames.get? f = m.frames.get? f)
    (hcommand : ∀ c, m.Lists f c → m'.commands.get? c = m.commands.get? c) :
    m'.isSpent f = m.isSpent f := by
  rw [isSpent, isSpent, hframe]
  cases hf : m.frames.get? f with
  | none => rfl
  | some frame =>
    refine Bool.eq_iff_iff.2 ?_
    simp only [Option.any_some, List.all_eq_true]
    refine forall₂_congr fun c hc => ?_
    rw [hcommand c ⟨frame, hf, List.mem_of_mem_drop hc⟩]

/-- Loading a line changes no frame's wait. -/
theorem waitAt_loadLine (t : ThreadHandle) (k : FrameHandle) (m : Machine) (f : FrameHandle) :
    ((loadLine t k).run m).state.waitAt f = m.waitAt f := by
  simp only [loadLine, Act.run_get_bind]
  split
  · rfl
  · split
    · exact waitAt_moveCursor ..
    · rfl

namespace InOrder

/-- The frames below have as much to run when the innermost one is gone and the next one is
readied. -/
theorem isSpent_drop (h : m.InOrder t (f :: k :: below)) {e : FrameHandle} (he : e ∈ below) :
    (((m.unstack t f).removeFrame f).readied k).isSpent e = m.isSpent e := by
  obtain ⟨hf, hnodup⟩ := List.nodup_cons.1 h.nodup
  have hef : e ≠ f := fun heq => hf (heq ▸ List.mem_cons_of_mem k he)
  have hek : e ≠ k := fun heq => (List.nodup_cons.1 hnodup).1 (heq ▸ he)
  refine isSpent_congr ?_ fun c hc => ?_
  · rw [get?_frames_readied_of_ne _ hek, frames_removeFrame, frames_unstack,
      Table.get?_erase, if_neg hef]
  · refine get?_commands_leave fun hlists => hef.symm ?_
    exact h.apart f List.mem_cons_self e
      (List.mem_cons_of_mem f (List.mem_cons_of_mem k he)) c hlists hc

/-- **What settling takes away**: the innermost frame, and those below it as long as they have
nothing left to run. -/
theorem waitAt_settle {fuel : Nat} (h : m.InOrder t (f :: below)) (hfuel : below.length ≤ fuel)
    (e : FrameHandle) :
    ((settle fuel t).run ((m.unstack t f).removeFrame f)).state.waitAt e =
      if e ∈ f :: below.takeWhile m.isSpent then none else m.waitAt e := by
  induction below generalizing m f fuel with
  | nil =>
    have hempty : ((m.unstack t f).removeFrame f).frameOf t = none := by
      rw [frameOf_eq_head?, h.leave.stack]
      rfl
    obtain ⟨thread, hthread, hstack⟩ := Option.map_eq_some_iff.1 h.stack
    have hgone : (m.cleanup t).frames = m.frames.erase f := by
      rw [cleanup_of_get?_eq_some hthread, hstack, List.foldl_cons, List.foldl_nil,
        frames_removeFrame, frames_modifyTarget]
    rw [settle_of_frameOf_eq_none hempty, cleanup_leave h.stack, waitAt, hgone, Table.get?_erase,
      List.takeWhile_nil]
    simp only [List.mem_singleton]
    split <;> rfl
  | cons k below ih =>
    obtain ⟨fuel, rfl⟩ : ∃ n, fuel = n + 1 := ⟨fuel - 1, by rw [List.length_cons] at hfuel; omega⟩
    have hne : k ≠ f := fun heq => (List.nodup_cons.1 h.nodup).1 (heq ▸ List.mem_cons_self)
    have hleave := h.leave
    obtain ⟨frame, hframe, -, hsound⟩ := hleave.frame k List.mem_cons_self
    have hspent : m.isSpent k = true ↔
        (((m.unstack t f).removeFrame f).scanOf frame).readiness = .exhausted := by
      rw [← isSpent_iff hframe]
      refine Bool.eq_iff_iff.1
        (isSpent_congr ?_ fun c hc => get?_commands_leave fun hlists => ?_).symm
      · rw [frames_removeFrame, frames_unstack, Table.get?_erase, if_neg hne]
      · exact hne.symm (h.apart f List.mem_cons_self k
          (List.mem_cons_of_mem f List.mem_cons_self) c hlists hc)
    rw [hsound.run_settle hleave.frameOf hframe, List.takeWhile_cons]
    by_cases hk : m.isSpent k = true
    · rw [if_pos (hspent.1 hk), if_pos hk, ih hleave.readied (Nat.le_of_succ_le_succ hfuel),
        waitAt_readied, waitAt_leave, List.takeWhile_congr fun e he => h.isSpent_drop he]
      by_cases he : e = f
      · simp [he]
      · simp [he]
    · rw [if_neg (mt hspent.2 hk), if_neg hk, waitAt_readied, waitAt_leave]
      simp only [List.mem_singleton]

/-- **What readying the innermost frame takes away**: the frames that have nothing left to run, from
it on. -/
theorem waitAt_prepare {frame : Frame} (h : m.InOrder t (f :: below))
    (hf : m.frames.get? f = some frame) (hpending : frame.pending = none) (e : FrameHandle) :
    ((prepare f).run m).state.waitAt e =
      if e ∈ (f :: below).takeWhile m.isSpent then none else m.waitAt e := by
  rw [h.run_prepare_eq hf hpending, List.takeWhile_cons]
  by_cases hspent : m.isSpent f = true
  · have horder := h.readied
    have hbelow : ∀ e ∈ below, (m.readied f).isSpent e = m.isSpent e := fun e he => by
      have hne : e ≠ f := fun heq => (List.nodup_cons.1 h.nodup).1 (heq ▸ he)
      exact isSpent_congr (get?_frames_readied_of_ne m hne) fun _ _ => rfl
    rw [if_pos ((isSpent_iff hf).1 hspent), if_pos hspent, Act.run_bind,
      run_popFrame_of_stack horder.stack]
    refine (horder.waitAt_settle (Nat.le_succ _) e).trans ?_
    rw [List.takeWhile_congr hbelow, waitAt_readied]
  · rw [if_neg (mt (isSpent_iff hf).2 hspent), if_neg hspent, if_neg List.not_mem_nil,
      waitAt_loadLine, waitAt_readied]

end InOrder

/-- **The result of a call that is completed** is kept in the frame. -/
theorem result_completeCall {frame : Frame} {thread : Thread} {call : PendingCall}
    (hf : m.frames.get? f = some frame) (hthread : m.threads.get? frame.thread = some thread)
    (hpending : frame.pending = some call) (result : String) :
    ((completeCall f result).run m).value = .ok () ∧
      (((completeCall f result).run m).state.frames.get? f).map Frame.result = some result := by
  obtain ⟨hvalue, hstate⟩ := run_completeCall hf hthread hpending result
  have hanswered : ((m.answered f result).frames.get? f).map Frame.result = some result := by
    rw [answered, frames_modifyFrame, Table.get?_modify, if_pos rfl, hf]
    rfl
  have hbare := congrArg (Option.map Frame.result) (bare_frames_delivered (m.answered f result)
    ⟨frame.thread, some f, .source call.source⟩ call.assignTo result f)
  rw [Option.map_map, Option.map_map] at hbare
  rw [hstate]
  exact ⟨hvalue, hbare.trans hanswered⟩

/-! ## What a step takes away -/

variable {m'' : Machine} {starts : List Start}

/-- A stack with frames is in order. -/
theorem Opening.inOrder_of_stack (h : m.Opening starts) (hstack : m.stackAt t = some (f :: below)) :
    m.InOrder t (f :: below) := by
  obtain ⟨thread, hthread, heq⟩ := Option.map_eq_some_iff.1 hstack
  have ht : t ∉ starts.map Start.thread := by
    intro hmem
    obtain ⟨s, hs, rfl⟩ := List.mem_map.1 hmem
    rw [(h.bare s hs thread hthread).2.1] at heq
    cases heq
  exact heq ▸ h.inOrder ht hthread

/-- A frame is on the stack of its invocation, and on no other. -/
theorem Opening.stacks_iff (h : m.Opening starts) : m.Stacks t f ↔ m.threadAt f = some t := by
  have hsame : t ∉ starts.map Start.thread →
      ((m.without (starts.map Start.thread)).Stacks t f ↔ m.Stacks t f) := by
    intro ht
    rw [Stacks, get?_threads_without_of_notMem ht, Stacks]
  have howner : (m.without (starts.map Start.thread)).Stacks t f ↔ m.threadAt f = some t :=
    h.sound.owned.stacks_iff
  refine ⟨fun hstacks => ?_, fun hthread => ?_⟩
  · obtain ⟨thread, hthread, hmem⟩ := hstacks
    have ht : t ∉ starts.map Start.thread := by
      intro ht
      obtain ⟨s, hs, rfl⟩ := List.mem_map.1 ht
      rw [(h.bare s hs thread hthread).2.1] at hmem
      cases hmem
    exact howner.1 ((hsame ht).2 ⟨thread, hthread, hmem⟩)
  · obtain ⟨frame, hf, rfl⟩ := Option.map_eq_some_iff.1 hthread
    exact (hsame (h.thread_of_frame hf).1).1 (howner.2 hthread)

/-- In a stack that is in order, the step of the innermost frame takes with it those that are spent,
from itself down to the first that is not. -/
theorem InOrder.sweeps_iff {frame : Frame} (h : m.InOrder t (k :: below))
    (hk : m.frames.get? k = some frame) (hpending : frame.pending = none)
    (hstacks : ∀ t below, m.stackAt t = some (k :: below) → m.InOrder t (k :: below)) :
    m.Sweeps k f ↔ f ∈ (k :: below).takeWhile m.isSpent := by
  refine ⟨fun hsweeps => ?_,
    fun hmem => ⟨t, below, h.stack, by rw [pendingAt, hk]; exact hpending, hmem⟩⟩
  obtain ⟨t', below', hstack, -, hmem⟩ := hsweeps
  -- a frame is on one stack only
  obtain ⟨own, hown, rfl, -⟩ := (hstacks t' below' hstack).frame k List.mem_cons_self
  obtain ⟨own', hown', rfl, -⟩ := h.frame k List.mem_cons_self
  rw [hown] at hown'
  cases hown'
  rw [h.stack] at hstack
  cases hstack
  exact hmem

/-- **What readying a frame takes away.** -/
theorem Opening.waitAt_prepare (h : m.Opening starts) (k f : FrameHandle) :
    (m.Sweeps k f → ((prepare k).run m).state.waitAt f = none) ∧
      (¬ m.Sweeps k f → ((prepare k).run m).state.waitAt f = m.waitAt f) := by
  rcases h.idle_or_innermost k with hidle | ⟨t, below, frame, -, horder, hk, hpending⟩
  · rw [hidle]
    refine ⟨fun hsweeps => ?_, fun _ => rfl⟩
    -- the frame would have left its stack
    obtain ⟨t, below, hstack, hwait, hmem⟩ := hsweeps
    have horder := h.inOrder_of_stack hstack
    obtain ⟨frame, hk, -⟩ := horder.frame k List.mem_cons_self
    rw [pendingAt, hk, Option.bind_some] at hwait
    have hleft := horder.waitAt_prepare hk hwait f
    rwa [hidle, if_pos hmem] at hleft
  · rw [horder.waitAt_prepare hk hpending,
      horder.sweeps_iff hk hpending fun _ _ => h.inOrder_of_stack]
    exact ⟨fun hmem => if_pos hmem, fun hmem => if_neg hmem⟩

/-- **Cancelling an invocation** takes its frames away. -/
theorem Opening.waitAt_cleanup (h : m.Opening starts) (t : ThreadHandle) (f : FrameHandle) :
    (m.threadAt f = some t → (m.cleanup t).waitAt f = none) ∧
      (m.threadAt f ≠ some t → (m.cleanup t).waitAt f = m.waitAt f) := by
  refine ⟨fun hown => ?_, fun hother => ?_⟩
  · refine waitAt_eq_none.2 (Option.eq_none_iff_forall_ne_some.2 fun frame hframe => ?_)
    exact (get?_frames_cleanup.1 hframe).2 (h.stacks_iff.2 hown)
  · have hsame : (m.cleanup t).frames.get? f = m.frames.get? f := by
      refine Option.ext fun frame => ?_
      rw [get?_frames_cleanup]
      exact and_iff_left (mt h.stacks_iff.1 hother)
    rw [waitAt, hsame, waitAt]

/-- **Completing a call** ends the waiting of its frame only. -/
theorem waitAt_completeCall (hne : f ≠ k) (result : String) (m : Machine) :
    ((completeCall k result).run m).state.waitAt f = m.waitAt f := by
  rcases completeCall_cases k result m with hsame | ⟨v, assignTo, hstate⟩
  · rw [hsame]
  · rw [hstate, waitAt_delivered, waitAt, answered, frames_modifyFrame, Table.get?_modify,
      if_neg hne, waitAt]

/-! ## Frames that go on waiting -/

/-- **Frames that wait go on waiting**, and what is gone does not come back. -/
structure Heeds (m m' : Machine) : Prop where
  next : m.frames.next.raw ≤ m'.frames.next.raw
  gone : ∀ f, f.raw < m.frames.next.raw → m.waitAt f = none → m'.waitAt f = none
  waits : ∀ f, m.waitAt f = some true → m'.waitAt f = some true

/-- A frame that is gone stays gone, since its handle is not given out again. -/
theorem Later.gone (h : Later m m') (hf : f.raw < m.frames.next.raw) (hgone : m.waitAt f = none) :
    m'.waitAt f = none := by
  refine waitAt_eq_none.2 (Option.eq_none_iff_forall_ne_some.2 fun frame hframe => ?_)
  have hold := h.frames.old f frame hf hframe
  rw [waitAt_eq_none.1 hgone] at hold
  cases hold

namespace Heeds

/-- Machines heed what waits if they go on from one another and end no wait. -/
theorem of_later (h : Later m m') (hwaits : ∀ f, m.waitAt f = some true → m'.waitAt f = some true) :
    Heeds m m' :=
  ⟨h.frames.le, fun _ => h.gone, hwaits⟩

theorem of_frames (h : Heeds m m') (heq : m''.frames = m'.frames) : Heeds m m'' := by
  have hwait : ∀ f, m''.waitAt f = m'.waitAt f := fun f => by rw [waitAt, heq, waitAt]
  exact ⟨heq ▸ h.next, fun f hf hgone => (hwait f).trans (h.gone f hf hgone),
    fun f hf => (hwait f).trans (h.waits f hf)⟩

theorem refl (m : Machine) : Heeds m m := of_later (.refl m) fun _ => id

/-- **The answer to a call** leaves every frame waiting that waits, also the one that asked. -/
theorem takeAnswer (l : Line) (call : Call) (assignTo : Option String)
    (answer : Except Failure Completion) (m : Machine) :
    Heeds m ((Machine.takeAnswer l call assignTo answer).run m).state := by
  rcases answer with failure | value | _
  · exact of_later (.edits (edits_follow l .next m)) fun f =>
      (waitAt_moveCursor m l.frame _ f).trans
  · rw [(run_takeAnswer_ready l call assignTo value m).2]
    have hedits :
        Edits m (((m.resulted l.frame value).delivered l.vantage assignTo value).moveCursor l.frame
          (l.index + 1)) :=
      (edits_modifyFrame fun _ _ => .result value).trans
        ((edits_delivered _ _ _ _).trans (edits_modifyFrame fun _ _ => .move _))
    refine of_later (.edits hedits) fun f hf => ?_
    rw [waitAt_moveCursor, waitAt_delivered]
    have hresult : (m.resulted l.frame value).waitAt f = m.waitAt f :=
      waitAt_congr (Table.map_get?_modify m.frames f fun _ _ => rfl)
    exact hresult.trans hf
  · rw [run_takeAnswer_pending]
    have hwait : ∀ f, (m.parked l ⟨call.name, l.source, assignTo⟩).waitAt f =
        if f = l.frame then (m.waitAt f).map fun _ => true else m.waitAt f := by
      intro f
      rw [waitAt, parked, frames_modifyFrame, Table.get?_modify, waitAt, Option.map_map]
      split
      · rw [Option.map_map]
        rfl
      · rfl
    refine ⟨UInt32.le_refl _, fun f _ hgone => ?_, fun f hf => ?_⟩
    · rw [hwait, hgone, Option.map_none, ite_self]
    · rw [hwait, hf, Option.map_some, ite_self]

/-- A script that is pushed covers frames that wait, and leaves them waiting. -/
theorem pushed {script : Script} {args : List String} (h : m.Ahead)
    (h' : (m.pushed t script args).Ahead) :
    Heeds m (m.pushed t script args) := by
  refine of_later (.pushed h h') fun f hf => ?_
  have hne : f ≠ m.frames.fresh := by
    rintro rfl
    rw [h.frames.fresh_eq, waitAt, h.frames.get?_next] at hf
    cases hf
  rw [waitAt, get?_frames_pushed, if_neg hne]
  exact hf

/-- So does one that is pushed and dropped again because its invocation is gone. -/
theorem abandoned {script : Script} {args : List String} (hproper : m.frames.Proper) (h : m.Ahead)
    (h' : (m.pushed t script args).Ahead) : Heeds m (m.abandoned t script args) := by
  refine of_later (.abandoned h h') fun f hf => ?_
  rw [waitAt, get?_frames_abandoned hproper h'.roomy]
  exact hf

end Heeds

end Machine

/-! ## Moments -/

/-- **A moment of a run**: a machine, and the operation that begins. None begins where a host begins
to answer, or where an operation goes on that has its answer. -/
structure Moment where
  machine : Machine
  next : Option Operation := none

namespace Moment

/-- **The frame is taken away**: its invocation is cancelled, or a step takes it off its stack. -/
def Takes (e : Moment) (f : FrameHandle) : Prop :=
  match e.next with
  | some (.cleanup t) => e.machine.threadAt f = some t
  | some (.step k) => e.machine.Sweeps k f
  | some (.stepInvocation t) => ∃ k, e.machine.frameOf t = some k ∧ e.machine.Sweeps k f
  | _ => False

/-- A script that still has a command to run takes nothing away. -/
theorem not_takes_of_busy {m : Machine} {t : ThreadHandle} {k : FrameHandle}
    (hk : m.frameOf t = some k) (hbusy : m.isSpent k = false) (f : FrameHandle) :
    ¬ Takes ⟨m, some (.stepInvocation t)⟩ f := by
  rintro ⟨k', hk', t', below, -, -, hmem⟩
  obtain rfl : k = k' := Option.some.inj (hk.symm.trans hk')
  rw [List.takeWhile_cons, hbusy] at hmem
  cases hmem

/-- The call that the frame waits for is completed. -/
def Completes (e : Moment) (f : FrameHandle) : Prop := ∃ result, e.next = some (.complete f result)

/-- **What comes of frames that wait**, from a moment to the next. -/
structure Leads (e : Moment) (m : Machine) : Prop where
  ahead : e.machine.Ahead
  opening : ∃ starts, e.machine.Opening starts
  next : e.machine.frames.next.raw ≤ m.frames.next.raw
  gone : ∀ f, f.raw < e.machine.frames.next.raw → e.machine.waitAt f = none → m.waitAt f = none
  taken : ∀ f, e.Takes f → m.waitAt f = none
  kept : ∀ f, e.machine.waitAt f = some true → ¬ e.Takes f → ¬ e.Completes f →
    m.waitAt f = some true

/-- What heeds all waits leads from a moment that takes no frame. -/
theorem Leads.of_heeds {e : Moment} {m : Machine} {starts : List Machine.Start}
    (hopening : e.machine.Opening starts) (hahead : e.machine.Ahead) (htakes : ∀ f, ¬ e.Takes f)
    (h : e.machine.Heeds m) : e.Leads m :=
  ⟨hahead, ⟨starts, hopening⟩, h.next, h.gone, fun f hf => absurd hf (htakes f),
    fun f hf _ _ => h.waits f hf⟩

end Moment

namespace Host

open Machine (Opening Start Edits Heeds)

variable {η : Type} {h : Host η} {w w' u v : World η} {t : ThreadHandle} {f : FrameHandle}
  {name : String} {args : List String} {q : Question} {starts : List Start} {op : Operation}

/-! ## Up to a question -/

/-- A step that asks has something to run, and has changed contents only by then. -/
theorem questionOf_cases (hopening : w.machine.Opening starts)
    (hask : h.questionOf w f = some (q, u)) :
    w.machine.isSpent f = false ∧ Edits w.machine u.machine ∧
      ∀ e, u.machine.waitAt e = w.machine.waitAt e := by
  rcases hopening.idle_or_innermost f with hidle | ⟨t, below, frame, -, horder, hf, hpending⟩
  · simp only [questionOf, hidle] at hask
    cases hask
  · have hready := Machine.edits_readied w.machine f
    obtain ⟨own, hown, -, hsound⟩ := horder.frame f List.mem_cons_self
    rcases horder.run_prepare hf hpending with ⟨l, rfl, -, hl, hrun⟩ | ⟨-, signal, m', -, hrun⟩
    · have hspent : w.machine.isSpent l.frame = false := by
        refine Bool.eq_false_iff.2 fun hspent => ?_
        rw [Machine.isSpent_iff hown, (hsound.scanOf_of_runsNext hown hl).1] at hspent
        cases hspent
      simp only [questionOf, hrun, questionAt] at hask
      refine ⟨hspent, ?_⟩
      rcases Machine.plan_cases h.toSetting l (w.machine.readied l.frame) with
        ⟨flow, hvalue⟩ | ⟨name, args, assignTo, hasks⟩ | ⟨name, args, henters⟩
      · rw [hvalue] at hask
        cases hask
      · obtain ⟨hvalue, hstate⟩ := Machine.run_plan_of_asks hasks
        rw [hvalue, hstate] at hask
        cases hask
        exact ⟨hready, Machine.waitAt_readied _ _⟩
      · obtain ⟨hvalue, hstate⟩ := Machine.run_plan_of_enters henters
        rw [hvalue, hstate] at hask
        cases hask
        exact ⟨hready.trans (Machine.edits_modifyFrame fun _ _ => .move _),
          fun e => (Machine.waitAt_moveCursor ..).trans (Machine.waitAt_readied ..)⟩
    · simp only [questionOf, hrun] at hask
      cases hask

/-- **From the beginning of an operation to its question** every frame waits on. -/
theorem leads_question (hopening : v.machine.Opening starts) (hahead : v.machine.Ahead)
    (hask : h.question v op = some (q, u)) (hasked : u.machine.Ahead) :
    (Moment.mk v.machine (some op)).Leads u.machine ∧ ∃ starts, u.machine.Opening starts := by
  have hstep : ∀ k, h.questionOf v k = some (q, u) → (∀ f, ¬ v.machine.Sweeps k f) ∧
      v.machine.Heeds u.machine ∧ ∃ starts, u.machine.Opening starts := by
    intro k hask
    obtain ⟨hspent, hedits, hsame⟩ := questionOf_cases hopening hask
    refine ⟨?_, .of_later (.edits hedits) fun f hf => (hsame f).trans hf, starts,
      hopening.edits hedits⟩
    rintro f ⟨t, below, -, -, hmem⟩
    rw [List.takeWhile_cons, hspent, if_neg Bool.false_ne_true] at hmem
    cases hmem
  cases op with
  | start entity name =>
    cases hask
    exact ⟨.of_heeds hopening hahead (fun _ => id) (.of_frames (.refl v.machine) rfl), _,
      hopening.opened hahead entity name hasked⟩
  | step k =>
    obtain ⟨hsweeps, hheeds, hopening'⟩ := hstep k hask
    exact ⟨.of_heeds hopening hahead hsweeps hheeds, hopening'⟩
  | stepInvocation t =>
    obtain ⟨k, hk, hask⟩ := Option.bind_eq_some_iff.1 hask
    obtain ⟨hsweeps, hheeds, hopening'⟩ := hstep k hask
    refine ⟨.of_heeds hopening hahead ?_ hheeds, hopening'⟩
    rintro f ⟨k', hk', hswept⟩
    rw [hk] at hk'
    cases hk'
    exact hsweeps f hswept
  | _ => cases hask

/-! ## From an answer on -/

/-- **A step that asks for a function** ends by taking the answer. -/
theorem step_of_function {call : Call} (hask : h.questionOf w f = some (.function call, u)) :
    ∃ l assignTo answer, ((h.step f).run w).state.machine =
      ((Machine.takeAnswer l call assignTo answer).run
        (h.answered u (.function call)).machine).state := by
  unfold questionOf at hask
  unfold step
  rw [Act.run_bind, World.run_liftM]
  dsimp only at hask ⊢
  cases hready : ((Machine.prepare f).run w.machine).value with
  | error failure =>
    rw [hready] at hask
    cases hask
  | ok readied =>
    rw [hready] at hask
    cases readied with
    | settled signal => cases hask
    | line l =>
      dsimp only at hask ⊢
      unfold questionAt at hask
      unfold execute
      rw [Act.run_bind, World.run_liftM]
      dsimp only at hask ⊢
      cases hplan :
          ((Machine.plan h.toSetting l).run ((Machine.prepare f).run w.machine).state).value with
      | go flow =>
        rw [hplan] at hask
        cases hask
      | enter name args =>
        rw [hplan] at hask
        cases hask
      | ask call assignTo =>
        rw [hplan] at hask
        cases hask
        exact ⟨l, assignTo, _, rfl⟩

/-- **Looking for a script**: from the answer on every frame waits on. -/
theorem heeds_pushFrame (hopening : ((h.load name).run u).state.machine.Opening starts)
    (hahead : ((h.load name).run u).state.machine.Ahead)
    (hsupplied : (h.supplied u (.script t name args)).Ahead) :
    ((h.load name).run u).state.machine.Heeds ((h.pushFrame t name args).run u).state.machine := by
  rcases h.pushFrame_cases u t name args with ⟨failure, -, -, hstate⟩ | ⟨script, warnings, hscript,
    ⟨thread, f, -, -, hstate⟩ | ⟨failure, -, -, hstate⟩⟩
  · rw [hstate]
    exact .refl _
  · simp only [Host.supplied, hscript] at hsupplied
    rw [hstate]
    exact .pushed hahead hsupplied
  · simp only [Host.supplied, hscript] at hsupplied
    rw [hstate]
    exact .abandoned hopening.sound.proper.frames hahead hsupplied

/-- **From the answer to the end of an operation** every frame waits on. -/
theorem leads_answer (hopening : v.machine.Opening starts) (hahead : v.machine.Ahead)
    (hforward : h.Forward v op) (hask : h.question v op = some (q, u))
    (hmeanwhile : Meanwhile u (h.answered u q)) :
    (Moment.mk (h.answered u q).machine none).Leads ((h.perform op).run v).state.machine := by
  have hasked := hforward.asked q u hask
  have hsupplied := hforward.supplied q u hask
  have hstep : ∀ k, h.questionOf v k = some (q, u) →
      ∃ starts, (h.answered u q).machine.Opening starts ∧
      (h.answered u q).machine.Ahead ∧
      (h.answered u q).machine.Heeds ((h.step k).run v).state.machine := by
    intro k hask
    obtain ⟨-, hedits, -⟩ := questionOf_cases hopening hask
    obtain ⟨hopening', hahead', -⟩ := hmeanwhile.upholds starts (hopening.edits hedits) hasked
    refine ⟨starts, hopening', hahead', ?_⟩
    cases q with
    | function call =>
      obtain ⟨l, assignTo, answer, hstate⟩ := step_of_function hask
      rw [hstate]
      exact .takeAnswer l call assignTo answer _
    | script t name args =>
      rw [(step_of_question hask).1]
      exact heeds_pushFrame hopening' hahead' hsupplied
  cases op with
  | start entity name =>
    cases hask
    obtain ⟨hopening', hahead', -⟩ :=
      hmeanwhile.upholds _ (hopening.opened hahead entity name hasked) hasked
    have hpush := heeds_pushFrame hopening' hahead' hsupplied
    refine .of_heeds hopening' hahead' (fun _ => id) ?_
    simp only [perform, Act.run_map]
    rcases h.pushFrame_cases { v with machine := v.machine.opened entity name }
        v.machine.threads.fresh name [] with
      ⟨failure, -, hvalue, hstate⟩ | ⟨script, warnings, -, ⟨thread, f, -, hvalue, hstate⟩ |
        ⟨failure, -, hvalue, hstate⟩⟩
    · rw [start_of_error hvalue rfl]
      exact hpush.of_frames rfl
    · obtain ⟨target, htarget, -⟩ := hopening'.home _ List.mem_cons_self
      rw [hstate] at hpush
      rw [start_of_ok hvalue hstate (Table.contains_iff.2 ⟨target, htarget⟩)]
      exact hpush.of_frames rfl
    · rw [start_of_error hvalue rfl]
      exact hpush.of_frames rfl
  | step k =>
    obtain ⟨starts', hopening', hahead', hheeds⟩ := hstep k hask
    exact .of_heeds hopening' hahead' (fun _ => id) hheeds
  | stepInvocation t =>
    obtain ⟨k, hrun, hask⟩ := stepInvocation_of_question hask
    obtain ⟨starts', hopening', hahead', hheeds⟩ := hstep k hask
    simp only [perform, Act.run_map, hrun]
    exact .of_heeds hopening' hahead' (fun _ => id) hheeds
  | _ => cases hask

/-! ## Operations that ask nothing -/

/-- A step that asks nothing takes frames away only while it readies its frame. -/
theorem waitAt_step (hopening : w.machine.Opening starts) (hask : h.questionOf w f = none)
    (e : FrameHandle) :
    ((h.step f).run w).state.machine.waitAt e =
      ((Machine.prepare f).run w.machine).state.waitAt e := by
  unfold step
  rw [Act.run_bind, World.run_liftM]
  rcases hopening.idle_or_innermost f with hidle | ⟨t, below, frame, -, horder, hf, hpending⟩
  · rw [hidle]
    rfl
  · rcases horder.run_prepare hf hpending with ⟨l, rfl, rfl, hl, hrun⟩ | ⟨-, signal, m', -, hrun⟩
    · simp only [questionOf, hrun, questionAt] at hask
      simp only [hrun]
      have hin : l.In (w.machine.readied l.frame) :=
        (Machine.edits_readied w.machine l.frame).line hl.stands
      have hchanges := (Machine.Runs.plan h.toSetting).changes _ hin
      unfold execute
      rw [Act.run_bind, World.run_liftM]
      cases hplan : ((Machine.plan h.toSetting l).run (w.machine.readied l.frame)).value with
      | go flow =>
        dsimp only
        exact (Machine.waitAt_moveCursor ..).trans (Machine.waitAt_congr (hchanges.pending e))
      | ask call assignTo =>
        rw [hplan] at hask
        cases hask
      | enter name args =>
        rw [hplan] at hask
        cases hask
    · rw [hrun]
      rfl

/-- Stepping an invocation that has no frame cancels it at most, and no frame goes with it. -/
theorem waitAt_stepInvocation (hopening : w.machine.Opening starts)
    (hnone : w.machine.frameOf t = none) (e : FrameHandle) :
    ((h.stepInvocation t).run w).state.machine.waitAt e = w.machine.waitAt e := by
  rw [machine_stepInvocation_of_bare hnone]
  refine (hopening.waitAt_cleanup t e).2 fun hown => ?_
  obtain ⟨thread, hthread, hmem⟩ := hopening.stacks_iff.2 hown
  rw [Machine.frameOf, hthread, Option.bind_some, Thread.top?, List.head?_eq_none_iff] at hnone
  rw [hnone] at hmem
  cases hmem

/-- **An operation that asks nothing** takes a frame away, or leaves it waiting. -/
theorem leads_plain (hopening : v.machine.Opening starts) (hahead : v.machine.Ahead)
    (hop : op ≠ .reset) (htext : h.Numbered) (hforward : h.Forward v op)
    (hask : h.question v op = none) :
    (Moment.mk v.machine (some op)).Leads ((h.perform op).run v).state.machine := by
  have hanswer : ∀ q u, h.question v op = some (q, u) →
      Upholds u.machine (h.answered u q).machine := by
    intro q u hq
    rw [hask] at hq
    cases hq
  have hlater := (upholds_perform hop htext hforward hanswer starts hopening hahead).later
  have hstep : ∀ k, h.questionOf v k = none → ∀ f,
      (v.machine.Sweeps k f → ((h.step k).run v).state.machine.waitAt f = none) ∧
        (¬ v.machine.Sweeps k f →
          ((h.step k).run v).state.machine.waitAt f = v.machine.waitAt f) := by
    intro k hask f
    rw [waitAt_step hopening hask]
    exact hopening.waitAt_prepare k f
  suffices hframe : (∀ f, (Moment.mk v.machine (some op)).Takes f →
        ((h.perform op).run v).state.machine.waitAt f = none) ∧
      ∀ f, ¬ (Moment.mk v.machine (some op)).Takes f →
        ¬ (Moment.mk v.machine (some op)).Completes f →
        ((h.perform op).run v).state.machine.waitAt f = v.machine.waitAt f from
    ⟨hahead, ⟨starts, hopening⟩, hlater.frames.le, fun _ => hlater.gone, hframe.1,
      fun f hf htakes hcompletes => (hframe.2 f htakes hcompletes).trans hf⟩
  cases op with
  | start entity name => cases hask
  | step k => exact ⟨fun f => (hstep k hask f).1, fun f htakes _ => (hstep k hask f).2 htakes⟩
  | stepInvocation t =>
    simp only [perform, Act.run_map]
    cases htop : v.machine.frameOf t with
    | some k =>
      obtain ⟨below, hstack⟩ := Machine.stackAt_of_frameOf htop
      have hquestion : h.questionOf v k = none := by
        rw [question, htop] at hask
        exact hask
      rw [run_stepInvocation hstack]
      refine ⟨fun f htakes => ?_,
        fun f htakes _ => (hstep k hquestion f).2 fun hsweeps => htakes ⟨k, htop, hsweeps⟩⟩
      obtain ⟨k', hk', hsweeps⟩ := htakes
      rw [htop] at hk'
      cases hk'
      exact (hstep k hquestion f).1 hsweeps
    | none =>
      refine ⟨fun f htakes => ?_, fun f _ _ => waitAt_stepInvocation hopening htop f⟩
      obtain ⟨k', hk', -⟩ := htakes
      rw [htop] at hk'
      cases hk'
  | complete k result =>
    refine ⟨fun _ => False.elim, fun f _ hcompletes => ?_⟩
    have hk : f ≠ k := by
      rintro rfl
      exact hcompletes ⟨result, rfl⟩
    exact Machine.waitAt_completeCall hk result v.machine
  | setVariable t token value =>
    refine ⟨fun _ => False.elim, fun f _ _ => ?_⟩
    simp only [perform, Act.run_map, World.run_onMachine, Machine.setVariable, Act.run_bind,
      Machine.state_vantageOf]
    split
    · rfl
    · rw [Machine.state_assignToken, Machine.waitAt_delivered]
  | setGlobal name value => exact ⟨fun _ => False.elim, fun f _ _ => rfl⟩
  | claim =>
    refine ⟨fun _ => False.elim, fun f _ _ => ?_⟩
    simp only [perform, World.run_getMachine_bind]
    unfold Machine.claimNext
    split <;> rfl
  | cleanup t =>
    exact ⟨fun f => (hopening.waitAt_cleanup t f).1,
      fun f hother _ => (hopening.waitAt_cleanup t f).2 hother⟩
  | reset => exact absurd rfl hop

/-! ## Runs -/

/-- **What hosts do, with all its moments**: the beginning of each operation, also of those that are
performed while a host is asked, and the beginning and the end of each answer. -/
inductive Run : World η → World η → List Moment → Prop where
  | start (w : World η) : Run w w []
  | own {w v : World η} {es : List Moment} (hbefore : Run w v es) (own : η) :
    Run w { v with own } es
  | plain {w v : World η} {es : List Moment} {h : Host η} {op : Operation} (hbefore : Run w v es)
    (hop : op ≠ .reset) (htext : h.Numbered) (hforward : h.Forward v op)
    (hask : h.question v op = none) :
    Run w ((h.perform op).run v).state (es ++ [⟨v.machine, some op⟩])
  | asking {w v u : World η} {es during : List Moment} {h : Host η} {op : Operation} {q : Question}
    (hbefore : Run w v es) (hop : op ≠ .reset) (htext : h.Numbered) (hforward : h.Forward v op)
    (hask : h.question v op = some (q, u)) (hanswer : Run u (h.answered u q) during) :
    Run w ((h.perform op).run v).state
      (es ++ ⟨v.machine, some op⟩ :: ⟨u.machine, none⟩ :: during ++
        [⟨(h.answered u q).machine, none⟩])

/-- What hosts do from the outside they could also do while they are asked. -/
theorem Run.meanwhile {es : List Moment} (hrun : Run w w' es) : Meanwhile w w' := by
  induction hrun with
  | start w => exact .start w
  | own _ own ih => exact .own ih own
  | plain _ hop htext hforward hask ih =>
    refine .perform ih hop htext hforward fun q u hq => ?_
    rw [hask] at hq
    cases hq
  | asking _ hop htext hforward hask _ ih ihanswer =>
    refine .perform ih hop htext hforward fun q u hq => ?_
    rw [hask] at hq
    cases hq
    exact ihanswer

/-- **A trail of moments**, from one machine to another: each leads to the next. -/
inductive Trail : Machine → List Moment → Machine → Prop where
  | nil (m : Machine) : Trail m [] m
  | cons {e : Moment} {es : List Moment} {m m' : Machine} (hleads : e.Leads m)
    (hrest : Trail m es m') :
    Trail e.machine (e :: es) m'

namespace Trail

variable {m m' m'' : Machine} {es es' : List Moment}

/-- Trails are joined end to end. -/
theorem append (h : Trail m es m') (h' : Trail m' es' m'') : Trail m (es ++ es') m'' := by
  induction h with
  | nil => exact h'
  | cons hleads _ ih => exact .cons hleads (ih h')

/-- A trail goes through the machines of its moments. -/
theorem split {e : Moment} (h : Trail m (es ++ e :: es') m') :
    Trail m es e.machine ∧ Trail e.machine (e :: es') m' := by
  induction es generalizing m with
  | nil =>
    cases h with
    | cons hleads hrest => exact ⟨.nil _, .cons hleads hrest⟩
  | cons d es ih =>
    cases h with
    | cons hleads hrest =>
      obtain ⟨hbefore, hafter⟩ := ih hrest
      exact ⟨.cons hleads hbefore, hafter⟩

/-- The machine of the first moment is one in which scripts may be being started. -/
theorem opening {e : Moment} (h : Trail m (e :: es) m') : ∃ starts, e.machine.Opening starts := by
  cases h with
  | cons hleads _ => exact hleads.opening

/-- What is gone does not come back. -/
theorem gone (h : Trail m es m') (hf : f.raw < m.frames.next.raw) (hgone : m.waitAt f = none) :
    m'.waitAt f = none := by
  induction h with
  | nil => exact hgone
  | cons hleads _ ih => exact ih (UInt32.lt_of_lt_of_le hf hleads.next) (hleads.gone f hf hgone)

/-- **A frame that waits** is gone at the end of a trail if it was taken away, and else waits on. -/
theorem waits (h : Trail m es m') (hf : m.waitAt f = some true)
    (hopen : ∀ e ∈ es, ¬ e.Completes f) :
    (∃ e ∈ es, e.Takes f) ∧ m'.waitAt f = none ∨ (∀ e ∈ es, ¬ e.Takes f) ∧
      m'.waitAt f = some true := by
  induction h with
  | nil => exact .inr ⟨List.forall_mem_nil _, hf⟩
  | @cons e es m m' hleads hrest ih =>
    obtain ⟨hhere, hlater⟩ := List.forall_mem_cons.1 hopen
    by_cases htakes : e.Takes f
    · obtain ⟨frame, hframe, -⟩ := Option.map_eq_some_iff.1 hf
      have hlt := UInt32.lt_of_lt_of_le
        (hleads.ahead.frames.lt f (Table.contains_iff.2 ⟨frame, hframe⟩)) hleads.next
      exact .inl ⟨⟨e, List.mem_cons_self, htakes⟩, hrest.gone hlt (hleads.taken f htakes)⟩
    · rcases ih (hleads.kept f hf htakes hhere) hlater with
        ⟨⟨d, hd, htaken⟩, hgone⟩ | ⟨hkept, hwaits⟩
      · exact .inl ⟨⟨d, List.mem_cons_of_mem e hd, htaken⟩, hgone⟩
      · exact .inr ⟨List.forall_mem_cons.2 ⟨htakes, hkept⟩, hwaits⟩

end Trail

/-- **Every run is a trail.** -/
theorem Run.trail {es : List Moment} (hrun : Run w w' es) (hopening : w.machine.Opening starts)
    (hahead : w.machine.Ahead) : Trail w.machine es w'.machine := by
  induction hrun generalizing starts with
  | start w => exact .nil _
  | own _ _ ih => exact ih hopening hahead
  | plain hbefore hop htext hforward hask ih =>
    obtain ⟨hopening', hahead', -⟩ := hbefore.meanwhile.upholds starts hopening hahead
    have hleads := leads_plain hopening' hahead' hop htext hforward hask
    exact (ih hopening hahead).append (.cons hleads (.nil _))
  | asking hbefore hop htext hforward hask hanswer ih ihanswer =>
    obtain ⟨hopening', hahead', -⟩ := hbefore.meanwhile.upholds starts hopening hahead
    have hasked := hforward.asked _ _ hask
    obtain ⟨hleads, starts', hopening''⟩ := leads_question hopening' hahead' hask hasked
    have hends := leads_answer hopening' hahead' hforward hask hanswer.meanwhile
    have hbegins : (Moment.mk _ none).Leads _ := .of_heeds hopening'' hasked (fun _ => id) (.refl _)
    rw [List.append_assoc]
    exact (ih hopening hahead).append (.cons hleads (.cons hbegins
      ((ihanswer hopening'' hasked).append (.cons hends (.nil _)))))

end Host

namespace Machine

/-- **A frame that waits is lost exactly if it is taken away.** Between any two moments of what
hosts do, at any depth, its call not being completed: the frame is gone if its invocation was
cancelled or a step swept it from its stack; else its call can be completed, and the result is
kept. -/
theorem Reentered.lost_iff_taken {η : Type} {w w' : World η} {es before during after : List Moment}
    {e e' : Moment} {f : FrameHandle} (hreach : w.machine.Reentered) (hrun : Host.Run w w' es)
    (hmoments : es ++ [⟨w'.machine, none⟩] = before ++ e :: during ++ e' :: after)
    (hwaits : (e.machine.pendingAt f).isSome = true) (hopen : ∀ d ∈ e :: during, ¬ d.Completes f) :
    (e'.machine.frames.get? f = none ↔ ∃ d ∈ e :: during, d.Takes f) ∧
      ∀ result, (∀ d ∈ e :: during, ¬ d.Takes f) ↔
        ((completeCall f result).run e'.machine).value = .ok () ∧
          (((completeCall f result).run e'.machine).state.frames.get? f).map Frame.result =
            some result := by
  obtain ⟨hsound, hahead⟩ := hreach.sound_and_ahead
  obtain ⟨hopening, hahead', -⟩ := hrun.meanwhile.upholds [] hsound.opening hahead
  have hend : (Moment.mk w'.machine none).Leads w'.machine :=
    .of_heeds hopening hahead' (fun _ => id) (.refl _)
  have htrail := (hrun.trail hsound.opening hahead).append (.cons hend (.nil _))
  rw [hmoments] at htrail
  obtain ⟨htrail, hlast⟩ := htrail.split
  obtain ⟨-, htrail⟩ := htrail.split
  rcases htrail.waits (waitAt_eq_true.2 hwaits) hopen with ⟨htaken, hgone⟩ | ⟨hkept, hwait⟩
  · have hnone := waitAt_eq_none.1 hgone
    refine ⟨iff_of_true hnone htaken, fun result => iff_of_false (fun hkept => ?_) ?_⟩
    · obtain ⟨d, hd, htakes⟩ := htaken
      exact hkept d hd htakes
    · rintro ⟨haccepted, -⟩
      simp only [completeCall, Act.run_get_bind, hnone] at haccepted
      cases haccepted
  · obtain ⟨frame, hf, hpending⟩ := Option.map_eq_some_iff.1 hwait
    obtain ⟨call, hcall⟩ := Option.isSome_iff_exists.1 hpending
    refine ⟨iff_of_false (by simp [hf]) fun htaken => ?_, fun result => iff_of_true hkept ?_⟩
    · obtain ⟨d, hd, htakes⟩ := htaken
      exact hkept d hd htakes
    · obtain ⟨starts, hopening'⟩ := hlast.opening
      obtain ⟨-, thread, hthread⟩ := hopening'.thread_of_frame hf
      exact result_completeCall hf hthread hcall result

/-- A script that enters another and then asks, and the script that it enters. -/
def errand (name : String) : Except Failure Located :=
  .ok (if name = "main" then ⟨"main.scr", .line, "call sub\nset $thread#name resultfrom ask name\n"⟩
    else ⟨"sub.scr", .line, "set $x 1\n"⟩)

/-- The host promises every answer. -/
def sending : Host (List Call) := Host.fixed {} errand fun _ _ _ => .ok .pending

/-- Before the host gives the second script, it steps the invocation that is to enter it. -/
def burying : Host (List Call) where
  toSetting := {}
  dispatch := sending.dispatch
  load name := do
    if name = "sub" then
      let _ ← sending.perform (.stepInvocation ⟨1⟩)
    sending.load name

/-- The first script was started. -/
def sent : World (List Call) := ((sending.perform (.start ⟨7⟩ "main")).run ⟨∅, []⟩).state

/-- The first script is about to enter the second. -/
def entering : World (List Call) := { sent with machine := sent.machine.moveCursor ⟨1⟩ 1 }

/-- The second script lies on top of the first, which waits. -/
def buried : World (List Call) := ((burying.perform (.stepInvocation ⟨1⟩)).run sent).state

/-- The second script has run, and the first still waits. -/
def uncovering : World (List Call) := ((sending.perform (.stepInvocation ⟨1⟩)).run buried).state

/-- The scripts of the errand are of a size that can be counted. -/
theorem length_errand (name : String) (located : Located) (h : errand name = .ok located) :
    located.text.length < UInt64.size := by
  cases h
  split <;> decide +kernel

theorem numbered_sending : sending.Numbered := fun name _ => length_errand name

theorem numbered_burying : burying.Numbered := by
  intro name w located hlocated
  refine length_errand name located ?_
  by_cases hname : name = "sub"
  · subst hname
    exact hlocated
  · simp only [burying, if_neg hname] at hlocated
    exact hlocated

/-- While it looks for the second script, the host does what a step from outside does. -/
theorem run_load_burying (w : World (List Call)) :
    ((burying.load "sub").run w).state = ((sending.perform (.stepInvocation ⟨1⟩)).run w).state :=
  rfl

theorem answered_sending (w : World (List Call)) (call : Call) :
    sending.answered w (.function call) = { w with own := w.own ++ [call] } := rfl

/-- What the first script asks. -/
def asked : Call :=
  { thread := ⟨1⟩, frame := ⟨1⟩, entity := some ⟨7⟩, name := "ask", args := ["name"] }

/-- The second script is looked for, and the first one is about to ask. -/
def inquiring : World (List Call) := { entering with machine := entering.machine.readied ⟨1⟩ }

/-- The world in which the first script was started is one that hosts can come to. -/
theorem run_sent : ∃ es, Host.Run ⟨∅, []⟩ sent es :=
  ⟨_, .asking (.start _) (by decide) numbered_sending (by decide +kernel) rfl (.start _)⟩

/-- While the second script is looked for, the first one asks and is told to wait. -/
theorem run_entering : ∃ es, Host.Run entering ((burying.load "sub").run entering).state es := by
  have hask : sending.question entering (.stepInvocation ⟨1⟩) =
    some (.function asked, inquiring) := by decide +kernel
  have hanswer : Host.Run inquiring (sending.answered inquiring (.function asked)) [] := by
    rw [answered_sending]
    exact .own (.start inquiring) _
  have hforward : sending.Forward entering (.stepInvocation ⟨1⟩) := by decide +kernel
  rw [run_load_burying]
  exact ⟨_, .asking (.start entering) (by decide) numbered_sending hforward hask hanswer⟩

/-- So is the machine in which the waiting frame is covered. -/
theorem reentered_buried : buried.machine.Reentered := by
  obtain ⟨_, hsent⟩ := run_sent
  obtain ⟨_, hloaded⟩ := run_entering
  have hask : burying.question sent (.stepInvocation ⟨1⟩) =
    some (.script ⟨1⟩ "sub" [], entering) := by decide +kernel
  have hforward : burying.Forward sent (.stepInvocation ⟨1⟩) := by decide +kernel
  have hburied : Host.Run sent buried _ :=
    .asking (.start sent) (by decide) numbered_burying hforward hask hloaded
  exact .perform (.perform .new hsent.meanwhile) hburied.meanwhile

/-- From there the second script runs to its end in one step. -/
theorem run_uncovering :
    Host.Run buried uncovering [⟨buried.machine, some (.stepInvocation ⟨1⟩)⟩] := by
  have hquiet : sending.question buried (.stepInvocation ⟨1⟩) = none := by decide +kernel
  have hforward : sending.Forward buried (.stepInvocation ⟨1⟩) := by decide +kernel
  exact .plain (.start buried) (by decide) numbered_sending hforward hquiet

/-- The script on top runs, and the frame below it waits on: its call can be completed. -/
theorem buried_kept : buried.machine.Reentered ∧ (buried.machine.pendingAt ⟨1⟩).isSome = true ∧
    ((completeCall ⟨1⟩ "Ann").run uncovering.machine).value = .ok () := by
  have hreach := reentered_buried
  have hrun := run_uncovering
  have hwaits : (buried.machine.pendingAt ⟨1⟩).isSome = true := by decide +kernel
  have htop : buried.machine.frameOf ⟨1⟩ = some ⟨2⟩ := by decide +kernel
  have hbusy : buried.machine.isSpent ⟨2⟩ = false := by decide +kernel
  -- from here on the two worlds are any worlds with these properties
  generalize buried = w at *
  generalize uncovering = w' at *
  have hmoments : [⟨w.machine, some (.stepInvocation ⟨1⟩)⟩] ++ [⟨w'.machine, none⟩] =
      [] ++ ⟨w.machine, some (.stepInvocation ⟨1⟩)⟩ :: [] ++ (⟨w'.machine, none⟩ : Moment) :: [] :=
      rfl
  obtain ⟨-, hiff⟩ := hreach.lost_iff_taken hrun hmoments hwaits (by simp [Moment.Completes])
  obtain ⟨haccepted, -⟩ :=
    (hiff "Ann").1 (List.forall_mem_singleton.2 (Moment.not_takes_of_busy htop hbusy ⟨1⟩))
  exact ⟨hreach, hwaits, haccepted⟩

/-- **The machine keeps the calls that frames wait for**: whatever hosts do, short of completing
such a call or cancelling an invocation, it can be completed afterwards. -/
def KeepsCalls (m : Machine) : Prop :=
  ∀ (η : Type) (w w' : World η) (es : List Moment) (f : FrameHandle), w.machine = m →
    Host.Run w w' es → (m.pendingAt f).isSome = true →
    (∀ e ∈ es, ¬ e.Completes f ∧ ∀ t, e.next ≠ some (.cleanup t)) →
    ∀ result, ((completeCall f result).run w'.machine).value = .ok ()

/-- When the script on top ends, the frame that waits goes with it, and its call cannot be completed
any more. -/
theorem buried_not_keepsCalls : buried.machine.Reentered ∧ ¬ buried.machine.KeepsCalls := by
  have hreach := reentered_buried
  have hrun := run_uncovering
  have hwaits : (buried.machine.pendingAt ⟨1⟩).isSome = true := by decide +kernel
  have hquiet : sending.question uncovering (.stepInvocation ⟨1⟩) = none := by decide +kernel
  have hforward : sending.Forward uncovering (.stepInvocation ⟨1⟩) := by decide +kernel
  have hrefused : ((completeCall ⟨1⟩ "Ann").run
      ((sending.perform (.stepInvocation ⟨1⟩)).run uncovering).state.machine).value.isOk =
      false := by decide +kernel
  generalize buried = w at *
  generalize uncovering = w' at *
  have hrun' := Host.Run.plain hrun (by decide) numbered_sending hforward hquiet
  refine ⟨hreach, fun hkeeps => ?_⟩
  have haccepted := hkeeps _ _ _ _ ⟨1⟩ rfl hrun' hwaits (by simp [Moment.Completes]) "Ann"
  rw [haccepted] at hrefused
  cases hrefused

end Machine

end StepScript
