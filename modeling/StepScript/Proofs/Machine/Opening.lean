import StepScript.Proofs.Machine.Moves
import StepScript.Proofs.Machine.Renaming

/-!
# Proofs/Machine/Opening — machines in the midst of operations

While the host looks for a script that is to be started, the new invocation is there already:
nothing lists it, and it has no frame. If the host performs operations before it answers, they meet
such invocations, several of them if it starts scripts in turn. Without them the machine is sound,
and that is all an operation needs.

What goes on afterwards may hold handles that have become stale. As long as no counter goes round
they are not given out again, so an object found under an old handle is the old object.

* `Machine.without` — the machine without some of its invocations.
* `Machine.Opening` — a machine in which some scripts are being started.
* `Machine.Later` — what is found under old handles is what was there.
-/

namespace StepScript

/-! ## Old handles -/

namespace Table

variable {kind : String} {α β : Type} {v : α → β} {t t' t'' : Table kind α}

/-- Nothing is under the handle that comes next. -/
theorem Ahead.get?_next (h : t.Ahead) : t.get? t.next = none := by
  cases hget : t.get? t.next with
  | none => rfl
  | some a => exact absurd (h.lt _ (contains_iff.2 ⟨a, hget⟩)) (UInt32.lt_irrefl _)

/-- A new object leaves the counter past every handle, unless it goes round. -/
theorem Ahead.create {k : Handle kind} (h : t.Ahead) (hlt : t.next.raw < k.raw) (a : α) :
    (t.create a).2.Ahead := by
  have hnext : (t.create a).2.next.raw.toNat = t.next.raw.toNat + 1 := by
    rw [next_create, h.fresh_eq, toNat_next_of_lt hlt]
  refine ⟨t.fresh.isValid_next, fun k hk => ?_⟩
  rw [UInt32.lt_iff_toNat_lt, hnext]
  rw [contains_eq, get?_create, h.fresh_eq] at hk
  split at hk
  · next heq =>
    rw [heq]
    omega
  · have hold := h.lt k (by rw [contains_eq, hk])
    rw [UInt32.lt_iff_toNat_lt] at hold
    omega

/-- A table with fewer objects and the same counter is still ahead. -/
theorem Ahead.of_subset (h : t.Ahead) (hnext : t'.next = t.next)
    (hsub : ∀ k, t.get? k = none → t'.get? k = none) : t'.Ahead where
  next := hnext ▸ h.next
  lt k hk := by
    rw [hnext]
    refine h.lt k ?_
    rw [contains_eq, Option.isSome_iff_ne_none] at hk ⊢
    exact fun hnone => hk (hsub k hnone)

/-- **What is found under an old handle was there before**, and looks the same. -/
structure Later (v : α → β) (t t' : Table kind α) : Prop where
  le : t.next.raw ≤ t'.next.raw
  old : ∀ h a, h.raw < t.next.raw → t'.get? h = some a → (t.get? h).map v = some (v a)

namespace Later

/-- A table that has lost objects comes after the one that had them. -/
theorem of_subset (hnext : t'.next = t.next)
    (hsub : ∀ h a, t'.get? h = some a → (t.get? h).map v = some (v a)) : Later v t t' :=
  ⟨hnext ▸ UInt32.le_refl _, fun h a _ hget => hsub h a hget⟩

theorem refl (t : Table kind α) : Later v t t := of_subset rfl fun _ _ hget => by rw [hget]; rfl

theorem trans (h : Later v t t') (h' : Later v t' t'') : Later v t t'' where
  le := UInt32.le_trans h.le h'.le
  old k a hk hget := by
    obtain ⟨b, hb, heq⟩ :=
      Option.map_eq_some_iff.1 (h'.old k a (UInt32.lt_of_lt_of_le hk h.le) hget)
    rw [h.old k b hk hb, heq]

/-- So does one that has a new object, which takes the next handle. -/
theorem create {a : α} (h : t.Ahead) (h' : (t.create a).2.Ahead) : Later v t (t.create a).2 where
  le := UInt32.le_of_lt (h'.lt _ (contains_next_create h a))
  old k b hk hget := by
    have hne : k ≠ t.fresh := by
      rintro rfl
      rw [h.fresh_eq] at hk
      exact UInt32.lt_irrefl _ hk
    rw [get?_create, if_neg hne] at hget
    rw [hget]
    rfl

theorem createAll {as : List α} (h : t.Ahead) (h' : (t.createAll as).2.Ahead) :
    Later v t (t.createAll as).2 := by
  induction as generalizing t with
  | nil => exact refl t
  | cons a as ih =>
    rw [createAll_cons] at h' ⊢
    -- the handle given out first is still in use when all are there, so it was not the last one
    have hlt := h'.lt _ (contains_createAll (contains_next_create h a))
    exact (create h (h.create hlt a)).trans (ih (h.create hlt a) h')

end Later

end Table

/-- What stays of a frame while its script runs. -/
def Frame.body (frame : Frame) : ThreadHandle × String × List CommandHandle :=
  (frame.thread, frame.script, frame.commands)

namespace Machine

variable {m m' m'' : Machine}

/-! ## Scripts that come too late -/

/-- The machine after a script was entered for an invocation that is gone: only counters have
moved. -/
def abandoned (m : Machine) (t : ThreadHandle) (script : Script) (args : List String) : Machine :=
  (m.pushed t script args).removeFrame m.frames.fresh

variable {t : ThreadHandle} {script : Script} {args : List String}

theorem threads_pushed_of_dead (hdead : m.threads.get? t = none) :
    (m.pushed t script args).threads = m.threads := by
  refine Table.modify_eq_self fun thread hthread => ?_
  rw [hdead] at hthread
  cases hthread

theorem targets_abandoned : (m.abandoned t script args).targets = m.targets := by
  rw [abandoned, targets_removeFrame, targets_pushed]

theorem threads_abandoned (hdead : m.threads.get? t = none) :
    (m.abandoned t script args).threads = m.threads := by
  rw [abandoned, threads_removeFrame, threads_pushed_of_dead hdead]

/-- **A script is pushed on an invocation that is gone**: the frame that was made is dropped again,
and the failure names the invocation. -/
theorem run_pushScript_of_dead (hdead : m.threads.get? t = none) :
    (pushScript t script args).run m =
      ⟨.error (Cause.staleThread t).failure, m.abandoned t script args, []⟩ := by
  have hcontains : m.threads.contains t = false := by
    rw [Table.contains_eq, hdead]
    rfl
  have hpushed : m.pushed t script args = { m with
      commands := (m.commands.createAll script.commands).2
      frames :=
        (m.frames.create (newFrame t script (m.commands.createAll script.commands).1 args)).2 } :=
    ext_tables rfl (threads_pushed_of_dead hdead) rfl rfl rfl
  rw [abandoned, hpushed]
  simp only [pushScript, Act.run_bind, Act.run_get, hcontains, Bool.false_eq_true, if_false,
    Act.run_set, Act.run_pure, List.nil_append]
  rfl

/-- Of what was made and dropped, nothing is left. -/
theorem get?_frames_abandoned (hproper : m.frames.Proper) (hroom : (m.pushed t script args).Roomy)
    (f : FrameHandle) : (m.abandoned t script args).frames.get? f = m.frames.get? f := by
  have hfresh : m.frames.get? m.frames.fresh = none :=
    Table.get?_fresh hproper.next fun hfull => hroom.frames (hfull.create _)
  rw [Machine.abandoned, frames_removeFrame, Table.get?_erase, get?_frames_pushed]
  split
  · next hf => rw [hf, hfresh]
  · rfl

theorem get?_commands_abandoned (hproper : m.commands.Proper)
    (hroom : (m.pushed t script args).Roomy) (c : CommandHandle) :
    (m.abandoned t script args).commands.get? c = m.commands.get? c := by
  have hlists : (m.pushed t script args).Lists m.frames.fresh c ↔
      c ∈ (m.commands.createAll script.commands).1 := by
    rw [Lists, get?_frames_pushed, if_pos rfl]
    simp [newFrame]
  refine Option.ext fun command => ?_
  rw [Machine.abandoned, get?_commands_removeFrame, hlists, commands_pushed]
  by_cases hc : c ∈ (m.commands.createAll script.commands).1
  · rw [(Table.createAll_fresh hproper hroom.commands).2 c hc]
    simp [hc]
  · rw [Table.get?_createAll_of_notMem hc]
    simp [hc]

/-- A sound machine is sound after that. -/
theorem Sound.abandoned (h : m.Sound) (hdead : m.threads.get? t = none)
    (hroom : (m.pushed t script args).Roomy) : (m.abandoned t script args).Sound := by
  refine h.congr ⟨?_, ?_, ?_, ?_⟩ (fun g => by rw [targets_abandoned])
    (fun k => by rw [threads_abandoned hdead]) (get?_frames_abandoned h.proper.frames hroom)
    (get?_commands_abandoned h.proper.commands hroom)
  · rw [targets_abandoned]
    exact h.proper.targets
  · rw [threads_abandoned hdead]
    exact h.proper.threads
  · rw [Machine.abandoned, frames_removeFrame]
    exact (h.proper.frames.create _).erase _
  · refine (h.proper.commands.createAll script.commands).of_subset (next_commands_removeFrame _ _)
      fun c hc => ?_
    refine Option.eq_none_iff_forall_not_mem.2 fun command hcommand => ?_
    have hthere := (get?_commands_removeFrame.1 hcommand).1
    rw [commands_pushed, hc] at hthere
    cases hthere

/-! ## What stays -/

/-- **What is found under old handles is what was there**: frames with their scripts, and
commands. -/
structure Later (m m' : Machine) : Prop where
  frames : m.frames.Later Frame.body m'.frames
  commands : m.commands.Later id m'.commands

namespace Later

theorem refl (m : Machine) : Later m m := ⟨.refl _, .refl _⟩

theorem trans (h : Later m m') (h' : Later m' m'') : Later m m'' :=
  ⟨h.frames.trans h'.frames, h.commands.trans h'.commands⟩

/-- Frames and commands that leave. -/
theorem of_removal (hframes : m'.frames.next = m.frames.next)
    (hcommands : m'.commands.next = m.commands.next)
    (hframe : ∀ f frame, m'.frames.get? f = some frame → m.frames.get? f = some frame)
    (hcommand : ∀ c command, m'.commands.get? c = some command → m.commands.get? c = some command) :
    Later m m' where
  frames := .of_subset hframes fun f frame hf => by rw [hframe f frame hf]; rfl
  commands := .of_subset hcommands fun c command hc => by rw [hcommand c command hc]; rfl

/-- No handle is given out by an edit. -/
theorem edit (h : Edit m m') : Later m m' := by
  cases h with
  | @frame f frame u hf hu =>
    refine ⟨.of_subset rfl fun k frame' hk => ?_, .refl _⟩
    rw [frames_modifyFrame, Table.get?_modify] at hk
    split at hk
    · next heq =>
      rw [heq, hf] at hk
      cases hk
      rw [heq, hf, Option.map_some, Frame.body, Frame.body, hu.links.1, hu.links.2, hu.script]
    · rw [hk]
      rfl
  | threadVariable => exact ⟨.refl _, .refl _⟩
  | targetVariable => exact ⟨.refl _, .refl _⟩
  | globalVariable => exact ⟨.refl _, .refl _⟩

theorem edits (h : Edits m m') : Later m m' := by
  induction h with
  | refl => exact refl _
  | tail _ hedit ih => exact ih.trans (edit hedit)

/-- Nor by cancelling an invocation. -/
theorem cleanup (m : Machine) (t : ThreadHandle) : Later m (m.cleanup t) :=
  of_removal (next_frames_cleanup m t) (next_commands_cleanup m t)
    (fun _ _ hf => (get?_frames_cleanup.1 hf).1) fun _ _ hc => (get?_commands_cleanup.1 hc).1

theorem removeFrame (m : Machine) (f : FrameHandle) : Later m (m.removeFrame f) := by
  refine of_removal ?_ (next_commands_removeFrame m f)
    (fun _ _ hf => (get?_frames_removeFrame.1 hf).1) fun _ _ hc =>
    (get?_commands_removeFrame.1 hc).1
  rw [frames_removeFrame, Table.next_erase]

theorem leave (m : Machine) (t : ThreadHandle) (f : FrameHandle) :
    Later m ((m.unstack t f).removeFrame f) := by
  have hunstack : Later m (m.unstack t f) := ⟨.refl _, .refl _⟩
  exact hunstack.trans (removeFrame _ f)

/-- Nor by unwinding a stack. -/
theorem unwinds {t : ThreadHandle} {signal : Signal} (h : Unwinds t m signal m') : Later m m' := by
  have hdrop : ∀ (m : Machine)
      (f k : FrameHandle), Later m (((m.unstack t f).removeFrame f).readied k) :=
    fun m f k => (leave m t f).trans (edits (edits_readied _ k))
  induction h with
  | finish => exact cleanup _ t
  | stop => exact hdrop _ _ _
  | next _ _ ih => exact (hdrop _ _ _).trans ih

/-- Entering a script, unless a counter goes round. -/
theorem pushed {t : ThreadHandle} {script : Script} {args : List String} (h : m.Ahead)
    (h' : (m.pushed t script args).Ahead) : Later m (m.pushed t script args) :=
  ⟨.create h.frames h'.frames, .createAll h.commands h'.commands⟩

theorem abandoned {t : ThreadHandle} {script : Script} {args : List String} (h : m.Ahead)
    (h' : (m.pushed t script args).Ahead) : Later m (m.abandoned t script args) :=
  (pushed h h').trans (removeFrame _ _)

/-- **A line is still a command of its frame**, if the frame is there and has its commands. -/
theorem line {l : Line} (h : Later m m') (hahead : m.Ahead) (hl : l.In m)
    (hlive : m'.frames.contains l.frame = true)
    (hcommand : ∀ frame c, m'.frames.get? l.frame = some frame → c ∈ frame.commands →
      ∃ command, m'.commands.get? c = some command) : l.In m' := by
  obtain ⟨frame, c, command, hf, hthread, hc, hget, hcount, hsource, htokens⟩ := hl
  obtain ⟨frame', hf'⟩ := Table.contains_iff.1 hlive
  have hframe :=
    h.frames.old l.frame frame' (hahead.frames.lt _ (Table.contains_iff.2 ⟨frame, hf⟩)) hf'
  rw [hf, Option.map_some, Option.some.injEq, Frame.body, Frame.body, Prod.mk.injEq,
    Prod.mk.injEq] at hframe
  obtain ⟨hthread', hscript', hcommands'⟩ := hframe
  obtain ⟨command', hget'⟩ := hcommand frame' c hf' (hcommands' ▸ List.mem_of_getElem? hc)
  have hsame :=
    h.commands.old c command' (hahead.commands.lt _ (Table.contains_iff.2 ⟨command, hget⟩)) hget'
  rw [hget, Option.map_some, Option.some.injEq, id, id] at hsame
  subst hsame
  exact ⟨frame', c, command, hf', hthread.trans hthread', hcommands' ▸ hc, hget',
    hcommands' ▸ hcount, hscript' ▸ hsource, htokens⟩

end Later

/-! ## Leaving invocations out -/

/-- **The machine without some of its invocations.** Their frames stay. -/
def without (m : Machine) (ts : List ThreadHandle) : Machine :=
  { m with threads := m.threads.eraseAll ts }

variable {ts : List ThreadHandle}

/-- Leaving invocations out leaves out these and no others. -/
theorem get?_threads_without (m : Machine) (ts : List ThreadHandle) (t : ThreadHandle) :
    (m.without ts).threads.get? t = if t ∈ ts then none else m.threads.get? t :=
  Table.get?_eraseAll m.threads ts t

theorem get?_threads_without_of_notMem (ht : t ∉ ts) :
    (m.without ts).threads.get? t = m.threads.get? t := by
  rw [get?_threads_without, if_neg ht]

theorem stackAt_without (ht : t ∉ ts) : (m.without ts).stackAt t = m.stackAt t := by
  rw [stackAt, get?_threads_without_of_notMem ht]
  rfl

/-- A change of an invocation that is left out is none. -/
theorem without_modifyThread_of_mem (ht : t ∈ ts) (u : Thread → Thread) :
    (m.modifyThread t u).without ts = m.without ts := by
  refine ext_tables rfl (Table.ext_get? ?_ fun k => ?_) rfl rfl rfl
  · rw [without, Table.next_eraseAll, without, Table.next_eraseAll]
    rfl
  · rw [get?_threads_without, get?_threads_without, threads_modifyThread, Table.get?_modify]
    split
    · rfl
    · next hk =>
      have hne : k ≠ t := fun heq => hk (heq ▸ ht)
      rw [if_neg hne]

theorem without_modifyThread_of_notMem (ht : t ∉ ts) (u : Thread → Thread) :
    (m.modifyThread t u).without ts = (m.without ts).modifyThread t u := by
  refine ext_tables rfl (Table.ext_get? ?_ fun k => ?_) rfl rfl rfl
  · rw [without, Table.next_eraseAll, threads_modifyThread, Table.next_modify, threads_modifyThread,
      Table.next_modify, without, Table.next_eraseAll]
  · rw [get?_threads_without, threads_modifyThread, Table.get?_modify, threads_modifyThread,
      Table.get?_modify, get?_threads_without]
    by_cases hk : k = t
    · rw [if_neg (hk ▸ ht), if_pos hk, if_pos hk, if_neg (hk ▸ ht)]
    · rw [if_neg hk, if_neg hk]

theorem without_removeFrame (m : Machine) (f : FrameHandle) :
    (m.removeFrame f).without ts = (m.without ts).removeFrame f := by
  unfold removeFrame
  have hsame : (m.without ts).frames.get? f = m.frames.get? f := rfl
  rw [hsame]
  cases m.frames.get? f with
  | none => rfl
  | some frame => rfl

/-- Leaving invocations out commutes with what happens to the others. -/
theorem without_leave (ht : t ∉ ts) (f : FrameHandle) :
    ((m.unstack t f).removeFrame f).without ts = ((m.without ts).unstack t f).removeFrame f := by
  rw [without_removeFrame, unstack, without_modifyThread_of_notMem ht, unstack]

theorem without_removeFrames (m : Machine) (fs : List FrameHandle) :
    (fs.foldl removeFrame m).without ts = fs.foldl removeFrame (m.without ts) := by
  induction fs generalizing m with
  | nil => rfl
  | cons f fs ih => rw [List.foldl_cons, List.foldl_cons, ih, without_removeFrame]

theorem without_cleanup (ht : t ∉ ts) : (m.cleanup t).without ts = (m.without ts).cleanup t := by
  have hsame := get?_threads_without_of_notMem (m := m) ht
  cases hthread : m.threads.get? t with
  | none =>
    rw [hthread] at hsame
    rw [cleanup_of_get?_eq_none hthread, cleanup_of_get?_eq_none hsame]
  | some thread =>
    rw [hthread] at hsame
    rw [cleanup_of_get?_eq_some hthread, cleanup_of_get?_eq_some hsame, without_removeFrames]
    congr 1
    refine ext_tables rfl (Table.ext_get? ?_ fun k => ?_) rfl rfl rfl
    · simp [without, modifyTarget]
    · simp only [without, modifyTarget, Table.get?_eraseAll, Table.get?_erase]
      by_cases hk : k = t <;> by_cases hmem : k ∈ ts <;> simp [hk, hmem]

theorem without_pushed (ht : t ∉ ts) (script : Script) (args : List String) :
    (m.pushed t script args).without ts = (m.without ts).pushed t script args := by
  have hthreads :=
    congrArg Machine.threads (without_modifyThread_of_notMem (m := m) ht fun thread =>
    { thread with stack := m.frames.fresh :: thread.stack })
  exact ext_tables rfl hthreads rfl rfl rfl

/-- It also does with what is pushed on an invocation that is gone. -/
theorem without_pushed_of_dead (hdead : m.threads.get? t = none) (ts : List ThreadHandle) :
    (m.pushed t script args).without ts = (m.without ts).pushed t script args := by
  have hgone : (m.without ts).threads.get? t = none := by rw [get?_threads_without, hdead, ite_self]
  refine ext_tables rfl ?_ rfl rfl rfl
  rw [threads_pushed_of_dead hgone, without, threads_pushed_of_dead hdead]
  rfl

theorem without_abandoned (hdead : m.threads.get? t = none) (ts : List ThreadHandle) :
    (m.abandoned t script args).without ts = (m.without ts).abandoned t script args := by
  rw [abandoned, without_removeFrame, without_pushed_of_dead hdead]
  rfl

/-- The invocation that is being started is there without a frame. -/
theorem get?_threads_opened (m : Machine) (entity : EntityId) (name : String) (k : ThreadHandle) :
    (m.opened entity name).threads.get? k =
      if k = m.threads.fresh then some { target := (m.home entity).1.1, script := name }
      else m.threads.get? k := Table.get?_create m.threads _ k

/-- Without the new invocation, a machine has the invocations that it had. -/
theorem get?_threads_opened_without (hnew : m.threads.get? m.threads.fresh = none)
    (hts : m.threads.fresh ∉ ts) (entity : EntityId) (name : String) (k : ThreadHandle) :
    ((m.opened entity name).without (m.threads.fresh :: ts)).threads.get? k =
      (m.without ts).threads.get? k := by
  rw [get?_threads_without, get?_threads_opened, get?_threads_without]
  by_cases hk : k = m.threads.fresh
  · rw [hk, if_pos List.mem_cons_self, if_neg hts, hnew]
  · simp only [List.mem_cons, hk, false_or, if_false]

theorem Ahead.without (h : m.Ahead) (ts : List ThreadHandle) : (m.without ts).Ahead where
  targets := h.targets
  threads := h.threads.of_subset (Table.next_eraseAll _ _) fun k hk => by
    rw [get?_threads_without, hk, ite_self]
  frames := h.frames
  commands := h.commands

/-! ## Scripts that are being started -/

/-- A script that is being started: its invocation, and the target that is to list it. -/
structure Start where
  thread : ThreadHandle
  target : TargetHandle

/-- **A machine in which scripts are being started.** An invocation that is being started has no
frame, and may be gone; but for those invocations the machine is sound. -/
structure Opening (m : Machine) (starts : List Start) : Prop where
  sound : (m.without (starts.map Start.thread)).Sound
  home : ∀ s ∈ starts, ∃ target, m.targets.get? s.target = some target ∧ target.entity ≠ none
  bare : ∀ s ∈ starts, ∀ thread, m.threads.get? s.thread = some thread →
    thread.target = s.target ∧ thread.stack = [] ∧
      (thread.claimed = true → thread.wasClaimed = true)
  used : ∀ s ∈ starts, s.thread.isValid = true ∧ s.thread.raw < m.threads.next.raw

/-- In a sound machine, nothing is being started. -/
theorem Sound.opening (h : m.Sound) : m.Opening [] :=
  ⟨h, List.forall_mem_nil _, List.forall_mem_nil _, List.forall_mem_nil _⟩

theorem FrameEdit.without {frame frame' : Frame} (h : m.FrameEdit frame frame')
    (ts : List ThreadHandle) :
    (m.without ts).FrameEdit frame frame' := by
  cases h with
  | assign name value => exact .assign name value
  | result value => exact .result value
  | enterSub hindex => exact .enterSub hindex
  | leaveSub => exact .leaveSub
  | move index => exact .move index
  | scan =>
    have hscan : (m.without ts).scanFrom frame.cursor (frame.commands.drop frame.cursor) =
        m.scanFrom frame.cursor (frame.commands.drop frame.cursor) := by
      refine scanFrom_congr (fun _ _ => ?_) _
      rfl
    rw [← hscan]
    exact .scan
  | park hc hcommand hsource => exact .park hc hcommand hsource
  | complete value => exact .complete value

namespace Opening

variable {starts : List Start}

/-- What keeps the invocations that are being started, or takes them away, keeps the rest. -/
theorem next (h : m.Opening starts) (hsound : (m'.without (starts.map Start.thread)).Sound)
    (hle : m.threads.next.raw ≤ m'.threads.next.raw)
    (htargets : ∀ s ∈ starts, (m'.targets.get? s.target).map Target.entity =
      (m.targets.get? s.target).map Target.entity)
    (hthreads : ∀ s ∈ starts, ∀ thread', m'.threads.get? s.thread = some thread' →
      ∃ thread, m.threads.get? s.thread = some thread ∧ thread'.target = thread.target ∧
        thread'.stack = thread.stack ∧ ((thread.claimed = true → thread.wasClaimed = true) →
          thread'.claimed = true → thread'.wasClaimed = true)) : m'.Opening starts where
  sound := hsound
  home s hs := by
    obtain ⟨target, htarget, hentity⟩ := h.home s hs
    have hsame := htargets s hs
    rw [htarget, Option.map_some] at hsame
    obtain ⟨target', htarget', heq⟩ := Option.map_eq_some_iff.1 hsame
    exact ⟨target', htarget', heq ▸ hentity⟩
  bare s hs thread' hthread' := by
    obtain ⟨thread, hthread, htarget, hstack, hclaim⟩ := hthreads s hs thread' hthread'
    obtain ⟨htarget', hstack', hclaim'⟩ := h.bare s hs thread hthread
    exact ⟨htarget.trans htarget', hstack.trans hstack', hclaim hclaim'⟩
  used s hs := ⟨(h.used s hs).1, UInt32.lt_of_lt_of_le (h.used s hs).2 hle⟩

theorem edit (h : m.Opening starts) (hedit : Edit m m') : m'.Opening starts := by
  cases hedit with
  | frame hf hu =>
    exact h.next (h.sound.modifyFrame hf (hu.without _)) (UInt32.le_refl _) (fun _ _ => rfl)
      fun _ _ thread hthread => ⟨thread, hthread, rfl, rfl, id⟩
  | threadVariable t name value =>
    refine h.next ?_ (UInt32.le_refl _) (fun _ _ => rfl) fun s hs thread' hthread' => ?_
    · by_cases ht : t ∈ starts.map Start.thread
      · rw [without_modifyThread_of_mem ht]
        exact h.sound
      · rw [without_modifyThread_of_notMem ht]
        exact h.sound.edit (.threadVariable t name value)
    · rw [threads_modifyThread, Table.get?_modify] at hthread'
      split at hthread'
      · obtain ⟨thread, hthread, rfl⟩ := Option.map_eq_some_iff.1 hthread'
        exact ⟨thread, hthread, rfl, rfl, id⟩
      · exact ⟨thread', hthread', rfl, rfl, id⟩
  | targetVariable g name value =>
    exact h.next (h.sound.edit (.targetVariable g name value)) (UInt32.le_refl _)
      (fun s _ => Table.map_get?_modify m.targets s.target fun _ _ => rfl)
      fun _ _ thread hthread => ⟨thread, hthread, rfl, rfl, id⟩
  | globalVariable name value =>
    exact h.next (h.sound.edit (.globalVariable name value)) (UInt32.le_refl _) (fun _ _ => rfl)
      fun _ _ thread hthread => ⟨thread, hthread, rfl, rfl, id⟩

theorem edits (h : m.Opening starts) (hedits : Edits m m') : m'.Opening starts := by
  induction hedits with
  | refl => exact h
  | tail _ hedit ih => exact ih.edit hedit

/-- A claim does not meddle with what is being started. -/
theorem claim (h : m.Opening starts) (t : ThreadHandle) :
    (m.modifyThread t fun thread => { thread with claimed := true, wasClaimed := true }).Opening
      starts := by
  refine h.next ?_ (UInt32.le_refl _) (fun _ _ => rfl) fun s hs thread' hthread' => ?_
  · by_cases ht : t ∈ starts.map Start.thread
    · rw [without_modifyThread_of_mem ht]
      exact h.sound
    · rw [without_modifyThread_of_notMem ht]
      exact h.sound.move (.claim t)
  · rw [threads_modifyThread, Table.get?_modify] at hthread'
    split at hthread'
    · obtain ⟨thread, hthread, rfl⟩ := Option.map_eq_some_iff.1 hthread'
      exact ⟨thread, hthread, rfl, rfl, fun _ _ => rfl⟩
    · exact ⟨thread', hthread', rfl, rfl, id⟩

/-- Nothing lists an invocation that is being started. -/
theorem not_listed (h : m.Opening starts) (ht : t ∈ starts.map Start.thread) {g : TargetHandle}
    {target : Target} (hg : m.targets.get? g = some target) : t ∉ target.threads := by
  intro hmem
  obtain ⟨thread, hthread, -⟩ := h.sound.owned.thread_of_listed hg hmem
  rw [get?_threads_without, if_pos ht] at hthread
  cases hthread

/-- **Cancelling an invocation**, also one that is being started. -/
theorem cleanup (h : m.Opening starts) (t : ThreadHandle) : (m.cleanup t).Opening starts := by
  refine h.next ?_ ?_ (fun s _ => ?_) fun s _ thread hthread => ?_
  · by_cases ht : t ∈ starts.map Start.thread
    · cases hthread : m.threads.get? t with
      | none =>
        rw [cleanup_of_get?_eq_none hthread]
        exact h.sound
      | some thread =>
        -- the invocation has no frame and is on no list, so nothing goes with it
        obtain ⟨s, hs, rfl⟩ := List.mem_map.1 ht
        obtain ⟨-, hstack, -⟩ := h.bare s hs thread hthread
        have hsame : (m.cleanup s.thread).without (starts.map Start.thread) =
            m.without (starts.map Start.thread) := by
          rw [cleanup_of_get?_eq_some hthread, hstack, List.foldl_nil]
          refine ext_tables (Table.modify_eq_self fun target htarget => ?_)
            (Table.ext_get? ?_ fun k => ?_) rfl rfl rfl
          · have hkeep : ∀ k ∈ target.threads, decide (k ≠ s.thread) = true :=
              fun k hk => decide_eq_true fun heq => h.not_listed ht htarget (heq ▸ hk)
            rw [List.filter_eq_self.2 hkeep]
          · simp [without, modifyTarget]
          · simp only [without, modifyTarget, Table.get?_eraseAll, Table.get?_erase]
            by_cases hk : k = s.thread
            · rw [if_pos (hk ▸ ht), if_pos (hk ▸ ht)]
            · rw [if_neg hk]
        rw [hsame]
        exact h.sound
    · rw [without_cleanup ht]
      exact h.sound.cleanup t
  · rw [threads_cleanup, Table.next_erase]
    exact UInt32.le_refl _
  · rw [get?_targets_cleanup, Option.map_map]
    rfl
  · exact ⟨thread, (get?_threads_cleanup.1 hthread).1, rfl, rfl, id⟩

/-- **Taking the innermost frame away**, if it is not the only one. -/
theorem leave {f : FrameHandle} {below : List FrameHandle} (h : m.Opening starts)
    (ht : t ∉ starts.map Start.thread) (hstack : m.stackAt t = some (f :: below))
    (hbelow : below ≠ []) :
    ((m.unstack t f).removeFrame f).Opening starts := by
  refine h.next ?_ ?_ (fun s _ => ?_) fun s hs thread hthread => ?_
  · rw [without_leave ht]
    exact h.sound.leave ((stackAt_without ht).trans hstack) hbelow
  · rw [threads_removeFrame]
    exact UInt32.le_refl _
  · rw [targets_removeFrame, targets_unstack]
  · have hne : s.thread ≠ t := fun heq => ht (heq ▸ List.mem_map_of_mem hs)
    rw [threads_removeFrame, get?_threads_unstack, if_neg hne] at hthread
    exact ⟨thread, hthread, rfl, rfl, id⟩

/-- Nor does unwinding the stack of another invocation. -/
theorem unwinds {signal : Signal} (h : m.Opening starts) (ht : t ∉ starts.map Start.thread)
    (hunwinds : Unwinds t m signal m') : m'.Opening starts := by
  induction hunwinds with
  | finish => exact h.cleanup t
  | stop hstack => exact (h.leave ht hstack (List.cons_ne_nil _ _)).edits (edits_readied _ _)
  | next hstack _ ih =>
    exact ih ((h.leave ht hstack (List.cons_ne_nil _ _)).edits (edits_readied _ _))

/-- **Entering a script** on an invocation that is not being started. -/
theorem pushed {thread : Thread} {script : Script} {args : List String} (h : m.Opening starts)
    (ht : t ∉ starts.map Start.thread) (hthread : m.threads.get? t = some thread)
    (hscript : script.Readable) (hahead : (m.pushed t script args).Ahead) :
    (m.pushed t script args).Opening starts := by
  refine h.next ?_ (UInt32.le_refl _) (fun _ _ => rfl) fun s hs thread' hthread' => ?_
  · have hroom := (hahead.without (starts.map Start.thread)).roomy
    rw [without_pushed ht] at hroom ⊢
    exact h.sound.pushed ((get?_threads_without_of_notMem ht).trans hthread) hscript hroom
  · have hne : s.thread ≠ t := fun heq => ht (heq ▸ List.mem_map_of_mem hs)
    rw [get?_threads_pushed, if_neg hne] at hthread'
    exact ⟨thread', hthread', rfl, rfl, id⟩

/-! ## Beginning and end of a start -/

/-- An invocation that is not there yet is not being started. -/
theorem fresh_notMem (h : m.Opening starts) (hm : m.Ahead) :
    m.threads.fresh ∉ starts.map Start.thread := by
  intro hmem
  obtain ⟨s, hs, heq⟩ := List.mem_map.1 hmem
  have hlt := (h.used s hs).2
  rw [heq, hm.threads.fresh_eq] at hlt
  exact UInt32.lt_irrefl _ hlt

/-- **A start begins**: the entity has a target, and the invocation is there. -/
theorem opened (h : m.Opening starts) (hm : m.Ahead) (entity : EntityId) (name : String)
    (hahead : (m.opened entity name).Ahead) :
    (m.opened entity name).Opening (⟨m.threads.fresh, (m.home entity).1.1⟩ :: starts) := by
  have hnotMem := h.fresh_notMem hm
  have hroom : (m.without (starts.map Start.thread)).Roomy := (hm.without _).roomy
  have hhosting := h.sound.hosting hroom entity
  have hsame :=
    get?_threads_opened_without (hm.threads.fresh_eq ▸ hm.threads.get?_next) hnotMem entity name
  obtain ⟨target, hentity, htarget, hother, -⟩ :=
    home_spec (m := m) h.sound.proper.targets hroom.targets entity
  refine ⟨hhosting.congr ⟨hhosting.proper.targets, ⟨?_, fun k thread hk => ?_⟩,
    h.sound.proper.frames, h.sound.proper.commands⟩ (fun _ => rfl) hsame
      (fun _ => rfl) (fun _ => rfl),
    List.forall_mem_cons.2 ⟨?_, fun s hs => ?_⟩,
      List.forall_mem_cons.2 ⟨fun thread ht => ?_, fun s hs => ?_⟩,
    List.forall_mem_cons.2 ⟨?_, fun s hs => ?_⟩⟩
  · exact (Table.next_eraseAll _ _).symm ▸ hahead.threads.next
  · exact h.sound.proper.threads.live k thread ((hsame k).symm.trans hk)
  · exact ⟨target, htarget, by simp [hentity]⟩
  · by_cases heq : s.target = (m.home entity).1.1
    · exact ⟨target, heq ▸ htarget, by simp [hentity]⟩
    · obtain ⟨old, hold, hentity⟩ := h.home s hs
      exact ⟨old, (hother s.target heq).trans hold, hentity⟩
  · rw [get?_threads_opened, if_pos rfl] at ht
    cases ht
    exact ⟨rfl, rfl, fun hclaim => (by cases hclaim)⟩
  · intro thread ht
    have hne : s.thread ≠ m.threads.fresh := fun heq => hnotMem (heq ▸ List.mem_map_of_mem hs)
    rw [get?_threads_opened, if_neg hne] at ht
    exact h.bare s hs thread ht
  · refine ⟨hm.threads.fresh_eq ▸ hm.threads.next, hahead.threads.lt _ ?_⟩
    rw [Table.contains_eq, get?_threads_opened, if_pos rfl]
    rfl
  · have hlt := hahead.threads.lt _ (Table.contains_next_create hm.threads _)
    exact ⟨(h.used s hs).1, UInt32.lt_trans (h.used s hs).2 hlt⟩

/-- **A start succeeds**: the script is on the stack of the invocation, and the target lists it. -/
theorem attached {s : Start} {thread : Thread} {script : Script} (h : m.Opening (s :: starts))
    (hs : s.thread ∉ starts.map Start.thread) (hthread : m.threads.get? s.thread = some thread)
    (hscript : script.Readable) (hm : m.Ahead) (hahead : (m.pushed s.thread script []).Ahead) :
    ((m.pushed s.thread script []).modifyTarget s.target fun target =>
      { target with threads := target.threads ++ [s.thread] }).Opening starts := by
  obtain ⟨hhome, hhomes⟩ := List.forall_mem_cons.1 h.home
  obtain ⟨hbare, hbares⟩ := List.forall_mem_cons.1 h.bare
  obtain ⟨hused, huseds⟩ := List.forall_mem_cons.1 h.used
  obtain ⟨htarget, hstack, hclaim⟩ := hbare thread hthread
  have hproper := h.sound.proper
  have hne : ∀ e ∈ starts, e.thread ≠ s.thread := fun e he heq => hs (heq ▸ List.mem_map_of_mem he)
  have hattached :
      Attached s.thread s.target script (m.without (s.thread :: starts.map Start.thread))
        (((m.pushed s.thread script []).modifyTarget s.target fun target =>
        { target with threads := target.threads ++ [s.thread] }).without
        (starts.map Start.thread)) := by
    refine ⟨?_, hhome, fun k => ?_, fun k hk => ?_,
      ⟨{ thread with stack := [m.frames.fresh] }, ?_, htarget, rfl, hclaim⟩,
      get?_frames_pushed s.thread script [], rfl⟩
    · rw [get?_threads_without, if_pos List.mem_cons_self]
    · change (m.targets.modify s.target _).get? k = _
      rw [Table.get?_modify]
      by_cases hk : k = s.target
      · simp only [hk, if_true]
        rfl
      · simp only [hk, if_false, Option.map_id']
        rfl
    · rw [get?_threads_without, threads_modifyTarget, get?_threads_pushed, if_neg hk,
        get?_threads_without]
      simp only [List.mem_cons, hk, false_or]
    · rw [get?_threads_without_of_notMem hs, threads_modifyTarget, get?_threads_pushed, if_pos rfl,
        hthread, Option.map_some, hstack]
  refine ⟨h.sound.attached hm.frames.not_full hscript hattached ⟨hproper.targets.modify _ _, ?_,
    hproper.frames.create _, hproper.commands.createAll _⟩ hahead.commands.not_full, fun e he => ?_,
    fun e he other hother => ?_, huseds⟩
  · refine ⟨(Table.next_eraseAll _ _).symm ▸ hahead.threads.next, fun k other hk => ?_⟩
    by_cases hks : k = s.thread
    · exact hks ▸ hused.1
    · exact hproper.threads.live k other ((hattached.thread k hks).symm.trans hk)
  · obtain ⟨target, hget, hentity⟩ := hhomes e he
    rw [targets_modifyTarget, targets_pushed, Table.get?_modify, hget]
    split
    · exact ⟨_, rfl, hentity⟩
    · exact ⟨target, rfl, hentity⟩
  · rw [threads_modifyTarget, get?_threads_pushed, if_neg (hne e he)] at hother
    exact hbares e he other hother

/-- **A start fails**: what it made is taken away, unless something runs on the target by now. -/
theorem withdrawn {s : Start} (h : m.Opening (s :: starts)) (created : Bool)
    (hcreated : created = true → ∀ e ∈ starts, e.target ≠ s.target) :
    ({ m with
        threads := m.threads.erase s.thread
        targets := if created then m.targets.eraseIf s.target (·.threads.isEmpty) else m.targets } :
      Machine).Opening starts := by
  obtain ⟨⟨target, htarget, -⟩, hhomes⟩ := List.forall_mem_cons.1 h.home
  obtain ⟨-, hbares⟩ := List.forall_mem_cons.1 h.bare
  obtain ⟨-, huseds⟩ := List.forall_mem_cons.1 h.used
  have hthreads : ∀ e ∈ starts, ∀ thread, (m.threads.erase s.thread).get? e.thread = some thread →
      thread.target = e.target ∧ thread.stack = [] ∧
        (thread.claimed = true → thread.wasClaimed = true) := by
    intro e he thread hthread
    rw [Table.get?_erase] at hthread
    split at hthread
    · cases hthread
    · exact hbares e he thread hthread
  -- the target goes if it was made for the start and lists nothing
  by_cases hempty : created = true ∧ target.threads = []
  · obtain ⟨rfl, hnil⟩ := hempty
    have herase : m.targets.eraseIf s.target (·.threads.isEmpty) = m.targets.erase s.target := by
      rw [Table.eraseIf, htarget, Option.any_some, hnil]
      rfl
    have hlist :
        (m.without (s.thread :: starts.map Start.thread)).threadList s.target = some [] := by
      rw [threadList, ← hnil]
      exact congrArg (Option.map Target.threads) htarget
    simp only [if_true, herase]
    refine ⟨h.sound.eraseTarget hlist, fun e he => ?_, hthreads, huseds⟩
    obtain ⟨other, hother, hentity⟩ := hhomes e he
    refine ⟨other, ?_, hentity⟩
    rw [Table.get?_erase, if_neg (hcreated rfl e he), hother]
  · have hkeep : (if created then m.targets.eraseIf s.target (·.threads.isEmpty) else m.targets) =
        m.targets := by
      cases created with
      | false => rfl
      | true =>
        have hcons : target.threads ≠ [] := fun hnil => hempty ⟨rfl, hnil⟩
        rw [if_pos rfl, Table.eraseIf, htarget, Option.any_some, if_neg (by simpa using hcons)]
    rw [hkeep]
    exact ⟨h.sound, hhomes, hthreads, huseds⟩

/-- **A script was entered for an invocation that is gone.** -/
theorem abandoned {script : Script} {args : List String} (h : m.Opening starts)
    (hdead : m.threads.get? t = none) (hahead : (m.pushed t script args).Ahead) :
    (m.abandoned t script args).Opening starts := by
  have hroom := (hahead.without (starts.map Start.thread)).roomy
  have hgone : (m.without (starts.map Start.thread)).threads.get? t = none := by
    rw [get?_threads_without, hdead, ite_self]
  refine h.next ?_ ?_ (fun s _ => ?_) fun s hs thread hthread => ?_
  · rw [without_pushed_of_dead hdead] at hroom
    rw [without_abandoned hdead]
    exact h.sound.abandoned hgone hroom
  · rw [threads_abandoned hdead]
    exact UInt32.le_refl _
  · rw [targets_abandoned]
  · rw [threads_abandoned hdead] at hthread
    exact ⟨thread, hthread, rfl, rfl, id⟩

/-! ## Stepping -/

/-- **The stack of an invocation is in order**, unless it is being started. -/
theorem inOrder {thread : Thread} (h : m.Opening starts) (ht : t ∉ starts.map Start.thread)
    (hthread : m.threads.get? t = some thread) : m.InOrder t thread.stack := by
  have horder := h.sound.inOrder ((get?_threads_without_of_notMem ht).trans hthread)
  refine ⟨(stackAt_without ht).symm.trans horder.stack, horder.nodup, fun f hf => ?_, horder.apart⟩
  obtain ⟨frame, hframe, hown, hsound⟩ := horder.frame f hf
  exact ⟨frame, hframe, hown, hsound.congr fun _ _ => rfl⟩

/-- The invocation of a frame is not being started. -/
theorem thread_of_frame {f : FrameHandle} {frame : Frame} (h : m.Opening starts)
    (hf : m.frames.get? f = some frame) :
    frame.thread ∉ starts.map Start.thread ∧
      ∃ thread, m.threads.get? frame.thread = some thread := by
  obtain ⟨thread, hthread, -⟩ := h.sound.owned.thread_of_frame (m := m.without _) hf
  rw [get?_threads_without] at hthread
  split at hthread
  · cases hthread
  · next ht => exact ⟨ht, thread, hthread⟩

/-- **A frame does nothing**, or it is innermost and does not wait. -/
theorem idle_or_innermost (h : m.Opening starts) (f : FrameHandle) :
    (prepare f).run m = ⟨.ok (.settled .idle), m, []⟩ ∨
      ∃ t below frame, t ∉ starts.map Start.thread ∧ m.InOrder t (f :: below) ∧
        m.frames.get? f = some frame ∧ frame.pending = none := by
  have horder : ∀ frame, m.frames.get? f = some frame → ∃ fs, m.InOrder frame.thread fs := by
    intro frame hf
    obtain ⟨ht, thread, hthread⟩ := h.thread_of_frame hf
    exact ⟨thread.stack, h.inOrder ht hthread⟩
  rcases Machine.idle_or_innermost horder with hidle | ⟨below, frame, hinner, hf, hpending⟩
  · exact .inl hidle
  · exact .inr ⟨frame.thread, below, frame, (h.thread_of_frame hf).1, hinner, hf, hpending⟩

end Opening

end Machine

end StepScript
