import StepScript.Proofs.Host.Commute
import StepScript.Proofs.Host.Refusal
import StepScript.Proofs.Table.Names

/-!
# Proofs/Host/Cancel — cancelled invocations

Cancelling an invocation takes away what is its own, and nothing else: the invocation, its frames
with their commands, and its entry in the list of its target. Which invocations are cancelled
matters, and not in what order or how often. From then on steps of the invocation, or of one of its
frames, do nothing, until the handle is given out again.

* `Machine.Cancelled` — what is left.
* `Machine.cleanupAll_congr` — order and repetition do not matter.
* `Host.GivesOut` — an operation gives out a handle; `Host.Quiet.holds_perform_iff` says that in no
  other way does a handle come to name something.
* `Machine.GoesOn` — what may happen while a handle is not given out.
-/

namespace StepScript

/-- **What can be stepped**: an invocation or a frame. -/
inductive Steppable where
  | thread (t : ThreadHandle)
  | frame (f : FrameHandle)
deriving DecidableEq

namespace Machine

variable {m m' : Machine} {t : ThreadHandle} {x : Steppable}

/-! ## What is taken away -/

/-- **The second machine lacks an invocation**, with its frames and their commands, and is else like
the first. -/
structure Cancelled (t : ThreadHandle) (m m' : Machine) : Prop where
  /-- No other invocation is gone or changed. -/
  threads : ∀ k, m'.threads.get? k = if k = t then none else m.threads.get? k
  /-- Its target has lost one entry of its list, and nothing else; the other entries stand in the
  order they had. -/
  target : ∀ thread, m.threads.get? t = some thread → ∃ target before after,
    m.targets.get? thread.target = some target ∧ target.threads = before ++ t :: after ∧
      m'.targets.get? thread.target = some { target with threads := before ++ after }
  /-- The other targets are as they were. -/
  targets : ∀ g, m.runsOn t g = false → m'.targets.get? g = m.targets.get? g
  /-- Exactly the frames on its stack are gone. -/
  frames : ∀ f frame, m'.frames.get? f = some frame ↔ m.frames.get? f = some frame ∧ ¬ m.Stacks t f
  /-- Exactly the commands of these frames are gone. -/
  commands : ∀ c command, m'.commands.get? c = some command ↔
    m.commands.get? c = some command ∧ ∀ f, m.Stacks t f → ¬ m.Lists f c
  /-- What belongs to other invocations is as it was. -/
  others : ∀ k f, k ≠ t → m.Stacks k f → m'.frames.get? f = m.frames.get? f ∧
    ∀ c, m.Lists f c → m'.commands.get? c = m.commands.get? c
  /-- Global variables and counters are as they were. -/
  globals : m'.globals = m.globals
  counters : m'.targets.next = m.targets.next ∧ m'.threads.next = m.threads.next ∧
    m'.frames.next = m.frames.next ∧ m'.commands.next = m.commands.next
  /-- What is left belongs to what is left. -/
  linked : m'.Linked

/-- **Cancelling takes away one invocation** with all that is its own. -/
theorem Sound.cancelled (h : m.Sound) (t : ThreadHandle) : Cancelled t m (m.cleanup t) where
  threads k := by rw [threads_cleanup, Table.get?_erase]
  target thread ht := by
    obtain ⟨target, hg, hmem⟩ := h.owned.target_of_thread ht
    obtain ⟨before, after, heq⟩ := List.append_of_mem hmem
    refine ⟨target, before, after, hg, heq, ?_⟩
    have hnodup := h.owned.nodup_threads hg
    rw [heq] at hnodup
    have hout := List.nodup_middle.1 hnodup
    have hnot : t ∉ before ++ after := (List.nodup_cons.1 hout).1
    rw [get?_targets_cleanup, hg, Option.map_some, heq]
    have hruns : m.runsOn t thread.target = true := runsOn_iff.2 ⟨thread, ht, rfl⟩
    have hkeep : (before ++ after).filter (fun k => !(decide (k = t) && m.runsOn k thread.target)) =
        before ++ after := by
      refine List.filter_eq_self.2 fun k hk => ?_
      have hne : k ≠ t := fun heq => hnot (heq ▸ hk)
      simp [hne]
    rw [List.filter_append] at hkeep
    rw [List.filter_append, List.filter_cons_of_neg (by simp [hruns]), hkeep]
  targets g hg := by
    rw [get?_targets_cleanup]
    have hkeep : ∀ ks : List ThreadHandle,
        (ks.filter fun k => !(decide (k = t) && m.runsOn k g)) = ks := by
      refine fun ks => List.filter_eq_self.2 fun k _ => ?_
      by_cases hk : k = t <;> simp [hk, hg]
    simp only [hkeep, Option.map_id']
  frames f frame := get?_frames_cleanup
  commands c command := get?_commands_cleanup
  others k f hk hf := by
    have hframe : ¬ m.Stacks t f := by
      rw [h.owned.stacks_iff] at hf ⊢
      rw [hf]
      exact fun heq => hk (Option.some.inj heq)
    refine ⟨Option.ext fun frame => ?_, fun c hc => Option.ext fun command => ?_⟩
    · rw [get?_frames_cleanup, and_iff_left hframe]
    · rw [get?_commands_cleanup, and_iff_left]
      rintro e he ⟨other, hother, hlists⟩
      obtain ⟨frame, hget, hmem⟩ := hc
      exact hframe (h.owned.frame_unique hget hother hmem hlists ▸ he)
  globals := globals_cleanup m t
  counters := ⟨next_targets_cleanup m t, by rw [threads_cleanup, Table.next_erase],
    next_frames_cleanup m t, next_commands_cleanup m t⟩
  linked := (h.owned.cleanup t).linked

/-- **Which invocations are cancelled** is all that matters, not in what order or how often. -/
theorem cleanupAll_congr (m : Machine) {ts ks : List ThreadHandle} (hsame : ∀ t, t ∈ ts ↔ t ∈ ks) :
    ts.foldl cleanup m = ks.foldl cleanup m := by
  refine ext_tables (Table.ext_get? ?_ fun g => ?_)
    (Table.ext_get? ?_ fun t => Option.ext fun thread => ?_)
    (Table.ext_get? ?_ fun f => Option.ext fun frame => ?_)
    (Table.ext_get? ?_ fun c => Option.ext fun command => ?_) ?_
  · rw [next_targets_cleanupAll, next_targets_cleanupAll]
  · simp only [get?_targets_cleanupAll, hsame]
  · rw [next_threads_cleanupAll, next_threads_cleanupAll]
  · rw [get?_threads_cleanupAll, get?_threads_cleanupAll, hsame]
  · rw [next_frames_cleanupAll, next_frames_cleanupAll]
  · simp only [get?_frames_cleanupAll, hsame]
  · rw [next_commands_cleanupAll, next_commands_cleanupAll]
  · simp only [get?_commands_cleanupAll, hsame]
  · rw [globals_cleanupAll, globals_cleanupAll]

/-! ## Handles that name nothing -/

/-- Whether there is such an invocation or frame. -/
def holds (m : Machine) : Steppable → Bool
  | .thread t => m.threads.contains t
  | .frame f => m.frames.contains f

/-- The invocation itself, or a frame on its stack. -/
def Comprises (m : Machine) (t : ThreadHandle) : Steppable → Prop
  | .thread k => k = t
  | .frame f => m.Stacks t f

/-- What was cancelled is not there. -/
theorem holds_cleanup (hx : m.Comprises t x) : (m.cleanup t).holds x = false := by
  cases x with
  | thread k =>
    cases hx
    rw [holds, Table.contains_eq, threads_cleanup, Table.get?_erase, if_pos rfl]
    rfl
  | frame f =>
    rw [holds, Table.contains_eq, Option.isSome_eq_false_iff, Option.isNone_iff_eq_none]
    exact Option.eq_none_iff_forall_ne_some.2 fun frame hf => (get?_frames_cleanup.1 hf).2 hx

/-- What is there in a machine that has shrunk was there before. -/
theorem Shrinks.holds (h : Shrinks m m') (hlive : m'.holds x = true) : m.holds x = true := by
  cases x with
  | thread t => exact h.threads.contains hlive
  | frame f => exact h.frames.contains hlive

/-- What is there after a load was there in what was saved. -/
theorem Restored.holds {ρ : EntityId → Option EntityId} (h : Restored ρ m m')
    (hlive : m'.holds x = true) :
    m.holds x = true := by
  cases x with
  | thread t => exact h.contains_threads hlive
  | frame f => exact h.contains_frames hlive

theorem SameObjects.holds (h : SameObjects m m') (x : Steppable) : m'.holds x = m.holds x := by
  cases x with
  | thread t => rw [Machine.holds, Machine.holds, Table.contains_eq, Table.contains_eq, h.threads]
  | frame f => rw [Machine.holds, Machine.holds, Table.contains_eq, Table.contains_eq, h.frames]

/-- The innermost frame of an invocation is on its stack. -/
theorem stacks_of_frameOf {f : FrameHandle} (htop : m.frameOf t = some f) : m.Stacks t f := by
  obtain ⟨below, hstack⟩ := stackAt_of_frameOf htop
  obtain ⟨thread, hthread, heq⟩ := Option.map_eq_some_iff.1 hstack
  exact ⟨thread, hthread, heq ▸ List.mem_cons_self⟩

/-- A script that is entered adds a frame. -/
theorem holds_pushed (t : ThreadHandle) (script : Script) (args : List String) :
    (m.pushed t script args).holds x = true ↔ m.holds x = true ∨ x = .frame m.frames.fresh := by
  cases x with
  | thread k =>
    rw [holds, holds, Table.contains_eq, Table.contains_eq, get?_threads_pushed]
    split <;> simp
  | frame f =>
    rw [holds, holds, Table.contains_eq, Table.contains_eq, get?_frames_pushed]
    by_cases hf : f = m.frames.fresh <;> simp [hf]

/-- A script that is started adds an invocation and a frame. -/
theorem holds_started (entity : EntityId) (name : String) (script : Script) :
    (m.started entity name script).holds x = true ↔
      m.holds x = true ∨ x = .thread m.threads.fresh ∨ x = .frame m.frames.fresh := by
  cases x with
  | thread k =>
    rw [holds, holds, Table.contains_eq, Table.contains_eq, get?_threads_started]
    by_cases hk : k = m.threads.fresh <;> simp [hk]
  | frame f =>
    rw [holds, holds, Table.contains_eq, Table.contains_eq, get?_frames_started]
    by_cases hf : f = m.frames.fresh <;> simp [hf]

/-- A cursor that moves does not change which frame is made next. -/
theorem fresh_moveCursor (hproper : m.Proper) (hroom : m.Roomy) (f : FrameHandle) (index : Nat) :
    (m.moveCursor f index).frames.fresh = m.frames.fresh :=
  Table.fresh_congr hproper.frames.next hroom.frames rfl fun k =>
    Table.contains_modify m.frames f k _

end Machine

namespace Host

variable {η : Type} {h : Host η} {w : World η} {x : Steppable} {op : Operation}

open Machine

/-- **Steps** an invocation or a frame. -/
def stepOn (h : Host η) : Steppable → Act (World η) (Except Failure Signal)
  | .thread t => h.stepInvocation t
  | .frame f => h.step f

/-- **Steps of what is not there do nothing.** -/
theorem run_stepOn_of_dead (h : Host η) (hdead : w.machine.holds x = false) :
    (h.stepOn x).run w = ⟨.ok .idle, w, []⟩ := by
  cases x with
  | thread t =>
    rw [holds, Table.contains_eq, Option.isSome_eq_false_iff, Option.isNone_iff_eq_none] at hdead
    exact run_stepInvocation_of_dead hdead
  | frame f =>
    refine run_step_of_idle (run_prepare_of_idle fun frame hf => ?_)
    rw [holds, Table.contains_eq, hf] at hdead
    cases hdead

/-! ## Handles that are given out -/

/-- **The operation gives out the handle**: a start that succeeds gives one to the invocation and
one to its frame, and a `call` whose script is found gives one to the frame of the script. -/
inductive GivesOut (h : Host η) (w : World η) : Operation → Steppable → Prop where
  | thread {entity : EntityId} {name : String} {t : ThreadHandle}
    (hstarted : ((h.start entity name).run w).value = .ok t) :
    GivesOut h w (.start entity name) (.thread t)
  | frame {entity : EntityId} {name : String} {t : ThreadHandle}
    (hstarted : ((h.start entity name).run w).value = .ok t) :
    GivesOut h w (.start entity name) (.frame w.machine.frames.fresh)
  | call {op : Operation} {l : Line} {name : String} {args : List String} {script : Script}
    {warnings : List Diagnostic} (hop : op = .step l.frame ∨ op = .stepInvocation l.thread)
    (hcalls : h.Calls w l name args) (hscript : h.scriptAfter w l name = .ok (script, warnings)) :
    GivesOut h w op (.frame w.machine.frames.fresh)

/-- **A step brings nothing back** but the frame of a script that it enters. -/
theorem Quiet.calls_of_holds (hq : h.Quiet) (hsound : w.machine.Sound) (hroom : w.machine.Roomy)
    {f : FrameHandle} (hdead : w.machine.holds x = false)
    (hlive : ((h.step f).run w).state.machine.holds x = true) :
    ∃ (l : Line) (name : String) (args : List String) (script : Script)
      (warnings : List Diagnostic), l.frame = f ∧
      h.Calls w l name args ∧ h.scriptAfter w l name = .ok (script, warnings) ∧
      x = .frame w.machine.frames.fresh := by
  rcases hq.step_cases f hsound with hidle | ⟨t, below, frame, hstack, hf, hpending, hstepped⟩
  · rw [hidle, hdead] at hlive
    cases hlive
  · rcases hstepped.shrinks_or_entered with
      hshrinks | ⟨l, name, args, values, script, warnings, ⟨rfl, rfl⟩, hl, henters,
        hscript, hmachine⟩
    · rw [hshrinks.holds hlive] at hdead
      cases hdead
    · have hmove : Shrinks w.machine (w.machine.moveCursor l.frame (l.index + 1)) :=
        { Shrinks.refl _ with frames := .modify _ _ _ }
      have hstanding : w.machine.standing l.thread = .pending := by
        rw [standing_of_stack hstack, pendingAt_of_get? hf, hpending]
        rfl
      refine ⟨l, name, args, script, warnings, rfl,
        ⟨hstanding, frameOf_of_stackAt hstack, hl, henters⟩, hscript, ?_⟩
      rw [hmachine, holds_pushed] at hlive
      rcases hlive with hold | rfl
      · rw [hmove.holds hold] at hdead
        cases hdead
      · rw [fresh_moveCursor hsound.proper hroom]

/-- A `call` whose script is found makes a frame. -/
theorem Quiet.holds_of_calls (hq : h.Quiet) (hsound : w.machine.Sound) (hroom : w.machine.Roomy)
    {l : Line} {name : String} {args : List String} {script : Script} {warnings : List Diagnostic}
    (hcalls : h.Calls w l name args) (hscript : h.scriptAfter w l name = .ok (script, warnings)) :
    ((h.step l.frame).run w).state.machine.holds (.frame w.machine.frames.fresh) = true := by
  obtain ⟨-, -, hentered⟩ := hq.run_step_of_calls hsound hcalls
  obtain ⟨-, values, hmachine⟩ := hentered script warnings hscript
  rw [hmachine, holds_pushed, fresh_moveCursor hsound.proper hroom]
  exact .inr rfl

/-- **A start makes its invocation and a frame**, or nothing. -/
theorem Quiet.holds_start_iff (hq : h.Quiet) (hproper : w.machine.Proper) (hroom : w.machine.Roomy)
    (hdead : w.machine.holds x = false) (entity : EntityId) (name : String) :
    ((h.start entity name).run w).state.machine.holds x = true ↔
      ∃ t, ((h.start entity name).run w).value = .ok t ∧
        (x = .thread t ∨ x = .frame w.machine.frames.fresh) := by
  rw [hq.run_start hproper hroom]
  cases h.script name { w with machine := w.machine.opened entity name } with
  | error failure =>
    refine iff_of_false (fun hlive => ?_) fun ⟨t, hvalue, _⟩ => by cases hvalue
    have hsame := SameObjects.withdrawn w.machine entity
    rw [hsame.holds, hdead] at hlive
    cases hlive
  | ok result =>
    simp only [holds_started, hdead, Except.ok.injEq, exists_eq_left', Bool.false_eq_true, false_or]

/-- **The step of an invocation brings nothing back** but the frame of a script that it enters. -/
theorem Quiet.givesOut_of_stepInvocation (hq : h.Quiet) (hsound : w.machine.Sound)
    (hroom : w.machine.Roomy) {t : ThreadHandle} (hdead : w.machine.holds x = false)
    (hlive : ((h.stepInvocation t).run w).state.machine.holds x = true) :
    h.GivesOut w (.stepInvocation t) x := by
  cases ht : w.machine.threads.get? t with
  | none =>
    rw [run_stepInvocation_of_dead ht, hdead] at hlive
    cases hlive
  | some thread =>
    obtain ⟨f, below, hstack⟩ := hsound.exists_stack ht
    rw [run_stepInvocation hstack] at hlive
    obtain ⟨l, name, args, script, warnings, rfl, hcalls, hscript, rfl⟩ :=
      hq.calls_of_holds hsound hroom hdead hlive
    -- the frame is on one stack only
    have hown := hsound.owned.stacks_iff.1 (stacks_of_frameOf hcalls.innermost)
    rw [hsound.owned.stacks_iff.1 (stacks_of_frameOf (frameOf_of_stackAt hstack))] at hown
    exact .call (.inr (congrArg Operation.stepInvocation (Option.some.inj hown))) hcalls hscript

/-- **What comes to name something was given out.** -/
theorem Quiet.givesOut_of_holds (hq : h.Quiet) (hsound : w.machine.Sound) (hroom : w.machine.Roomy)
    (hdead : w.machine.holds x = false)
    (hlive : ((h.perform op).run w).state.machine.holds x = true) :
    h.GivesOut w op x := by
  -- all operations but starts and steps make nothing
  have hnothing : ¬ Shrinks w.machine ((h.perform op).run w).state.machine := by
    intro hshrinks
    rw [hshrinks.holds hlive] at hdead
    cases hdead
  cases op with
  | start entity name =>
    simp only [perform, Act.run_map] at hlive
    obtain ⟨t, hstarted, rfl | rfl⟩ :=
      (hq.holds_start_iff hsound.proper hroom hdead entity name).1 hlive
    · exact .thread hstarted
    · exact .frame hstarted
  | step f =>
    simp only [perform, Act.run_map] at hlive
    obtain ⟨l, name, args, script, warnings, rfl, hcalls, hscript, rfl⟩ :=
      hq.calls_of_holds hsound hroom hdead hlive
    exact .call (.inl rfl) hcalls hscript
  | stepInvocation t =>
    simp only [perform, Act.run_map] at hlive
    exact hq.givesOut_of_stepInvocation hsound hroom hdead hlive
  | complete f result =>
    simp only [perform, Act.run_map, World.run_onMachine] at hnothing
    exact absurd (edits_completeCall f result w.machine).shrinks hnothing
  | setVariable t token value =>
    simp only [perform, Act.run_map, World.run_onMachine] at hnothing
    exact absurd (edits_setVariable t token value w.machine).shrinks hnothing
  | setGlobal name value =>
    refine absurd ?_ hnothing
    exact ⟨.refl _, .refl _, .refl _, .refl _⟩
  | claim =>
    refine absurd ?_ hnothing
    simp only [perform, World.run_getMachine_bind]
    unfold Machine.claimNext
    split
    · exact .refl _
    · exact { Shrinks.refl _ with threads := .modify _ _ _ }
  | cleanup t => exact absurd (Shrinks.cleanup w.machine t) hnothing
  | reset => cases x <;> cases hlive

/-- **What is given out names something.** -/
theorem GivesOut.holds (hgives : h.GivesOut w op x) (hq : h.Quiet) (hsound : w.machine.Sound)
    (hroom : w.machine.Roomy) (hdead : w.machine.holds x = false) :
    ((h.perform op).run w).state.machine.holds x = true := by
  cases hgives with
  | thread hstarted =>
    simp only [perform, Act.run_map]
    exact (hq.holds_start_iff hsound.proper hroom hdead _ _).2 ⟨_, hstarted, .inl rfl⟩
  | frame hstarted =>
    simp only [perform, Act.run_map]
    exact (hq.holds_start_iff hsound.proper hroom hdead _ _).2 ⟨_, hstarted, .inr rfl⟩
  | call hop hcalls hscript =>
    have hmade := hq.holds_of_calls hsound hroom hcalls hscript
    rcases hop with rfl | rfl
    · simp only [perform, Act.run_map]
      exact hmade
    · simp only [perform, Act.run_map]
      rw [(hq.run_step_of_calls hsound hcalls).1]
      exact hmade

/-- **A handle that names nothing comes to name something** exactly by being given out. -/
theorem Quiet.holds_perform_iff (hq : h.Quiet) (hsound : w.machine.Sound) (hroom : w.machine.Roomy)
    (hdead : w.machine.holds x = false) (op : Operation) :
    ((h.perform op).run w).state.machine.holds x = true ↔ h.GivesOut w op x :=
  ⟨hq.givesOut_of_holds hsound hroom hdead, fun hgives => hgives.holds hq hsound hroom hdead⟩

end Host

namespace Machine

variable {m m' : Machine} {x : Steppable}

/-! ## Later -/

/-- **The machine goes on, and the handle is not given out**: hosts that leave the machine alone
while they are asked perform operations, and saves are loaded in which the handle names nothing. -/
inductive GoesOn (x : Steppable) (m : Machine) : Machine → Prop where
  | refl : GoesOn x m m
  | perform {η : Type} {h : Host η} {w : World η} {op : Operation} (hbefore : GoesOn x m w.machine)
    (hquiet : h.Quiet) (hroom : ((h.perform op).run w).state.machine.Roomy)
    (hkept : ¬ h.GivesOut w op x) :
    GoesOn x m ((h.perform op).run w).state.machine
  | load {m' saved : Machine} {bs : Bytes} (s : Setting) (hbefore : GoesOn x m m')
    (hsaved : Reachable saved) (hsave : saved.save = .ok bs) (hfits : saved.Fits)
    (hkept : saved.holds x = false) :
    GoesOn x m ((load s bs).run m').state

namespace GoesOn

/-- A machine that goes on stays one that hosts can make. -/
theorem reachable (h : GoesOn x m m') (hm : m.Reachable) : m'.Reachable := by
  induction h with
  | refl => exact hm
  | perform _ hquiet hroom _ ih => exact .perform hquiet ih hroom
  | load s _ hsaved hsave hfits _ ih => exact .load s ih hsaved hsave hfits

/-- **A handle that names nothing** goes on to name nothing. -/
theorem dead (h : GoesOn x m m') (hm : m.Reachable) (hdead : m.holds x = false) :
    m'.holds x = false := by
  induction h with
  | refl => exact hdead
  | perform hbefore hquiet _ hkept ih =>
    obtain ⟨hsound, hroom⟩ := (hbefore.reachable hm).sound_and_roomy
    exact Bool.eq_false_iff.2 fun hlive =>
      hkept ((hquiet.holds_perform_iff hsound hroom ih _).1 hlive)
  | load s _ hsaved hsave hfits hkept _ =>
    obtain ⟨-, -, hrestored⟩ := hsaved.sound.load_save hfits hsave s _
    refine Bool.eq_false_iff.2 fun hlive => ?_
    rw [hrestored.holds hlive] at hkept
    cases hkept

end GoesOn

theorem Reachable.cleanup (h : m.Reachable) (t : ThreadHandle) : (m.cleanup t).Reachable := by
  have hperform : (((asking {}).perform (.cleanup t)).run ⟨m, []⟩).state.machine =
    m.cleanup t := rfl
  have hroom := (Shrinks.cleanup m t).roomy h.sound_and_roomy.2
  rw [← hperform] at hroom ⊢
  exact .perform (quiet_asking {}) h hroom

/-- **Cancelling removes one subtree.** It takes away an invocation with all that is its own, once;
several invocations can be cancelled in any order. Later steps of the invocation, or of a frame that
it had, do nothing until the handle is given out again. -/
theorem Reachable.cancel_one_subtree (h : m.Reachable) (t : ThreadHandle) :
    Cancelled t m (m.cleanup t) ∧ (m.cleanup t).cleanup t = m.cleanup t ∧
      (∀ k, (m.cleanup t).cleanup k = (m.cleanup k).cleanup t) ∧
      ∀ x, m.Comprises t x → ∀ {η : Type} (host : Host η)
      (w : World η), GoesOn x (m.cleanup t) w.machine →
        (host.stepOn x).run w = ⟨.ok .idle, w, []⟩ := by
  have hagain : [t, t].foldl Machine.cleanup m = [t].foldl Machine.cleanup m :=
    m.cleanupAll_congr fun k => by simp
  have horder : ∀ k, [t, k].foldl Machine.cleanup m = [k, t].foldl Machine.cleanup m :=
    fun k => m.cleanupAll_congr fun e => by simp [or_comm]
  refine ⟨h.sound.cancelled t, hagain, horder, fun x hx η host w hlater => ?_⟩
  exact host.run_stepOn_of_dead (hlater.dead (h.cleanup t) (holds_cleanup hx))

/-- The first of two invocations on one entity has entered a script. -/
def halfway : World (List Call) := ((calling.perform (.stepInvocation ⟨1⟩)).run abreast).state

/-- The first was cancelled, and the second has entered a script. -/
def carriedOn : World (List Call) :=
  ((calling.perform (.stepInvocation ⟨2⟩)).run ⟨halfway.machine.cleanup ⟨1⟩, halfway.own⟩).state

/-- The world in which the first invocation has entered a script is one that hosts can come to. -/
theorem reachable_halfway : halfway.machine.Reachable := by
  have hroom : halfway.machine.Roomy := roomy_of_free 9 (by decide) (by decide +kernel)
  unfold halfway at hroom ⊢
  exact .perform quiet_calling reachable_abreast hroom

/-- The frame of a script that was cancelled does nothing, while the other invocation gets a new
frame. -/
theorem halfway_cancelled :
    halfway.machine.Reachable ∧ halfway.machine.stackAt ⟨1⟩ = some [⟨3⟩, ⟨1⟩] ∧
      Cancelled ⟨1⟩ halfway.machine (halfway.machine.cleanup ⟨1⟩) ∧
      GoesOn (.frame ⟨3⟩) (halfway.machine.cleanup ⟨1⟩) carriedOn.machine ∧
      carriedOn.machine.stackAt ⟨2⟩ = some [⟨4⟩, ⟨2⟩] ∧
      (calling.stepOn (.frame ⟨3⟩)).run carriedOn = ⟨.ok .idle, carriedOn, []⟩ := by
  have hstack : halfway.machine.stackAt ⟨1⟩ = some [⟨3⟩, ⟨1⟩] := by decide +kernel
  obtain ⟨thread, hthread, heq⟩ := Option.map_eq_some_iff.1 hstack
  have hframe : halfway.machine.Comprises ⟨1⟩ (.frame ⟨3⟩) :=
    ⟨thread, hthread, heq ▸ List.mem_cons_self⟩
  have hroom : carriedOn.machine.Roomy := roomy_of_free 9 (by decide) (by decide +kernel)
  have hdead : carriedOn.machine.holds (.frame ⟨3⟩) = false := by decide +kernel
  obtain ⟨hcancelled, -, -, hidle⟩ := reachable_halfway.cancel_one_subtree ⟨1⟩
  have hgoes : GoesOn (.frame ⟨3⟩) (halfway.machine.cleanup ⟨1⟩) carriedOn.machine := by
    obtain ⟨hsound, hbefore⟩ := (reachable_halfway.cleanup ⟨1⟩).sound_and_roomy
    have hgone := holds_cleanup hframe
    unfold carriedOn at hroom hdead ⊢
    generalize halfway.machine.cleanup ⟨1⟩ = m at *
    refine .perform .refl quiet_calling hroom fun hgives => ?_
    rw [(quiet_calling.holds_perform_iff hsound hbefore hgone _).2 hgives] at hdead
    cases hdead
  exact ⟨reachable_halfway, hstack, hcancelled, hgoes, by decide +kernel,
    hidle _ hframe calling carriedOn hgoes⟩

end Machine

end StepScript
