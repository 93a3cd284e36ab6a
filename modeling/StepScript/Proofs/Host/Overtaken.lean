import StepScript.Proofs.Host.Reentry

/-!
# Proofs/Host/Overtaken — operations that a reset overtakes

While a script is looked for, the host may reset the machine and start other scripts. A reset makes
the counters begin anew, so the handle for which the script is looked for may be given out again:
then the operation goes on with an invocation that it knows nothing of.

* `Host.Starts` — starting scripts, also while others are looked for; `Host.Starts.occupied` says
  that no target is left without an invocation.
* `Host.failsCleanly_iff_of_reset` — the operation fails and leaves everything as it found it, if
  and only if its handle was not given out again, or a call was refused its script.
-/

namespace StepScript

/-- Whether the reply is that the operation failed. -/
def Reply.isFailure : Reply → Bool
  | .started result => !result.isOk
  | .stepped result => !result.isOk
  | .completed result => !result.isOk
  | _ => false

namespace Machine

variable {m m' m'' : Machine} {g : TargetHandle} {gs : List TargetHandle} {created : Bool}

/-- **The machines hold the same objects** and global variables; their counters may differ. -/
structure SameObjects (m m' : Machine) : Prop where
  targets : ∀ g, m'.targets.get? g = m.targets.get? g
  threads : ∀ t, m'.threads.get? t = m.threads.get? t
  frames : ∀ f, m'.frames.get? f = m.frames.get? f
  commands : ∀ c, m'.commands.get? c = m.commands.get? c
  globals : m'.globals = m.globals

theorem SameObjects.refl (m : Machine) : SameObjects m m :=
  ⟨fun _ => rfl, fun _ => rfl, fun _ => rfl, fun _ => rfl, rfl⟩

/-- A script that comes too late leaves no object behind. -/
theorem SameObjects.abandoned {t : ThreadHandle} {script : Script} {args : List String}
    (hproper : m.Proper) (hdead : m.threads.get? t = none)
    (hroom : (m.pushed t script args).Roomy) :
    SameObjects m (m.abandoned t script args) where
  targets g := by rw [targets_abandoned]
  threads k := by rw [threads_abandoned hdead]
  frames := get?_frames_abandoned hproper.frames hroom
  commands := get?_commands_abandoned hproper.commands hroom
  globals := by
    rw [Machine.abandoned, globals_removeFrame]
    rfl

/-! ## Targets without invocations -/

/-- **Only the given targets may be without an invocation.** -/
def Occupied (m : Machine) (gs : List TargetHandle) : Prop :=
  ∀ g target, m.targets.get? g = some target → target.threads = [] → g ∈ gs

/-- A start that begins may make a target, on which nothing runs yet. -/
theorem Occupied.opened (h : m.Occupied gs) (hproper : m.targets.Proper) (hroom : ¬ m.targets.Full)
    (entity : EntityId) (name : String) :
    (m.opened entity name).Occupied
      (if (m.home entity).1.2 then (m.home entity).1.1 :: gs else gs) := by
  intro k target hk hidle
  obtain ⟨home, -, -, hother, ⟨-, heq⟩ | ⟨-, -, heq⟩⟩ := home_spec hproper hroom entity
  · rw [Machine.opened, heq] at hk
    rw [heq]
    exact h k target hk hidle
  · have hcreated : (m.home entity).1.2 = true := by rw [heq]
    rw [if_pos hcreated]
    by_cases hne : k = (m.home entity).1.1
    · exact hne ▸ List.mem_cons_self
    · exact List.mem_cons_of_mem _ (h k target ((hother k hne).symm.trans hk) hidle)

/-- A target goes only if it has no invocations; all others stay. -/
theorem get?_targets_eraseIf (k : TargetHandle) : (m.targets.eraseIf g (·.threads.isEmpty)).get? k =
    if k = g then (m.targets.get? k).filter (!·.threads.isEmpty) else m.targets.get? k := by
  rw [Table.eraseIf]
  by_cases hk : k = g
  · subst hk
    cases hget : m.targets.get? k with
    | none => simp [hget]
    | some target => cases hidle : target.threads.isEmpty <;> simp [hget, hidle, Option.filter]
  · split <;> simp [hk]

/-- A start that fails takes the target away that it made, if nothing runs on it. -/
theorem Occupied.withdrawn (h : m.Occupied (if created then g :: gs else gs))
    (htargets : m'.targets = if created then m.targets.eraseIf g (·.threads.isEmpty)
      else m.targets) :
    m'.Occupied gs := by
  intro k target hk hidle
  cases created with
  | false =>
    rw [htargets] at hk
    exact h k target hk hidle
  | true =>
    rw [htargets, if_pos rfl, get?_targets_eraseIf] at hk
    split at hk
    · have hbusy := (Option.filter_eq_some_iff.1 hk).2
      rw [hidle] at hbusy
      cases hbusy
    · next hne => exact (List.mem_cons.1 (h k target hk hidle)).resolve_left hne

/-- A start that succeeds has its target list the invocation. -/
theorem Occupied.attached (h : m.Occupied (if created then g :: gs else gs)) (t : ThreadHandle)
    (htargets : m'.targets = (m.modifyTarget g fun target =>
      { target with threads := target.threads ++ [t] }).targets) : m'.Occupied gs := by
  intro k target hk hidle
  rw [htargets, targets_modifyTarget, Table.get?_modify] at hk
  split at hk
  · obtain ⟨old, -, rfl⟩ := Option.map_eq_some_iff.1 hk
    exact absurd hidle (List.append_ne_nil_of_right_ne_nil _ (List.cons_ne_nil _ _))
  · next hne =>
    have hmem := h k target hk hidle
    cases created with
    | false => exact hmem
    | true => exact (List.mem_cons.1 hmem).resolve_left hne

/-- **What a failed start takes away** is there no longer, if its invocation is not there and no
target is idle. -/
theorem SameObjects.withdrawn_iff {t : ThreadHandle} (h : SameObjects m m') (hbusy : m.Occupied [])
    (hafter : m'' = { m' with
      threads := m'.threads.erase t
      targets := if created then m'.targets.eraseIf g (·.threads.isEmpty) else m'.targets }) :
    SameObjects m m'' ↔ m.threads.get? t = none := by
  subst hafter
  refine ⟨fun hsame => ?_, fun hdead => ⟨fun k => ?_, fun k => ?_, h.frames, h.commands, h.globals⟩⟩
  · have hthread := hsame.threads t
    rw [Table.get?_erase, if_pos rfl] at hthread
    exact hthread.symm
  · cases created with
    | false => exact h.targets k
    | true =>
      refine (get?_targets_eraseIf k).trans ?_
      rw [h.targets]
      split
      · cases htarget : m.targets.get? k with
        | none => rfl
        | some target =>
          have hcons : target.threads ≠ [] :=
            fun hidle => absurd (hbusy k target htarget hidle) List.not_mem_nil
          simp [Option.filter, hcons]
      · rfl
  · rw [Table.get?_erase, h.threads]
    split
    · next hk => rw [hk, hdead]
    · rfl

end Machine

namespace Host

open Machine (Opening Start SameObjects)

variable {η : Type} {h : Host η} {w w' u : World η} {t : ThreadHandle} {f : FrameHandle}
  {name : String} {args : List String}

/-- **What a host may do that only starts scripts.** While it looks for one of these, it may start
more. -/
inductive Starts : World η → World η → Prop where
  | refl (w : World η) : Starts w w
  | own {w v : World η} (hbefore : Starts w v) (own : η) : Starts w { v with own }
  | start {w v : World η} {h : Host η} {entity : EntityId} {name : String} (hbefore : Starts w v)
    (htext : h.Numbered) (hforward : h.Forward v (.start entity name))
    (hanswer : Starts { v with machine := v.machine.opened entity name }
      ((h.load name).run { v with machine := v.machine.opened entity name }).state) :
    Starts w ((h.perform (.start entity name)).run v).state

/-- Starting scripts is something that hosts may do while they are asked. -/
theorem Starts.meanwhile (hstarts : Starts w w') : Meanwhile w w' := by
  induction hstarts with
  | refl w => exact .start w
  | own _ own ih => exact .own ih own
  | start _ htext hforward _ ih ihanswer =>
    refine .perform ih (by simp) htext hforward fun q u hq => ?_
    cases hq
    exact ihanswer

/-- **No target is left idle**, but for those of which it is known. -/
theorem Starts.occupied (hstarts : Starts w w') {starts : List Start} {gs : List TargetHandle}
    (hopening : w.machine.Opening starts) (hahead : w.machine.Ahead)
    (hbusy : w.machine.Occupied gs) :
    w'.machine.Occupied gs := by
  induction hstarts generalizing starts gs with
  | refl w => exact hbusy
  | own _ own ih => exact ih hopening hahead hbusy
  | @start w v h entity name hbefore htext hforward hanswer ih ihanswer =>
    obtain ⟨hopening', hahead', -⟩ := hbefore.meanwhile.upholds starts hopening hahead
    have hasked := hforward.asked _ _ rfl
    have hbegun := hopening'.opened hahead' entity name hasked
    have hbusy' := (ih hopening hahead hbusy).opened hopening'.sound.proper.targets
      hahead'.targets.not_full entity name
    have hleft := ihanswer hbegun hasked hbusy'
    obtain ⟨hloaded, -, -⟩ := hanswer.meanwhile.upholds _ hbegun hasked
    simp only [perform, Act.run_map]
    rcases h.pushFrame_cases { v with machine := v.machine.opened entity name }
        v.machine.threads.fresh name [] with
      ⟨failure, -, hvalue, hstate⟩ | ⟨script, warnings, -, ⟨thread, f, -, hvalue, hstate⟩ |
        ⟨failure, -, hvalue, hstate⟩⟩
    · rw [start_of_error hvalue hstate]
      exact hleft.withdrawn rfl
    · obtain ⟨target, htarget, -⟩ := hloaded.home _ List.mem_cons_self
      rw [start_of_ok hvalue hstate (Table.contains_iff.2 ⟨target, htarget⟩)]
      exact hleft.attached v.machine.threads.fresh rfl
    · rw [start_of_error hvalue hstate]
      refine hleft.withdrawn ?_
      dsimp only
      rw [Machine.targets_abandoned]

/-- **After a reset and any number of starts** the machine is in order, and no target is idle. -/
theorem Starts.of_reset {own : η} (hstarts : Starts ⟨∅, own⟩ w) :
    w.machine.Proper ∧ w.machine.Occupied [] := by
  have hopening := Machine.Sound.empty.opening
  have hahead : (∅ : Machine).Ahead := by decide
  have hupheld := hstarts.meanwhile.upholds [] hopening hahead
  refine ⟨hupheld.opening.sound.proper, hstarts.occupied hopening hahead fun g target hg => ?_⟩
  cases hg

/-! ## How an operation goes on -/

/-- **How a start ends**: it passes on why there is no script, lists its invocation, or finds its
target gone. -/
theorem exists_run_start (h : Host η) (w : World η) (entity : EntityId) (name : String) :
    ∃ finish : Except Failure FrameHandle → Act (World η) (Except Failure ThreadHandle),
      (h.start entity name).run w = (h.pushFrame w.machine.threads.fresh name [] >>= finish).run
        { w with machine := w.machine.opened entity name } ∧
      (∀ failure v, ((finish (.error failure)).run v).value = .error failure) ∧
      ∀ f v, (v.machine.targets.contains (w.machine.home entity).1.1 = true →
          ((finish (.ok f)).run v).value = .ok w.machine.threads.fresh) ∧
        (¬ v.machine.targets.contains (w.machine.home entity).1.1 = true →
          ((finish (.ok f)).run v).state.machine = v.machine.cleanup w.machine.threads.fresh) := by
  unfold start
  rw [World.run_getMachine_bind]
  dsimp only
  rw [World.run_modifyMachine_bind]
  refine ⟨_, rfl, fun _ _ => rfl, fun f v => ⟨fun hhome => ?_, fun hgone => ?_⟩⟩
  · dsimp only
    rw [World.run_getMachine_bind, Act.run_ite]
    rw [Machine.home] at hhome
    rw [if_pos hhome]
    rfl
  · dsimp only
    rw [World.run_getMachine_bind, Act.run_ite]
    rw [Machine.home] at hgone
    rw [if_neg hgone]
    rfl

/-- Entering a script succeeds if the script can be pushed. -/
theorem value_enter (h : Host η) (w : World η) (l : Line) (name : String) (args : List String) :
    ((h.enter l name args).run w).value.isOk = ((h.pushFrame l.thread name args).run
      { w with machine := w.machine.moveCursor l.frame (l.index + 1) }).value.isOk := by
  unfold enter
  rw [World.run_modifyMachine_bind, Act.run_bind]
  cases ((h.pushFrame l.thread name args).run
    { w with machine := w.machine.moveCursor l.frame (l.index + 1) }).value with
  | error failure => rfl
  | ok frame => rfl

/-- **A step that asks for a script** ends as looking for it does. -/
theorem step_of_question (hask : h.questionOf w f = some (.script t name args, u)) :
    ((h.step f).run w).state = ((h.pushFrame t name args).run u).state ∧
      ((h.step f).run w).value.isOk = ((h.pushFrame t name args).run u).value.isOk := by
  unfold questionOf at hask
  unfold step
  rw [Act.run_bind, World.run_liftM]
  dsimp only at hask ⊢
  cases hready : ((Machine.prepare f).run w.machine).value with
  | error failure =>
    rw [hready] at hask
    cases hask
  | ok readied =>
    rw [hready] at hask
    cases readied with
    | settled signal => cases hask
    | line l =>
      dsimp only at hask ⊢
      unfold questionAt at hask
      unfold execute
      rw [Act.run_bind, World.run_liftM]
      dsimp only at hask ⊢
      cases hplan :
          ((Machine.plan h.toSetting l).run ((Machine.prepare f).run w.machine).state).value with
      | go flow =>
        rw [hplan] at hask
        cases hask
      | ask call assignTo =>
        rw [hplan] at hask
        cases hask
      | enter name args =>
        rw [hplan] at hask
        cases hask
        exact ⟨state_enter .., value_enter ..⟩

/-- A step of an invocation asks what the step of its innermost frame asks. -/
theorem stepInvocation_of_question {q : Question}
    (hask : (w.machine.frameOf t).bind (h.questionOf w) = some (q, u)) :
    ∃ f, (h.stepInvocation t).run w = (h.step f).run w ∧ h.questionOf w f = some (q, u) := by
  obtain ⟨f, hf, hask⟩ := Option.bind_eq_some_iff.1 hask
  obtain ⟨below, hstack⟩ := Machine.stackAt_of_frameOf hf
  exact ⟨f, run_stepInvocation hstack, hask⟩

/-! ## Failing cleanly -/

/-- **The operation fails cleanly**: it is refused, and the machine holds what the host had left in
it. -/
structure FailsCleanly (h : Host η) (w : World η) (op : Operation) (left : Machine) : Prop where
  refused : ((h.perform op).run w).value.isFailure = true
  same : SameObjects left ((h.perform op).run w).state.machine

/-- **A call** fails cleanly if its invocation is gone, or if there is no script. -/
theorem failsCleanly_call_iff {op : Operation}
    (hstate : ((h.perform op).run w).state = ((h.pushFrame t name args).run u).state)
    (hvalue : ((h.perform op).run w).value.isFailure =
      !((h.pushFrame t name args).run u).value.isOk)
    (hproper : ((h.load name).run u).state.machine.Proper)
    (hroom : (h.supplied u (.script t name args)).Roomy) :
    h.FailsCleanly w op ((h.load name).run u).state.machine ↔
      ((h.load name).run u).state.machine.threads.get? t = none ∨
        ∃ failure, h.script name u = .error failure := by
  rcases h.pushFrame_cases u t name args with
    ⟨failure, hscript, hpush, hleft⟩ | ⟨script, warnings, hscript,
    ⟨thread, f, hthread, hpush, hleft⟩ | ⟨failure, hdead, hpush, hleft⟩⟩
  · refine iff_of_true ⟨?_, ?_⟩ (.inr ⟨failure, hscript⟩)
    · rw [hvalue, hpush]
      rfl
    · rw [hstate, hleft]
      exact .refl _
  · refine iff_of_false (fun hclean => ?_) ?_
    · have hrefused := hclean.refused
      rw [hvalue, hpush] at hrefused
      cases hrefused
    · rintro (hdead | ⟨failure, herror⟩)
      · rw [hthread] at hdead
        cases hdead
      · rw [hscript] at herror
        cases herror
  · refine iff_of_true ⟨?_, ?_⟩ (.inl hdead)
    · rw [hvalue, hpush]
      rfl
    · rw [hstate, hleft]
      simp only [Host.supplied, hscript] at hroom
      exact .abandoned hproper hdead hroom

section

variable {entity : EntityId} (hu : u = { w with machine := w.machine.opened entity name })

include hu

/-- A start without a script is refused, and takes away what it made. -/
theorem failsCleanly_start_of_error {failure : Failure} {left : Machine}
    (hpush : ((h.pushFrame w.machine.threads.fresh name []).run u).value = .error failure)
    (hsame : SameObjects left ((h.pushFrame w.machine.threads.fresh name []).run u).state.machine)
    (hbusy : left.Occupied []) :
    h.FailsCleanly w (.start entity name) left ↔
      left.threads.get? w.machine.threads.fresh = none := by
  subst hu
  have hwithdrawn := hsame.withdrawn_iff hbusy (start_of_error hpush rfl)
  obtain ⟨finish, hrun, herror, -⟩ := h.exists_run_start w entity name
  refine ⟨fun hclean => hwithdrawn.1 ?_, fun hdead => ⟨?_, ?_⟩⟩
  · have hleft := hclean.same
    rwa [perform, Act.run_map] at hleft
  · rw [perform, Act.run_map, hrun, Act.run_bind, hpush]
    dsimp only
    rw [Reply.isFailure, herror]
    rfl
  · rw [perform, Act.run_map]
    exact hwithdrawn.2 hdead

/-- A start that finds its invocation puts its script on it, or cancels it. -/
theorem not_failsCleanly_start_of_ok {f : FrameHandle} {thread : Thread} {left : Machine}
    (hpush : ((h.pushFrame w.machine.threads.fresh name []).run u).value = .ok f)
    (hthread : left.threads.get? w.machine.threads.fresh = some thread) :
    ¬ h.FailsCleanly w (.start entity name) left := by
  subst hu
  rintro ⟨hrefused, hsame⟩
  obtain ⟨finish, hrun, -, hok⟩ := h.exists_run_start w entity name
  rw [perform, Act.run_map, hrun, Act.run_bind, hpush] at hrefused hsame
  by_cases hhome : ((h.pushFrame w.machine.threads.fresh name []).run
      { w with machine := w.machine.opened entity name }).state.machine.targets.contains
        (w.machine.home entity).1.1 = true
  · dsimp only at hrefused
    rw [Reply.isFailure, (hok f _).1 hhome] at hrefused
    cases hrefused
  · have hgone := hsame.threads w.machine.threads.fresh
    dsimp only at hgone
    rw [(hok f _).2 hhome, Machine.threads_cleanup, Table.get?_erase, if_pos rfl, hthread] at hgone
    cases hgone

/-- **A start** fails cleanly if its invocation is gone. -/
theorem failsCleanly_start_iff (hproper : ((h.load name).run u).state.machine.Proper)
    (hbusy : ((h.load name).run u).state.machine.Occupied [])
    (hroom : (h.supplied u (.script w.machine.threads.fresh name [])).Roomy) :
    h.FailsCleanly w (.start entity name) ((h.load name).run u).state.machine ↔
      ((h.load name).run u).state.machine.threads.get? w.machine.threads.fresh = none := by
  rcases h.pushFrame_cases u w.machine.threads.fresh name [] with
    ⟨failure, -, hpush, hleft⟩ | ⟨script, warnings,
    hscript, ⟨thread, f, hthread, hpush, -⟩ | ⟨failure, hdead, hpush, hleft⟩⟩
  · exact failsCleanly_start_of_error hu hpush (hleft ▸ .refl _) hbusy
  · refine iff_of_false (not_failsCleanly_start_of_ok hu hpush hthread) ?_
    rw [hthread]
    exact Option.some_ne_none thread
  · simp only [Host.supplied, hscript] at hroom
    exact failsCleanly_start_of_error hu hpush (hleft ▸ .abandoned hproper hdead hroom) hbusy

end

/-- **An operation that a reset overtakes.** While it looks for a script, the machine is reset, and
scripts are started. It fails and leaves everything as it finds it, exactly if the handle of its
invocation names nothing by then, or if it is a call for which there is no script. Otherwise it
takes the invocation under that handle for its own. -/
theorem failsCleanly_iff_of_reset {op : Operation} {own : η}
    (hask : h.question w op = some (.script t name args, u))
    (hreset : Starts ⟨∅, own⟩ ((h.load name).run u).state)
    (hroom : (h.supplied u (.script t name args)).Roomy) :
    h.FailsCleanly w op ((h.load name).run u).state.machine ↔
      ((h.load name).run u).state.machine.threads.get? t = none ∨
        (∀ entity, op ≠ .start entity name) ∧ ∃ failure, h.script name u = .error failure := by
  obtain ⟨hproper, hbusy⟩ := hreset.of_reset
  cases op with
  | start entity name =>
    cases hask
    rw [failsCleanly_start_iff rfl hproper hbusy hroom]
    simp
  | step f =>
    obtain ⟨hstate, hvalue⟩ := step_of_question hask
    rw [failsCleanly_call_iff _ _ hproper hroom]
    · simp
    · rw [perform, Act.run_map, hstate]
    · rw [perform, Act.run_map]
      exact congrArg (!·) hvalue
  | stepInvocation k =>
    obtain ⟨f, hrun, hask⟩ := stepInvocation_of_question hask
    obtain ⟨hstate, hvalue⟩ := step_of_question hask
    rw [failsCleanly_call_iff _ _ hproper hroom]
    · simp
    · rw [perform, Act.run_map, hrun, hstate]
    · rw [perform, Act.run_map, hrun]
      exact congrArg (!·) hvalue
  | _ => cases hask

end Host

namespace Machine

/-- Before the host gives a script, it resets the machine and starts one itself. -/
def reseeding : Host (List Call) where
  toSetting := {}
  dispatch := (asking {}).dispatch
  load name := do
    let _ ← (asking {}).perform .reset
    let _ ← (asking {}).perform (.start ⟨7⟩ "greet")
    (asking {}).load name

/-- What the host does while it looks for a script is to start scripts on a new machine. -/
theorem starts_reseeding {w : World (List Call)} (hown : w.own = []) (name : String) :
    Host.Starts ⟨∅, []⟩ ((reseeding.load name).run w).state := by
  have hforward : (asking {}).Forward ⟨∅, w.own⟩ (.start ⟨7⟩ "greet") := by
    rw [hown]
    decide +kernel
  have hstarts : Host.Starts ⟨∅, w.own⟩ ((reseeding.load name).run w).state :=
    .start (.refl _) (quiet_asking {}).text hforward (.refl _)
  rwa [hown] at hstarts

/-- A second invocation is overtaken by a reset, after which there is only a first one. -/
theorem greeting_overtaken : (reseeding.question greeting (.start ⟨7⟩ "greet")).isSome = true ∧
    reseeding.FailsCleanly greeting (.start ⟨7⟩ "greet") ((reseeding.load "greet").run
      { greeting with machine := greeting.machine.opened ⟨7⟩ "greet" }).state.machine := by
  refine ⟨rfl,
    (Host.failsCleanly_iff_of_reset rfl (starts_reseeding (by decide +kernel) _) ?_).2 (.inl ?_)⟩
  · exact roomy_of_free 9 (by decide) (by decide +kernel)
  · decide +kernel

/-- A first invocation is overtaken by a reset: its script is put on the invocation that the host
has started since, which is then listed twice. -/
theorem empty_not_failsCleanly :
    Host.Starts ⟨∅,
      []⟩ ((reseeding.load "greet").run ⟨(∅ : Machine).opened ⟨7⟩ "greet", []⟩).state ∧
    ((reseeding.load "greet").run ⟨(∅ : Machine).opened ⟨7⟩ "greet", []⟩).state.machine.stackAt
      ⟨1⟩ = some [⟨1⟩] ∧
    ((reseeding.perform (.start ⟨7⟩ "greet")).run ⟨∅, []⟩).value = .started (.ok ⟨1⟩) ∧
    ((reseeding.perform (.start ⟨7⟩ "greet")).run ⟨∅, []⟩).state.machine.stackAt ⟨1⟩ =
      some [⟨2⟩, ⟨1⟩] ∧
    ((reseeding.perform (.start ⟨7⟩ "greet")).run ⟨∅, []⟩).state.machine.threadList ⟨1⟩ =
      some [⟨1⟩, ⟨1⟩] ∧
    ¬ reseeding.FailsCleanly ⟨∅, []⟩ (.start ⟨7⟩ "greet")
      ((reseeding.load "greet").run ⟨(∅ : Machine).opened ⟨7⟩ "greet", []⟩).state.machine := by
  refine ⟨starts_reseeding rfl _, ?_, ?_, ?_, ?_, fun hclean => ?_⟩
  · decide +kernel
  · decide +kernel
  · decide +kernel
  · decide +kernel
  · have haccepted :
        ((reseeding.perform (.start ⟨7⟩ "greet")).run ⟨∅, []⟩).value.isFailure = false := by
      decide +kernel
    rw [hclean.refused] at haccepted
    cases haccepted

end Machine

end StepScript
