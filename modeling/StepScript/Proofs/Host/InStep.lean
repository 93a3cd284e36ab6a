import StepScript.Proofs.Host.Reachable
import StepScript.Proofs.Machine.ReadyInStep

/-!
# Proofs/Host/InStep — operations on worlds in step

A host that answers calls by their names, arguments and entities cannot tell two worlds in step
apart. Performing the same operations, up to the names of handles, gives the same replies and asks
the same calls, as long as no counter goes round.

* `Operation.rename`, `Reply.rename` — the same operation and reply under other names of handles.
* `World.Renamed` — two worlds in step.
* `Host.perform_in_step` — one operation keeps them in step.
* `Host.collect_in_step` — so does a sequence of operations.
-/

namespace StepScript

/-- The operation that stands for an operation. -/
def Operation.rename (π : Renaming) : Operation → Operation
  | .start entity name => .start entity name
  | .step f => .step (π.frame.apply f)
  | .stepInvocation t => .stepInvocation (π.thread.apply t)
  | .complete f result => .complete (π.frame.apply f) result
  | .setVariable t token value => .setVariable (π.thread.apply t) token value
  | .setGlobal name value => .setGlobal name value
  | .claim => .claim
  | .cleanup t => .cleanup (π.thread.apply t)
  | .reset => .reset

/-- The reply that stands for a reply. Failures of starts and steps come from the host: they are the
same. -/
def Reply.rename (π : Renaming) : Reply → Reply
  | .started result => .started (result.map π.thread.apply)
  | .stepped result => .stepped result
  | .completed result => .completed (result.mapError (Failure.rename π))
  | .assigned value => .assigned value
  | .claimed thread => .claimed (thread.map π.thread.apply)
  | .done => .done

/-- **Two worlds in step.** The calls that were asked are the same. -/
structure World.Renamed (π : Renaming) (w w' : World (List Call)) : Prop where
  machine : Machine.Renamed π w.machine w'.machine
  calls : w'.own = w.own.map (Call.rename π)

/-- Two outcomes in step: related values, and worlds in step. -/
structure Outcome.Renamed {α : Type} (π : Renaming) (r : α → α → Prop)
    (o o' : Outcome (World (List Call)) α) : Prop where
  value : r o.value o'.value
  state : World.Renamed π o.state o'.state

/-- Computations one after the other are in step if the last ones are. -/
theorem Outcome.Renamed.bind {α β : Type} {r : β → β → Prop} {π : Renaming}
    {x x' : Act (World (List Call)) α} {y y' : α → Act (World (List Call)) β}
    {w w' : World (List Call)} (h : Outcome.Renamed π r ((y (x.run w).value).run (x.run w).state)
      ((y' (x'.run w').value).run (x'.run w').state)) :
    Outcome.Renamed π r ((x >>= y).run w) ((x' >>= y').run w') :=
  ⟨h.value, h.state⟩

/-- A computation on the machine keeps worlds in step if it keeps machines in step. -/
theorem World.Renamed.onMachine {α : Type} {r : α → α → Prop} {π : Renaming} {x x' : Act Machine α}
    {w w' : World (List Call)} (hw : World.Renamed π w w') (hx : Machine.InStep π r x x') :
    Outcome.Renamed π r ((World.onMachine x).run w) ((World.onMachine x').run w') :=
  ⟨(hx.run hw.machine).1, (hx.run hw.machine).2, hw.calls⟩

namespace Host

variable {π : Renaming} {s : Setting} {source : String → Except Failure Located}
  {answer : String → List String → Option EntityId → Except Failure Completion}
  {w w' : World (List Call)}

theorem toSetting_fixed : (Host.fixed s source answer).toSetting = s := rfl

/-- A host of fixed answers gives the answer to the call, and keeps the call. -/
theorem run_dispatch_fixed (call : Call) (w : World (List Call)) :
    ((Host.fixed s source answer).dispatch call).run w =
      ⟨answer call.name call.args call.entity, { w with own := w.own ++ [call] }, []⟩ := rfl

/-- The script that is found does not depend on the world. -/
theorem script_fixed (name : String) (w : World (List Call)) :
    (Host.fixed s source answer).script name w =
      (source name).bind fun located => Script.read name located.dialect located.text := by
  have hload : (((Host.fixed s source answer).load name).run w).value = source name := rfl
  rw [Host.script, hload]
  cases source name <;> rfl

/-- **No counter goes round** while operations are performed. -/
def Steady {η : Type} (h : Host η) : World η → List Operation → Prop
  | _, [] => True
  | w, op :: ops =>
    Machine.Onward w.machine ((h.perform op).run w).state.machine ∧
      h.Steady ((h.perform op).run w).state ops

instance decidableSteady {η : Type} (h : Host η) :
    (w : World η) → (ops : List Operation) → Decidable (h.Steady w ops)
  | _, [] => .isTrue trivial
  | w, op :: ops =>
    have := decidableSteady h ((h.perform op).run w).state ops
    inferInstanceAs (Decidable (Machine.Onward w.machine ((h.perform op).run w).state.machine ∧
      h.Steady ((h.perform op).run w).state ops))

section

variable (hquiet : (Host.fixed s source answer).Quiet)

include hquiet

/-- **A script is entered alike.** -/
theorem enter_in_step {l : Line} (name : String) (args : List String) (hw : World.Renamed π w w')
    (hlive : w.machine.threads.contains l.thread = true)
    (hahead : (((Host.fixed s source answer).enter l name args).run w).state.machine.Ahead) :
    Outcome.Renamed π Eq (((Host.fixed s source answer).enter l name args).run w)
      (((Host.fixed s source answer).enter (l.rename π) name args).run w') := by
  have hlive' : w'.machine.threads.contains (l.rename π).thread = true := by
    rw [← hlive]
    exact hw.machine.threads.contains_apply l.thread
  have hmoved := hw.machine.moveCursor l.frame (l.index + 1)
  rw [hquiet.run_enter name args hlive, script_fixed] at hahead ⊢
  rw [hquiet.run_enter name args hlive', script_fixed]
  cases hscript : (source name).bind fun located =>
      Script.read name located.dialect located.text with
  | error failure => exact ⟨rfl, hmoved, hw.calls⟩
  | ok result =>
    rw [hscript] at hahead
    exact ⟨rfl, hmoved.pushed l.thread result.1 args hahead.frames hahead.commands, hw.calls⟩

/-- **A line is executed alike.** -/
theorem execute_in_step {l : Line} (hw : World.Renamed π w w') (hsound : w.machine.Sound)
    (hl : l.In w.machine)
    (hahead : (((Host.fixed s source answer).execute l).run w).state.machine.Ahead) :
    Outcome.Renamed π Eq (((Host.fixed s source answer).execute l).run w)
      (((Host.fixed s source answer).execute (l.rename π)).run w') := by
  obtain ⟨hplan, hplanned⟩ := (Machine.InStep.plan (s := s) l).run hw.machine
  have hedits := ((Machine.Runs.plan s).changes w.machine hl).edits
  have hinner : World.Renamed π { w with machine := ((Machine.plan s l).run w.machine).state }
      { w' with machine := ((Machine.plan s (l.rename π)).run w'.machine).state } :=
    ⟨hplanned, hw.calls⟩
  unfold execute at hahead ⊢
  refine .bind ?_
  rw [Act.run_bind, World.run_liftM, toSetting_fixed] at hahead
  rw [World.run_liftM, World.run_liftM, toSetting_fixed, hplan]
  dsimp only at hahead ⊢
  cases hvalue : ((Machine.plan s l).run w.machine).value with
  | go flow =>
    obtain ⟨-, hfollowed⟩ := (Machine.InStep.follow l flow).run hplanned
    simp only [Plan.rename, Act.run_bind, World.run_liftM, Act.run_pure]
    exact ⟨rfl, hfollowed, hw.calls⟩
  | ask call assignTo =>
    obtain ⟨hsignal, htaken⟩ := (Machine.InStep.takeAnswer l call assignTo
      (answer call.name call.args call.entity)).run hplanned
    simp only [Plan.rename, Act.run_bind, run_dispatch_fixed, World.run_liftM, Act.run_pure]
    refine ⟨congrArg Except.ok hsignal, htaken, ?_⟩
    rw [hw.calls, List.map_append, List.map_singleton]
  | enter name args =>
    rw [hvalue] at hahead
    dsimp only [Plan.rename] at hahead ⊢
    obtain ⟨frame, -, -, hf, hthread, -⟩ := hedits.line hl
    obtain ⟨thread, ht, -⟩ := (hsound.moves hedits.moves).owned.thread_of_frame hf
    rw [← hthread] at ht
    exact enter_in_step hquiet name args hinner (Table.contains_iff.2 ⟨thread, ht⟩) hahead

/-- **A frame is stepped alike.** -/
theorem step_in_step (f : FrameHandle) (hw : World.Renamed π w w') (hsound : w.machine.Sound)
    (hsound' : w'.machine.Sound)
    (hahead : (((Host.fixed s source answer).step f).run w).state.machine.Ahead) :
    Outcome.Renamed π Eq (((Host.fixed s source answer).step f).run w)
      (((Host.fixed s source answer).step (π.frame.apply f)).run w') := by
  obtain ⟨readied, hvalue, hvalue', hprepared⟩ := hw.machine.prepare f hsound hsound'
  obtain ⟨hmoves, hline⟩ := Machine.moves_prepare f hsound
  have hinner : World.Renamed π { w with machine := ((Machine.prepare f).run w.machine).state }
      { w' with machine := ((Machine.prepare (π.frame.apply f)).run w'.machine).state } :=
    ⟨hprepared, hw.calls⟩
  unfold step at hahead ⊢
  refine .bind ?_
  rw [Act.run_bind, World.run_liftM, hvalue] at hahead
  rw [World.run_liftM, World.run_liftM, hvalue, hvalue']
  dsimp only at hahead ⊢
  cases readied with
  | settled signal =>
    dsimp only [Machine.Readied.rename]
    rw [Act.run_pure, Act.run_pure]
    exact ⟨rfl, hinner⟩
  | line l =>
    dsimp only [Machine.Readied.rename] at hahead ⊢
    exact execute_in_step hquiet hinner (hsound.moves hmoves) (hline l hvalue) hahead

/-- **An invocation is stepped alike.** -/
theorem stepInvocation_in_step (t : ThreadHandle) (hw : World.Renamed π w w')
    (hsound : w.machine.Sound) (hsound' : w'.machine.Sound)
    (hahead : (((Host.fixed s source answer).stepInvocation t).run w).state.machine.Ahead) :
    Outcome.Renamed π Eq (((Host.fixed s source answer).stepInvocation t).run w)
      (((Host.fixed s source answer).stepInvocation (π.thread.apply t)).run w') := by
  unfold stepInvocation at hahead ⊢
  rw [World.run_getMachine_bind] at hahead ⊢
  rw [World.run_getMachine_bind]
  cases ht : w.machine.threads.get? t with
  | none =>
    rw [hw.machine.threads.gone t ht]
    exact ⟨rfl, hw⟩
  | some thread =>
    obtain ⟨thread', ht', hlike⟩ := hw.machine.threads.live t thread ht
    have htop : thread'.top? = thread.top?.map π.frame.apply := by
      rw [Thread.top?, Thread.top?, hlike.stack, List.head?_map]
    rw [ht']
    rw [ht] at hahead
    dsimp only at hahead ⊢
    rw [htop]
    cases hf : thread.top? with
    | some f =>
      rw [hf] at hahead
      exact step_in_step hquiet f hw hsound hsound' hahead
    | none => exact ⟨rfl, hw.machine.cleanup t, hw.calls⟩

/-- **A script is started alike**, and the new invocations stand for each other. -/
theorem start_in_step (entity : EntityId) (name : String) (hw : World.Renamed π w w')
    (hsound : w.machine.Sound) (hsound' : w'.machine.Sound)
    (hon : Machine.Onward w.machine
      (((Host.fixed s source answer).start entity name).run w).state.machine) :
    Outcome.Renamed π (fun r r' => r' = r.map π.thread.apply)
      (((Host.fixed s source answer).start entity name).run w)
      (((Host.fixed s source answer).start entity name).run w') := by
  rw [hquiet.run_start hsound.proper hw.machine.ahead.roomy, script_fixed] at hon ⊢
  rw [hquiet.run_start hsound'.proper hw.machine.ahead'.roomy, script_fixed]
  cases hscript : (source name).bind fun located =>
      Script.read name located.dialect located.text with
  | error failure =>
    rw [hscript] at hon
    exact ⟨rfl, hw.machine.withdrawn entity hon, hw.calls⟩
  | ok result =>
    rw [hscript] at hon
    refine ⟨?_, hw.machine.started entity name result.1 hon.ahead, hw.calls⟩
    exact congrArg Except.ok hw.machine.threads.apply_fresh.symm

/-! ## Operations -/

/-- **One operation keeps worlds in step**, and the replies stand for each other. -/
theorem perform_in_step (op : Operation) (hw : World.Renamed π w w') (hsound : w.machine.Sound)
    (hsound' : w'.machine.Sound)
    (hon : Machine.Onward w.machine
      (((Host.fixed s source answer).perform op).run w).state.machine) :
    Outcome.Renamed π (fun r r' => r' = r.rename π)
      (((Host.fixed s source answer).perform op).run w)
      (((Host.fixed s source answer).perform (op.rename π)).run w') := by
  cases op with
  | start entity name =>
    simp only [Operation.rename, perform, Act.run_map] at hon ⊢
    have hstarted := start_in_step hquiet entity name hw hsound hsound' hon
    exact ⟨congrArg Reply.started hstarted.value, hstarted.state⟩
  | step f =>
    simp only [Operation.rename, perform, Act.run_map] at hon ⊢
    have hstepped := step_in_step hquiet f hw hsound hsound' hon.ahead
    exact ⟨congrArg Reply.stepped hstepped.value.symm, hstepped.state⟩
  | stepInvocation t =>
    simp only [Operation.rename, perform, Act.run_map] at hon ⊢
    have hstepped := stepInvocation_in_step hquiet t hw hsound hsound' hon.ahead
    exact ⟨congrArg Reply.stepped hstepped.value.symm, hstepped.state⟩
  | complete f result =>
    simp only [Operation.rename, perform, Act.run_map]
    have hcompleted := hw.onMachine (Machine.InStep.completeCall f result)
    exact ⟨congrArg Reply.completed hcompleted.value, hcompleted.state⟩
  | setVariable t token value =>
    simp only [Operation.rename, perform, Act.run_map]
    have hset := hw.onMachine (Machine.InStep.setVariable t token value)
    exact ⟨congrArg Reply.assigned hset.value.symm, hset.state⟩
  | setGlobal name value =>
    refine ⟨rfl, ?_, hw.calls⟩
    exact { hw.machine with
      globals := congrArg (Assoc.insert · (Text.lower name) value) hw.machine.globals }
  | claim =>
    obtain ⟨hclaimed, hmachine⟩ := hw.machine.claimNext hsound hsound'
    exact ⟨congrArg Reply.claimed hclaimed, hmachine, hw.calls⟩
  | cleanup t => exact ⟨rfl, hw.machine.cleanup t, hw.calls⟩
  | reset =>
    refine ⟨rfl, ⟨?_, ?_, ?_, ?_, rfl⟩, hw.calls⟩
    · exact hw.machine.targets.empty hon.targets.le
    · exact hw.machine.threads.empty hon.threads.le
    · exact hw.machine.frames.empty hon.frames.le
    · exact hw.machine.commands.empty hon.commands.le

/-- **A sequence of operations keeps worlds in step**, and the replies stand for each other. -/
theorem collect_in_step (ops : List Operation) (hw : World.Renamed π w w')
    (hsound : w.machine.Sound) (hsound' : w'.machine.Sound)
    (hsteady : (Host.fixed s source answer).Steady w ops) :
    Outcome.Renamed π (fun rs rs' => rs' = rs.map (Reply.rename π))
      ((Act.collect (Host.fixed s source answer).perform ops).run w)
      ((Act.collect (Host.fixed s source answer).perform
        (ops.map (Operation.rename π))).run w') := by
  induction ops generalizing w w' with
  | nil => exact ⟨rfl, hw⟩
  | cons op ops ih =>
    obtain ⟨hon, hrest⟩ := hsteady
    have hfirst := perform_in_step hquiet op hw hsound hsound' hon
    have hmoves := moves_perform hquiet op hsound hw.machine.ahead.roomy hon.ahead.roomy
    have hmoves' := moves_perform hquiet (op.rename π) hsound' hw.machine.ahead'.roomy
      hfirst.state.machine.ahead'.roomy
    have hlater := ih hfirst.state (hsound.moves hmoves) (hsound'.moves hmoves') hrest
    refine ⟨?_, hlater.state⟩
    exact congr (congrArg List.cons hfirst.value) hlater.value

end

end Host

end StepScript
