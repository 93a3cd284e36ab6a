import StepScript.Proofs.Host.Signal

/-!
# Proofs/Host/Execution — every frame can go on from where it is

Between operations the cursor, the labels and the return addresses of a frame lie within its
commands, so that wherever a command sends it, the frame can go on from there. What a frame
remembers of its last scan is what it would find now. That it is never found exhausted needs an
invariant of its own (`Machine.AtRest`): a frame that has nothing left to run is gone by the end of
the operation that finds out.

* `Machine.FrameSound.lands_plan` — no command sends a frame further than past its last command.
* `Machine.Reachable.atRest` — no frame is left exhausted, and one that waits has not been scanned.
* `Machine.Reachable.frames_executable` — all that holds of a frame between operations.
-/

namespace StepScript

/-- The flow leads no further than past the last of so many commands. -/
def Flow.Lands (count : Nat) : Flow → Prop
  | .next => True
  | .jump index => index ≤ count

namespace Machine

variable {m m' : Machine} {s : Setting} {l : Line}

/-! ## Where commands lead -/

/-- The computation always says to go on with the next command. -/
def Passes (x : Act Machine Flow) : Prop := ∀ m, (x.run m).value = .next

namespace Passes

variable {α : Type} {x : Act Machine α} {y : α → Act Machine Flow}

theorem next : Passes (pure .next) := fun _ => rfl

theorem warn (warning : LineWarning) : Passes (Machine.warn l warning) := fun _ => rfl

/-- A computation goes on with the next command if what it ends with does. -/
theorem bind (h : ∀ a, Passes (y a)) : Passes (x >>= y) := fun m => h _ (x.run m).state

/-- What goes on with the next command does not lead outside the frame. -/
theorem lands {x : Act Machine Flow} (h : Passes x) (m : Machine) {n : Nat} :
    ((x.run m).value).Lands n := by
  rw [h m]
  trivial

/-- A `set` goes on with the next command, whatever its operands are. -/
theorem runSet : Passes (Machine.runSet s l) := by
  unfold Machine.runSet
  split
  · exact bind fun _ => bind fun _ => next
  · refine bind fun left => bind fun right => ?_
    split
    · exact bind fun _ => next
    · exact warn _
  · exact warn _

theorem addTo (name : String) (amount : Float) : Passes (Machine.addTo s l name amount) :=
  bind fun _ => bind fun _ => next

theorem runInc : Passes (Machine.runInc s l) := by
  unfold Machine.runInc
  split
  · refine bind fun text => ?_
    split
    · exact addTo _ _
    · exact warn _
  · exact addTo _ _
  · exact warn _

theorem runCat : Passes (Machine.runCat s l) := by
  unfold Machine.runCat
  split
  · exact bind fun _ => bind fun _ => bind fun _ => next
  · exact warn _

theorem runCallarg : Passes (Machine.runCallarg s l) := by
  unfold Machine.runCallarg
  split
  · refine bind fun text => bind fun m => ?_
    dsimp only
    split
    · exact bind fun _ => next
    · exact warn _
  · exact warn _

end Passes

namespace FrameSound

variable {frame : Frame}

/-- A jump leads among the commands of a sound frame, for that is where its labels lie, or on to the
next command. -/
theorem lands_jumpTo (h : m.FrameSound frame) (hf : m.frames.get? l.frame = some frame)
    (token : String) :
    (((jumpTo s l token).run m).value).Lands frame.commands.length := by
  simp only [jumpTo, Act.run_bind, state_readName, Act.run_get, hf, Option.bind_some]
  split
  · next index hindex => exact Nat.le_of_lt (h.goto_lt hindex)
  · trivial

/-- So does a condition that holds. -/
theorem lands_runIf (h : m.FrameSound frame) (hf : m.frames.get? l.frame = some frame) :
    (((runIf s l).run m).value).Lands frame.commands.length := by
  unfold runIf
  split
  · simp only [Act.run_bind, state_readToken]
    split
    · trivial
    · exact h.lands_jumpTo hf _
    · trivial
  · trivial

theorem lands_runGoto (h : m.FrameSound frame) (hf : m.frames.get? l.frame = some frame) :
    (((runGoto s l).run m).value).Lands frame.commands.length := by
  unfold runGoto
  split
  · exact h.lands_jumpTo hf _
  · trivial

theorem lands_runGosub (h : m.FrameSound frame) (hf : m.frames.get? l.frame = some frame) :
    (((runGosub s l).run m).value).Lands frame.commands.length := by
  unfold runGosub
  split
  · simp only [Act.run_bind, state_readName, Act.run_get, hf, Option.bind_some]
    split
    · next index hindex => exact h.gosub_lt hindex
    · trivial
  · trivial

/-- A return leads behind a line of the frame, for that is where its return addresses lie. -/
theorem lands_runEndsub (h : m.FrameSound frame) (hf : m.frames.get? l.frame = some frame) :
    (((runEndsub l).run m).value).Lands frame.commands.length := by
  simp only [runEndsub, Act.run_get_bind, hf, Option.bind_some]
  split
  · next index hindex => exact h.returns index (List.mem_of_mem_head? hindex)
  · trivial

/-- The `endsub` that is found is one of the commands after the line. -/
theorem lands_runBeginsub (hf : m.frames.get? l.frame = some frame) :
    (((runBeginsub l).run m).value).Lands frame.commands.length := by
  simp only [runBeginsub, Act.run_get_bind, hf]
  split
  · next offset hoffset =>
    have hlt : offset < (frame.commands.drop (l.index + 1)).length :=
      (List.findIdx?_eq_some_iff_getElem.1 hoffset).1
    rw [List.length_drop] at hlt
    change l.index + 1 + offset + 1 ≤ frame.commands.length
    omega
  · trivial

/-- A plan that only goes on leads where its flow leads. -/
theorem lands_of_map {n : Nat} {x : Act Machine Flow} {flow : Flow} (h : ((x.run m).value).Lands n)
    (hvalue : ((Plan.go <$> x).run m).value = .go flow) : flow.Lands n := by
  rw [Act.run_map, Plan.go.injEq] at hvalue
  exact hvalue ▸ h

/-- **No command leads outside its frame**, if that is sound. -/
theorem lands_planKeyword (h : m.FrameSound frame) (hf : m.frames.get? l.frame = some frame)
    (hcount : l.count = frame.commands.length) {keyword : Keyword} {flow : Flow}
    (hvalue : ((planKeyword s l keyword).run m).value = .go flow) :
    flow.Lands frame.commands.length := by
  cases keyword with
  | set =>
    simp only [planKeyword, planSet] at hvalue
    split at hvalue
    · split at hvalue
      · split at hvalue
        · cases hvalue
          trivial
        · simp only [Act.run_bind, (run_planCall s l _ _ _ _).1] at hvalue
          cases hvalue
      · exact lands_of_map (Passes.runSet.lands m) hvalue
    · exact lands_of_map (Passes.runSet.lands m) hvalue
  | call =>
    simp only [planKeyword, planEnter] at hvalue
    split at hvalue
    · cases hvalue
    · cases hvalue
      trivial
  | leave =>
    cases hvalue
    exact Nat.le_of_eq hcount
  | cond => exact lands_of_map (h.lands_runIf hf) hvalue
  | goto => exact lands_of_map (h.lands_runGoto hf) hvalue
  | gosub => exact lands_of_map (h.lands_runGosub hf) hvalue
  | endsub => exact lands_of_map (h.lands_runEndsub hf) hvalue
  | beginsub => exact lands_of_map (lands_runBeginsub hf) hvalue
  | inc => exact lands_of_map (Passes.runInc.lands m) hvalue
  | cat => exact lands_of_map (Passes.runCat.lands m) hvalue
  | callarg => exact lands_of_map (Passes.runCallarg.lands m) hvalue

/-- **No line of a frame leads further than past its last command.** -/
theorem lands_plan (h : m.FrameSound frame) (hf : m.frames.get? l.frame = some frame)
    (hcount : l.count = frame.commands.length) {flow : Flow}
    (hvalue : ((plan s l).run m).value = .go flow) : flow.Lands frame.commands.length := by
  cases htokens : l.tokens with
  | nil =>
    simp only [plan, htokens] at hvalue
    cases hvalue
    trivial
  | cons first rest =>
    cases hname : Keyword.ofName? (l.nameOf s m first) with
    | none =>
      rw [(run_plan_of_asks (.function htokens hname)).1] at hvalue
      cases hvalue
    | some keyword =>
      rw [(run_plan_keyword htokens hname).1] at hvalue
      exact h.lands_planKeyword hf hcount hvalue

end FrameSound

end Machine

/-! ## Frames at rest -/

/-- **The frame is at rest**: it was not found exhausted, and if it waits for the host its cursor
has moved since the last scan. -/
structure Frame.AtRest (frame : Frame) : Prop where
  unspent : frame.readiness ≠ .exhausted
  unscanned : frame.pending.isSome = true → frame.readiness = .unknown

theorem Frame.AtRest.of_unknown {frame : Frame} (h : frame.readiness = .unknown) : frame.AtRest :=
  ⟨by rw [h]; decide, fun _ => h⟩

namespace Machine

variable {m m' : Machine} {t : ThreadHandle} {f : FrameHandle} {below : List FrameHandle}

/-- **All frames are at rest.** -/
def AtRest (m : Machine) : Prop := ∀ f frame, m.frames.get? f = some frame → frame.AtRest

/-- A frame whose cursor was moved has not been scanned since. -/
theorem readiness_moveCursor {frame : Frame} {index : Nat}
    (hf : (m.moveCursor f index).frames.get? f = some frame) : frame.readiness = .unknown := by
  rw [moveCursor, frames_modifyFrame, Table.get?_modify, if_pos rfl] at hf
  obtain ⟨old, -, rfl⟩ := Option.map_eq_some_iff.1 hf
  rfl

/-- However the host answers, the frame that asked has not been scanned since. -/
theorem readiness_takeAnswer {l : Line} {call : Call} {assignTo : Option String}
    {answer : Except Failure Completion} {frame : Frame}
    (hf : ((takeAnswer l call assignTo answer).run m).state.frames.get? l.frame = some frame) :
    frame.readiness = .unknown := by
  rcases answer with failure | value | _
  · rw [(run_takeAnswer_error l call assignTo failure m).2] at hf
    exact readiness_moveCursor hf
  · rw [(run_takeAnswer_ready l call assignTo value m).2] at hf
    exact readiness_moveCursor hf
  · rw [run_takeAnswer_pending, parked, frames_modifyFrame, Table.get?_modify, if_pos rfl] at hf
    obtain ⟨old, -, rfl⟩ := Option.map_eq_some_iff.1 hf
    rfl

namespace AtRest

theorem empty : (∅ : Machine).AtRest := by
  intro f frame hf
  cases hf

/-- One frame changes, and is not scanned by the end. -/
theorem of_other (h : m.AtRest) (hother : ∀ k, k ≠ f → m'.frames.get? k = m.frames.get? k)
    (hf : ∀ frame, m'.frames.get? f = some frame → frame.readiness = .unknown) : m'.AtRest := by
  intro k frame hk
  by_cases heq : k = f
  · subst heq
    exact .of_unknown (hf frame hk)
  · exact h k frame (hother k heq ▸ hk)

/-- Variables do not matter. -/
theorem congr (h : m.AtRest)
    (hbare : ∀ f, (m'.frames.get? f).map Frame.bare = (m.frames.get? f).map Frame.bare) :
    m'.AtRest := by
  intro f frame' hf'
  have heq := hbare f
  rw [hf', Option.map_some] at heq
  obtain ⟨frame, hf, heq⟩ := Option.map_eq_some_iff.1 heq.symm
  have hold := h f frame hf
  have hreadiness : frame.readiness = frame'.readiness := (congrArg Frame.readiness heq :)
  have hpending : frame.pending = frame'.pending := (congrArg Frame.pending heq :)
  exact ⟨hreadiness ▸ hold.unspent, hreadiness ▸ hpending ▸ hold.unscanned⟩

/-- A frame that was answered is at rest, as are all others. -/
theorem answered (h : m.AtRest) (f : FrameHandle) (result : String) :
    (m.answered f result).AtRest := by
  intro k frame' hk
  rw [Machine.answered, frames_modifyFrame, Table.get?_modify] at hk
  split at hk
  · obtain ⟨frame, hframe, rfl⟩ := Option.map_eq_some_iff.1 hk
    refine ⟨(h k frame hframe).unspent, fun hsome => ?_⟩
    cases hsome
  · exact h k frame' hk

theorem completeCall (h : m.AtRest) (f : FrameHandle) (result : String) :
    ((Machine.completeCall f result).run m).state.AtRest := by
  rcases completeCall_cases f result m with hsame | ⟨v, assignTo, hstate⟩
  · rwa [hsame]
  · rw [hstate]
    exact (h.answered f result).congr (bare_frames_delivered _ _ _ _)

theorem setVariable (h : m.AtRest) (t : ThreadHandle) (token value : String) :
    ((Machine.setVariable t token value).run m).state.AtRest := by
  simp only [Machine.setVariable, Act.run_bind, state_vantageOf]
  split
  · exact h
  · rw [state_assignToken]
    exact h.congr (bare_frames_delivered _ _ _ _)

/-- Cancelling an invocation leaves the other frames as they are. -/
theorem cleanup (h : m.AtRest) (t : ThreadHandle) : (m.cleanup t).AtRest :=
  fun f frame hf => h f frame (get?_frames_cleanup.1 hf).1

/-- A new frame was never scanned. -/
theorem started (h : m.AtRest) (entity : EntityId) (name : String) (script : Script) :
    (m.started entity name script).AtRest := by
  intro f frame hf
  rw [get?_frames_started] at hf
  split at hf
  · cases hf
    exact .of_unknown rfl
  · exact h f frame hf

/-- The innermost frame goes and the one below is readied: the others rest as before. -/
theorem of_leave {k : FrameHandle}
    (h : ∀ e frame, e ≠ f → m.frames.get? e = some frame → frame.AtRest) :
    ∀ e frame, e ≠ k → (((m.unstack t f).removeFrame f).readied k).frames.get? e = some frame →
      frame.AtRest := by
  intro e frame hek he
  rw [get?_frames_readied_of_ne _ hek] at he
  obtain ⟨he, hef⟩ := get?_frames_removeFrame.1 he
  exact h e frame hef he

end AtRest

/-- **Unwinding leaves all frames at rest**, if they are below the innermost one: those found
exhausted go, and the one that stays can run. -/
theorem Unwinds.atRest {signal : Signal} (h : Unwinds t m signal m') (hsound : m.Sound)
    (hstack : m.stackAt t = some (f :: below)) (hbelow : ∀ e ∈ below, m.pendingAt e = none)
    (hothers : ∀ e frame, e ≠ f → m.frames.get? e = some frame → frame.AtRest) : m'.AtRest := by
  induction h generalizing f below with
  | finish he =>
    rw [hstack] at he
    cases he
    intro e frame hframe
    obtain ⟨hframe, hnot⟩ := get?_frames_cleanup.1 hframe
    refine hothers e frame ?_ hframe
    rintro rfl
    obtain ⟨thread, hthread, heq⟩ := Option.map_eq_some_iff.1 hstack
    exact hnot ⟨thread, hthread, heq ▸ List.mem_cons_self⟩
  | @stop m e k frame rest he hk hready =>
    rw [hstack] at he
    cases he
    have hleave := hsound.leave hstack (List.cons_ne_nil k rest)
    have hnone : frame.pending = none := by
      have hget := (get?_frames_removeFrame.1 hk).1
      have hold := hbelow k List.mem_cons_self
      rw [frames_unstack] at hget
      rwa [pendingAt, hget] at hold
    intro e other hother
    by_cases hek : e = k
    · subst hek
      rw [get?_frames_readied (hleave.frame _ _ hk) hk, hready] at hother
      cases hother
      refine ⟨Readiness.noConfusion, fun hsome => ?_⟩
      rw [hnone] at hsome
      cases hsome
    · exact AtRest.of_leave hothers e other hek hother
  | @next m m' e k rest signal he _ ih =>
    rw [hstack] at he
    cases he
    have hdrop := hsound.dropped hstack
    refine ih hdrop.sound hdrop.stack (fun e he => ?_) (AtRest.of_leave hothers)
    rw [pendingAt_of_frame (hdrop.frame e he)]
    exact hbelow e (List.mem_cons_of_mem k he)

/-- After a load no frame has been scanned yet. -/
theorem Restored.atRest {ρ : EntityId → Option EntityId} (h : Restored ρ m m') : m'.AtRest := by
  intro f frame hf
  obtain ⟨old, -, -, heq⟩ := (h.frame f frame.bare).1 (by rw [hf]; rfl)
  exact .of_unknown (congrArg Frame.readiness heq :)

end Machine

namespace Host

variable {η : Type} {h : Host η} {w : World η} {t : ThreadHandle} {f : FrameHandle}
  {below : List FrameHandle}

open Machine

/-- **A step leaves all frames at rest.** -/
theorem Stepped.atRest {value : Except Failure Signal} {m' : Machine}
    (hstep : h.Stepped t f w value m') (hrest : w.machine.AtRest) (hsound : w.machine.Sound)
    (htop : w.machine.TopWaits) (hstack : w.machine.stackAt t = some (f :: below)) : m'.AtRest := by
  have hready : ∀ k, k ≠ f → (w.machine.readied f).frames.get? k = w.machine.frames.get? k :=
    fun k hk => get?_frames_readied_of_ne _ hk
  have hmoved : ∀ index, (w.machine.moveCursor f index).AtRest := fun index =>
    hrest.of_other (Within.modifyFrame (t := t) w.machine _).frame fun _ => readiness_moveCursor
  cases hstep with
  | unwound _ hunwinds =>
    have hedits := edits_readied w.machine f
    refine hunwinds.atRest (hsound.moves hedits.moves) ((hedits.sameLinks.stackAt t).trans hstack)
      (fun e he => ?_) fun e frame hef he => hrest e frame (hready e hef ▸ he)
    rw [pendingAt_readied]
    exact htop t f below hstack e he
  | @went l m' hat _ hchanges flow =>
    obtain ⟨rfl, rfl⟩ := hat
    have hwithin :
        Within l.thread l.frame (w.machine.readied l.frame) ((follow l flow).run m').state :=
      hchanges.within.trans (Within.modifyFrame _ _)
    exact hrest.of_other (fun k hk => (hwithin.frame k hk).trans (hready k hk))
      fun _ => readiness_moveCursor
  | asked hat =>
    obtain ⟨rfl, rfl⟩ := hat
    exact hrest.of_other
      (fun k hk => ((within_takeAnswer _ _ _ _ _).frame k hk).trans (hready k hk))
      fun _ => readiness_takeAnswer
  | @entered l name args values script warnings hat =>
    intro k frame hk
    rw [get?_frames_pushed] at hk
    split at hk
    · cases hk
      exact .of_unknown rfl
    · exact hmoved _ k frame hk
  | refused => exact hmoved _

/-- **A step leaves all frames at rest**: one that was found exhausted has left its stack. -/
theorem atRest_step (hq : h.Quiet) (f : FrameHandle) (hrest : w.machine.AtRest)
    (hsound : w.machine.Sound) (htop : w.machine.TopWaits) :
    ((h.step f).run w).state.machine.AtRest := by
  rcases hq.step_cases f hsound with hidle | ⟨t, below, frame, hstack, -, -, hstepped⟩
  · rw [hidle]
    exact hrest
  · exact hstepped.atRest hrest hsound htop hstack

/-- **Every operation leaves all frames at rest.** -/
theorem atRest_perform (hq : h.Quiet) (op : Operation) (hrest : w.machine.AtRest)
    (hsound : w.machine.Sound) (hbefore : w.machine.Roomy) (htop : w.machine.TopWaits) :
    ((h.perform op).run w).state.machine.AtRest := by
  cases op with
  | start entity name =>
    simp only [perform, Act.run_map]
    rw [hq.run_start hsound.proper hbefore]
    cases h.script name { w with machine := w.machine.opened entity name } with
    | error failure => exact hrest
    | ok result => exact hrest.started entity name result.1
  | step f =>
    simp only [perform, Act.run_map]
    exact atRest_step hq f hrest hsound htop
  | stepInvocation t =>
    simp only [perform, Act.run_map]
    cases ht : w.machine.threads.get? t with
    | none =>
      rw [run_stepInvocation_of_dead ht]
      exact hrest
    | some thread =>
      obtain ⟨f, below, hstack⟩ := hsound.exists_stack ht
      rw [run_stepInvocation hstack]
      exact atRest_step hq f hrest hsound htop
  | complete f result =>
    simp only [perform, Act.run_map, World.run_onMachine]
    exact hrest.completeCall f result
  | setVariable t token value =>
    simp only [perform, Act.run_map, World.run_onMachine]
    exact hrest.setVariable t token value
  | setGlobal name value => exact hrest
  | claim =>
    simp only [perform, World.run_getMachine_bind]
    unfold Machine.claimNext
    split <;> exact hrest
  | cleanup t => exact hrest.cleanup t
  | reset => exact AtRest.empty

end Host

namespace Machine

variable {m : Machine} {f : FrameHandle} {frame : Frame}

/-- **The frames of a reachable machine are at rest.** -/
theorem Reachable.atRest (h : Reachable m) : m.AtRest := by
  induction h with
  | new => exact AtRest.empty
  | perform hquiet hbefore _ ih =>
    obtain ⟨hsound, hroomy⟩ := hbefore.sound_and_roomy
    exact Host.atRest_perform hquiet _ ih hsound hroomy hbefore.topWaits
  | load s _ hsaved hsave hfits =>
    obtain ⟨-, -, hrestored⟩ := hsaved.sound.load_save hfits hsave s _
    exact hrestored.atRest

/-! ## Between operations -/

/-- **The frame can go on from where it is.** -/
structure Executable (m : Machine) (f : FrameHandle) (frame : Frame) : Prop where
  cursor : frame.cursor ≤ frame.commands.length
  /-- Every label is a label of that name among the commands. -/
  label : ∀ key index, frame.gotos.find? key = some index → index < frame.commands.length ∧
    ∃ command name, m.commandAt frame index = some command ∧ command.label? = some name ∧
      labelKey name = key
  /-- Every subroutine starts with `beginsub` among the commands. -/
  subroutine : ∀ key index, frame.gosubs.find? key = some index → index < frame.commands.length ∧
    ∃ command, m.commandAt frame index = some command ∧ command.startsWith beginsub = true
  returns : ∀ index ∈ frame.returns, index < frame.commands.length
  /-- The commands can be counted in a machine word, so the place after one can be. -/
  counted : frame.commands.length < UInt64.size
  /-- Wherever a line of the frame leads, it is there or just past the end. -/
  landing : ∀ (s : Setting) (l : Line) (flow : Flow), l.frame = f → l.In m →
    ((plan s l).run m).value = .go flow → flow.Lands frame.commands.length
  ready : frame.readiness = .ready →
    ∃ command, m.commandAt frame frame.cursor = some command ∧ command.isRunnable = true
  /-- What the last scan found is what a new one finds. -/
  memo : (ensureReady f).run m =
    (ensureReady f).run (m.modifyFrame f fun frame => { frame with readiness := .unknown })
  unspent : frame.readiness ≠ .exhausted
  /-- A frame that waits is the innermost one of its invocation. -/
  waiting : frame.pending.isSome = true →
    m.frameOf frame.thread = some f ∧ frame.readiness = .unknown

/-- A frame has no more commands than there are handles. -/
theorem Sound.counted (h : m.Sound) (hf : m.frames.get? f = some frame) :
    frame.commands.length < UInt64.size := by
  have hsubset : frame.commands ⊆ m.commands.handles := by
    intro c hc
    obtain ⟨command, hcommand⟩ := h.owned.command_of_listed hf hc
    exact Table.mem_handles_iff.2 (by rw [hcommand]; rfl)
  have hle := (h.owned.nodup_commands hf).length_le_of_subset hsubset
  rw [Table.length_handles] at hle
  have hsize := Table.size_lt h.proper.commands
  have hword : UInt32.size < UInt64.size := by decide
  omega

/-- The commands of a sound frame are those of the script it was made from. -/
theorem FrameSound.commandAt_eq {commands : List Command} (index : Nat)
    (hcommands : frame.commands.map m.commands.get? = commands.map some) :
    m.commandAt frame index = commands[index]? := by
  have hget := congrArg (fun os : List (Option Command) => os[index]?) hcommands
  simp only [List.getElem?_map] at hget
  rw [commandAt]
  cases hc : frame.commands[index]? with
  | none =>
    rw [hc] at hget
    exact (Option.map_eq_none_iff.1 hget.symm).symm
  | some c =>
    rw [hc] at hget
    obtain ⟨command, hcommand, heq⟩ := Option.map_eq_some_iff.1 hget.symm
    rw [hcommand, heq]
    rfl

/-- Readying a frame anew finds what it found before. -/
theorem FrameSound.ensureReady_unscanned (h : m.FrameSound frame)
    (hf : m.frames.get? f = some frame) :
    (ensureReady f).run m =
      (ensureReady f).run (m.modifyFrame f fun frame => { frame with readiness := .unknown }) := by
  have hunscanned : (m.modifyFrame f fun frame => { frame with readiness := .unknown }).FrameSound
      { frame with readiness := .unknown } :=
    FrameSound.congr (m := m) ⟨h.cursor, h.declared, h.returns, h.pending,
      fun hne => absurd rfl hne⟩
      fun _ _ => rfl
  have hget : (m.modifyFrame f fun frame => { frame with readiness := .unknown }).frames.get? f =
      some { frame with readiness := .unknown } := by
    rw [frames_modifyFrame, Table.get?_modify, if_pos rfl, hf]
    rfl
  have hscan : ∀ frame,
      (m.modifyFrame f fun frame => { frame with readiness := .unknown }).scanOf frame =
        m.scanOf frame := by
    intro frame
    refine scanFrom_congr (fun c _ => ?_) _
    rfl
  have hstate : (m.modifyFrame f fun frame => { frame with readiness := .unknown }).readied f =
      m.readied f := by
    refine ext_tables rfl rfl (Table.ext_get? rfl fun k => ?_) rfl rfl
    simp only [readied, frames_modifyFrame, Table.get?_modify, hscan]
    split
    · rw [Option.map_map]
      rfl
    · rfl
  rw [h.run_ensureReady hf, hunscanned.run_ensureReady hget, hstate, hscan]
  rfl

/-- **Every frame of a reachable machine can go on from where it is.** -/
theorem Reachable.frames_executable (h : Reachable m) (hf : m.frames.get? f = some frame) :
    m.Executable f frame := by
  have hsound := h.sound
  have hframe := hsound.frame f frame hf
  have hrest := h.atRest f frame hf
  obtain ⟨commands, hcommands, hdeclared⟩ := hframe.declared
  refine ⟨hframe.cursor, fun key index hkey => ⟨hframe.goto_lt hkey, ?_⟩,
    fun key index hkey => ⟨hframe.gosub_lt hkey, ?_⟩, hframe.returns, hsound.counted hf,
    fun s l flow hl hin hvalue => ?_, fun hready => ?_,
    hframe.ensureReady_unscanned hf, hrest.unspent,
    fun hwaits => ⟨?_, hrest.unscanned hwaits⟩⟩
  · rw [FrameSound.commandAt_eq index hcommands]
    exact hdeclared.label key index hkey
  · rw [FrameSound.commandAt_eq index hcommands]
    exact hdeclared.subroutine key index hkey
  · subst hl
    obtain ⟨own, -, -, hown, -, -, -, hcount, -⟩ := hin
    rw [hf] at hown
    cases hown
    exact hframe.lands_plan hf hcount hvalue
  · have hmemo : m.scanOf frame = { readiness := frame.readiness, index := frame.cursor } :=
      hframe.memo (by rw [hready]; decide)
    rcases hframe.scanOf_spec.2 with ⟨-, hcommand⟩ | ⟨hexhausted, -⟩
    · rwa [hmemo] at hcommand
    · rw [hmemo, hready] at hexhausted
      cases hexhausted
  · -- a frame that is not innermost does not wait
    obtain ⟨thread, hthread, hmem⟩ := hsound.owned.thread_of_frame hf
    obtain ⟨top, below, hstack⟩ := hsound.exists_stack hthread
    have hstackEq : thread.stack = top :: below := by
      rw [stackAt, hthread] at hstack
      exact Option.some.inj hstack
    rw [frameOf_eq_head?, hstack]
    rcases List.mem_cons.1 (hstackEq ▸ hmem) with rfl | hbelow
    · rfl
    · have hnone := h.topWaits _ _ _ hstack f hbelow
      rw [pendingAt, hf] at hnone
      rw [show frame.pending = none from hnone] at hwaits
      cases hwaits

/-- The frame that waits for a name has passed its first line, and can go on from there. -/
theorem waiting_executable : waiting.Reachable ∧ ∃ frame, waiting.frames.get? ⟨1⟩ = some frame ∧
    frame.cursor = 1 ∧ frame.pending.isSome = true ∧ waiting.Executable ⟨1⟩ frame := by
  have hfields : (waiting.frames.get? ⟨1⟩).map (fun frame => (frame.cursor, frame.pending.isSome)) =
      some (1, true) := by decide +kernel
  obtain ⟨frame, hf, heq⟩ := Option.map_eq_some_iff.1 hfields
  exact ⟨reachable_waiting, frame, hf, congrArg Prod.fst heq, congrArg Prod.snd heq,
    reachable_waiting.frames_executable hf⟩

end Machine

end StepScript
