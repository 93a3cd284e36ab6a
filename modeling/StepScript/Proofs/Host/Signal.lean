import StepScript.Proofs.Host.Confinement

/-!
# Proofs/Host/Signal — a step tells how its invocation stands

The signal of a step says what the host finds afterwards: the invocation is gone, it waits for the
host, or it can go on. A step that fails is a `call` whose script cannot be had, and nothing else;
no broken link is ever met on the way.

That an invocation which can go on does not wait rests on one more invariant: a frame that is not
innermost never waits (`Machine.TopWaits`), so none is uncovered by a script that ends.

* `Machine.standing` — how an invocation stands.
* `Machine.Reachable.topWaits` — the invariant.
* `Host.recorded` — the host that keeps the calls it is asked for.
* `Machine.Reachable.step_truthful` — what a step replies.
-/

namespace StepScript

namespace Machine

variable {m m' : Machine} {t : ThreadHandle} {f : FrameHandle} {below : List FrameHandle}

/-! ## Waiting -/

/-- The call that a frame waits for. -/
def pendingAt (m : Machine) (f : FrameHandle) : Option PendingCall :=
  (m.frames.get? f).bind Frame.pending

/-- Whether the innermost frame of an invocation waits for the host. -/
def isWaiting (m : Machine) (t : ThreadHandle) : Bool := ((m.frameOf t).bind m.pendingAt).isSome

/-- **How an invocation stands**: it is gone, it waits for the host, or it can go on. -/
def standing (m : Machine) (t : ThreadHandle) : Signal :=
  if m.isLive t then if m.isWaiting t then .idle else .pending else .finished

/-- **Only innermost frames wait.** -/
def TopWaits (m : Machine) : Prop :=
  ∀ t f below, m.stackAt t = some (f :: below) → ∀ e ∈ below, m.pendingAt e = none

theorem pendingAt_of_get? {frame : Frame} (hf : m.frames.get? f = some frame) :
    m.pendingAt f = frame.pending := by
  rw [pendingAt, hf]
  rfl

/-- What a frame waits for does not depend on anything but its open call. -/
theorem pendingAt_congr
    (h : (m'.frames.get? f).map Frame.pending = (m.frames.get? f).map Frame.pending) :
    m'.pendingAt f = m.pendingAt f := by
  have hjoin := congrArg (fun o : Option (Option PendingCall) => o.bind id) h
  simpa [Option.bind_map, pendingAt] using hjoin

theorem pendingAt_of_frame (h : m'.frames.get? f = m.frames.get? f) :
    m'.pendingAt f = m.pendingAt f :=
  pendingAt_congr (congrArg (Option.map Frame.pending) h)

theorem pendingAt_moveCursor (m : Machine) (f : FrameHandle) (index : Nat) (k : FrameHandle) :
    (m.moveCursor f index).pendingAt k = m.pendingAt k :=
  pendingAt_congr (Table.map_get?_modify m.frames k fun _ _ => rfl)

theorem pendingAt_readied (m : Machine) (f k : FrameHandle) :
    (m.readied f).pendingAt k = m.pendingAt k :=
  pendingAt_congr (Table.map_get?_modify m.frames k fun _ _ => rfl)

theorem pendingAt_delivered (m : Machine) (v : Vantage) (assignTo : Option String) (value : String)
    (f : FrameHandle) : (m.delivered v assignTo value).pendingAt f = m.pendingAt f := by
  have hbare := congrArg (Option.map Frame.pending) (bare_frames_delivered m v assignTo value f)
  rw [Option.map_map, Option.map_map] at hbare
  exact pendingAt_congr hbare

/-- An invocation is idle if its innermost frame waits, and else it can be stepped. -/
theorem standing_of_stack (hstack : m.stackAt t = some (f :: below)) :
    m.standing t = if (m.pendingAt f).isSome then .idle else .pending := by
  obtain ⟨thread, hthread, -⟩ := Option.map_eq_some_iff.1 hstack
  have hlive : m.isLive t = true := Table.contains_iff.2 ⟨thread, hthread⟩
  rw [standing, if_pos hlive, isWaiting, frameOf_of_stackAt hstack]
  rfl

/-- An invocation that is gone is finished. -/
theorem standing_of_dead (ht : m.threads.get? t = none) : m.standing t = .finished := by
  have hdead : m.isLive t = false := by rw [isLive, Table.contains_eq, ht]; rfl
  rw [standing, hdead]
  rfl

/-! ## Only innermost frames wait -/

namespace TopWaits

/-- The invariant outlives everything that opens no call and lengthens no stack. -/
theorem mono (h : m.TopWaits)
    (hstack : ∀ t f below, m'.stackAt t = some (f :: below) → below = [] ∨
      m.stackAt t = some (f :: below))
    (hpending : ∀ f, m.pendingAt f = none → m'.pendingAt f = none) : m'.TopWaits := by
  intro t f below ht e he
  rcases hstack t f below ht with rfl | hold
  · exact absurd he List.not_mem_nil
  · exact hpending e (h t f below hold e he)

theorem empty : (∅ : Machine).TopWaits := by
  intro t f below ht
  cases ht

/-- Completing a call ends one wait and starts none. -/
theorem completeCall (h : m.TopWaits) (f : FrameHandle) (result : String) :
    ((Machine.completeCall f result).run m).state.TopWaits := by
  refine h.mono (fun t f below ht => .inr ?_) fun e he => ?_
  · rw [← (edits_completeCall _ result m).sameLinks.stackAt, ht]
  · rcases completeCall_cases f result m with hsame | ⟨v, assignTo, hstate⟩
    · rwa [hsame]
    · rw [hstate, pendingAt_delivered, pendingAt, answered, frames_modifyFrame, Table.get?_modify]
      split
      · cases m.frames.get? e <;> rfl
      · exact he

theorem setVariable (h : m.TopWaits) (t : ThreadHandle) (token value : String) :
    ((Machine.setVariable t token value).run m).state.TopWaits := by
  refine h.mono (fun k f below hk => .inr ?_) fun e he => ?_
  · rw [← (edits_setVariable t token value m).sameLinks.stackAt, hk]
  · simp only [Machine.setVariable, Act.run_bind, state_vantageOf]
    split
    · exact he
    · rw [state_assignToken, pendingAt_delivered, he]

theorem cleanup (h : m.TopWaits) (t : ThreadHandle) : (m.cleanup t).TopWaits := by
  refine h.mono (fun k f below hk => .inr ?_) fun e he => ?_
  · obtain ⟨thread, hthread, hstack⟩ := Option.map_eq_some_iff.1 hk
    rw [stackAt, (get?_threads_cleanup.1 hthread).1, Option.map_some, hstack]
  · refine Option.bind_eq_none_iff.2 fun frame hframe => ?_
    rw [pendingAt, (get?_frames_cleanup.1 hframe).1] at he
    exact he

/-- A new invocation has one frame, and it does not wait. -/
theorem started (h : m.TopWaits) (entity : EntityId) (name : String) (script : Script) :
    (m.started entity name script).TopWaits := by
  refine h.mono (fun t f below ht => ?_) fun e he => ?_
  · rw [stackAt, get?_threads_started] at ht
    split at ht
    · cases ht
      exact .inl rfl
    · exact .inr ht
  · rw [pendingAt, get?_frames_started]
    split
    · rfl
    · exact he

/-- **A step of an invocation** whose innermost frame does not wait. -/
theorem step {s : Setting} (h : m.TopWaits) (hsound : m'.Sound)
    (hstack : m.stackAt t = some (f :: below)) (hpending : m.pendingAt f = none)
    (hapart : Apart t m m') (hre : Restacked s t f below m m') :
    m'.TopWaits := by
  have hbelow := h t f below hstack
  intro k top rest hk e he
  by_cases hkt : k = t
  · subst hkt
    rcases hre with ⟨hsame, hframes⟩ | ⟨-, -, -, -, hpushed, hf, hmoved, hframes⟩ | hpopped
    · rw [hk] at hsame
      cases hsame
      exact (pendingAt_of_frame (hframes e he)).trans (hbelow e he)
    · rw [hk] at hpushed
      cases hpushed
      rcases List.mem_cons.1 he with rfl | he
      · rw [pendingAt, hf] at hpending
        rw [pendingAt, hmoved]
        exact hpending
      · exact (pendingAt_of_frame (hframes e he)).trans (hbelow e he)
    · rcases hpopped with ⟨hdead, -⟩ | @⟨gone, _, _, rfl, hleft, -, -, hframes⟩
      · rw [stackAt, hdead] at hk
        cases hk
      · rw [hk] at hleft
        cases hleft
        refine (pendingAt_of_frame (hframes e he)).trans (hbelow e ?_)
        exact List.mem_append_right gone (List.mem_cons_of_mem _ he)
  · obtain ⟨thread, hthread, hthreads⟩ := Option.map_eq_some_iff.1 hk
    obtain ⟨frame, hframe, hown⟩ :=
      hsound.owned.frame_of_stacked hthread (hthreads ▸ List.mem_cons_of_mem top he)
    have hold : m.frames.get? e = some frame := (hapart.frame e frame (hown ▸ hkt)).1 hframe
    have hstackAt : m.stackAt k = some (top :: rest) := by
      rw [stackAt, ← hapart.thread k hkt, ← hk]; rfl
    rw [pendingAt_of_frame (hframe.trans hold.symm)]
    exact h k top rest hstackAt e he

end TopWaits

/-- After a load no frame waits: calls that were open have ended. -/
theorem Restored.pendingAt {ρ : EntityId → Option EntityId} (h : Restored ρ m m')
    (f : FrameHandle) :
    m'.pendingAt f = none := by
  refine Option.bind_eq_none_iff.2 fun frame hframe => ?_
  obtain ⟨old, -, -, heq⟩ := (h.frame f frame.bare).1 (by rw [hframe]; rfl)
  exact (congrArg Frame.pending heq :)

end Machine

namespace Host

variable {η : Type} {h : Host η} {w : World η} {t : ThreadHandle} {f : FrameHandle}
  {below : List FrameHandle}

open Machine

/-- **Only innermost frames wait**, and a step keeps it so: who asks is on top, and what is pushed
does not wait. -/
theorem topWaits_step (hq : h.Quiet) (f : FrameHandle) (htop : w.machine.TopWaits)
    (hsound : w.machine.Sound) (hroom : ((h.step f).run w).state.machine.Roomy) :
    ((h.step f).run w).state.machine.TopWaits := by
  rcases hq.step_cases f hsound with hidle | ⟨t, below, frame, hstack, hf, hpending, hstepped⟩
  · rw [hidle]
    exact htop
  · obtain ⟨hapart, hre⟩ := hstepped.confined hsound hstack hroom
    exact htop.step (hsound.moves (hstepped.moves hq hsound hroom)) hstack
      ((pendingAt_of_get? hf).trans hpending) hapart hre

/-- **No operation uncovers a frame that waits.** -/
theorem topWaits_perform (hq : h.Quiet) (op : Operation) (htop : w.machine.TopWaits)
    (hsound : w.machine.Sound) (hbefore : w.machine.Roomy)
    (hroom : ((h.perform op).run w).state.machine.Roomy) :
    ((h.perform op).run w).state.machine.TopWaits := by
  cases op with
  | start entity name =>
    simp only [perform, Act.run_map]
    rw [hq.run_start hsound.proper hbefore]
    cases h.script name { w with machine := w.machine.opened entity name } with
    | error failure => exact htop.mono (fun _ _ _ ht => .inr ht) fun _ he => he
    | ok result => exact htop.started entity name result.1
  | step f =>
    simp only [perform, Act.run_map] at hroom ⊢
    exact topWaits_step hq f htop hsound hroom
  | stepInvocation t =>
    simp only [perform, Act.run_map] at hroom ⊢
    cases ht : w.machine.threads.get? t with
    | none =>
      rw [run_stepInvocation_of_dead ht]
      exact htop
    | some thread =>
      obtain ⟨f, below, hstack⟩ := hsound.exists_stack ht
      rw [run_stepInvocation hstack] at hroom ⊢
      exact topWaits_step hq f htop hsound hroom
  | complete f result =>
    simp only [perform, Act.run_map, World.run_onMachine]
    exact htop.completeCall f result
  | setVariable t token value =>
    simp only [perform, Act.run_map, World.run_onMachine]
    exact htop.setVariable t token value
  | setGlobal name value => exact htop.mono (fun _ _ _ ht => .inr ht) fun _ he => he
  | claim =>
    simp only [perform, World.run_getMachine_bind]
    unfold Machine.claimNext
    split
    · exact htop
    · next k _ =>
      have hlinks : SameLinks w.machine (w.machine.modifyThread k fun thread =>
          { thread with claimed := true, wasClaimed := true }) :=
            SameLinks.modifyThread fun _ _ => ⟨rfl, rfl⟩
      exact htop.mono (fun t f below ht => .inr ((hlinks.stackAt t).symm.trans ht)) fun _ he => he
  | cleanup t => exact htop.cleanup t
  | reset => exact TopWaits.empty

end Host

namespace Machine

variable {m : Machine}

/-- **In a reachable machine only innermost frames wait.** -/
theorem Reachable.topWaits (h : Reachable m) : m.TopWaits := by
  induction h with
  | new => exact TopWaits.empty
  | perform hquiet hbefore hroom ih =>
    obtain ⟨hsound, hroomy⟩ := hbefore.sound_and_roomy
    exact Host.topWaits_perform hquiet _ ih hsound hroomy hroom
  | load s _ hsaved hsave hfits =>
    obtain ⟨-, -, hrestored⟩ := hsaved.sound.load_save hfits hsave s _
    intro t f below _ e _
    exact hrestored.pendingAt e

/-! ## The signal -/

/-- **Unwinding finishes the invocation** exactly if it says so. -/
theorem Unwinds.signal_eq {m m' : Machine} {t : ThreadHandle} {f : FrameHandle}
    {below : List FrameHandle} {signal : Signal} (h : Unwinds t m signal m') (hsound : m.Sound)
    (hstack : m.stackAt t = some (f :: below)) :
    signal = if m'.isLive t then .pending else .finished := by
  induction h generalizing f below with
  | finish =>
    rw [isLive, Table.contains_eq, threads_cleanup, Table.get?_erase, if_pos rfl]
    rfl
  | stop he =>
    obtain ⟨thread, hthread, -⟩ := Option.map_eq_some_iff.1 (hsound.dropped he).stack
    rw [isLive, if_pos (Table.contains_iff.2 ⟨thread, hthread⟩)]
  | next he _ ih => exact ih (hsound.dropped he).sound (hsound.dropped he).stack

/-- **The signal of an answer** tells whether the frame waits then. -/
theorem value_takeAnswer {l : Line} (hpending : m.pendingAt l.frame = none)
    (hlive : m.frames.contains l.frame = true) (call : Call) (assignTo : Option String)
    (answer : Except Failure Completion) :
    ((takeAnswer l call assignTo answer).run m).value =
      if (((takeAnswer l call assignTo answer).run m).state.pendingAt l.frame).isSome then .idle
      else .pending := by
  rcases answer with failure | value | _
  · rw [(run_takeAnswer_error l call assignTo failure m).2, pendingAt_moveCursor, hpending]
    rfl
  · have hresult : (m.resulted l.frame value).pendingAt l.frame = m.pendingAt l.frame :=
      pendingAt_congr (Table.map_get?_modify m.frames l.frame fun _ _ => rfl)
    rw [(run_takeAnswer_ready l call assignTo value m).1,
      (run_takeAnswer_ready l call assignTo value m).2, pendingAt_moveCursor, pendingAt_delivered,
      hresult, hpending]
    rfl
  · obtain ⟨frame, hf⟩ := Table.contains_iff.1 hlive
    rw [run_takeAnswer_pending, pendingAt, parked, frames_modifyFrame,
      Table.get?_modify, if_pos rfl, hf]
    rfl

end Machine

namespace Host

variable {η : Type} {h : Host η} {w : World η} {t : ThreadHandle} {f : FrameHandle}
  {below : List FrameHandle}

open Machine

/-- **The failure of a `call`**: the line that runs next in the innermost frame enters a script
which the host does not find, or which cannot be read. -/
def CallFails (h : Host η) (w : World η) (t : ThreadHandle) (failure : Failure) : Prop :=
  ∃ (l : Line) (name : String) (args : List String) (reason : Failure),
    w.machine.frameOf t = some l.frame ∧ l.RunsNext w.machine ∧
      l.Enters h.toSetting w.machine name args ∧
    h.script name { w with machine := w.machine.moveCursor l.frame (l.index + 1) } = .error reason ∧
    failure = (Cause.callFailed name reason.cause).failureAt l.source

/-- **A step tells how its invocation stands**, or why a script could not be entered. -/
theorem Stepped.truthful {value : Except Failure Signal} {m' : Machine}
    (hstep : h.Stepped t f w value m') (hsound : w.machine.Sound) (htop : w.machine.TopWaits)
    (hstack : w.machine.stackAt t = some (f :: below)) (hpending : w.machine.pendingAt f = none) :
    value = .ok (m'.standing t) ∨
      ∃ failure, value = .error failure ∧ h.CallFails w t failure ∧ m'.standing t = .pending := by
  have hready := edits_readied w.machine f
  have hpending' : (w.machine.readied f).pendingAt f = none :=
    (pendingAt_readied w.machine f f).trans hpending
  have hframe : w.machine.frameOf t = some f := frameOf_of_stackAt hstack
  have hstack' : (w.machine.readied f).stackAt t = some (f :: below) :=
    (hready.sameLinks.stackAt t).trans hstack
  cases hstep with
  | @unwound signal m' _ hunwinds =>
    left
    have hsound' := hsound.moves hready.moves
    rw [hunwinds.signal_eq hsound' hstack']
    rcases (hunwinds.popped hsound' hstack').2 with
      ⟨hdead, -⟩ | @⟨gone, rest, k, rfl, hleft, -, ⟨frame, index, readiness, hget, hget', -⟩, -⟩
    · rw [standing_of_dead hdead, isLive, Table.contains_eq, hdead]
      rfl
    · -- the frame that is innermost now was below before, so it does not wait
      have hbelow := htop t f _ hstack k (List.mem_append_right gone List.mem_cons_self)
      rw [← pendingAt_readied (f := f), pendingAt, hget] at hbelow
      have hnone : m'.pendingAt k = none := by rw [pendingAt, hget']; exact hbelow
      obtain ⟨thread, hthread, -⟩ := Option.map_eq_some_iff.1 hleft
      rw [standing_of_stack hleft, hnone, isLive, if_pos (Table.contains_iff.2 ⟨thread, hthread⟩)]
      rfl
  | @went l m' hat _ hchanges flow =>
    left
    have hlinks := Edits.sameLinks (hchanges.edits.trans (edits_follow l flow m'))
    have hnone : ((follow l flow).run m').state.pendingAt f = none := by
      rw [show ((follow l flow).run m').state.pendingAt f = m'.pendingAt f from
        pendingAt_congr (Table.map_get?_modify m'.frames f fun _ _ => rfl),
        pendingAt_congr (hchanges.pending f), hpending']
    rw [standing_of_stack ((hlinks.stackAt t).trans hstack'), hnone]
    rfl
  | @asked l name args assignTo answer hat hl =>
    left
    obtain ⟨rfl, rfl⟩ := hat
    have hin := hready.line hl.stands
    have hlinks :=
      (edits_takeAnswer (fun _ => hin) (l.callOf h.toSetting w.machine name args) assignTo
      answer).sameLinks
    obtain ⟨frame, -, -, hf, -⟩ := hin
    rw [value_takeAnswer hpending' (Table.contains_iff.2 ⟨frame, hf⟩),
      standing_of_stack ((hlinks.stackAt _).trans hstack')]
  | @entered l _ _ values script _ hat hl =>
    left
    have htop' := stackAt_pushed (m := w.machine.moveCursor f (l.index + 1)) hstack script values t
    rw [if_pos rfl] at htop'
    rw [standing_of_stack htop', pendingAt, get?_frames_pushed, if_pos rfl]
    rfl
  | @refused l name args reason hat hl henters hscript =>
    right
    obtain ⟨rfl, rfl⟩ := hat
    have hmoved : (w.machine.moveCursor l.frame (l.index + 1)).stackAt l.thread =
        some (l.frame :: below) :=
      hstack
    refine ⟨_, rfl, ⟨l, name, args, reason, hframe, hl, henters, hscript, rfl⟩, ?_⟩
    rw [standing_of_stack hmoved, pendingAt_moveCursor, hpending]
    rfl

end Host

/-! ## The calls of a step -/

/-- A world whose host keeps calls beside its own state. -/
def World.keeping {η : Type} (w : World η) (calls : List Call) : World (η × List Call) :=
  ⟨w.machine, w.own, calls⟩

namespace Host

variable {η α β : Type} {h : Host η}

/-- A computation that leaves the kept calls alone. -/
def beside (x : Act (World η) α) : Act (World (η × List Call)) α :=
  x.focus (fun w => ⟨w.machine, w.own.1⟩) fun w v => v.keeping w.own.2

/-- **The host that keeps the calls** it is asked for, and answers as before. -/
def recorded (h : Host η) : Host (η × List Call) where
  toSetting := h.toSetting
  dispatch call := do
    modify fun w => { w with own := (w.own.1, w.own.2 ++ [call]) }
    beside (h.dispatch call)
  load name := beside (h.load name)

/-- The second computation does what the first does, and keeps at most `n` calls. -/
def Records (n : Nat) (x : Act (World η) α) (y : Act (World (η × List Call)) α) : Prop :=
  ∀ w calls, ∃ asked, asked.length ≤ n ∧
    y.run (w.keeping calls) =
      ⟨(x.run w).value, (x.run w).state.keeping (calls ++ asked), (x.run w).log⟩

namespace Records

variable {n k : Nat} {x : Act (World η) α} {y : Act (World (η × List Call)) α}

/-- A computation that makes no call is recorded as none. -/
theorem of_run (h : ∀ w calls, y.run (w.keeping calls) =
    ⟨(x.run w).value, (x.run w).state.keeping calls, (x.run w).log⟩) : Records 0 x y := by
  intro w calls
  refine ⟨[], Nat.le_refl 0, ?_⟩
  rw [List.append_nil, h]

theorem pure (a : α) : Records (η := η) 0 (Pure.pure a) (Pure.pure a) := of_run fun _ _ => rfl

/-- What is done to the machine makes no call. -/
theorem onMachine (x : Act Machine α) :
    Records (η := η) 0 (World.onMachine x) (World.onMachine x) :=
  of_run fun _ _ => rfl

theorem report (d : Diagnostic) : Records (η := η) 0 (Act.report d) (Act.report d) :=
  of_run fun _ _ => rfl

theorem mono (h : Records n x y) (hle : n ≤ k) : Records k x y := by
  intro w calls
  obtain ⟨asked, hasked, hrun⟩ := h w calls
  exact ⟨asked, Nat.le_trans hasked hle, hrun⟩

/-- The calls of two computations are those of the first and then those of the second. -/
theorem bind {f : α → Act (World η) β} {g : α → Act (World (η × List Call)) β} (hx : Records n x y)
    (hf : ∀ a, Records k (f a) (g a)) : Records (n + k) (x >>= f) (y >>= g) := by
  intro w calls
  obtain ⟨first, hfirst, hrun⟩ := hx w calls
  obtain ⟨second, hsecond, hrun'⟩ := hf (x.run w).value (x.run w).state (calls ++ first)
  refine ⟨first ++ second, by rw [List.length_append]; omega, ?_⟩
  rw [Act.run_bind, hrun, hrun', List.append_assoc]
  rfl

/-- A dispatch makes one call, the one it is for. -/
theorem dispatch (call : Call) : Records 1 (h.dispatch call) (h.recorded.dispatch call) :=
  fun _ _ => ⟨[call], Nat.le_refl 1, rfl⟩

/-- Looking for a script makes no call. -/
theorem pushFrame (t : ThreadHandle) (name : String) (args : List String) :
    Records 0 (h.pushFrame t name args) (h.recorded.pushFrame t name args) := by
  have hload : Records 0 (h.load name) (h.recorded.load name) := of_run fun _ _ => rfl
  refine hload.bind (k := 0) fun located => ?_
  cases located with
  | error failure => exact pure _
  | ok located =>
    dsimp only
    cases Script.read name located.dialect located.text with
    | error failure => exact pure _
    | ok result => exact of_run fun _ _ => rfl

/-- **A line makes at most one call.** -/
theorem execute (l : Line) : Records 1 (h.execute l) (h.recorded.execute l) := by
  refine (onMachine _).bind (n := 0) (k := 1) fun plan => ?_
  cases plan with
  | go flow => exact ((onMachine _).bind fun _ => pure _).mono (Nat.zero_le 1)
  | ask call assignTo =>
    exact (dispatch call).bind (k := 0) fun answer => (onMachine _).bind (k := 0)
      fun signal => pure _
  | enter name args =>
    have hmove : Records (η := η) 0 (World.modifyMachine (·.moveCursor l.frame (l.index + 1)))
        (World.modifyMachine (·.moveCursor l.frame (l.index + 1))) := of_run fun _ _ => rfl
    refine mono (hmove.bind fun _ => (pushFrame l.thread name args).bind (k := 0) fun entered => ?_)
      (Nat.zero_le 1)
    cases entered with
    | error failure => exact (report _).bind (k := 0) fun _ => pure _
    | ok frame => exact pure _

/-- **A step asks for one function at most.** -/
theorem stepInvocation (t : ThreadHandle) :
    Records 1 (h.stepInvocation t) (h.recorded.stepInvocation t) := by
  have hget : Records (η := η) 0 World.getMachine World.getMachine := of_run fun _ _ => rfl
  refine hget.bind (k := 1) fun m => ?_
  cases m.threads.get? t with
  | none => exact (pure _).mono (Nat.zero_le 1)
  | some thread =>
    dsimp only
    cases thread.top? with
    | none => exact mono (of_run fun _ _ => rfl) (Nat.zero_le 1)
    | some f =>
      refine (onMachine _).bind (n := 0) (k := 1) fun readied => ?_
      rcases readied with failure | signal | l
      · exact (pure _).mono (Nat.zero_le 1)
      · exact (pure _).mono (Nat.zero_le 1)
      · exact execute l

end Records

/-! ## Steps of reachable machines -/

/-- **The step of an invocation tells the truth.** -/
structure Truthful (h : Host η) (t : ThreadHandle) (w : World η) : Prop where
  /-- An invocation that is gone, or waits for the host, is left alone. -/
  idle : w.machine.isLive t = false ∨ w.machine.isWaiting t = true →
    (h.stepInvocation t).run w = ⟨.ok .idle, w, []⟩
  /-- Else the signal says how the invocation stands after the step. -/
  signal : w.machine.standing t = .pending →
    ∀ signal, ((h.stepInvocation t).run w).value = .ok signal →
    signal = ((h.stepInvocation t).run w).state.machine.standing t
  /-- A step that fails is a `call` whose script cannot be had. The invocation can go on. -/
  failure : ∀ failure, ((h.stepInvocation t).run w).value = .error failure →
    failure.kind = .callFailed ∧ h.CallFails w t failure ∧
      ((h.stepInvocation t).run w).state.machine.standing t = .pending
  /-- The host is asked for one function at most. -/
  calls : Records 1 (h.stepInvocation t) (h.recorded.stepInvocation t)
  /-- No broken link is met. -/
  intact : ∀ d ∈ ((h.stepInvocation t).run w).log, d.isIntegrity = true → h.Reports d

/-- A step that leaves alone an invocation which could not go on tells the truth. -/
theorem Truthful.of_idle {h : Host η} {t : ThreadHandle} {w : World η}
    (hrun : (h.stepInvocation t).run w = ⟨.ok .idle, w, []⟩)
    (hstanding : w.machine.standing t ≠ .pending) :
    h.Truthful t w := by
  refine ⟨fun _ => hrun, fun hpending => absurd hpending hstanding, fun failure hfailure => ?_,
    .stepInvocation t, ?_⟩
  · rw [hrun] at hfailure
    cases hfailure
  · rw [hrun]
    exact List.forall_mem_nil _

end Host

namespace Machine

theorem isWaiting_of_stack {m : Machine} {t : ThreadHandle} {f : FrameHandle}
    {below : List FrameHandle} (hstack : m.stackAt t = some (f :: below)) :
    m.isWaiting t = (m.pendingAt f).isSome := by
  rw [isWaiting, frameOf_eq_head?, hstack]
  rfl

/-- **The signal of a step tells the truth, and only a `call` can fail.** -/
theorem Reachable.step_truthful {η : Type} {h : Host η} {w : World η} (hreach : w.machine.Reachable)
    (hq : h.Quiet) (t : ThreadHandle) : h.Truthful t w := by
  have hsound := hreach.sound
  cases ht : w.machine.threads.get? t with
  | none =>
    refine .of_idle (Host.run_stepInvocation_of_dead ht) ?_
    rw [standing_of_dead ht]
    decide
  | some thread =>
    obtain ⟨f, below, hstack⟩ := hsound.exists_stack ht
    have hlive : w.machine.isLive t = true := Table.contains_iff.2 ⟨thread, ht⟩
    obtain ⟨frame, hf, ⟨hpending, hrun⟩ | ⟨hpending, hstepped, hintact⟩⟩ :=
      hq.stepInvocation_cases hsound hstack
    · have hwaits : (w.machine.pendingAt f).isSome = true := by
        rw [pendingAt, hf]
        exact hpending
      refine .of_idle hrun ?_
      rw [standing_of_stack hstack, if_pos hwaits]
      decide
    · have hnone : w.machine.pendingAt f = none := by
        rw [pendingAt, hf]
        exact hpending
      have htruth := hstepped.truthful hsound hreach.topWaits hstack hnone
      refine ⟨fun hidle => ?_, fun _ signal hsignal => ?_, fun failure hfailure => ?_,
        .stepInvocation t, hintact⟩
      · rw [hlive, isWaiting_of_stack hstack, hnone] at hidle
        rcases hidle with hdead | hwaits
        · cases hdead
        · cases hwaits
      · rcases htruth with hvalue | ⟨failure, hvalue, -⟩
        · rw [hvalue] at hsignal
          exact (Except.ok.inj hsignal).symm
        · rw [hvalue] at hsignal
          cases hsignal
      · rcases htruth with hvalue | ⟨reason, hvalue, hfails, hstanding⟩
        · rw [hvalue] at hfailure
          cases hfailure
        · rw [hvalue] at hfailure
          cases hfailure
          have hkind : failure.kind = .callFailed := by
            obtain ⟨-, -, -, -, -, -, -, -, rfl⟩ := hfails
            rfl
          exact ⟨hkind, hfails, hstanding⟩

/-- The script that was started asks for a name: the step says that it waits, and so it does. -/
theorem greeting_truthful : greeting.machine.Reachable ∧ (asking {}).Quiet ∧
    greeting.machine.standing ⟨1⟩ = .pending ∧ waiting.standing ⟨1⟩ = .idle ∧
    (asking {}).Truthful ⟨1⟩ greeting :=
  ⟨reachable_greeting, quiet_asking {}, by decide +kernel, by decide +kernel,
    reachable_greeting.step_truthful (quiet_asking {}) ⟨1⟩⟩

end Machine

end StepScript
