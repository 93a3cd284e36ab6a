import StepScript.Proofs.Machine.Moves
import StepScript.Proofs.Machine.Renaming

/-!
# Proofs/Machine/InStep — computations on machines in step

A computation cannot tell two machines in step apart: it gives the same result, up to the names of
handles, and leaves the machines in step (`Machine.InStep`). What it reports may differ, since
reports name handles and missing commands.

* `Machine.InStep.plan` — a line comes to the same.
* `Machine.InStep.takeAnswer` — so does the host's answer.
-/

namespace StepScript

/-- The same vantage in machines in step; diagnostics may name another origin. -/
structure Vantage.Like (π : Renaming) (v v' : Vantage) : Prop where
  thread : v'.thread = π.thread.apply v.thread
  frame : v'.frame = v.frame.map π.frame.apply

/-- The line that stands for a line. -/
def Line.rename (π : Renaming) (l : Line) : Line :=
  { l with thread := π.thread.apply l.thread, frame := π.frame.apply l.frame }

/-- A line and its renamed copy look out alike. -/
theorem Line.like_vantage (π : Renaming) (l : Line) : l.vantage.Like π (l.rename π).vantage :=
  ⟨rfl, rfl⟩

/-- The call that stands for a call: the same function, arguments and entity. -/
def Call.rename (π : Renaming) (call : Call) : Call :=
  { call with thread := π.thread.apply call.thread, frame := π.frame.apply call.frame }

/-- The plan that stands for a plan. -/
def Plan.rename (π : Renaming) : Plan → Plan
  | .ask call assignTo => .ask (call.rename π) assignTo
  | plan => plan

/-- The cause that stands for a cause. -/
def Cause.rename (π : Renaming) : Cause → Cause
  | .staleThread t => .staleThread (π.thread.apply t)
  | .staleFrame f => .staleFrame (π.frame.apply f)
  | .vanishedTarget g => .vanishedTarget (π.target.apply g)
  | .missingThread f t => .missingThread (π.frame.apply f) (π.thread.apply t)
  | .notWaiting f => .notWaiting (π.frame.apply f)
  | .callFailed script reason => .callFailed script (reason.rename π)
  | cause => cause

/-- The failure that stands for a failure: the same but for the handles that it names. -/
def Failure.rename (π : Renaming) (failure : Failure) : Failure :=
  { failure with cause := failure.cause.rename π }

namespace Machine

variable {π : Renaming} {s : Setting} {α α' β β' : Type}

/-- **Two computations in step**: on machines in step their results are related and the machines
stay in step. -/
structure InStep (π : Renaming) (r : α → α' → Prop) (x : Act Machine α) (x' : Act Machine α') :
    Prop where
  run : ∀ {m m' : Machine}, Renamed π m m' →
    r (x.run m).value (x'.run m').value ∧ Renamed π (x.run m).state (x'.run m').state

namespace InStep

variable {r : α → α' → Prop} {q : β → β' → Prop}

/-! ## Putting computations together -/

theorem pure {a : α} {a' : α'} (h : r a a') : InStep π r (Pure.pure a) (Pure.pure a') :=
  ⟨fun hm => ⟨h, hm⟩⟩

/-- Computations in step can be chained, if the second are in step on all results that belong
together. -/
theorem bind {x : Act Machine α} {x' : Act Machine α'} {y : α → Act Machine β}
    {y' : α' → Act Machine β'} (hx : InStep π r x x')
    (hy : ∀ a a', r a a' → InStep π q (y a) (y' a')) :
    InStep π q (x >>= y) (x' >>= y') :=
  ⟨fun hm => (hy _ _ (hx.run hm).1).run (hx.run hm).2⟩

/-- The results are the same. -/
theorem next {x x' : Act Machine α} {y : α → Act Machine β} {y' : α → Act Machine β'}
    (hx : InStep π Eq x x') (hy : ∀ a, InStep π q (y a) (y' a)) :
    InStep π q (x >>= y) (x' >>= y') :=
  hx.bind fun a _ heq => heq ▸ hy a

/-- Reading the machine gives machines in step. -/
theorem get : InStep π (Renamed π) MonadState.get MonadState.get := ⟨fun hm => ⟨hm, hm⟩⟩

theorem set {m m' : Machine} (h : Renamed π m m') :
    InStep π Eq (MonadStateOf.set m : Act Machine Unit) (MonadStateOf.set m') :=
  ⟨fun _ => ⟨rfl, h⟩⟩

/-- A change that keeps machines in step is in step. -/
theorem change {u u' : Machine → Machine} (h : ∀ m m', Renamed π m m' → Renamed π (u m) (u' m')) :
    InStep π Eq (modify u : Act Machine Unit) (modify u') :=
  ⟨fun hm => ⟨rfl, h _ _ hm⟩⟩

/-- What is reported is not compared. -/
theorem report (d d' : Diagnostic) : InStep π Eq (Act.report d) (Act.report d') :=
  ⟨fun hm => ⟨rfl, hm⟩⟩

theorem map {x : Act Machine α} {x' : Act Machine α'} {f : α → β} {f' : α' → β'}
    (hx : InStep π r x x') (hf : ∀ a a', r a a' → q (f a) (f' a')) :
    InStep π q (f <$> x) (f' <$> x') :=
  ⟨fun hm => by
    rw [Act.run_map, Act.run_map]
    exact ⟨hf _ _ (hx.run hm).1, (hx.run hm).2⟩⟩

/-- To do things in step for each member of a list is in step. -/
theorem collect {f f' : β → Act Machine α} {bs : List β} (hf : ∀ b, InStep π Eq (f b) (f' b)) :
    InStep π Eq (Act.collect f bs) (Act.collect f' bs) := by
  induction bs with
  | nil => exact pure rfl
  | cons b bs ih => exact (hf b).next fun a => ih.next fun as => pure rfl

/-! ## Tokens -/

section

variable {v v' : Vantage} (hv : v.Like π v')

include hv

/-- Variables have the same values in machines in step. -/
theorem getVar (scope : Scope) (name : String) :
    InStep π Eq (Machine.getVar v scope name) (Machine.getVar v' scope name) := by
  refine ⟨fun {m m'} hm => ⟨?_, ?_⟩⟩
  · rw [value_getVar, value_getVar, hm.cellOf_rename hv.thread hv.frame]
    cases m.cellOf v scope with
    | none => rfl
    | some cell =>
      simp only [Option.map_some, Option.bind_some, valueAt, hm.varsAt_rename]
  · rw [state_getVar, state_getVar]
    exact hm

/-- Setting one keeps the machines in step. -/
theorem setVar (scope : Scope) (name value : String) :
    InStep π Eq (Machine.setVar v scope name value) (Machine.setVar v' scope name value) := by
  refine ⟨fun {m m'} hm => ?_⟩
  rw [(run_setVar v scope name value m).1, (run_setVar v scope name value m).2,
    (run_setVar v' scope name value m').1, (run_setVar v' scope name value m').2,
    hm.cellOf_rename hv.thread hv.frame]
  cases m.cellOf v scope with
  | none => exact ⟨rfl, hm⟩
  | some cell => exact ⟨rfl, hm.assign cell name value⟩

/-- A token means the same to a line and to its renamed copy. -/
theorem readToken (token : String) :
    InStep π Eq (Machine.readToken s v token) (Machine.readToken s v' token) := by
  unfold Machine.readToken
  cases TokenRef.of token with
  | literal text => exact pure rfl
  | var scope name => exact (getVar hv scope name).next fun value => pure rfl
  | result =>
    refine get.bind fun m m' hm => pure ?_
    rw [resultAt, resultAt, hv.frame]
    cases v.frame with
    | none => rfl
    | some f =>
      simp only [Option.map_some, Option.bind_some]
      cases hf : m.frames.get? f with
      | none => rw [hm.frames.gone f hf]
      | some frame =>
        obtain ⟨frame', hf', hlike⟩ := hm.frames.live f frame hf
        simp only [hf', hlike.result]
  | unknownScope text => exact (report _ _).next fun _ => pure rfl

theorem readName (token : String) :
    InStep π Eq (Machine.readName s v token) (Machine.readName s v' token) := by
  have hread := readToken (s := s) hv token
  unfold Machine.readName
  split
  · exact pure rfl
  · exact hread

theorem readTokens (tokens : List String) :
    InStep π Eq (Machine.readTokens s v tokens) (Machine.readTokens s v' tokens) :=
  collect fun token => readToken hv token

theorem assignToken (token value : String) :
    InStep π Eq (Machine.assignToken v token value) (Machine.assignToken v' token value) := by
  unfold Machine.assignToken
  cases TokenRef.of token with
  | literal text => exact (report _ _).next fun _ => pure rfl
  | var scope name => exact setVar hv scope name value
  | result => exact (report _ _).next fun _ => pure rfl
  | unknownScope text => exact (report _ _).next fun _ => pure rfl

end

theorem entityOf (t : ThreadHandle) :
    InStep π Eq (Machine.entityOf t) (Machine.entityOf (π.thread.apply t)) := by
  have htarget : InStep π (fun g g' => g' = g.map π.target.apply) (targetOf t)
      (targetOf (π.thread.apply t)) :=
    ⟨fun hm => ⟨hm.value_targetOf t, by rw [state_targetOf, state_targetOf]; exact hm⟩⟩
  refine htarget.bind fun g g' heq => get.bind fun m m' hm => pure ?_
  subst heq
  cases g with
  | none => rfl
  | some g =>
    simp only [Option.map_some, Option.bind_some]
    exact (hm.targets.bind_get? (fun _ _ h => h.entity) g).symm

theorem setVariable (t : ThreadHandle) (token value : String) :
    InStep π Eq (Machine.setVariable t token value)
      (Machine.setVariable (π.thread.apply t) token value) := by
  have hvantage : InStep π (fun v v' => v.isSome = v'.isSome ∧
      ∀ a b, v = some a → v' = some b → a.Like π b) (vantageOf t)
        (vantageOf (π.thread.apply t)) := by
    refine get.bind fun m m' hm => ?_
    rw [isLive, isLive, hm.threads.contains_apply]
    split
    · refine pure ⟨rfl, fun a b ha hb => ?_⟩
      cases ha
      cases hb
      exact ⟨rfl, hm.frameOf_apply t⟩
    · exact (report _ _).next fun _ => pure ⟨rfl, nofun⟩
  refine hvantage.bind fun v v' ⟨hlive, hlike⟩ => ?_
  cases v with
  | none =>
    cases v' with
    | none => exact pure rfl
    | some v' => cases hlive
  | some v =>
    cases v' with
    | none => cases hlive
    | some v' => exact assignToken (hlike v v' rfl rfl) token value

/-! ## Lines -/

variable (l : Line)

theorem warn (warning : LineWarning) :
    InStep π Eq (Machine.warn l warning) (Machine.warn (l.rename π) warning) :=
  (report _ _).next fun _ => pure rfl

/-- A line and its renamed copy come to the same call. -/
theorem planCall (name : String) (args : List String) (assignTo : Option String) :
    InStep π (fun p p' => p' = p.rename π) (Machine.planCall s l name args assignTo)
      (Machine.planCall s (l.rename π) name args assignTo) :=
  (entityOf l.thread).next fun _ =>
    (readTokens (l.like_vantage π) args).next fun _ => pure rfl

/-- A line that goes on comes to no call. -/
theorem go {x x' : Act Machine Flow} (h : InStep π Eq x x') :
    InStep π (fun p p' => p' = p.rename π) (x >>= fun flow => Pure.pure (Plan.go flow))
      (x' >>= fun flow => Pure.pure (Plan.go flow)) :=
  h.next fun _ => pure rfl

theorem planEnter : InStep π (fun p p' => p' = p.rename π) (Machine.planEnter s l)
    (Machine.planEnter s (l.rename π)) := by
  have hv := l.like_vantage π
  obtain ⟨t, f, index, count, source, tokens⟩ := l
  rcases tokens with _ | ⟨_, _ | ⟨script, args⟩⟩
  case cons.cons =>
    exact (readName hv script).next fun _ => (readTokens hv args).next fun _ => pure rfl
  all_goals exact go (warn _ _)

/-- Each command does the same for a line and for its renamed copy. -/
theorem runSet : InStep π Eq (Machine.runSet s l) (Machine.runSet s (l.rename π)) := by
  have hv := l.like_vantage π
  obtain ⟨t, f, index, count, source, tokens⟩ := l
  rcases tokens with _ | ⟨_, _ | ⟨name, _ | ⟨left, _ | ⟨operator, _ | ⟨right, _ | _⟩⟩⟩⟩⟩
  case cons.cons.cons.nil =>
    exact (readToken hv left).next fun value => (assignToken hv name value).next fun _ => pure rfl
  case cons.cons.cons.cons.cons.nil =>
    refine (readToken hv left).next fun x => (readToken hv right).next fun y => ?_
    cases applyOperator operator x y with
    | ok value => exact (assignToken hv name value).next fun _ => pure rfl
    | error fault => exact warn _ _
  all_goals exact warn _ _

theorem planSet : InStep π (fun p p' => p' = p.rename π) (Machine.planSet s l)
    (Machine.planSet s (l.rename π)) := by
  have hv := l.like_vantage π
  have hset := runSet (π := π) (s := s) l
  have hcall := planCall (π := π) (s := s) l
  obtain ⟨t, f, index, count, source, tokens⟩ := l
  rcases tokens with _ | ⟨_, _ | ⟨name, _ | ⟨mark, rest⟩⟩⟩
  case cons.cons.cons =>
    unfold Machine.planSet
    dsimp only [Line.rename]
    split
    · cases rest with
      | nil => exact go (warn _ _)
      | cons function args =>
        exact (readName hv function).next fun function => hcall function args (some name)
    · exact go hset
  all_goals exact go hset

theorem addTo (name : String) (amount : Float) :
    InStep π Eq (Machine.addTo s l name amount) (Machine.addTo s (l.rename π) name amount) :=
  (readToken (l.like_vantage π) name).next fun _ =>
    (assignToken (l.like_vantage π) name _).next fun _ => pure rfl

theorem runInc : InStep π Eq (Machine.runInc s l) (Machine.runInc s (l.rename π)) := by
  have hv := l.like_vantage π
  have hadd := addTo (π := π) (s := s) l
  obtain ⟨t, f, index, count, source, tokens⟩ := l
  rcases tokens with _ | ⟨_, _ | ⟨name, _ | ⟨amount, _⟩⟩⟩
  case cons.cons.nil => exact hadd name 1.0
  case cons.cons.cons =>
    refine (readName hv amount).next fun text => ?_
    cases toNumber? text with
    | some amount => exact hadd name amount
    | none => exact warn _ _
  all_goals exact warn _ _

theorem runCat : InStep π Eq (Machine.runCat s l) (Machine.runCat s (l.rename π)) := by
  have hv := l.like_vantage π
  obtain ⟨t, f, index, count, source, tokens⟩ := l
  rcases tokens with _ | ⟨_, _ | ⟨name, _ | ⟨piece, pieces⟩⟩⟩
  case cons.cons.cons =>
    exact (readToken hv name).next fun value => (readTokens hv (piece :: pieces)).next fun pieces =>
      (assignToken hv name _).next fun _ => pure rfl
  all_goals exact warn _ _

/-- Frames in step are alike, so what does not depend on handles and scans is the same. -/
theorem bind_frame {m m' : Machine} (hm : Renamed π m m') (f : FrameHandle) {v : Frame → Option α}
    (hview : ∀ x x', x.Like π x' → v x' = v x) :
    (m'.frames.get? (π.frame.apply f)).bind v = (m.frames.get? f).bind v :=
  hm.frames.bind_get? hview f

/-- The arguments of a frame are those of its copy. -/
theorem argsAt_apply {m m' : Machine} (hm : Renamed π m m') (f : FrameHandle) :
    m'.argsAt (π.frame.apply f) = m.argsAt f := by
  rw [argsAt, argsAt]
  cases hf : m.frames.get? f with
  | none => rw [hm.frames.gone f hf]
  | some frame =>
    obtain ⟨frame', hf', hlike⟩ := hm.frames.live f frame hf
    simp only [hf', hlike.args]

theorem runCallarg : InStep π Eq (Machine.runCallarg s l) (Machine.runCallarg s (l.rename π)) := by
  have hv := l.like_vantage π
  obtain ⟨t, f, index, count, source, tokens⟩ := l
  rcases tokens with _ | ⟨_, _ | ⟨position, _ | ⟨name, _ | _⟩⟩⟩
  case cons.cons.cons.nil =>
    refine (readName hv position).next fun text => get.bind fun m m' hm => ?_
    dsimp only [Line.rename]
    rw [argsAt_apply hm]
    cases ((toNumber? text).bind Number.toNat?).bind ((m.argsAt f)[·]?) with
    | some value => exact (assignToken hv name value).next fun _ => pure rfl
    | none => exact warn _ _
  all_goals exact warn _ _

/-! ## Jumps -/

theorem jumpTo (token : String) :
    InStep π Eq (Machine.jumpTo s l token) (Machine.jumpTo s (l.rename π) token) := by
  refine (readName (l.like_vantage π) token).next fun name => get.bind fun m m' hm => ?_
  have hlabel := bind_frame hm l.frame (v := fun frame => frame.gotos.find? (labelKey name))
    fun x x' h => by rw [h.gotos]
  dsimp only [Line.rename]
  rw [hlabel]
  cases (m.frames.get? l.frame).bind fun frame => frame.gotos.find? (labelKey name) with
  | some index => exact pure rfl
  | none => exact warn l _

theorem runIf : InStep π Eq (Machine.runIf s l) (Machine.runIf s (l.rename π)) := by
  have hv := l.like_vantage π
  have hjump := jumpTo (π := π) (s := s) l
  obtain ⟨t, f, index, count, source, tokens⟩ := l
  rcases tokens with _ | ⟨_, _ | ⟨left, _ | ⟨operator, _ | ⟨right, _ | ⟨label, _ | _⟩⟩⟩⟩⟩
  case cons.cons.cons.cons.cons.nil =>
    refine (readToken hv left).next fun x => (readToken hv right).next fun y => ?_
    rcases compareTexts operator x y with _ | _ | _
    · exact warn _ _
    · exact pure rfl
    · exact hjump label
  all_goals exact warn _ _

theorem runGoto : InStep π Eq (Machine.runGoto s l) (Machine.runGoto s (l.rename π)) := by
  have hjump := jumpTo (π := π) (s := s) l
  obtain ⟨t, f, index, count, source, tokens⟩ := l
  rcases tokens with _ | ⟨_, _ | ⟨label, _ | _⟩⟩
  case cons.cons.nil => exact hjump label
  all_goals exact warn _ _

theorem runGosub : InStep π Eq (Machine.runGosub s l) (Machine.runGosub s (l.rename π)) := by
  have hv := l.like_vantage π
  obtain ⟨t, f, index, count, source, tokens⟩ := l
  rcases tokens with _ | ⟨_, _ | ⟨name, _ | _⟩⟩
  case cons.cons.nil =>
    refine (readName hv name).next fun name => get.bind fun m m' hm => ?_
    have hsub := bind_frame hm f (v := fun frame => frame.gosubs.find? (labelKey name))
      fun x x' h => by rw [h.gosubs]
    dsimp only [Line.rename]
    rw [hsub]
    cases (m.frames.get? f).bind fun frame => frame.gosubs.find? (labelKey name) with
    | some found =>
      refine (set (hm.modifyFrame ?_)).next fun _ => pure rfl
      exact fun x x' h => { h with returns := by rw [h.returns] }
    | none => exact warn _ _
  all_goals exact warn _ _

theorem runEndsub : InStep π Eq (Machine.runEndsub l) (Machine.runEndsub (l.rename π)) := by
  refine get.bind fun m m' hm => ?_
  have hreturn := bind_frame hm l.frame (v := fun frame => frame.returns.head?)
    fun x x' h => by rw [h.returns]
  dsimp only [Line.rename]
  rw [hreturn]
  cases (m.frames.get? l.frame).bind fun frame => frame.returns.head? with
  | some index =>
    refine (set (hm.modifyFrame ?_)).next fun _ => pure rfl
    exact fun x x' h => { h with returns := by rw [h.returns] }
  | none => exact warn l _

theorem runBeginsub : InStep π Eq (Machine.runBeginsub l) (Machine.runBeginsub (l.rename π)) := by
  refine get.bind fun m m' hm => ?_
  have hcloses : ((fun c => (m'.commands.get? c).any (·.startsWith endsub)) ∘ π.command.apply) =
      fun c => (m.commands.get? c).any (·.startsWith endsub) := by
    funext c
    rw [Function.comp, hm.get?_commands]
  dsimp only [Line.rename]
  cases hf : m.frames.get? l.frame with
  | none =>
    rw [hm.frames.gone _ hf]
    exact warn l _
  | some frame =>
    obtain ⟨frame', hf', hlike⟩ := hm.frames.live _ frame hf
    simp only [hf', hlike.commands, ← List.map_drop, List.findIdx?_map, hcloses]
    cases (frame.commands.drop (l.index + 1)).findIdx? fun c =>
        (m.commands.get? c).any (·.startsWith endsub) with
    | some offset => exact pure rfl
    | none => exact warn l _

/-! ## All lines -/

/-- **A keyword comes to the same plan**, up to the renaming. -/
theorem planKeyword (keyword : Keyword) :
    InStep π (fun p p' => p' = p.rename π) (Machine.planKeyword s l keyword)
      (Machine.planKeyword s (l.rename π) keyword) := by
  have hgo : ∀ flow flow' : Flow, flow = flow' → Plan.go flow' = (Plan.go flow).rename π := by
    rintro flow _ rfl
    rfl
  cases keyword with
  | set => exact planSet l
  | call => exact planEnter l
  | cond => exact (runIf l).map hgo
  | goto => exact (runGoto l).map hgo
  | gosub => exact (runGosub l).map hgo
  | leave => exact pure rfl
  | inc => exact (runInc l).map hgo
  | cat => exact (runCat l).map hgo
  | endsub => exact (runEndsub l).map hgo
  | beginsub => exact (runBeginsub l).map hgo
  | callarg => exact (runCallarg l).map hgo

/-- **A line comes to the same in machines in step.** -/
theorem plan : InStep π (fun p p' => p' = p.rename π) (Machine.plan s l)
    (Machine.plan s (l.rename π)) := by
  have hv := l.like_vantage π
  have hkeyword := planKeyword (π := π) (s := s) l
  have hcall := planCall (π := π) (s := s) l
  obtain ⟨t, f, index, count, source, tokens⟩ := l
  cases tokens with
  | nil => exact pure rfl
  | cons first rest =>
    refine (readName hv first).next fun name => ?_
    cases Keyword.ofName? name with
    | some keyword => exact hkeyword keyword
    | none => exact hcall name rest none

/-- Following a flow keeps the machines in step. -/
theorem follow (flow : Flow) :
    InStep π Eq (Machine.follow l flow) (Machine.follow (l.rename π) flow) :=
  change fun _ _ hm => hm.moveCursor l.frame _

/-- **The host's answer has the same effect in machines in step.** -/
theorem takeAnswer (call : Call) (assignTo : Option String) (answer : Except Failure Completion) :
    InStep π Eq (Machine.takeAnswer l call assignTo answer)
      (Machine.takeAnswer (l.rename π) (call.rename π) assignTo answer) := by
  have hv := l.like_vantage π
  rcases answer with failure | value | _
  · exact (warn l _).next fun flow => (follow l flow).next fun _ => pure rfl
  · refine (change fun _ _ hm => hm.modifyFrame ?_).next fun _ => ?_
    · exact fun x x' h => { h with result := rfl }
    · cases assignTo with
      | some token =>
        exact (assignToken hv token value).next fun _ => (follow l .next).next fun _ => pure rfl
      | none => exact (follow l .next).next fun _ => pure rfl
  · refine (change fun _ _ hm => hm.modifyFrame ?_).next fun _ => pure rfl
    exact fun x x' h => { h with cursor := rfl, pending := rfl }

/-- The invocation of a frame is found, or missed, in both. -/
theorem threadOf (f : FrameHandle) :
    InStep π (fun r r' => r' = (r.map π.thread.apply).mapError (Failure.rename π))
      (Machine.threadOf f) (Machine.threadOf (π.frame.apply f)) := by
  refine get.bind fun m m' hm => ?_
  cases hf : m.frames.get? f with
  | none =>
    rw [hm.frames.gone f hf]
    exact pure rfl
  | some frame =>
    obtain ⟨frame', hf', hlike⟩ := hm.frames.live f frame hf
    simp only [hf', hlike.thread, hm.threads.contains_apply]
    split
    · exact pure rfl
    · exact (report _ _).next fun _ => pure rfl

/-- **Calls are completed alike in machines in step.** -/
theorem completeCall (f : FrameHandle) (result : String) :
    InStep π (fun r r' => r' = r.mapError (Failure.rename π)) (Machine.completeCall f result)
      (Machine.completeCall (π.frame.apply f) result) := by
  refine get.bind fun m m' hm => ?_
  cases hf : m.frames.get? f with
  | none =>
    rw [hm.frames.gone f hf]
    exact pure rfl
  | some frame =>
    obtain ⟨frame', hf', hlike⟩ := hm.frames.live f frame hf
    simp only [hf', hlike.pending]
    cases frame.pending with
    | none => exact pure rfl
    | some call =>
      refine (set (hm.modifyFrame ?_)).next fun _ => ?_
      · exact fun x x' h => { h with result := rfl, pending := rfl }
      · cases call.assignTo with
        | none => exact pure rfl
        | some token =>
          refine (threadOf f).bind ?_
          rintro (failure | t) _ rfl
          · exact pure rfl
          · have hv : Vantage.Like π ⟨t, some f, .source call.source⟩
                ⟨π.thread.apply t, some (π.frame.apply f), .source call.source⟩ := ⟨rfl, rfl⟩
            exact (assignToken hv token result).next fun _ => pure rfl

end InStep

end Machine

end StepScript
