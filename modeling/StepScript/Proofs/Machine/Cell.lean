import StepScript.Host.Step
import StepScript.Proofs.Machine.Ownership

/-!
# Proofs/Machine/Cell — where variables live

A *cell* owns variables: a frame, a thread, a target, or the machine as a whole. A scope seen from a
vantage names a cell, unless the owner is gone. Reading and setting a variable are then reading and
setting it in its cell (`Machine.value_getVar`, `Machine.run_setVar`), and setting one leaves
everything else alone (`Machine.valueAt_assign`, `Machine.bare_targets_assign`, …).

* `Machine.valueAt` — the value of a variable of a cell.
* `Machine.reaches_of_cellOf` — a vantage names no cell of another frame, thread or target.
* `Machine.completeCall_cases`, `Machine.run_completeCall` — what completing a call changes.
* `Vantage.Backed` — all that a vantage sees is there; then no broken link is met.
-/

namespace StepScript

/-- The owner of variables. -/
inductive Cell where
  | frame (f : FrameHandle)
  | thread (t : ThreadHandle)
  | target (g : TargetHandle)
  | global
deriving DecidableEq

/-- A target without its variables. -/
def Target.bare (target : Target) : Target := { target with vars := ∅ }

/-- A thread without its variables. -/
def Thread.bare (thread : Thread) : Thread := { thread with vars := ∅ }

/-- A frame without its variables. -/
def Frame.bare (frame : Frame) : Frame := { frame with vars := ∅ }

/-- The owners within reach of a vantage: its frame, its thread, the thread's target, and the
machine. -/
def Vantage.Reaches (v : Vantage) (m : Machine) : Cell → Prop
  | .frame f => v.frame = some f
  | .thread t => t = v.thread
  | .target g => m.targetAt v.thread = some g
  | .global => True

namespace Machine

variable {m : Machine}

/-! ## Reading -/

/-- Looking up a target changes nothing; nor does anything below that only reads. -/
@[simp] theorem state_targetOf (t : ThreadHandle) (m : Machine) :
    ((targetOf t).run m).state = m := by
  simp only [targetOf, Act.run_get_bind]
  split
  · rfl
  · rw [Act.run_ite]
    split <;> rfl

@[simp] theorem state_varsOf (v : Vantage) (scope : Scope) (m : Machine) :
    ((varsOf v scope).run m).state = m := by
  cases scope with
  | frame => rfl
  | thread => rfl
  | target => simp [varsOf]
  | global => rfl

@[simp] theorem state_getVar (v : Vantage) (scope : Scope) (name : String) (m : Machine) :
    ((getVar v scope name).run m).state = m := by
  simp [getVar]

@[simp] theorem state_readToken (s : Setting) (v : Vantage) (token : String) (m : Machine) :
    ((readToken s v token).run m).state = m := by
  unfold readToken
  split <;> simp

@[simp] theorem state_readName (s : Setting) (v : Vantage) (token : String) (m : Machine) :
    ((readName s v token).run m).state = m := by
  unfold readName
  split <;> simp

@[simp] theorem state_readTokens (s : Setting) (v : Vantage) (tokens : List String) (m : Machine) :
    ((readTokens s v tokens).run m).state = m := by
  unfold readTokens
  induction tokens with
  | nil => rfl
  | cons token tokens ih => simp [Act.collect, ih]

@[simp] theorem state_entityOf (t : ThreadHandle) (m : Machine) :
    ((entityOf t).run m).state = m := by
  simp [entityOf]

@[simp] theorem state_vantageOf (t : ThreadHandle) (m : Machine) :
    ((vantageOf t).run m).state = m := by
  simp only [vantageOf, Act.run_get_bind, Act.run_ite]
  split <;> rfl

@[simp] theorem state_threadOf (f : FrameHandle) (m : Machine) :
    ((threadOf f).run m).state = m := by
  simp only [threadOf, Act.run_get_bind]
  split
  · rfl
  · rw [Act.run_ite]
    split <;> rfl

@[simp] theorem state_warn (l : Line) (warning : LineWarning) (m : Machine) :
    ((warn l warning).run m).state = m := rfl

/-- Planning a call reads its arguments and changes nothing. -/
@[simp] theorem state_planCall (s : Setting) (l : Line) (name : String) (args : List String)
    (assignTo : Option String) (m : Machine) :
    ((planCall s l name args assignTo).run m).state = m := by
  simp [planCall]

/-! ## Cells -/

/-- The variables of a cell. -/
def varsAt (m : Machine) : Cell → Option Vars
  | .frame f => (m.frames.get? f).map Frame.vars
  | .thread t => (m.threads.get? t).map Thread.vars
  | .target g => (m.targets.get? g).map Target.vars
  | .global => some m.globals

/-- The value of a variable of a cell. -/
def valueAt (m : Machine) (cell : Cell) (name : String) : Option String :=
  (m.varsAt cell).bind (·.find? name)

/-- Sets a variable of a cell. -/
def assign (m : Machine) (cell : Cell) (name value : String) : Machine :=
  match cell with
  | .frame f => m.modifyFrame f fun frame => { frame with vars := frame.vars.insert name value }
  | .thread t => m.modifyThread t fun thread =>
    { thread with vars := thread.vars.insert name value }
  | .target g => m.modifyTarget g fun target =>
    { target with vars := target.vars.insert name value }
  | .global => { m with globals := m.globals.insert name value }

/-- The cell that a scope names from a vantage, if its owner is live. -/
def cellOf (m : Machine) (v : Vantage) : Scope → Option Cell
  | .frame => (v.frame.filter m.frames.contains).map Cell.frame
  | .thread => if m.threads.contains v.thread then some (.thread v.thread) else none
  | .target => ((targetOf v.thread).run m).value.map Cell.target
  | .global => some .global

/-! ## Setting a variable of a cell -/

/-- **An assignment changes one cell**, and there one name. -/
theorem varsAt_assign (m : Machine) (cell : Cell) (name value : String) (c : Cell) :
    (m.assign cell name value).varsAt c =
      if c = cell then (m.varsAt c).map (·.insert name value) else m.varsAt c := by
  cases cell <;> cases c <;> simp only [assign, varsAt, frames_modifyFrame, threads_modifyFrame,
    targets_modifyFrame, globals_modifyFrame, frames_modifyThread, threads_modifyThread,
    targets_modifyThread, globals_modifyThread, frames_modifyTarget, threads_modifyTarget,
    targets_modifyTarget, globals_modifyTarget, Table.get?_modify, reduceCtorEq, if_false, if_true,
    Option.map_some, Cell.frame.injEq, Cell.thread.injEq, Cell.target.injEq]
  all_goals split <;> simp [Function.comp_def]

/-- **Setting a variable** changes its value and no other. -/
theorem valueAt_assign (m : Machine) (cell : Cell) (name value : String) (c : Cell) (n : String) :
    (m.assign cell name value).valueAt c n =
      if c = cell ∧ n = name ∧ (m.varsAt cell).isSome then some value else m.valueAt c n := by
  rw [valueAt, varsAt_assign, valueAt]
  by_cases hc : c = cell
  · subst hc
    cases hvars : m.varsAt c with
    | none => simp
    | some vars => by_cases hn : n = name <;> simp [hn]
  · simp [hc]

@[simp] theorem commands_assign (m : Machine) (cell : Cell) (name value : String) :
    (m.assign cell name value).commands = m.commands := by
  cases cell <;> rfl

/-- An assignment changes no object but in its variables. -/
theorem bare_targets_assign (m : Machine) (cell : Cell) (name value : String) (g : TargetHandle) :
    ((m.assign cell name value).targets.get? g).map Target.bare =
      (m.targets.get? g).map Target.bare := by
  cases cell with
  | target => exact Table.map_get?_modify m.targets g fun _ _ => rfl
  | _ => rfl

theorem bare_threads_assign (m : Machine) (cell : Cell) (name value : String) (t : ThreadHandle) :
    ((m.assign cell name value).threads.get? t).map Thread.bare =
      (m.threads.get? t).map Thread.bare := by
  cases cell with
  | thread => exact Table.map_get?_modify m.threads t fun _ _ => rfl
  | _ => rfl

theorem bare_frames_assign (m : Machine) (cell : Cell) (name value : String) (f : FrameHandle) :
    ((m.assign cell name value).frames.get? f).map Frame.bare =
      (m.frames.get? f).map Frame.bare := by
  cases cell with
  | frame => exact Table.map_get?_modify m.frames f fun _ _ => rfl
  | _ => rfl

/-- A frame after an assignment: the same, or with the new value if the cell is its own. -/
theorem get?_frames_assign (m : Machine) (cell : Cell) (name value : String) (f : FrameHandle) :
    (m.assign cell name value).frames.get? f = (m.frames.get? f).map fun frame =>
      if cell = .frame f then { frame with vars := frame.vars.insert name value } else frame := by
  cases cell with
  | frame k =>
    rw [assign, frames_modifyFrame, Table.get?_modify]
    by_cases hk : f = k
    · simp [hk]
    · simp [hk, Ne.symm hk]
  | _ => simp [assign]

theorem get?_threads_assign (m : Machine) (cell : Cell) (name value : String) (t : ThreadHandle) :
    (m.assign cell name value).threads.get? t = (m.threads.get? t).map fun thread =>
      if cell = .thread t then { thread with vars := thread.vars.insert name value }
      else thread := by
  cases cell with
  | thread k =>
    rw [assign, threads_modifyThread, Table.get?_modify]
    by_cases hk : t = k
    · simp [hk]
    · simp [hk, Ne.symm hk]
  | _ => simp [assign]

theorem get?_targets_assign (m : Machine) (cell : Cell) (name value : String) (g : TargetHandle) :
    (m.assign cell name value).targets.get? g = (m.targets.get? g).map fun target =>
      if cell = .target g then { target with vars := target.vars.insert name value }
      else target := by
  cases cell with
  | target k =>
    rw [assign, targets_modifyTarget, Table.get?_modify]
    by_cases hk : g = k
    · simp [hk]
    · simp [hk, Ne.symm hk]
  | _ => simp [assign]

/-! ## Scopes and cells -/

/-- The target of an invocation is the one it names, if that is there. -/
theorem value_targetOf (t : ThreadHandle) (m : Machine) :
    ((targetOf t).run m).value =
      (m.threads.get? t).bind fun thread =>
        if m.targets.contains thread.target then some thread.target else none := by
  simp only [targetOf, Act.run_get_bind]
  cases m.threads.get? t with
  | none => rfl
  | some thread =>
    simp only [Act.run_ite, Option.bind_some]
    split <;> rfl

theorem value_entityOf (t : ThreadHandle) (m : Machine) :
    ((entityOf t).run m).value =
      (((targetOf t).run m).value.bind m.targets.get?).bind Target.entity := by
  simp [entityOf]

/-- **Setting a variable** sets it in the cell that the scope names. -/
theorem run_setVar (v : Vantage) (scope : Scope) (name value : String) (m : Machine) :
    ((setVar v scope name value).run m).value = (m.cellOf v scope).map (fun _ => value) ∧
      ((setVar v scope name value).run m).state =
        ((m.cellOf v scope).map fun cell => m.assign cell name value).getD m := by
  cases scope with
  | frame =>
    simp only [setVar, Act.run_get_bind, cellOf]
    cases v.frame with
    | none => exact ⟨rfl, rfl⟩
    | some f =>
      simp only [Act.run_ite, Option.filter]
      split <;> exact ⟨rfl, rfl⟩
  | thread =>
    simp only [setVar, Act.run_get_bind, cellOf, Act.run_ite]
    split <;> exact ⟨rfl, rfl⟩
  | target =>
    unfold setVar
    rw [Act.run_get_bind]
    simp only [Act.run_bind, state_targetOf, cellOf]
    cases ((targetOf v.thread).run m).value <;> exact ⟨rfl, rfl⟩
  | global => exact ⟨rfl, rfl⟩

/-- The variable that receives a value, if a token is given and names one. -/
def addressee (m : Machine) (v : Vantage) (assignTo : Option String) : Option (Cell × String) :=
  assignTo.bind fun token =>
    match TokenRef.of token with
    | .var scope name => (m.cellOf v scope).map (·, name)
    | _ => none

/-- The machine with a value assigned to a token, if one is given. -/
def delivered (m : Machine) (v : Vantage) (assignTo : Option String) (value : String) : Machine :=
  ((m.addressee v assignTo).map fun var => m.assign var.1 var.2 value).getD m

/-- **Assigning to a token** sets the variable that it names, or does nothing. -/
theorem state_assignToken (v : Vantage) (token value : String) (m : Machine) :
    ((assignToken v token value).run m).state = m.delivered v (some token) value := by
  unfold assignToken delivered addressee
  rw [Option.bind_some]
  cases TokenRef.of token with
  | var scope name =>
    simp only [(run_setVar v scope name value m).2, Option.map_map]
    rfl
  | literal text => rfl
  | result => rfl
  | unknownScope text => rfl

/-- A value is delivered nowhere, or to one cell that its vantage reaches. -/
theorem delivered_cases (m : Machine) (v : Vantage) (assignTo : Option String) (value : String) :
    m.delivered v assignTo value = m ∨ ∃ scope cell name, m.cellOf v scope = some cell ∧
      m.delivered v assignTo value = m.assign cell name value := by
  unfold delivered
  cases hvar : m.addressee v assignTo with
  | none => exact .inl rfl
  | some var =>
    obtain ⟨token, -, hvar⟩ := Option.bind_eq_some_iff.1 hvar
    split at hvar
    · next scope name _ =>
      obtain ⟨cell, hcell, rfl⟩ := Option.map_eq_some_iff.1 hvar
      exact .inr ⟨scope, cell, name, hcell, rfl⟩
    · cases hvar

/-- **Reading a variable** reads it in the cell that the scope names. -/
theorem value_getVar (v : Vantage) (scope : Scope) (name : String) (m : Machine) :
    ((getVar v scope name).run m).value =
      (m.cellOf v scope).bind fun cell => m.valueAt cell name := by
  have hvars : ((varsOf v scope).run m).value = (m.cellOf v scope).bind m.varsAt := by
    cases scope with
    | frame =>
      change (v.frame.bind m.frames.get?).map Frame.vars = _
      rw [cellOf]
      cases v.frame with
      | none => rfl
      | some f => cases hf : m.frames.get? f <;> simp [Option.filter, Table.contains_eq, hf, varsAt]
    | thread =>
      change (m.threads.get? v.thread).map Thread.vars = _
      cases ht : m.threads.get? v.thread <;> simp [cellOf, Table.contains_eq, ht, varsAt]
    | target =>
      unfold varsOf
      rw [Act.run_get_bind]
      simp only [Act.run_bind, Act.run_pure, cellOf]
      cases ((targetOf v.thread).run m).value <;> rfl
    | global => rfl
  rw [getVar, Act.run_bind, Act.run_pure]
  simp only [hvars, Option.bind_assoc]
  rfl

/-- **Asking whether a variable is set** is reading it and looking whether there is a value. Each of
the two looks for the owner of the variable by itself; they find the same, and report the same. -/
theorem hasVar_eq_isSome_getVar (v : Vantage) (scope : Scope) (name : String) :
    hasVar v scope name = Option.isSome <$> getVar v scope name := by
  have hany : ∀ {α : Type} (owner : Option α) (vars : α → Vars),
      owner.any (fun a => (vars a).contains name) =
        ((owner.map vars).bind (·.find? name)).isSome := by
    intro α owner vars
    cases owner <;> rfl
  funext m
  change (hasVar v scope name).run m = (Option.isSome <$> getVar v scope name).run m
  cases scope <;>
    simp only [hasVar, getVar, varsOf, Act.run_map, Act.run_bind, Act.run_pure,
      List.append_nil, hany]
  rfl

/-- Machines with the same links have the same cells. -/
theorem cellOf_congr {m' : Machine} (h : SameLinks m m') (v : Vantage) (scope : Scope) :
    m'.cellOf v scope = m.cellOf v scope := by
  have hframes : ∀ f, m'.frames.contains f = m.frames.contains f := fun f => by
    have := congrArg Option.isSome (h.threadAt f)
    simpa [threadAt, Table.contains_eq] using this
  have hthreads : ∀ t, m'.threads.contains t = m.threads.contains t := fun t => by
    have := congrArg Option.isSome (h.targetAt t)
    simpa [targetAt, Table.contains_eq] using this
  have htargets : ∀ g, m'.targets.contains g = m.targets.contains g := fun g => by
    have := congrArg Option.isSome (h.threadList g)
    simpa [threadList, Table.contains_eq] using this
  cases scope with
  | frame => rw [cellOf, cellOf, funext hframes]
  | thread => rw [cellOf, cellOf, hthreads]
  | target =>
    have hvalue : ∀ m : Machine, ((targetOf v.thread).run m).value =
        (m.targetAt v.thread).bind fun g => if m.targets.contains g then some g else none := by
      intro m
      rw [value_targetOf, targetAt]
      cases m.threads.get? v.thread <;> rfl
    rw [cellOf, cellOf, hvalue, hvalue, h.targetAt]
    simp only [htargets]
  | global => rfl

/-! ## Reading alike -/

section

variable {m' : Machine} {v : Vantage} (hcell : ∀ scope, m'.cellOf v scope = m.cellOf v scope)
  (hvars : ∀ cell, m'.varsAt cell = m.varsAt cell) (hresult : m'.resultAt v = m.resultAt v)

include hcell hvars hresult

/-- **Where cells, variables and the last result agree**, tokens have the same values. -/
theorem value_readToken_congr (s : Setting) (token : String) :
    ((readToken s v token).run m').value = ((readToken s v token).run m).value := by
  unfold readToken
  split
  · rfl
  · rw [Act.run_bind, Act.run_bind, Act.run_pure, Act.run_pure]
    simp only [value_getVar, hcell, valueAt, hvars]
  · exact hresult
  · rfl

/-- A name is read the same in two machines that agree on what the vantage reaches. -/
theorem value_readName_congr (s : Setting) (token : String) :
    ((readName s v token).run m').value = ((readName s v token).run m).value := by
  unfold readName
  split
  · rfl
  · exact value_readToken_congr hcell hvars hresult s token

theorem value_readTokens_congr (s : Setting) (tokens : List String) :
    ((readTokens s v tokens).run m').value = ((readTokens s v tokens).run m).value := by
  unfold readTokens
  induction tokens with
  | nil => rfl
  | cons token tokens ih =>
    simp only [Act.collect, Act.run_bind, Act.run_pure, state_readToken, ih,
      value_readToken_congr hcell hvars hresult s token]

end

/-- A scope names a cell within reach. -/
theorem reaches_of_cellOf {v : Vantage} {scope : Scope} {cell : Cell}
    (h : m.cellOf v scope = some cell) : v.Reaches m cell := by
  cases scope with
  | frame =>
    obtain ⟨f, hf, rfl⟩ := Option.map_eq_some_iff.1 h
    exact (Option.filter_eq_some_iff.1 hf).1
  | thread =>
    rw [cellOf] at h
    split at h
    · cases h
      exact rfl
    · cases h
  | target =>
    obtain ⟨g, hg, rfl⟩ := Option.map_eq_some_iff.1 h
    rw [value_targetOf, Option.bind_eq_some_iff] at hg
    obtain ⟨thread, hthread, htarget⟩ := hg
    split at htarget
    · cases htarget
      change m.targetAt v.thread = _
      rw [targetAt, hthread]
      rfl
    · cases htarget
  | global =>
    cases h
    trivial

/-- A cell that a scope names is there. -/
theorem isSome_varsAt_of_cellOf {v : Vantage} {scope : Scope} {cell : Cell}
    (h : m.cellOf v scope = some cell) : (m.varsAt cell).isSome = true := by
  cases scope with
  | frame =>
    obtain ⟨f, hf, rfl⟩ := Option.map_eq_some_iff.1 h
    have hlive := (Option.filter_eq_some_iff.1 hf).2
    rw [varsAt, Option.isSome_map]
    exact hlive
  | thread =>
    rw [cellOf] at h
    split at h
    · next hlive =>
      cases h
      rw [varsAt, Option.isSome_map]
      exact hlive
    · cases h
  | target =>
    obtain ⟨g, hg, rfl⟩ := Option.map_eq_some_iff.1 h
    rw [value_targetOf, Option.bind_eq_some_iff] at hg
    obtain ⟨thread, -, htarget⟩ := hg
    split at htarget
    · next hlive =>
      cases htarget
      rw [varsAt, Option.isSome_map]
      exact hlive
    · cases htarget
  | global =>
    cases h
    rfl

/-! ## Where a value is delivered -/

/-- Assigning to a token depends on the links only. -/
theorem addressee_congr {m' : Machine} (h : SameLinks m m') (v : Vantage)
    (assignTo : Option String) :
    m'.addressee v assignTo = m.addressee v assignTo := by
  unfold addressee
  simp only [cellOf_congr h]

section

variable (m) (v : Vantage) (assignTo : Option String) (value : String)

/-- **A value that is delivered** is the value of its variable, and no other changes. -/
theorem valueAt_delivered (cell : Cell) (name : String) :
    (m.delivered v assignTo value).valueAt cell name =
      if m.addressee v assignTo = some (cell, name) then some value else m.valueAt cell name := by
  unfold delivered
  cases hvar : m.addressee v assignTo with
  | none => rfl
  | some var =>
    obtain ⟨c, n⟩ := var
    have hlive : (m.varsAt c).isSome = true := by
      obtain ⟨token, -, hvar⟩ := Option.bind_eq_some_iff.1 hvar
      split at hvar
      · obtain ⟨cell, hcell, heq⟩ := Option.map_eq_some_iff.1 hvar
        cases heq
        exact isSome_varsAt_of_cellOf hcell
      · cases hvar
    change (m.assign c n value).valueAt cell name = _
    rw [valueAt_assign, hlive]
    simp [eq_comm]

/-- Delivering a value changes no object but in its variables. -/
theorem bare_targets_delivered (g : TargetHandle) :
    ((m.delivered v assignTo value).targets.get? g).map Target.bare =
      (m.targets.get? g).map Target.bare := by
  rcases m.delivered_cases v assignTo value with hsame | ⟨scope, cell, name, -, hassign⟩
  · rw [hsame]
  · rw [hassign, bare_targets_assign]

theorem bare_threads_delivered (t : ThreadHandle) :
    ((m.delivered v assignTo value).threads.get? t).map Thread.bare =
      (m.threads.get? t).map Thread.bare := by
  rcases m.delivered_cases v assignTo value with hsame | ⟨scope, cell, name, -, hassign⟩
  · rw [hsame]
  · rw [hassign, bare_threads_assign]

theorem bare_frames_delivered (f : FrameHandle) :
    ((m.delivered v assignTo value).frames.get? f).map Frame.bare =
      (m.frames.get? f).map Frame.bare := by
  rcases m.delivered_cases v assignTo value with hsame | ⟨scope, cell, name, -, hassign⟩
  · rw [hsame]
  · rw [hassign, bare_frames_assign]

theorem commands_delivered : (m.delivered v assignTo value).commands = m.commands := by
  rcases m.delivered_cases v assignTo value with hsame | ⟨scope, cell, name, -, hassign⟩
  · rw [hsame]
  · rw [hassign, commands_assign]

end

/-! ## Completing a call -/

/-- The variable that an open call of a frame assigns its result to. -/
def receiver (m : Machine) (f : FrameHandle) : Option (Cell × String) :=
  (m.frames.get? f).bind fun frame => frame.pending.bind fun call => call.assignTo.bind fun token =>
    match TokenRef.of token with
    | .var scope name => (m.cellOf ⟨frame.thread, some f, .source call.source⟩ scope).map (·, name)
    | _ => none

/-- Completing a call delivers where the line that asked would have. -/
theorem receiver_eq_addressee {f : FrameHandle} {frame : Frame} {call : PendingCall}
    (hf : m.frames.get? f = some frame) (hpending : frame.pending = some call) :
    m.receiver f = m.addressee ⟨frame.thread, some f, .source call.source⟩ call.assignTo := by
  rw [receiver, hf, Option.bind_some, hpending]
  rfl

/-- The machine with the call of a frame completed, apart from the assignment. -/
def answered (m : Machine) (f : FrameHandle) (result : String) : Machine :=
  m.modifyFrame f fun frame => { frame with result, pending := none }

/-- An answer changes no link. -/
theorem sameLinks_answered (m : Machine) (f : FrameHandle) (result : String) :
    SameLinks m (m.answered f result) :=
  SameLinks.modifyFrame fun _ _ => ⟨rfl, rfl⟩

/-- An answer is kept in its frame, not in a variable. -/
theorem varsAt_answered (m : Machine) (f : FrameHandle) (result : String) (cell : Cell) :
    (m.answered f result).varsAt cell = m.varsAt cell := by
  cases cell with
  | frame k => exact Table.map_get?_modify m.frames k fun _ _ => rfl
  | _ => rfl

/-- **Completing a call** leaves the machine as it is, or keeps the result in the frame and delivers
it. -/
theorem completeCall_cases (f : FrameHandle) (result : String) (m : Machine) :
    ((completeCall f result).run m).state = m ∨ ∃ v assignTo,
      ((completeCall f result).run m).state =
        (m.answered f result).delivered v assignTo result := by
  simp only [completeCall, Act.run_get_bind]
  split
  · exact .inl rfl
  · next frame _ =>
    split
    · exact .inl rfl
    · next call _ =>
      refine .inr ?_
      rw [Act.run_set_bind]
      split
      · exact ⟨⟨frame.thread, some f, .source call.source⟩, none, rfl⟩
      · next token _ =>
        rw [Act.run_bind, state_threadOf]
        split
        · exact ⟨⟨frame.thread, some f, .source call.source⟩, none, rfl⟩
        · rw [Act.run_bind]
          exact ⟨_, some token, state_assignToken ..⟩

/-- **Completing a call** succeeds if the frame waits and its thread is live. The result is
delivered as seen from the line that asked. -/
theorem run_completeCall {f : FrameHandle} {frame : Frame} {thread : Thread} {call : PendingCall}
    (hf : m.frames.get? f = some frame) (hthread : m.threads.get? frame.thread = some thread)
    (hpending : frame.pending = some call) (result : String) :
    ((completeCall f result).run m).value = .ok () ∧
      ((completeCall f result).run m).state =
        (m.answered f result).delivered ⟨frame.thread, some f,
          .source call.source⟩ call.assignTo result := by
  have hget : (m.answered f result).frames.get? f =
      some { frame with result, pending := none } := by
    rw [answered, frames_modifyFrame, Table.get?_modify, if_pos rfl, hf]
    rfl
  have hlive : (m.answered f result).threads.contains frame.thread = true :=
    Table.contains_iff.2 ⟨thread, hthread⟩
  have howner : (threadOf f).run (m.answered f result)
      = ⟨.ok frame.thread, m.answered f result, []⟩ := by
    simp only [threadOf, Act.run_get_bind, hget]
    rw [Act.run_ite, if_pos hlive]
    rfl
  simp only [completeCall, Act.run_get_bind, hf, hpending]
  rw [Act.run_set_bind]
  cases call.assignTo with
  | none => exact ⟨rfl, rfl⟩
  | some token =>
    change (Act.run _ (m.answered f result)).value = _ ∧ (Act.run _ (m.answered f result)).state = _
    rw [Act.run_bind, howner]
    simp only [Act.run_bind, Act.run_pure]
    exact ⟨trivial, state_assignToken ..⟩

end Machine

/-! ## What a vantage sees -/

/-- **All that a vantage sees is there**: its frame, its thread and the thread's target. -/
structure Vantage.Backed (v : Vantage) (m : Machine) : Prop where
  frame : ∃ f, v.frame = some f ∧ m.frames.contains f = true
  thread : ∃ thread, m.threads.get? v.thread = some thread ∧ m.targets.contains thread.target = true

namespace Vantage.Backed

open Machine

variable {m : Machine} {v : Vantage}

/-- From a vantage that is backed, the target is found and nothing is reported. -/
theorem run_targetOf (h : v.Backed m) : ∃ g, (targetOf v.thread).run m = ⟨some g, m, []⟩ := by
  obtain ⟨thread, hthread, htarget⟩ := h.thread
  refine ⟨thread.target, ?_⟩
  simp only [targetOf, Act.run_get_bind, hthread, htarget, if_true]
  rfl

/-- Every scope names a cell, and setting a variable there succeeds. -/
theorem run_setVar (h : v.Backed m) (scope : Scope) (name value : String) :
    ∃ cell, m.cellOf v scope = some cell ∧
      (setVar v scope name value).run m = ⟨some value, m.assign cell name value, []⟩ := by
  obtain ⟨f, hv, hf⟩ := h.frame
  obtain ⟨thread, hthread, htarget⟩ := h.thread
  obtain ⟨g, hg⟩ := h.run_targetOf
  cases scope with
  | frame =>
    refine ⟨.frame f, by simp [cellOf, hv, Option.filter, hf], ?_⟩
    simp only [setVar, Act.run_get_bind, hv, hf, if_true]
    rfl
  | thread =>
    have hlive : m.threads.contains v.thread = true := Table.contains_iff.2 ⟨thread, hthread⟩
    refine ⟨.thread v.thread, by simp [cellOf, hlive], ?_⟩
    simp only [setVar, Act.run_get_bind, hlive, if_true]
    rfl
  | target =>
    refine ⟨.target g, by simp [cellOf, hg], ?_⟩
    unfold setVar
    rw [Act.run_get_bind]
    simp only [Act.run_bind, hg]
    rfl
  | global => exact ⟨.global, rfl, rfl⟩

/-- Reading a variable from such a vantage reports no broken link. -/
theorem log_getVar (h : v.Backed m) (scope : Scope) (name : String) :
    ((getVar v scope name).run m).log = [] := by
  obtain ⟨g, hg⟩ := h.run_targetOf
  cases scope with
  | target =>
    simp only [getVar, varsOf, Act.run_bind, Act.run_get, hg, Act.run_pure]
    rfl
  | _ => rfl

theorem log_entityOf (h : v.Backed m) : ((entityOf v.thread).run m).log = [] := by
  obtain ⟨g, hg⟩ := h.run_targetOf
  simp [entityOf, hg]

/-- **Reading a token** finds no broken link. -/
theorem intact_readToken (h : v.Backed m) (s : Setting) (token : String) :
    ∀ d ∈ ((readToken s v token).run m).log, d.isIntegrity = false := by
  unfold readToken
  split
  · exact List.forall_mem_nil _
  · rw [Act.run_bind, Act.run_pure, List.append_nil, h.log_getVar]
    exact List.forall_mem_nil _
  · exact List.forall_mem_nil _
  · exact List.forall_mem_singleton.2 rfl

/-- **Assigning a token** finds no broken link. -/
theorem intact_assignToken (h : v.Backed m) (token value : String) :
    ∀ d ∈ ((assignToken v token value).run m).log, d.isIntegrity = false := by
  unfold assignToken
  split
  · next scope name _ =>
    obtain ⟨cell, -, hrun⟩ := h.run_setVar scope name value
    rw [hrun]
    exact List.forall_mem_nil _
  all_goals exact List.forall_mem_singleton.2 rfl

/-- A vantage stays backed as long as the links do. -/
theorem congr {m' : Machine} (h : v.Backed m) (hs : SameLinks m m') : v.Backed m' where
  frame := by
    obtain ⟨f, hv, hf⟩ := h.frame
    refine ⟨f, hv, ?_⟩
    have hsame := congrArg Option.isSome (hs.threadAt f)
    rw [threadAt, threadAt, Option.isSome_map, Option.isSome_map] at hsame
    exact hsame.trans hf
  thread := by
    obtain ⟨thread, hthread, htarget⟩ := h.thread
    have hsame := hs.targetAt v.thread
    rw [targetAt, targetAt, hthread] at hsame
    obtain ⟨thread', hthread', heq⟩ := Option.map_eq_some_iff.1 hsame
    refine ⟨thread', hthread', ?_⟩
    have hlist := congrArg Option.isSome (hs.threadList thread'.target)
    rw [threadList, threadList, Option.isSome_map, Option.isSome_map, heq] at hlist
    rw [heq]
    exact hlist.trans htarget

end Vantage.Backed

end StepScript
