import StepScript.Machine.Stack
import StepScript.Proofs.Machine.Removal
import StepScript.Proofs.Table.Fresh

/-!
# Proofs/Machine/Growth — what is there after a script is entered

Entering a script makes a frame with its commands and puts it on top of an invocation's stack
(`Machine.pushed`). Starting one makes an invocation first, on the entity's target, which lists it
last (`Machine.started`). As long as no table is full, everything made is new, so nothing else is
touched.

* `Machine.Roomy` — no table is full.
* `Machine.Shrinks` — no handle became live; removal is of this kind.
* `Machine.run_pushScript` — entering a script on a live invocation.
* `Machine.get?_threads_started`, … — the tables after a start.
-/

namespace StepScript.Machine

variable {m : Machine}

/-- No table is full. -/
structure Roomy (m : Machine) : Prop where
  targets : ¬ m.targets.Full
  threads : ¬ m.threads.Full
  frames : ¬ m.frames.Full
  commands : ¬ m.commands.Full

/-- Zero names nothing in any of the tables. -/
structure Proper (m : Machine) : Prop where
  targets : m.targets.Proper
  threads : m.threads.Proper
  frames : m.frames.Proper
  commands : m.commands.Proper

/-! ## Machines that shrink -/

/-- **The machine shrank to another**: no handle became live, and the counters are as they were. -/
structure Shrinks (m m' : Machine) : Prop where
  targets : m.targets.Shrinks m'.targets
  threads : m.threads.Shrinks m'.threads
  frames : m.frames.Shrinks m'.frames
  commands : m.commands.Shrinks m'.commands

namespace Shrinks

variable {m₁ m₂ m₃ : Machine}

theorem refl (m : Machine) : Shrinks m m := ⟨.refl _, .refl _, .refl _, .refl _⟩

theorem trans (h : Shrinks m₁ m₂) (h' : Shrinks m₂ m₃) : Shrinks m₁ m₃ :=
  ⟨h.targets.trans h'.targets, h.threads.trans h'.threads, h.frames.trans h'.frames,
    h.commands.trans h'.commands⟩

/-- A machine that has shrunk is as proper as it was. -/
theorem proper (h : Shrinks m₁ m₂) (hm : m₁.Proper) : m₂.Proper :=
  ⟨h.targets.proper hm.targets, h.threads.proper hm.threads, h.frames.proper hm.frames,
    h.commands.proper hm.commands⟩

/-- It has no less room than it had. -/
theorem roomy (h : Shrinks m₁ m₂) (hm : m₁.Roomy) : m₂.Roomy :=
  ⟨fun hfull => hm.targets (h.targets.full hfull), fun hfull => hm.threads (h.threads.full hfull),
    fun hfull => hm.frames (h.frames.full hfull), fun hfull => hm.commands (h.commands.full hfull)⟩

/-- Taking a frame away. -/
theorem leave (m : Machine) (t : ThreadHandle) (f : FrameHandle) :
    Shrinks m ((m.unstack t f).removeFrame f) where
  targets := by
    rw [targets_removeFrame]
    exact .refl _
  threads := by
    rw [threads_removeFrame]
    exact .modify _ t _
  frames := by
    rw [frames_removeFrame]
    exact .erase _ f
  commands := .of_live (next_commands_removeFrame _ f) fun _ command hc =>
    ⟨command, (get?_commands_removeFrame.1 hc).1⟩

/-- Taking an invocation away. -/
theorem cleanup (m : Machine) (t : ThreadHandle) : Shrinks m (m.cleanup t) where
  targets := by
    refine ⟨next_targets_cleanup m t, fun g hg => ?_⟩
    rw [get?_targets_cleanup, hg]
    rfl
  threads := by
    rw [threads_cleanup]
    exact .erase _ t
  frames :=
    .of_live (next_frames_cleanup m t) fun _ frame hf => ⟨frame, (get?_frames_cleanup.1 hf).1⟩
  commands := .of_live (next_commands_cleanup m t) fun _ command hc =>
    ⟨command, (get?_commands_cleanup.1 hc).1⟩

end Shrinks

/-! ## Entering a script -/

/-- The machine with a script on top of an invocation's stack. -/
def pushed (m : Machine) (t : ThreadHandle) (script : Script) (args : List String) : Machine :=
  { m with
    commands := (m.commands.createAll script.commands).2
    frames :=
      (m.frames.create (newFrame t script (m.commands.createAll script.commands).1 args)).2
    threads := m.threads.modify t fun thread =>
      { thread with stack := m.frames.fresh :: thread.stack } }

/-- Pushing a script on an invocation that is live succeeds with the next free handle. -/
theorem run_pushScript {t : ThreadHandle} {script : Script} {args : List String}
    (hlive : m.threads.contains t = true) :
    (pushScript t script args).run m = ⟨.ok m.frames.fresh, m.pushed t script args, []⟩ := by
  simp only [pushScript, Act.run_bind, Act.run_get, hlive, if_true, Act.run_set,
    Act.run_pure, List.nil_append]
  rfl

@[simp] theorem targets_pushed (t : ThreadHandle) (script : Script) (args : List String) :
    (m.pushed t script args).targets = m.targets := rfl

@[simp] theorem globals_pushed (t : ThreadHandle) (script : Script) (args : List String) :
    (m.pushed t script args).globals = m.globals := rfl

/-- The commands of a script are added to those that are there. -/
@[simp] theorem commands_pushed (t : ThreadHandle) (script : Script) (args : List String) :
    (m.pushed t script args).commands = (m.commands.createAll script.commands).2 := rfl

/-- The new frame is on top of the stack of its invocation, and other stacks are as they were. -/
theorem get?_threads_pushed (t k : ThreadHandle) (script : Script) (args : List String) :
    (m.pushed t script args).threads.get? k =
      if k = t then (m.threads.get? k).map fun thread =>
        { thread with stack := m.frames.fresh :: thread.stack }
      else m.threads.get? k :=
  Table.get?_modify m.threads t k _

/-- The new frame stands at the beginning of its script; the others are as they were. -/
theorem get?_frames_pushed (t : ThreadHandle) (script : Script) (args : List String)
    (f : FrameHandle) :
    (m.pushed t script args).frames.get? f =
      if f = m.frames.fresh then
        some (newFrame t script (m.commands.createAll script.commands).1 args)
      else m.frames.get? f :=
  Table.get?_create m.frames _ f

/-! ## Starting a script -/

/-- The target of an entity, made if there is none: its handle, whether it is new, and the table. -/
def home (m : Machine) (entity : EntityId) : (TargetHandle × Bool) × Table "target" Target :=
  m.targets.findOrCreate (fun target => target.entity = some entity) { entity := some entity }

/-- The machine in which an entity has a target. -/
def hosting (m : Machine) (entity : EntityId) : Machine := { m with targets := (m.home entity).2 }

/-- The machine with a new invocation that nothing lists and that has no frame. -/
def opened (m : Machine) (entity : EntityId) (name : String) : Machine :=
  { m with
    targets := (m.home entity).2
    threads := (m.threads.create { target := (m.home entity).1.1, script := name }).2 }

/-- The machine with a new invocation of a script on an entity. -/
def started (m : Machine) (entity : EntityId) (name : String) (script : Script) : Machine :=
  ((m.opened entity name).pushed m.threads.fresh script []).modifyTarget (m.home entity).1.1
    fun target => { target with threads := target.threads ++ [m.threads.fresh] }

/-- The machine after a start that failed: only counters have moved. -/
def withdrawn (m : Machine) (entity : EntityId) : Machine :=
  { m with
    threads := m.threads.skip
    targets := if (m.home entity).1.2 then m.targets.skip else m.targets }

/-- **The target of an entity** is live and has that entity, and only its table's counter tells
whether it is new. -/
theorem home_spec (hproper : m.targets.Proper) (hroom : ¬ m.targets.Full) (entity : EntityId) :
    ∃ target, target.entity = some entity ∧
      (m.home entity).2.get? (m.home entity).1.1 = some target ∧
      (∀ k, k ≠ (m.home entity).1.1 → (m.home entity).2.get? k = m.targets.get? k) ∧
      (m.targets.get? (m.home entity).1.1 = some target ∧
        m.home entity = (((m.home entity).1.1, false), m.targets) ∨
        m.targets.get? (m.home entity).1.1 = none ∧ target = { entity := some entity } ∧
          m.home entity = ((m.targets.fresh, true),
            (m.targets.create { entity := some entity }).2)) := by
  rcases m.targets.findOrCreate_cases (fun target => target.entity = some entity)
    { entity := some entity } with ⟨g, target, hget, hentity, -, heq⟩ | ⟨-, heq⟩
  · rw [home, heq]
    exact ⟨target, of_decide_eq_true hentity, hget, fun _ _ => rfl, Or.inl ⟨hget, rfl⟩⟩
  · rw [home, heq]
    refine ⟨{ entity := some entity }, rfl, ?_, fun k hk => ?_,
      Or.inr ⟨Table.get?_fresh hproper.next hroom, rfl, rfl⟩⟩
    · simp
    · simp [hk]

/-- **The second machine has a new invocation** of a script, on a target that lists it last; nothing
else is new. -/
structure Attached (t : ThreadHandle) (g : TargetHandle) (script : Script) (m m' : Machine) :
    Prop where
  new : m.threads.get? t = none
  home : ∃ target, m.targets.get? g = some target ∧ target.entity ≠ none
  target : ∀ k, m'.targets.get? k = (m.targets.get? k).map fun target =>
    if k = g then { target with threads := target.threads ++ [t] } else target
  thread : ∀ k, k ≠ t → m'.threads.get? k = m.threads.get? k
  own : ∃ thread, m'.threads.get? t = some thread ∧ thread.target = g ∧
    thread.stack = [m.frames.fresh] ∧ (thread.claimed = true → thread.wasClaimed = true)
  frame : ∀ f, m'.frames.get? f =
    if f = m.frames.fresh then some (newFrame t script (m.commands.createAll script.commands).1 [])
    else m.frames.get? f
  commands : m'.commands = (m.commands.createAll script.commands).2

/-- A new invocation has the new frame for its stack. -/
theorem get?_threads_started (entity : EntityId) (name : String) (script : Script)
    (k : ThreadHandle) :
    (m.started entity name script).threads.get? k =
      if k = m.threads.fresh then
        some { target := (m.home entity).1.1, script := name, stack := [m.frames.fresh] }
      else m.threads.get? k := by
  rw [started, threads_modifyTarget, get?_threads_pushed]
  by_cases hk : k = m.threads.fresh <;> simp [hk, opened]

theorem get?_frames_started (entity : EntityId) (name : String) (script : Script)
    (f : FrameHandle) :
    (m.started entity name script).frames.get? f =
      if f = m.frames.fresh then
        some (newFrame m.threads.fresh script (m.commands.createAll script.commands).1 [])
      else m.frames.get? f :=
  Table.get?_create m.frames _ f

@[simp] theorem commands_started (entity : EntityId) (name : String) (script : Script) :
    (m.started entity name script).commands = (m.commands.createAll script.commands).2 := rfl

@[simp] theorem globals_started (entity : EntityId) (name : String) (script : Script) :
    (m.started entity name script).globals = m.globals := rfl

/-- The target of the entity lists the new invocation last. -/
theorem get?_targets_started (entity : EntityId) (name : String) (script : Script)
    (g : TargetHandle) :
    (m.started entity name script).targets.get? g =
      if g = (m.home entity).1.1 then ((m.home entity).2.get? g).map fun target =>
        { target with threads := target.threads ++ [m.threads.fresh] }
      else (m.home entity).2.get? g :=
  Table.get?_modify (m.home entity).2 (m.home entity).1.1 g _

/-- **A start adds an invocation** to the target of its entity. -/
theorem attached_started (hproper : m.Proper) (hroom : m.Roomy) (entity : EntityId) (name : String)
    (script : Script) :
    Attached m.threads.fresh (m.home entity).1.1 script (m.hosting entity)
      (m.started entity name script) where
  new := Table.get?_fresh hproper.threads.next hroom.threads
  home := by
    obtain ⟨target, hentity, hhome, -⟩ := home_spec hproper.targets hroom.targets entity
    exact ⟨target, hhome, by simp [hentity]⟩
  target k := by
    rw [get?_targets_started]
    by_cases hk : k = (m.home entity).1.1
    · simp only [hk, if_true]
      rfl
    · simp only [hk, if_false, Option.map_id']
      rfl
  thread k hk := by
    rw [get?_threads_started, if_neg hk]
    rfl
  own := by
    refine ⟨{ target := (m.home entity).1.1, script := name, stack := [m.frames.fresh] }, ?_, rfl,
      rfl, nofun⟩
    rw [get?_threads_started, if_pos rfl]
  frame f := get?_frames_started entity name script f
  commands := commands_started entity name script

end StepScript.Machine
