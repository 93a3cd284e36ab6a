import StepScript.Proofs.Machine.Cell
import StepScript.Proofs.Machine.Restore
import StepScript.Proofs.Table.Shift

/-!
# Proofs/Machine/Renaming — machines that differ in their handles

Two machines are *in step* if the objects of one stand for those of the other under a renaming of
the handles. Neither claims nor scans are compared: what a machine knows about them it can find out
again.

* `Machine.Renamed` — two machines in step; the lemmas below say that the changes of a machine keep
  them in step.
* `Machine.Renamed.varsAt_rename` — machines in step have the same variables.
-/

namespace StepScript

/-- A renaming of the handles of all four tables. -/
structure Renaming where
  target : Shift
  thread : Shift
  frame : Shift
  command : Shift

/-! ## Objects that stand for others -/

structure Target.Like (π : Renaming) (x x' : Target) : Prop where
  entity : x'.entity = x.entity
  vars : x'.vars = x.vars
  threads : x'.threads = x.threads.map π.thread.apply

/-- Invocations alike, apart from claims since the last load. -/
structure Thread.Like (π : Renaming) (x x' : Thread) : Prop where
  target : x'.target = π.target.apply x.target
  script : x'.script = x.script
  vars : x'.vars = x.vars
  stack : x'.stack = x.stack.map π.frame.apply
  wasClaimed : x'.wasClaimed = x.wasClaimed

/-- Frames alike, apart from what is known about the command at the cursor. -/
structure Frame.Like (π : Renaming) (x x' : Frame) : Prop where
  thread : x'.thread = π.thread.apply x.thread
  script : x'.script = x.script
  dialect : x'.dialect = x.dialect
  commands : x'.commands = x.commands.map π.command.apply
  cursor : x'.cursor = x.cursor
  vars : x'.vars = x.vars
  args : x'.args = x.args
  gotos : x'.gotos = x.gotos
  gosubs : x'.gosubs = x.gosubs
  returns : x'.returns = x.returns
  result : x'.result = x.result
  pending : x'.pending = x.pending

/-- The cell that stands for a cell. -/
def Cell.rename (π : Renaming) : Cell → Cell
  | .frame f => .frame (π.frame.apply f)
  | .thread t => .thread (π.thread.apply t)
  | .target g => .target (π.target.apply g)
  | .global => .global

namespace Machine

/-- **Two machines in step.** -/
structure Renamed (π : Renaming) (m m' : Machine) : Prop where
  targets : m.targets.Renamed π.target (Target.Like π) m'.targets
  threads : m.threads.Renamed π.thread (Thread.Like π) m'.threads
  frames : m.frames.Renamed π.frame (Frame.Like π) m'.frames
  commands : m.commands.Renamed π.command Eq m'.commands
  globals : m'.globals = m.globals

namespace Renamed

variable {π : Renaming} {m m' : Machine} (hr : Renamed π m m')

include hr

/-! ## What can be asked -/

theorem get?_commands (c : CommandHandle) :
    m'.commands.get? (π.command.apply c) = m.commands.get? c := by
  cases hc : m.commands.get? c with
  | none => exact hr.commands.gone c hc
  | some command =>
    obtain ⟨command', hc', rfl⟩ := hr.commands.live c command hc
    exact hc'

/-- The innermost frames of an invocation and of its copy belong together. -/
theorem frameOf_apply (t : ThreadHandle) :
    m'.frameOf (π.thread.apply t) = (m.frameOf t).map π.frame.apply := by
  rw [frameOf, frameOf, Option.map_bind]
  refine hr.threads.bind_get? (fun x x' h => ?_) t
  rw [Thread.top?, h.stack, List.head?_map]
  rfl

/-- Machines in step have the same variables. -/
theorem varsAt_rename (cell : Cell) : m'.varsAt (cell.rename π) = m.varsAt cell := by
  cases cell with
  | frame f => exact hr.frames.map_get? (fun _ _ h => h.vars) f
  | thread t => exact hr.threads.map_get? (fun _ _ h => h.vars) t
  | target g => exact hr.targets.map_get? (fun _ _ h => h.vars) g
  | global => exact congrArg some hr.globals

theorem value_targetOf (t : ThreadHandle) :
    ((targetOf (π.thread.apply t)).run m').value =
      ((targetOf t).run m).value.map π.target.apply := by
  rw [Machine.value_targetOf, Machine.value_targetOf]
  cases ht : m.threads.get? t with
  | none => rw [hr.threads.gone t ht]; rfl
  | some thread =>
    obtain ⟨thread', ht', hlike⟩ := hr.threads.live t thread ht
    simp only [ht', Option.bind_some, hlike.target, hr.targets.contains_apply]
    split <;> rfl

/-- A scope means cells that belong together. -/
theorem cellOf_rename {v v' : Vantage} (hthread : v'.thread = π.thread.apply v.thread)
    (hframe : v'.frame = v.frame.map π.frame.apply) (scope : Scope) :
    m'.cellOf v' scope = (m.cellOf v scope).map (Cell.rename π) := by
  cases scope with
  | frame =>
    rw [cellOf, cellOf, hframe]
    cases v.frame with
    | none => rfl
    | some f =>
      simp only [Option.map_some, Option.filter_some, hr.frames.contains_apply]
      split <;> rfl
  | thread =>
    rw [cellOf, cellOf, hthread, hr.threads.contains_apply]
    split <;> rfl
  | target =>
    rw [cellOf, cellOf, hthread, hr.value_targetOf, Option.map_map, Option.map_map]
    rfl
  | global => rfl

/-- A scan finds the same. -/
theorem scanFrom_apply (index : Nat) (hs : List CommandHandle) :
    (m'.scanFrom index (hs.map π.command.apply)).readiness = (m.scanFrom index hs).readiness ∧
      (m'.scanFrom index (hs.map π.command.apply)).index = (m.scanFrom index hs).index := by
  induction hs generalizing index with
  | nil => exact ⟨rfl, rfl⟩
  | cons c hs ih =>
    simp only [List.map_cons, scanFrom, hr.get?_commands]
    split
    · exact ih (index + 1)
    · split
      · exact ⟨rfl, rfl⟩
      · exact ih (index + 1)

/-! ## What can be changed -/

theorem modifyTarget {g : TargetHandle} {u u' : Target → Target}
    (hu : ∀ x x', x.Like π x' → (u x).Like π (u' x')) :
    Renamed π (m.modifyTarget g u) (m'.modifyTarget (π.target.apply g) u') :=
  { hr with targets := hr.targets.modify fun x x' _ _ h => hu x x' h }

theorem modifyThread {t : ThreadHandle} {u u' : Thread → Thread}
    (hu : ∀ x x', x.Like π x' → (u x).Like π (u' x')) :
    Renamed π (m.modifyThread t u) (m'.modifyThread (π.thread.apply t) u') :=
  { hr with threads := hr.threads.modify fun x x' _ _ h => hu x x' h }

/-- A frame and its copy may be changed alike. -/
theorem modifyFrame {f : FrameHandle} {u u' : Frame → Frame}
    (hu : ∀ x x', x.Like π x' → (u x).Like π (u' x')) :
    Renamed π (m.modifyFrame f u) (m'.modifyFrame (π.frame.apply f) u') :=
  { hr with frames := hr.frames.modify fun x x' _ _ h => hu x x' h }

theorem moveCursor (f : FrameHandle) (index : Nat) :
    Renamed π (m.moveCursor f index) (m'.moveCursor (π.frame.apply f) index) :=
  hr.modifyFrame fun x x' h =>
    { h with cursor := by simp only [Frame.moveTo, h.commands, List.length_map] }

/-- Values may be assigned to cells that belong together. -/
theorem assign (cell : Cell) (name value : String) :
    Renamed π (m.assign cell name value) (m'.assign (cell.rename π) name value) := by
  cases cell with
  | frame f => exact hr.modifyFrame fun x x' h => { h with vars := by rw [h.vars] }
  | thread t => exact hr.modifyThread fun x x' h => { h with vars := by rw [h.vars] }
  | target g => exact hr.modifyTarget fun x x' h => { h with vars := by rw [h.vars] }
  | global => exact { hr with globals := by simp only [Machine.assign, Cell.rename, hr.globals] }

omit hr in
/-- Taking a handle off a list and renaming the rest can be done in either order. -/
theorem map_filter_ne {kind : String} (σ : Shift) (k : Handle kind) (hs : List (Handle kind)) :
    (hs.map σ.apply).filter (· ≠ σ.apply k) = (hs.filter (· ≠ k)).map σ.apply := by
  rw [List.filter_map]
  congr 1
  refine List.filter_congr fun h _ => ?_
  simp

theorem unstack (t : ThreadHandle) (f : FrameHandle) :
    Renamed π (m.unstack t f) (m'.unstack (π.thread.apply t) (π.frame.apply f)) :=
  hr.modifyThread fun x x' h => { h with stack := by rw [h.stack, map_filter_ne] }

theorem removeFrame (f : FrameHandle) :
    Renamed π (m.removeFrame f) (m'.removeFrame (π.frame.apply f)) := by
  rw [Machine.removeFrame, Machine.removeFrame]
  cases hf : m.frames.get? f with
  | none => rw [hr.frames.gone f hf]; exact hr
  | some frame =>
    obtain ⟨frame', hf', hlike⟩ := hr.frames.live f frame hf
    have hcommands := hr.commands.eraseAll frame.commands
    rw [← hlike.commands] at hcommands
    rw [hf']
    exact { hr with frames := hr.frames.erase f, commands := hcommands }

theorem removeFrames (fs : List FrameHandle) :
    Renamed π (fs.foldl Machine.removeFrame m)
      ((fs.map π.frame.apply).foldl Machine.removeFrame m') := by
  induction fs generalizing m m' with
  | nil => exact hr
  | cons f fs ih => exact ih (hr.removeFrame f)

/-- An invocation and its copy may be cancelled. -/
theorem cleanup (t : ThreadHandle) :
    Renamed π (m.cleanup t) (m'.cleanup (π.thread.apply t)) := by
  cases ht : m.threads.get? t with
  | none =>
    rw [cleanup_of_get?_eq_none ht, cleanup_of_get?_eq_none (hr.threads.gone t ht)]
    exact hr
  | some thread =>
    obtain ⟨thread', ht', hlike⟩ := hr.threads.live t thread ht
    have herased : Renamed π { m with threads := m.threads.erase t }
        { m' with threads := m'.threads.erase (π.thread.apply t) } :=
      { hr with threads := hr.threads.erase t }
    rw [cleanup_of_get?_eq_some ht, cleanup_of_get?_eq_some ht', hlike.stack, hlike.target]
    refine (herased.modifyTarget fun x x' h => ?_).removeFrames thread.stack
    exact { h with threads := by rw [h.threads, map_filter_ne] }

/-- **The same invocation is claimed next**, since whoever was claimed since the last load was
claimed at some time. -/
theorem claimNext (hm : m.Sound) (hm' : m'.Sound) :
    m'.claimNext.1 = m.claimNext.1.map π.thread.apply ∧ Renamed π m.claimNext.2 m'.claimNext.2 := by
  have hopen : ∀ {m : Machine}, m.Sound → ∀ t thread, m.threads.get? t = some thread →
      (thread.claimed || thread.wasClaimed) = thread.wasClaimed := by
    intro m hm t thread ht
    have himp := hm.claim t thread ht
    cases hclaimed : thread.claimed with
    | false => rfl
    | true => rw [himp hclaimed]; rfl
  have hfind := hr.threads.findHandle? (fun t => !(t.claimed || t.wasClaimed))
    (fun t => !(t.claimed || t.wasClaimed)) fun t thread thread' ht ht' hlike => by
      rw [hopen hm t thread ht, hopen hm' _ thread' ht', hlike.wasClaimed]
  rw [Machine.claimNext, Machine.claimNext, hfind]
  cases m.threads.findHandle? fun t => !(t.claimed || t.wasClaimed) with
  | none => exact ⟨rfl, hr⟩
  | some t => exact ⟨rfl, hr.modifyThread fun x x' h => { h with wasClaimed := rfl }⟩

end Renamed

/-! ## New objects -/

/-- No counter of the machine has gone round. -/
structure Ahead (m : Machine) : Prop where
  targets : m.targets.Ahead
  threads : m.threads.Ahead
  frames : m.frames.Ahead
  commands : m.commands.Ahead

/-- **No counter goes round** from one machine to the other. -/
structure Onward (m m' : Machine) : Prop where
  targets : m.targets.Onward m'.targets
  threads : m.threads.Onward m'.threads
  frames : m.frames.Onward m'.frames
  commands : m.commands.Onward m'.commands

instance (m : Machine) : Decidable m.Ahead :=
  decidable_of_iff (m.targets.Ahead ∧ m.threads.Ahead ∧ m.frames.Ahead ∧ m.commands.Ahead)
    ⟨fun ⟨h₁, h₂, h₃, h₄⟩ => ⟨h₁, h₂, h₃, h₄⟩, fun ⟨h₁, h₂, h₃, h₄⟩ => ⟨h₁, h₂, h₃, h₄⟩⟩

instance (m m' : Machine) : Decidable (Onward m m') :=
  decidable_of_iff (m.targets.Onward m'.targets ∧ m.threads.Onward m'.threads ∧
      m.frames.Onward m'.frames ∧ m.commands.Onward m'.commands)
    ⟨fun ⟨h₁, h₂, h₃, h₄⟩ => ⟨h₁, h₂, h₃, h₄⟩, fun ⟨h₁, h₂, h₃, h₄⟩ => ⟨h₁, h₂, h₃, h₄⟩⟩

theorem Onward.ahead {m m' : Machine} (h : Onward m m') : m'.Ahead :=
  ⟨h.targets.ahead, h.threads.ahead, h.frames.ahead, h.commands.ahead⟩

/-- No table is full whose counter is ahead. -/
theorem Ahead.roomy {m : Machine} (h : m.Ahead) : m.Roomy :=
  ⟨h.targets.not_full, h.threads.not_full, h.frames.not_full, h.commands.not_full⟩

namespace Renamed

variable {π : Renaming} {m m' : Machine} (hr : Renamed π m m')

include hr

theorem ahead : m.Ahead :=
  ⟨hr.targets.ahead, hr.threads.ahead, hr.frames.ahead, hr.commands.ahead⟩

/-- The other machine has not gone round either. -/
theorem ahead' : m'.Ahead :=
  ⟨hr.targets.ahead', hr.threads.ahead', hr.frames.ahead', hr.commands.ahead'⟩

/-- Both machines enter a script. -/
theorem pushed (t : ThreadHandle) (script : Script) (args : List String)
    (hframes : (m.pushed t script args).frames.Ahead)
    (hcommands : (m.pushed t script args).commands.Ahead) :
    Renamed π (m.pushed t script args) (m'.pushed (π.thread.apply t) script args) := by
  obtain ⟨hhandles, hcommands⟩ := hr.commands.createAll (fun _ _ => rfl) hcommands
  refine ⟨hr.targets, hr.threads.modify fun x x' _ _ h => ?_, ?_, hcommands, hr.globals⟩
  · exact { h with stack := by rw [h.stack, List.map_cons, hr.frames.apply_fresh] }
  · refine hr.frames.create ⟨rfl, rfl, rfl, hhandles, rfl, rfl, rfl, rfl, rfl, rfl, rfl, rfl⟩
      (hframes.lt m.frames.next ?_)
    exact Table.contains_next_create hr.frames.ahead _

/-- Both machines have the same target for an entity, unless a counter goes round. -/
theorem home (entity : EntityId)
    (hlt : (m.home entity).1.2 = true → ∃ k : TargetHandle, m.targets.next.raw < k.raw) :
    (m'.home entity).1 = (π.target.apply (m.home entity).1.1, (m.home entity).1.2) ∧
      (m.home entity).2.Renamed π.target (Target.Like π) (m'.home entity).2 := by
  have hfind := hr.targets.findHandle? (fun target => target.entity = some entity)
    (fun target => target.entity = some entity) fun _ _ _ _ _ hlike => by rw [hlike.entity]
  rw [Machine.home, Table.findOrCreate] at hlt
  rw [Machine.home, Machine.home, Table.findOrCreate, Table.findOrCreate, hfind]
  cases hfound : m.targets.findHandle? fun target => target.entity = some entity with
  | some g => exact ⟨rfl, hr.targets⟩
  | none =>
    rw [hfound] at hlt
    obtain ⟨k, hlt⟩ := hlt rfl
    refine ⟨by simp only [Option.map_none, hr.targets.apply_fresh], ?_⟩
    exact hr.targets.create ⟨rfl, rfl, rfl⟩ hlt

/-- Both machines start a script. -/
theorem started (entity : EntityId) (name : String) (script : Script)
    (hahead : (m.started entity name script).Ahead) :
    Renamed π (m.started entity name script) (m'.started entity name script) := by
  obtain ⟨htargets, hthreads, hframes, hcommands⟩ := hahead
  obtain ⟨hhome, hhomes⟩ := hr.home entity fun hnew => by
    have hahead : (m.home entity).2.Ahead := Table.Ahead.of_modify htargets
    rcases m.targets.findOrCreate_cases (fun target => target.entity = some entity)
      { entity := some entity } with ⟨_, _, _, _, _, heq⟩ | ⟨-, heq⟩
    · rw [Machine.home, heq] at hnew
      cases hnew
    · rw [Machine.home, heq] at hahead
      exact ⟨_, hahead.lt _ (Table.contains_next_create hr.targets.ahead _)⟩
  have hlt := (Table.Ahead.of_modify hthreads).lt m.threads.next
    (Table.contains_next_create hr.threads.ahead _)
  have hopened : Renamed π (m.opened entity name) (m'.opened entity name) :=
    { hr with
      targets := hhomes
      threads := hr.threads.create ⟨by rw [hhome], rfl, rfl, rfl, rfl⟩ hlt }
  have hpushed := hopened.pushed m.threads.fresh script [] hframes hcommands
  rw [hr.threads.apply_fresh] at hpushed
  rw [Machine.started, Machine.started, hhome]
  refine hpushed.modifyTarget fun x x' h => ?_
  exact { h with
    threads := by rw [h.threads, List.map_append, List.map_singleton, hr.threads.apply_fresh] }

/-- Both machines withdraw a script that cannot be started. -/
theorem withdrawn (entity : EntityId) (hon : Onward m (m.withdrawn entity)) :
    Renamed π (m.withdrawn entity) (m'.withdrawn entity) := by
  have hthreads := hr.threads.ahead.lt_of_le_skip hon.threads.le
  have htargets : (m.home entity).1.2 = true → m.targets.next.raw < m.targets.skip.next.raw := by
    intro hnew
    have hle := hon.targets.le
    rw [Machine.withdrawn, if_pos hnew] at hle
    exact hr.targets.ahead.lt_of_le_skip hle
  obtain ⟨hhome, -⟩ := hr.home entity fun hnew => ⟨_, htargets hnew⟩
  rw [Machine.withdrawn, Machine.withdrawn, hhome]
  refine { hr with threads := hr.threads.skip hthreads, targets := ?_ }
  dsimp only
  split
  · next hnew => exact hr.targets.skip (htargets hnew)
  · exact hr.targets

end Renamed

end Machine

end StepScript
