import StepScript.Proofs.Host.Confinement
import StepScript.Proofs.Machine.Oversize

/-!
# Proofs/Host/Registry — who runs on which entity

An entity is found by looking through the targets, and its invocations are those that its target
lists. Beside a run of operations we keep the live invocations in the order in which they were
started (`Machine.Enrolled`). The list of a target is this order, restricted to the invocations that
name the target, and no two targets have the same entity, so that nothing is found twice and nothing
is missed.

* `Machine.Registered` — what ties the targets to the order of starts.
* `Machine.Thins` — invocations may end, and nothing else changes in who runs where.
* `Machine.Enrolled.registered` — every run keeps its targets in this order.
* `Machine.Enrolled.lookups_complete` — what follows for the questions that a host can ask.
-/

namespace StepScript

/-- The invocations that an operation started, by its reply. -/
def Reply.newcomers : Reply → List ThreadHandle
  | .started (.ok t) => [t]
  | _ => []

namespace Machine

variable {m m' : Machine} {order : List ThreadHandle}

/-- The entity on which an invocation runs. -/
def entityFor (m : Machine) (t : ThreadHandle) : Option EntityId :=
  (m.targetAt t).bind fun g => (m.targets.get? g).bind Target.entity

/-- The entities that have a target. -/
def entities (m : Machine) : List EntityId := m.targets.toList.filterMap fun entry => entry.2.entity

/-- The target is there and has the entity. -/
def Serves (m : Machine) (g : TargetHandle) (e : EntityId) : Prop :=
  ∃ target, m.targets.get? g = some target ∧ target.entity = some e

/-- **The targets and the order of starts**: an entity has one target, and a target lists the
invocations that name it in the order in which they were started. -/
structure Registered (m : Machine) (order : List ThreadHandle) : Prop where
  unique : ∀ g g' e, m.Serves g e → m.Serves g' e → g = g'
  nodup : order.Nodup
  live : ∀ t, t ∈ order ↔ m.isLive t = true
  list : ∀ g target, m.targets.get? g = some target →
    target.threads = order.filter fun t => m.targetAt t = some g

/-- A new machine has no invocations to register. -/
theorem Registered.empty : Registered ∅ [] where
  unique := by
    rintro g g' e ⟨target, hg, -⟩
    cases hg
  nodup := List.nodup_nil
  live t := iff_of_false List.not_mem_nil Bool.false_ne_true
  list g target hg := by cases hg

/-- Nobody is left on a machine that is empty. -/
theorem Registered.nobody (order : List ThreadHandle) :
    Registered ∅ (order.filter (∅ : Machine).isLive) := by
  have hnobody : order.filter (∅ : Machine).isLive = [] :=
    List.filter_eq_nil_iff.2 fun _ _ => Bool.false_ne_true
  rw [hnobody]
  exact .empty

/-- An invocation is live if it has a target. -/
theorem isLive_iff {t : ThreadHandle} : m.isLive t = true ↔ ∃ g, m.targetAt t = some g := by
  rw [isLive, Table.contains_iff]
  simp [targetAt]

/-! ## Invocations end -/

/-- **Invocations may be gone**, from the lists of their targets too. Targets keep their entities,
and invocations their targets. -/
structure Thins (m m' : Machine) : Prop where
  target : ∀ g, (m'.targets.get? g).map (fun target => (target.entity, target.threads)) =
    (m.targets.get? g).map fun target => (target.entity, target.threads.filter m'.isLive)
  thread : ∀ t g, m'.targetAt t = some g → m.targetAt t = some g

namespace Thins

/-- What a target of the later machine was. -/
theorem target_of {g : TargetHandle} {target' : Target} (h : Thins m m')
    (hg : m'.targets.get? g = some target') : ∃ target, m.targets.get? g = some target ∧
      target'.entity = target.entity ∧ target'.threads = target.threads.filter m'.isLive := by
  have hsame := h.target g
  rw [hg, Option.map_some] at hsame
  obtain ⟨target, htarget, heq⟩ := Option.map_eq_some_iff.1 hsame.symm
  obtain ⟨hentity, hthreads⟩ := Prod.mk.inj heq
  exact ⟨target, htarget, hentity.symm, hthreads.symm⟩

/-- **A target stays**, with its entity. -/
theorem serves {g : TargetHandle} {e : EntityId} (h : Thins m m') :
    m'.Serves g e ↔ m.Serves g e := by
  constructor
  · rintro ⟨target', hg', hentity⟩
    obtain ⟨target, hg, hsame, -⟩ := h.target_of hg'
    exact ⟨target, hg, hsame ▸ hentity⟩
  · rintro ⟨target, hg, hentity⟩
    have hsame := h.target g
    rw [hg, Option.map_some] at hsame
    obtain ⟨target', hg', heq⟩ := Option.map_eq_some_iff.1 hsame
    exact ⟨target', hg', (Prod.mk.inj heq).1.trans hentity⟩

/-- What is live after invocations went was live before. -/
theorem isLive {t : ThreadHandle} (h : Thins m m') (ht : m'.isLive t = true) :
    m.isLive t = true := by
  obtain ⟨g, hg⟩ := isLive_iff.1 ht
  exact isLive_iff.2 ⟨g, h.thread t g hg⟩

theorem targetAt {t : ThreadHandle} (h : Thins m m') (ht : m'.isLive t = true) :
    m'.targetAt t = m.targetAt t := by
  obtain ⟨g, hg⟩ := isLive_iff.1 ht
  rw [hg, h.thread t g hg]

/-- Each target is followed by one that lists who is left. -/
theorem of_followed (hnone : ∀ g, m.targets.get? g = none → m'.targets.get? g = none)
    (hsome : ∀ g target, m.targets.get? g = some target →
      ∃ target', m'.targets.get? g = some target' ∧
      target'.entity = target.entity ∧ target'.threads = target.threads.filter m'.isLive)
    (hthread : ∀ t g, m'.targetAt t = some g → m.targetAt t = some g) : Thins m m' := by
  refine ⟨fun g => ?_, hthread⟩
  cases hg : m.targets.get? g with
  | none => rw [hnone g hg, Option.map_none, Option.map_none]
  | some target =>
    obtain ⟨target', hg', hentity, hthreads⟩ := hsome g target hg
    rw [hg', Option.map_some, Option.map_some, hentity, hthreads]

/-- Nobody is gone. -/
theorem of_same (howned : m.Owned)
    (htarget : ∀ g, (m'.targets.get? g).map Target.bare = (m.targets.get? g).map Target.bare)
    (hthread : ∀ t, m'.targetAt t = m.targetAt t) : Thins m m' := by
  refine of_followed (fun g hg => ?_) (fun g target hg => ?_) fun t g ht => hthread t ▸ ht
  · have hnone := htarget g
    rwa [hg, Option.map_none, Option.map_eq_none_iff] at hnone
  · have hbare := htarget g
    rw [hg, Option.map_some] at hbare
    obtain ⟨target', hg', heq⟩ := Option.map_eq_some_iff.1 hbare
    refine ⟨target', hg', (congrArg Target.entity heq :), ?_⟩
    have hthreads : target'.threads = target.threads := (congrArg Target.threads heq :)
    rw [hthreads, List.filter_eq_self.2 fun t ht => ?_]
    obtain ⟨thread, hlisted, -⟩ := howned.thread_of_listed hg ht
    rw [isLive_iff, hthread, ← isLive_iff]
    exact Table.contains_iff.2 ⟨thread, hlisted⟩

/-- Changes of contents end no invocation. -/
theorem of_edits (howned : m.Owned) (h : Edits m m') : Thins m m' := by
  refine of_same howned (fun g => ?_) h.sameLinks.targetAt
  induction h with
  | refl => rfl
  | tail _ hedit ih =>
    rw [← ih]
    cases hedit with
    | targetVariable => exact Table.map_get?_modify _ g fun _ _ => rfl
    | _ => rfl

/-- A step, or the end of one invocation. -/
theorem of_apart {t : ThreadHandle} (hsound : m.Sound) (h : Apart t m m') : Thins m m' := by
  have hlisted : ∀ g target k, m.targets.get? g = some target → k ∈ target.threads → k ≠ t →
      m'.isLive k = true := by
    intro g target k hg hk hne
    obtain ⟨thread, hthread, -⟩ := hsound.owned.thread_of_listed hg hk
    rw [Machine.isLive, Table.contains_eq, h.thread k hne, hthread]
    rfl
  refine of_followed (fun g hg => ?_) (fun g target hg => ?_) fun k g hk => ?_
  · rw [h.target g fun hown => ?_, hg]
    obtain ⟨thread, hthread, rfl⟩ := Option.map_eq_some_iff.1 hown
    obtain ⟨target, htarget, -⟩ := hsound.owned.target_of_thread hthread
    rw [hg] at htarget
    cases htarget
  · by_cases hown : m.targetAt t = some g
    · obtain ⟨target', hg', hentity, hthreads⟩ := h.home g target hown hg
      refine ⟨target', hg', hentity, hthreads.trans ?_⟩
      split
      · next hlive =>
        refine (List.filter_eq_self.2 fun k hk => ?_).symm
        by_cases hne : k = t
        · rw [hne, hlive]
        · exact hlisted g target k hg hk hne
      · next hdead =>
        refine List.filter_congr fun k hk => ?_
        by_cases hne : k = t
        · simp [hne, hdead]
        · simp [hne, hlisted g target k hg hk hne]
    · -- the target does not list the invocation
      refine ⟨target, (h.target g hown).trans hg, rfl, (List.filter_eq_self.2 fun k hk => ?_).symm⟩
      refine hlisted g target k hg hk ?_
      rintro rfl
      obtain ⟨thread, hthread, rfl⟩ := hsound.owned.thread_of_listed hg hk
      exact hown (by rw [Machine.targetAt, hthread]; rfl)
  · by_cases hne : k = t
    · subst hne
      obtain ⟨thread', hthread', rfl⟩ := Option.map_eq_some_iff.1 hk
      obtain ⟨thread, hthread, htarget, -⟩ := h.own thread' hthread'
      rw [Machine.targetAt, hthread, Option.map_some, htarget]
    · rw [Machine.targetAt, h.thread k hne] at hk
      exact hk

end Thins

/-- **What is left is in order**, with those struck out that are gone. -/
theorem Registered.thin (h : Registered m order) (hthins : Thins m m') :
    Registered m' (order.filter m'.isLive) where
  unique g g' e hg hg' := h.unique g g' e (hthins.serves.1 hg) (hthins.serves.1 hg')
  nodup := h.nodup.filter _
  live t := by
    rw [List.mem_filter, h.live]
    exact and_iff_right_of_imp hthins.isLive
  list g target' hg' := by
    obtain ⟨target, hg, -, hthreads⟩ := hthins.target_of hg'
    rw [hthreads, h.list g target hg, List.filter_comm]
    refine List.filter_congr fun t ht => ?_
    rw [hthins.targetAt (List.mem_filter.1 ht).2]

/-! ## Invocations start -/

/-- A new invocation is on the target of its entity, and the others stay on theirs. -/
theorem targetAt_started (entity : EntityId) (name : String) (script : Script) (t : ThreadHandle) :
    (m.started entity name script).targetAt t =
      if t = m.threads.fresh then some (m.home entity).1.1 else m.targetAt t := by
  rw [targetAt, get?_threads_started]
  split <;> rfl

/-- The home of an entity is the target that has it, if there is one. -/
theorem Registered.home_eq {g : TargetHandle} {e : EntityId} (h : Registered m order)
    (hg : m.Serves g e) :
    (m.home e).1.1 = g := by
  rw [home]
  rcases m.targets.findOrCreate_cases (fun target => target.entity = some e)
      { entity := some e } with
    ⟨k, target, hk, hentity, -, heq⟩ | ⟨hnone, -⟩
  · rw [heq]
    exact h.unique k g e ⟨target, hk, of_decide_eq_true hentity⟩ hg
  · obtain ⟨target, hget, hentity⟩ := hg
    have hfalse := Table.findHandle?_eq_none_iff.1 hnone g target hget
    exact absurd hentity (of_decide_eq_false hfalse)

/-- The home of an entity lists those that named it before, also if it is new. -/
theorem Registered.threads_home {entity : EntityId} {target : Target} (h : Registered m order)
    (hsound : m.Sound) (hcases : m.targets.get? (m.home entity).1.1 = some target ∨
      m.targets.get? (m.home entity).1.1 = none ∧ target.threads = []) :
    target.threads = order.filter fun t => m.targetAt t = some (m.home entity).1.1 := by
  rcases hcases with hold | ⟨hdead, hnil⟩
  · exact h.list _ target hold
  · -- nobody names a target that is not there
    rw [hnil]
    refine (List.filter_eq_nil_iff.2 fun t ht hnames => ?_).symm
    obtain ⟨thread, hthread, heq⟩ := Option.map_eq_some_iff.1 (of_decide_eq_true hnames)
    obtain ⟨other, hget, -⟩ := hsound.owned.target_of_thread hthread
    rw [heq, hdead] at hget
    cases hget

/-- After a start, the home of the entity has it, and the other targets have what they had. -/
theorem serves_started {entity : EntityId} {name : String} {script : Script}
    (hproper : m.targets.Proper) (hroom : ¬ m.targets.Full) {g : TargetHandle} {e : EntityId}
    (hg : (m.started entity name script).Serves g e) :
    g = (m.home entity).1.1 ∧ e = entity ∨ g ≠ (m.home entity).1.1 ∧ m.Serves g e := by
  obtain ⟨home, hentity, hhome, hother, -⟩ := home_spec hproper hroom entity
  obtain ⟨target, hg, he⟩ := hg
  rw [get?_targets_started] at hg
  by_cases heq : g = (m.home entity).1.1
  · rw [if_pos heq, heq, hhome] at hg
    cases hg
    exact .inl ⟨heq, Option.some.inj (he.symm.trans hentity)⟩
  · rw [if_neg heq, hother g heq] at hg
    exact .inr ⟨heq, target, hg, he⟩

/-- **The newest invocation** is last in the list of its target. -/
theorem Registered.started (h : Registered m order) (hsound : m.Sound) (hroom : m.Roomy)
    (entity : EntityId) (name : String) (script : Script) :
    Registered (m.started entity name script) (order ++ [m.threads.fresh]) := by
  have hnotMem : m.threads.fresh ∉ order := by
    rw [h.live, isLive, Table.contains_eq,
      Table.get?_fresh hsound.proper.threads.next hroom.threads]
    exact Bool.false_ne_true
  obtain ⟨home, -, hhome, hother, hcases⟩ := home_spec hsound.proper.targets hroom.targets entity
  have hlist : home.threads = order.filter fun t => m.targetAt t = some (m.home entity).1.1 := by
    rcases hcases with ⟨hold, -⟩ | ⟨hdead, rfl, -⟩
    · exact h.threads_home hsound (.inl hold)
    · exact h.threads_home hsound (.inr ⟨hdead, rfl⟩)
  refine ⟨fun g g' e hg hg' => ?_, ?_, fun t => ?_, fun g target hg => ?_⟩
  · rcases serves_started hsound.proper.targets hroom.targets hg with ⟨rfl, rfl⟩ | ⟨hne, hold⟩
    · rcases serves_started hsound.proper.targets hroom.targets hg' with ⟨rfl, -⟩ | ⟨hne', hold'⟩
      · rfl
      · exact absurd (h.home_eq hold').symm hne'
    · rcases serves_started hsound.proper.targets hroom.targets hg' with ⟨rfl, rfl⟩ | ⟨-, hold'⟩
      · exact absurd (h.home_eq hold).symm hne
      · exact h.unique g g' e hold hold'
  · exact List.nodup_append.2 ⟨h.nodup, List.nodup_singleton _, fun t ht k hk => by
      rintro rfl
      exact hnotMem (List.mem_singleton.1 hk ▸ ht)⟩
  · rw [List.mem_append, List.mem_singleton, h.live, isLive_iff, isLive_iff]
    simp only [targetAt_started]
    by_cases heq : t = m.threads.fresh <;> simp [heq]
  · -- those that were started before name the targets they named
    have hbefore : order.filter (fun t => (m.started entity name script).targetAt t = some g) =
        order.filter fun t => m.targetAt t = some g := by
      refine List.filter_congr fun t ht => ?_
      have hne : t ≠ m.threads.fresh := by
        rintro rfl
        exact hnotMem ht
      rw [targetAt_started, if_neg hne]
    rw [List.filter_append, hbefore, List.filter_singleton, targetAt_started, if_pos rfl]
    rw [get?_targets_started] at hg
    by_cases heq : g = (m.home entity).1.1
    · rw [if_pos heq, heq, hhome] at hg
      cases hg
      simp [heq, hlist]
    · rw [if_neg heq, hother g heq] at hg
      simp [Ne.symm heq, h.list g target hg]

/-- A start that fails leaves the targets as they were. -/
theorem get?_targets_withdrawn (m : Machine) (entity : EntityId) (g : TargetHandle) :
    (m.withdrawn entity).targets.get? g = m.targets.get? g := by
  rw [withdrawn]
  dsimp only
  split <;> rfl

/-- A start that succeeds keeps the targets, with their entities. -/
theorem target_started {entity : EntityId} {g : TargetHandle} {target : Target}
    (hproper : m.targets.Proper) (hroom : ¬ m.targets.Full) (name : String) (script : Script)
    (hg : m.targets.get? g = some target) :
    ∃ target', (m.started entity name script).targets.get? g = some target' ∧
      target'.entity = target.entity := by
  obtain ⟨home, -, hhome, hother, hcases⟩ := home_spec hproper hroom entity
  rw [get?_targets_started]
  by_cases heq : g = (m.home entity).1.1
  · subst heq
    rcases hcases with ⟨hold, -⟩ | ⟨hdead, -⟩
    · rw [hg] at hold
      cases hold
      rw [if_pos rfl, hhome]
      exact ⟨_, rfl, rfl⟩
    · rw [hg] at hdead
      cases hdead
  · rw [if_neg heq, hother g heq]
    exact ⟨target, hg, rfl⟩

end Machine

/-! ## Operations -/

namespace Host

variable {η : Type} {h : Host η} {w : World η} {order : List ThreadHandle}

open Machine

/-- A step takes invocations away and starts none. -/
theorem Quiet.thins_step (hq : h.Quiet) (f : FrameHandle) (hsound : w.machine.Sound)
    (hroom : ((h.step f).run w).state.machine.Roomy) :
    Thins w.machine ((h.step f).run w).state.machine := by
  rcases hq.step_cases f hsound with hidle | ⟨t, below, frame, hstack, -, -, hstepped⟩
  · rw [hidle]
    exact .of_edits hsound.owned .refl
  · exact .of_apart hsound (hstepped.confined hsound hstack hroom).1

/-- **All other operations** end invocations at most. -/
theorem Quiet.thins_perform (hq : h.Quiet) (op : Operation) (hsound : w.machine.Sound)
    (hroom : ((h.perform op).run w).state.machine.Roomy)
    (hstart : ∀ entity name, op ≠ .start entity name) (hreset : op ≠ .reset) :
    Thins w.machine ((h.perform op).run w).state.machine := by
  cases op with
  | start entity name => exact absurd rfl (hstart entity name)
  | step f =>
    simp only [perform, Act.run_map] at hroom ⊢
    exact hq.thins_step f hsound hroom
  | stepInvocation t =>
    simp only [perform, Act.run_map] at hroom ⊢
    cases ht : w.machine.threads.get? t with
    | none =>
      rw [run_stepInvocation_of_dead ht]
      exact .of_edits hsound.owned .refl
    | some thread =>
      obtain ⟨f, below, hstack⟩ := hsound.exists_stack ht
      rw [run_stepInvocation hstack] at hroom ⊢
      exact hq.thins_step f hsound hroom
  | complete f result =>
    simp only [perform, Act.run_map, World.run_onMachine]
    exact .of_edits hsound.owned (edits_completeCall f result _)
  | setVariable t token value =>
    simp only [perform, Act.run_map, World.run_onMachine]
    exact .of_edits hsound.owned (edits_setVariable t token value _)
  | setGlobal name value => exact .of_edits hsound.owned (.single (.globalVariable _ _))
  | claim =>
    simp only [perform, World.run_getMachine_bind]
    unfold claimNext
    split
    · exact .of_edits hsound.owned .refl
    · exact .of_same hsound.owned (fun _ => rfl) fun t => Table.map_get?_modify _ t fun _ _ => rfl
  | cleanup t => exact .of_apart hsound (Apart.cleanup hsound t)
  | reset => exact absurd rfl hreset

/-- **Targets are not removed**, except when the machine is reset. -/
theorem Quiet.target_kept (hq : h.Quiet) {op : Operation} {g : TargetHandle} {target : Target}
    (hsound : w.machine.Sound) (hbefore : w.machine.Roomy)
    (hroom : ((h.perform op).run w).state.machine.Roomy) (hreset : op ≠ .reset)
    (hg : w.machine.targets.get? g = some target) :
    ∃ target', ((h.perform op).run w).state.machine.targets.get? g = some target' ∧
      target'.entity = target.entity := by
  by_cases hstart : ∀ entity name, op ≠ .start entity name
  · have hsame := (hq.thins_perform op hsound hroom hstart hreset).target g
    rw [hg, Option.map_some] at hsame
    obtain ⟨target', hg', heq⟩ := Option.map_eq_some_iff.1 hsame
    exact ⟨target', hg', (Prod.mk.inj heq).1⟩
  · simp only [ne_eq, not_forall, Decidable.not_not] at hstart
    obtain ⟨entity, name, rfl⟩ := hstart
    simp only [perform, Act.run_map]
    rw [hq.run_start hsound.proper hbefore]
    cases h.script name { w with machine := w.machine.opened entity name } with
    | error failure => exact ⟨target, (get?_targets_withdrawn _ entity g).trans hg, rfl⟩
    | ok result => exact target_started hsound.proper.targets hbefore.targets name result.1 hg

/-- **A start that fails leaves all targets as they were**: one that it made for its entity is gone
again. -/
theorem Quiet.targets_of_failed_start (hq : h.Quiet) {op : Operation} {failure : Failure}
    (hsound : w.machine.Sound) (hbefore : w.machine.Roomy)
    (hvalue : ((h.perform op).run w).value = .started (.error failure)) (g : TargetHandle) :
    ((h.perform op).run w).state.machine.targets.get? g = w.machine.targets.get? g := by
  cases op with
  | start entity name =>
    simp only [perform, Act.run_map] at hvalue ⊢
    rw [hq.run_start hsound.proper hbefore] at hvalue ⊢
    cases hscript : h.script name { w with machine := w.machine.opened entity name } with
    | error failure => exact get?_targets_withdrawn _ entity g
    | ok result =>
      rw [hscript] at hvalue
      cases hvalue
  | _ => cases hvalue

/-- **An operation keeps the targets in order**: those that it ends are struck out, and one that it
starts comes last. -/
theorem Quiet.registered_perform (hq : h.Quiet) (op : Operation) (hsound : w.machine.Sound)
    (hbefore : w.machine.Roomy) (hroom : ((h.perform op).run w).state.machine.Roomy)
    (hreg : Registered w.machine order) :
    Registered ((h.perform op).run w).state.machine
      ((order ++ ((h.perform op).run w).value.newcomers).filter
        ((h.perform op).run w).state.machine.isLive) := by
  by_cases hreset : op = .reset
  · subst hreset
    exact .nobody _
  by_cases hstart : ∀ entity name, op ≠ .start entity name
  · have hnone : ((h.perform op).run w).value.newcomers = [] := by
      cases op with
      | start entity name => exact absurd rfl (hstart entity name)
      | _ => rfl
    rw [hnone, List.append_nil]
    exact hreg.thin (hq.thins_perform op hsound hroom hstart hreset)
  · simp only [ne_eq, not_forall, Decidable.not_not] at hstart
    obtain ⟨entity, name, rfl⟩ := hstart
    simp only [perform, Act.run_map]
    rw [hq.run_start hsound.proper hbefore]
    cases h.script name { w with machine := w.machine.opened entity name } with
    | error failure =>
      have hthins : Thins w.machine (w.machine.withdrawn entity) := by
        refine .of_same hsound.owned (fun g => ?_) fun _ => rfl
        rw [get?_targets_withdrawn]
      simp only [Reply.newcomers, List.append_nil]
      exact hreg.thin hthins
    | ok result =>
      have hstarted := hreg.started hsound hbefore entity name result.1
      have hall : (order ++ [w.machine.threads.fresh]).filter
          (w.machine.started entity name result.1).isLive =
          order ++ [w.machine.threads.fresh] :=
        List.filter_eq_self.2 fun t ht => (hstarted.live t).1 ht
      simp only [Reply.newcomers]
      rw [hall]
      exact hstarted

end Host

/-! ## Loads -/

namespace Machine

variable {m m' : Machine} {order : List ThreadHandle} {ρ : EntityId → Option EntityId}

/-- **No two entities of the machine are resolved to one.** -/
def Separates (ρ : EntityId → Option EntityId) (m : Machine) : Prop :=
  ∀ g g' e e' found, m.Serves g e → m.Serves g' e' → ρ e = some found → ρ e' = some found → e = e'

/-- An invocation is kept if the entity of its target is found. -/
theorem kept_iff {t : ThreadHandle} {g : TargetHandle} {target : Target}
    (ht : m.targetAt t = some g) (hg : m.targets.get? g = some target) :
    m.Kept ρ t ↔ (target.entity.bind ρ).isSome = true := by
  obtain ⟨thread, hthread, rfl⟩ := Option.map_eq_some_iff.1 ht
  constructor
  · rintro ⟨thread', other, hthread', hother, hfound⟩
    rw [hthread] at hthread'
    cases hthread'
    rw [hg] at hother
    cases hother
    exact hfound
  · exact fun hfound => ⟨thread, target, hthread, hg, hfound⟩

/-- What is loaded names the targets that it named. -/
theorem Restored.targetAt_iff {t : ThreadHandle} {g : TargetHandle} (h : Restored ρ m m') :
    m'.targetAt t = some g ↔ m.targetAt t = some g ∧ m.Kept ρ t := by
  constructor
  · intro ht
    obtain ⟨thread', hthread', rfl⟩ := Option.map_eq_some_iff.1 ht
    obtain ⟨thread, hthread, hkept, heq⟩ :=
      (h.thread t thread'.bare).1 (by rw [hthread', Option.map_some])
    have htarget : thread'.target = thread.target := (congrArg Thread.target heq :)
    rw [targetAt, hthread, Option.map_some, htarget]
    exact ⟨rfl, hkept⟩
  · rintro ⟨ht, hkept⟩
    obtain ⟨thread, hthread, rfl⟩ := Option.map_eq_some_iff.1 ht
    have hback := (h.thread t { thread.bare with claimed := false }).2 ⟨thread, hthread, hkept, rfl⟩
    obtain ⟨thread', hthread', heq⟩ := Option.map_eq_some_iff.1 hback
    have htarget : thread'.target = thread.target := (congrArg Thread.target heq :)
    rw [targetAt, hthread', Option.map_some, htarget]

/-- After a load a target has the entity that its old one became, and its list, unless the entity is
gone. -/
theorem Restored.target_of {g : TargetHandle} {target' : Target} (h : Restored ρ m m')
    (hg : m'.targets.get? g = some target') : ∃ target, m.targets.get? g = some target ∧
      target'.entity = target.entity.bind ρ ∧
      target'.threads = if (target.entity.bind ρ).isSome then target.threads else [] := by
  have hsame := h.target g
  rw [hg, Option.map_some] at hsame
  obtain ⟨target, htarget, heq⟩ := Option.map_eq_some_iff.1 hsame.symm
  exact ⟨target, htarget, (congrArg Target.entity heq.symm :), (congrArg Target.threads heq.symm :)⟩

/-- **What is loaded is in the order in which it was started**, if no two entities are resolved to
one. -/
theorem Registered.restored (h : Registered m order) (hrestored : Restored ρ m m')
    (hρ : m.Separates ρ) :
    Registered m' (order.filter m'.isLive) where
  unique g g' e := by
    rintro ⟨target, hg, he⟩ ⟨target', hg', he'⟩
    obtain ⟨old, hold, hentity, -⟩ := hrestored.target_of hg
    obtain ⟨old', hold', hentity', -⟩ := hrestored.target_of hg'
    obtain ⟨x, hx, hfound⟩ := Option.bind_eq_some_iff.1 (hentity.symm.trans he)
    obtain ⟨y, hy, hfound'⟩ := Option.bind_eq_some_iff.1 (hentity'.symm.trans he')
    have hserves : m.Serves g x := ⟨old, hold, hx⟩
    have hserves' : m.Serves g' y := ⟨old', hold', hy⟩
    obtain rfl := hρ g g' x y e hserves hserves' hfound hfound'
    exact h.unique g g' x hserves hserves'
  nodup := h.nodup.filter _
  live t := by
    rw [List.mem_filter, h.live]
    refine and_iff_right_of_imp fun ht => ?_
    obtain ⟨g, hg⟩ := isLive_iff.1 ht
    exact isLive_iff.2 ⟨g, (hrestored.targetAt_iff.1 hg).1⟩
  list g target' hg' := by
    obtain ⟨target, hg, -, hthreads⟩ := hrestored.target_of hg'
    rw [hthreads, List.filter_filter, h.list g target hg]
    split
    · next hfound =>
      refine List.filter_congr fun t _ => ?_
      rw [Bool.eq_iff_iff, Bool.and_eq_true, decide_eq_true_iff, decide_eq_true_iff,
        hrestored.targetAt_iff]
      constructor
      · intro ht
        have hkept := (kept_iff ht hg).2 hfound
        exact ⟨⟨ht, hkept⟩, isLive_iff.2 ⟨g, hrestored.targetAt_iff.2 ⟨ht, hkept⟩⟩⟩
      · exact fun ht => ht.1.1
    · next hlost =>
      refine (List.filter_eq_nil_iff.2 fun t _ ht => ?_).symm
      rw [Bool.and_eq_true, decide_eq_true_iff, hrestored.targetAt_iff] at ht
      exact hlost ((kept_iff ht.1.1 hg).1 ht.1.2)

/-! ## Runs -/

/-- **The machines that hosts can make, with the live invocations in the order in which they were
started.** A save is loaded by a host that resolves no two of its entities to one. -/
inductive Enrolled : Machine → List ThreadHandle → Prop
  | new : Enrolled ∅ []
  | perform {η : Type} {h : Host η} {w : World η} {op : Operation} {order : List ThreadHandle}
      (hquiet : h.Quiet) (hbefore : Enrolled w.machine order)
      (hroom : ((h.perform op).run w).state.machine.Roomy) :
      Enrolled ((h.perform op).run w).state.machine
        ((order ++ ((h.perform op).run w).value.newcomers).filter
          ((h.perform op).run w).state.machine.isLive)
  | load {m saved : Machine} {other order : List ThreadHandle} {bs : Bytes} (s : Setting)
      (hbefore : Enrolled m other) (hsaved : Enrolled saved order) (hsave : saved.save = .ok bs)
      (hentities : saved.Separates s.remap) :
      Enrolled ((load s bs).run m).state (order.filter ((load s bs).run m).state.isLive)

/-- The order after an operation may be given as any list that it comes to. -/
theorem Enrolled.perform_of_eq {η : Type} {h : Host η} {w : World η} {op : Operation}
    {order' : List ThreadHandle} (hquiet : h.Quiet) (hbefore : Enrolled w.machine order)
    (hroom : ((h.perform op).run w).state.machine.Roomy)
    (horder : (order ++ ((h.perform op).run w).value.newcomers).filter
      ((h.perform op).run w).state.machine.isLive = order') :
    Enrolled ((h.perform op).run w).state.machine order' :=
  horder ▸ .perform hquiet hbefore hroom

theorem Enrolled.reachable (h : Enrolled m order) : m.Reachable := by
  induction h with
  | new => exact .new
  | perform hquiet _ hroom ih => exact .perform hquiet ih hroom
  | @load _ saved _ _ _ s _ _ hsave _ ih ih' =>
    by_cases hfits : saved.Fits
    · exact .load s ih ih' hsave hfits
    · obtain ⟨-, -, -, hempty⟩ := refused_of_not_fits hsave hfits s _
      rw [hempty]
      exact .new

/-- **Every run keeps its targets in order.** -/
theorem Enrolled.registered (h : Enrolled m order) : Registered m order := by
  induction h with
  | new => exact .empty
  | @perform _ _ _ op _ hquiet hbefore hroom ih =>
    obtain ⟨hsound, hbefore⟩ := hbefore.reachable.sound_and_roomy
    exact hquiet.registered_perform op hsound hbefore hroom ih
  | @load _ saved _ order _ s _ hsaved hsave hentities _ ih =>
    by_cases hfits : saved.Fits
    · obtain ⟨-, -, hrestored⟩ := hsaved.reachable.sound.load_save hfits hsave s _
      exact ih.restored hrestored hentities
    · obtain ⟨-, -, -, hempty⟩ := refused_of_not_fits hsave hfits s _
      rw [hempty]
      exact .nobody order

/-! ## Questions -/

/-- **What a host finds by asking** for entities and invocations, when the live invocations were
started in the given order. -/
structure Complete (m : Machine) (order : List ThreadHandle) : Prop where
  /-- An entity has at most one target. -/
  unique : ∀ e g g', m.Serves g e → m.Serves g' e → g = g'
  /-- It is the one that is found. -/
  target : ∀ e g, m.targetFor e = some g ↔ m.Serves g e
  /-- The order has every live invocation, once. -/
  started : order.Nodup ∧ ∀ t, t ∈ order ↔ m.isLive t = true
  /-- The invocations on an entity are those whose target has it, in that order. -/
  invocations : ∀ e, m.invocationsFor e = order.filter fun t => m.entityFor t = some e
  /-- Every live invocation is found on one entity. -/
  entity : ∀ t, m.isLive t = true → ∃! e, t ∈ m.invocationsFor e
  /-- No invocation is found on two. -/
  disjoint : ∀ e e', e ≠ e' → (m.invocationsFor e).Disjoint (m.invocationsFor e')
  /-- Together they are all invocations. -/
  union : m.invocations.Perm (m.entities.flatMap m.invocationsFor)

namespace Registered

/-- The target that is found for an entity is the one that serves it. -/
theorem targetFor_iff (h : Registered m order) (e : EntityId) (g : TargetHandle) :
    m.targetFor e = some g ↔ m.Serves g e := by
  constructor
  · intro hfound
    obtain ⟨⟨target, hg, hentity⟩, -⟩ := Table.findHandle?_least hfound
    exact ⟨target, hg, of_decide_eq_true hentity⟩
  · intro hg
    cases hfound : m.targetFor e with
    | none =>
      obtain ⟨target, hget, hentity⟩ := hg
      exact absurd hentity
        (of_decide_eq_false (Table.findHandle?_eq_none_iff.1 hfound g target hget))
    | some k =>
      obtain ⟨⟨target, hk, hentity⟩, -⟩ := Table.findHandle?_least hfound
      rw [h.unique k g e ⟨target, hk, of_decide_eq_true hentity⟩ hg]

/-- An invocation runs on an entity if it names the target that has it. -/
theorem entityFor_iff {t : ThreadHandle} {e : EntityId} :
    m.entityFor t = some e ↔ ∃ g, m.targetAt t = some g ∧ m.Serves g e := by
  simp only [entityFor, Option.bind_eq_some_iff, Serves]

/-- **The invocations of an entity** are those that run on it, in the order in which they were
started. -/
theorem invocationsFor_eq (h : Registered m order) (e : EntityId) :
    m.invocationsFor e = order.filter fun t => m.entityFor t = some e := by
  rw [invocationsFor]
  cases hfound : m.targetFor e with
  | none =>
    refine (List.filter_eq_nil_iff.2 fun t _ ht => ?_).symm
    obtain ⟨g, -, hg⟩ := entityFor_iff.1 (of_decide_eq_true ht)
    rw [(h.targetFor_iff e g).2 hg] at hfound
    cases hfound
  | some g =>
    have hg := (h.targetFor_iff e g).1 hfound
    obtain ⟨target, hget, hentity⟩ := hg
    simp only [Option.bind_some, hget]
    rw [h.list g target hget]
    refine List.filter_congr fun t _ => ?_
    rw [Bool.eq_iff_iff, decide_eq_true_iff, decide_eq_true_iff, entityFor_iff]
    constructor
    · exact fun ht => ⟨g, ht, target, hget, hentity⟩
    · rintro ⟨k, ht, hk⟩
      rw [ht, h.unique k g e hk ⟨target, hget, hentity⟩]

theorem mem_invocationsFor {t : ThreadHandle} {e : EntityId} (h : Registered m order) :
    t ∈ m.invocationsFor e ↔ m.entityFor t = some e := by
  rw [h.invocationsFor_eq, List.mem_filter, decide_eq_true_iff, h.live]
  refine and_iff_right_of_imp fun ht => ?_
  obtain ⟨g, hg, -⟩ := entityFor_iff.1 ht
  exact isLive_iff.2 ⟨g, hg⟩

/-- A live invocation runs on an entity: a target without one lists nobody. -/
theorem exists_entity {t : ThreadHandle} (hsound : m.Sound) (ht : m.isLive t = true) :
    ∃ e, m.entityFor t = some e := by
  obtain ⟨thread, hthread⟩ := Table.contains_iff.1 ht
  obtain ⟨target, htarget, hlisted⟩ := hsound.owned.target_of_thread hthread
  cases hentity : target.entity with
  | none =>
    rw [hsound.entity _ target htarget hentity] at hlisted
    cases hlisted
  | some e => exact ⟨e, entityFor_iff.2 ⟨thread.target, by rw [targetAt, hthread]; rfl, target,
      htarget, hentity⟩⟩

/-- The entities of a machine are those that a target serves. -/
theorem mem_entities {e : EntityId} : e ∈ m.entities ↔ ∃ g, m.Serves g e := by
  rw [entities, List.mem_filterMap]
  constructor
  · rintro ⟨⟨g, target⟩, hmem, hentity⟩
    exact ⟨g, target, Table.mem_toList_iff.1 hmem, hentity⟩
  · rintro ⟨g, target, hg, hentity⟩
    exact ⟨(g, target), Table.mem_toList_iff.2 hg, hentity⟩

/-- No entity is listed twice, for no two targets have the same. -/
theorem nodup_entities (h : Registered m order) : m.entities.Nodup := by
  rw [entities, List.Nodup, List.pairwise_filterMap]
  refine m.targets.pairwise_toList.imp_of_mem ?_
  rintro ⟨g, target⟩ ⟨g', target'⟩ hmem hmem' hlt e hentity e' hentity' rfl
  have heq := h.unique g g' e ⟨target, Table.mem_toList_iff.1 hmem, hentity⟩
    ⟨target', Table.mem_toList_iff.1 hmem', hentity'⟩
  exact absurd hlt (heq ▸ UInt32.lt_irrefl _)

/-- No invocation runs on two entities. -/
theorem disjoint_invocationsFor (h : Registered m order) {e e' : EntityId} (hne : e ≠ e') :
    (m.invocationsFor e).Disjoint (m.invocationsFor e') := by
  intro t ht ht'
  rw [h.mem_invocationsFor] at ht ht'
  rw [ht] at ht'
  exact hne (Option.some.inj ht')

/-- The invocations of all entities together are all that there are, each once. -/
theorem perm_invocations (h : Registered m order) (hsound : m.Sound) :
    m.invocations.Perm (m.entities.flatMap m.invocationsFor) := by
  have hnodup : (m.entities.flatMap m.invocationsFor).Nodup := by
    refine List.nodup_flatMap.2 ⟨fun e _ => ?_,
      h.nodup_entities.imp fun hne => h.disjoint_invocationsFor hne⟩
    rw [h.invocationsFor_eq]
    exact h.nodup.filter _
  refine (List.perm_ext_iff_of_nodup m.threads.nodup_handles hnodup).2 fun t => ?_
  rw [List.mem_flatMap, Table.mem_handles_iff, ← Table.contains_eq]
  constructor
  · intro ht
    obtain ⟨e, he⟩ := exists_entity hsound ht
    obtain ⟨g, -, hg⟩ := entityFor_iff.1 he
    exact ⟨e, mem_entities.2 ⟨g, hg⟩, h.mem_invocationsFor.2 he⟩
  · rintro ⟨e, -, ht⟩
    obtain ⟨g, hg, -⟩ := entityFor_iff.1 (h.mem_invocationsFor.1 ht)
    exact isLive_iff.2 ⟨g, hg⟩

/-- **What can be looked up is complete**: nothing that is live is missed and nothing is found
twice. -/
theorem complete (h : Registered m order) (hsound : m.Sound) : m.Complete order where
  unique e g g' := h.unique g g' e
  target := h.targetFor_iff
  started := ⟨h.nodup, h.live⟩
  invocations := h.invocationsFor_eq
  entity t ht := by
    obtain ⟨e, he⟩ := exists_entity hsound ht
    refine ⟨e, h.mem_invocationsFor.2 he, fun e' he' => ?_⟩
    exact Option.some.inj ((h.mem_invocationsFor.1 he').symm.trans he)
  disjoint e e' := h.disjoint_invocationsFor
  union := h.perm_invocations hsound

end Registered

/-- **Lookups are complete.** In every run the targets say who runs where, each once, in the order
of starts; and a target stays until the machine is reset or loaded. A start that fails takes away no
target but the one it made. -/
theorem Enrolled.lookups_complete (h : Enrolled m order) :
    m.Complete order ∧
      ∀ {η : Type} (host : Host η) (w : World η) (op : Operation), host.Quiet → w.machine = m →
        ((host.perform op).run w).state.machine.Roomy →
        (op ≠ .reset → ∀ g target, m.targets.get? g = some target →
          ∃ target', ((host.perform op).run w).state.machine.targets.get? g = some target' ∧
            target'.entity = target.entity) ∧
        ∀ failure, ((host.perform op).run w).value = .started (.error failure) →
          ∀ g, ((host.perform op).run w).state.machine.targets.get? g = m.targets.get? g := by
  obtain ⟨hsound, hbefore⟩ := h.reachable.sound_and_roomy
  refine ⟨h.registered.complete hsound, fun host w op hquiet hw hroom => ?_⟩
  subst hw
  exact ⟨fun hreset g target hg => hquiet.target_kept hsound hbefore hroom hreset hg,
    fun failure hvalue g => hquiet.targets_of_failed_start hsound hbefore hvalue g⟩

theorem enrolled_abreast : Enrolled abreast.machine [⟨1⟩, ⟨2⟩] := by
  have honce : ((calling.perform (.start ⟨7⟩ "again")).run ⟨∅, []⟩).state.machine.Roomy :=
    roomy_of_free 9 (by decide) (by decide +kernel)
  have hboth : abreast.machine.Roomy := roomy_of_free 9 (by decide) (by decide +kernel)
  have hfirst : Enrolled ((calling.perform (.start ⟨7⟩ "again")).run ⟨∅, []⟩).state.machine [⟨1⟩] :=
    .perform_of_eq quiet_calling .new honce (by decide +kernel)
  unfold abreast at hboth ⊢
  exact .perform_of_eq quiet_calling hfirst hboth (by decide +kernel)

/-- Two invocations on one entity are found in the order in which they were started, and when the
first has ended the target is still there. -/
theorem abreast_complete :
    Enrolled abreast.machine [⟨1⟩, ⟨2⟩] ∧ abreast.machine.Complete [⟨1⟩, ⟨2⟩] ∧
      abreast.machine.invocationsFor ⟨7⟩ = [⟨1⟩, ⟨2⟩] ∧
      ∃ target', ((calling.perform (.cleanup ⟨1⟩)).run abreast).state.machine.targets.get? ⟨1⟩ =
        some target' ∧
        target'.entity = some ⟨7⟩ := by
  have hentity : (abreast.machine.targets.get? ⟨1⟩).map Target.entity = some (some ⟨7⟩) := by
    decide +kernel
  obtain ⟨target, hg, heq⟩ := Option.map_eq_some_iff.1 hentity
  have hroom : ((calling.perform (.cleanup ⟨1⟩)).run abreast).state.machine.Roomy :=
    roomy_of_free 9 (by decide) (by decide +kernel)
  obtain ⟨hcomplete, hkept⟩ := enrolled_abreast.lookups_complete
  obtain ⟨target', hg', hsame⟩ := (hkept calling abreast (.cleanup ⟨1⟩) quiet_calling rfl hroom).1
    (by rintro ⟨⟩) ⟨1⟩ target hg
  exact ⟨enrolled_abreast, hcomplete, by decide +kernel, target', hg', hsame.trans heq⟩

end Machine

end StepScript
