import StepScript.Proofs.Machine.FixedPoint

/-!
# Proofs/Machine/Salvage — which objects a load keeps

The links of a damaged save may contradict each other: a target lists an invocation that runs on
another, two invocations stack the same frame. Each pass of the repair follows one kind of link,
once, so what is kept and what is listed afterwards can be told from the links as they were read.
Here each pass is described on its own, by what it does to any machine.

* `Machine.Survives`, `Machine.Remains`, `Machine.Stays` — the invocations that the first passes
  leave, the frames that are kept, and the invocations that are kept.
* `Machine.Cancels` — the invocations of a kind are gone with all they own; cancelling in turn adds
  the kinds up.
* `Machine.LookedUp`, `Machine.Relinked`, `Machine.Placing`, `Machine.Pruned` — the machine in the
  course of a pass.
-/

namespace StepScript

/-- What is asked of the handle alone comes out of what is asked of the object found there. -/
theorem exists_found_and {α : Type} {found asked : α → Prop} {kept : Prop} :
    (∃ a, (found a ∧ kept) ∧ asked a) ↔ (∃ a, found a ∧ asked a) ∧ kept := by
  rw [← exists_and_right]
  exact exists_congr fun _ => and_right_comm

namespace Machine

variable {m m' m'' : Machine} {t : ThreadHandle} {f : FrameHandle} {g : TargetHandle}
  {c : CommandHandle} {ρ : EntityId → Option EntityId}

/-! ## What is kept -/

/-- The target lists the invocation. -/
def Hosts (m : Machine) (g : TargetHandle) (t : ThreadHandle) : Prop :=
  ∃ target, m.targets.get? g = some target ∧ t ∈ target.threads

/-- The entity of a target, if the target is there. -/
def entityAt (m : Machine) (g : TargetHandle) : Option (Option EntityId) :=
  (m.targets.get? g).map Target.entity

/-- **The entity of the target is gone**: it was known, and is no longer. -/
def Gone (ρ : EntityId → Option EntityId) (m : Machine) (g : TargetHandle) : Prop :=
  ∃ e, m.entityAt g = some (some e) ∧ ρ e = none

/-- The invocation has no frames, or its target is not there. -/
def Adrift (m : Machine) (t : ThreadHandle) : Prop :=
  ∃ thread, m.threads.get? t = some thread ∧
    (thread.stack = [] ∨ m.targets.get? thread.target = none)

/-- **The invocation survives** the passes over targets and invocations: it has frames and a target,
and no target whose entity is gone lists it. -/
structure Survives (ρ : EntityId → Option EntityId) (m : Machine) (t : ThreadHandle) : Prop where
  live : ∃ thread, m.threads.get? t = some thread
  moored : ¬ m.Adrift t
  known : ∀ g, m.Hosts g t → ¬ m.Gone ρ g

/-- **The frame remains**: its invocation stacks it, and whatever stacks it survives. -/
structure Remains (ρ : EntityId → Option EntityId) (m : Machine) (f : FrameHandle) : Prop where
  placed : ∃ t, m.threadAt f = some t ∧ m.Stacks t f
  spared : ∀ t, m.Stacks t f → m.Survives ρ t

/-- **The invocation stays**: one of its frames remains. -/
def Stays (ρ : EntityId → Option EntityId) (m : Machine) (t : ThreadHandle) : Prop :=
  ∃ f, m.Stacks t f ∧ m.Remains ρ f

theorem Stays.survives (h : m.Stays ρ t) : m.Survives ρ t := by
  obtain ⟨f, hstacks, hremains⟩ := h
  exact hremains.spared t hstacks

theorem Remains.frame (h : m.Remains ρ f) : ∃ frame, m.frames.get? f = some frame := by
  obtain ⟨t, hthread, -⟩ := h.placed
  obtain ⟨frame, hframe, -⟩ := Option.map_eq_some_iff.1 hthread
  exact ⟨frame, hframe⟩

theorem entityAt_eq_none : m.entityAt g = none ↔ m.targets.get? g = none :=
  Option.map_eq_none_iff

/-! ## Cancelling -/

/-- A cancelled invocation stays on the lists of targets that it does not run on. -/
theorem hosts_cleanupAll {ts : List ThreadHandle} :
    (ts.foldl cleanup m).Hosts g t ↔ m.Hosts g t ∧ ¬ (t ∈ ts ∧ m.runsOn t g = true) := by
  simp only [Hosts, get?_targets_cleanupAll]
  constructor
  · rintro ⟨_, htarget, hmem⟩
    obtain ⟨target, hg, rfl⟩ := Option.map_eq_some_iff.1 htarget
    obtain ⟨hmem, hkeep⟩ := List.mem_filter.1 hmem
    exact ⟨⟨target, hg, hmem⟩, by simpa [imp_iff_not_or] using hkeep⟩
  · rintro ⟨⟨target, hg, hmem⟩, hkeep⟩
    refine ⟨_, by rw [hg]; rfl, List.mem_filter.2 ⟨hmem, ?_⟩⟩
    simpa [imp_iff_not_or] using hkeep

theorem hosts_cleanup {k : ThreadHandle} :
    (m.cleanup k).Hosts g t ↔ m.Hosts g t ∧ ¬ (t = k ∧ m.runsOn t g = true) := by
  rw [← List.mem_singleton]
  exact @hosts_cleanupAll m t g [k]

/-- No target changes its entity when invocations are cancelled. -/
theorem entityAt_cleanupAll (m : Machine) (ts : List ThreadHandle) (g : TargetHandle) :
    (ts.foldl cleanup m).entityAt g = m.entityAt g := by
  rw [entityAt, get?_targets_cleanupAll, Option.map_map]
  rfl

theorem entityAt_modifyTarget {entity : Option EntityId} {u : Target → Target}
    (hu : ∀ target, (u target).entity = entity) (k : TargetHandle) :
    (m.modifyTarget g u).entityAt k = (m.entityAt k).map fun e => if k = g then entity else e := by
  rw [entityAt, entityAt, targets_modifyTarget, Table.get?_modify]
  by_cases hk : k = g
  · simp [hk, Function.comp_def, hu]
  · simp [hk, Function.comp_def]

/-- **The invocations of a kind are gone**, with their frames and the commands of these. -/
structure Cancels (X : ThreadHandle → Prop) (m m' : Machine) : Prop where
  threads : ∀ t thread, m'.threads.get? t = some thread ↔ m.threads.get? t = some thread ∧ ¬ X t
  frames : ∀ f frame, m'.frames.get? f = some frame ↔
    m.frames.get? f = some frame ∧ ∀ t, X t → ¬ m.Stacks t f
  commands : ∀ c command, m'.commands.get? c = some command ↔
    m.commands.get? c = some command ∧ ∀ t, X t → ∀ f, m.Stacks t f → ¬ m.Lists f c

namespace Cancels

variable {X Y : ThreadHandle → Prop}

/-- Cancelling invocations in turn cancels these and no others. -/
theorem cleanupAll (m : Machine) (ts : List ThreadHandle) :
    Cancels (· ∈ ts) m (ts.foldl cleanup m) :=
  ⟨fun _ _ => get?_threads_cleanupAll, fun _ _ => get?_frames_cleanupAll,
    fun _ _ => get?_commands_cleanupAll⟩

/-- Of which kind an invocation is does not matter if it is not there. -/
theorem congr (h : Cancels X m m')
    (hXY : ∀ t thread, m.threads.get? t = some thread → (X t ↔ Y t)) :
    Cancels Y m m' := by
  have hstacks : ∀ t f, m.Stacks t f → (X t ↔ Y t) := by
    rintro t f ⟨thread, ht, -⟩
    exact hXY t thread ht
  refine ⟨fun t thread => ?_, fun f frame => ?_, fun c command => ?_⟩
  · rw [h.threads]
    exact and_congr_right fun ht => not_congr (hXY t thread ht)
  · rw [h.frames]
    refine and_congr_right fun _ => ⟨fun hX t hY hs => ?_, fun hY t hX hs => ?_⟩
    · exact hX t ((hstacks t f hs).2 hY) hs
    · exact hY t ((hstacks t f hs).1 hX) hs
  · rw [h.commands]
    refine and_congr_right fun _ => ⟨fun hX t hY f hs => ?_, fun hY t hX f hs => ?_⟩
    · exact hX t ((hstacks t f hs).2 hY) f hs
    · exact hY t ((hstacks t f hs).1 hX) f hs

/-- The first machine may list other invocations. -/
theorem of_eq {m₁ : Machine} (h : Cancels X m m') (hthreads : m₁.threads = m'.threads)
    (hframes : m₁.frames = m'.frames) (hcommands : m₁.commands = m'.commands) : Cancels X m m₁ :=
  ⟨hthreads ▸ h.threads, hframes ▸ h.frames, hcommands ▸ h.commands⟩

theorem none (m : Machine) (hX : ∀ t, ¬ X t) : Cancels X m m :=
  (cleanupAll m []).congr fun t _ _ => by simp [hX t]

/-- Stacks of who stays are as they were. -/
theorem stacked (h : Cancels X m m') : m'.Stacks t f ↔ m.Stacks t f ∧ ¬ X t := by
  simp only [Stacks, h.threads, exists_found_and]

theorem lists (h : Cancels X m m') : m'.Lists f c ↔ m.Lists f c ∧ ∀ t, X t → ¬ m.Stacks t f := by
  simp only [Lists, h.frames, exists_found_and]

theorem runsOn (h : Cancels X m m') : m'.runsOn t g = true ↔ m.runsOn t g = true ∧ ¬ X t := by
  simp only [runsOn_iff, h.threads, exists_found_and]

theorem get?_threads (h : Cancels X m m') (hX : ¬ X t) : m'.threads.get? t = m.threads.get? t :=
  Option.ext fun thread => (h.threads t thread).trans (and_iff_left hX)

/-- **Cancelling in turn.** -/
theorem trans (h : Cancels X m m') (h' : Cancels Y m' m'') :
    Cancels (fun t => X t ∨ Y t) m m'' where
  threads t thread := by rw [h'.threads, h.threads, and_assoc, not_or]
  frames f frame := by
    rw [h'.frames, h.frames, and_assoc]
    refine and_congr_right fun _ => ⟨?_,
      fun hXY => ⟨fun t hX => hXY t (.inl hX), fun t hY hs => ?_⟩⟩
    · rintro ⟨hX, hY⟩ t (hXt | hYt) hs
      · exact hX t hXt hs
      · exact hY t hYt (h.stacked.2 ⟨hs, fun hXt => hX t hXt hs⟩)
    · exact hXY t (.inr hY) (h.stacked.1 hs).1
  commands c command := by
    rw [h'.commands, h.commands, and_assoc]
    refine and_congr_right fun _ => ⟨?_,
      fun hXY => ⟨fun t hX => hXY t (.inl hX), fun t hY f hs hl => ?_⟩⟩
    · rintro ⟨hX, hY⟩ t (hXt | hYt) f hs hl
      · exact hX t hXt f hs hl
      · -- a frame that lists the command was not removed with an invocation of the first kind
        have hlisted : m'.Lists f c := h.lists.2 ⟨hl, fun k hXk hsk => hX k hXk f hsk hl⟩
        exact hY t hYt f (h.stacked.2 ⟨hs, fun hXt => hX t hXt f hs hl⟩) hlisted
    · exact hXY t (.inr hY) f (h.stacked.1 hs).1 (h.lists.1 hl).1

end Cancels

/-! ## Looking up the entities -/

/-- One of the targets has lost its entity, and lists the invocation. -/
def Doomed (ρ : EntityId → Option EntityId) (m : Machine) (done : List TargetHandle)
    (t : ThreadHandle) : Prop :=
  ∃ g ∈ done, m.Gone ρ g ∧ m.Hosts g t

theorem doomed_append {done : List TargetHandle} :
    m.Doomed ρ (done ++ [g]) t ↔ m.Doomed ρ done t ∨ m.Gone ρ g ∧ m.Hosts g t := by
  simp only [Doomed, List.mem_append, List.mem_singleton]
  constructor
  · rintro ⟨k, hk | rfl, hgone⟩
    · exact .inl ⟨k, hk, hgone⟩
    · exact .inr hgone
  · rintro (⟨k, hk, hgone⟩ | hgone)
    · exact ⟨k, .inl hk, hgone⟩
    · exact ⟨g, .inr rfl, hgone⟩

/-- **After the entities of some targets were looked up**: what the lost ones list is cancelled. -/
structure LookedUp (ρ : EntityId → Option EntityId) (m : Machine) (done : List TargetHandle)
    (m' : Machine) : Prop where
  cancels : Cancels (m.Doomed ρ done) m m'
  hosts : ∀ g t, m'.Hosts g t ↔ m.Hosts g t ∧ ¬ (g ∈ done ∧ m.Gone ρ g) ∧
    ¬ (m.Doomed ρ done t ∧ m.runsOn t g = true)
  entityAt : ∀ g, m'.entityAt g = (m.entityAt g).map fun e => if g ∈ done then e.bind ρ else e

namespace LookedUp

variable {done : List TargetHandle}

theorem init (m : Machine) : LookedUp ρ m [] m := by
  have hnone : ∀ t, ¬ m.Doomed ρ [] t := by
    rintro t ⟨g, hg, -⟩
    cases hg
  refine ⟨.none m hnone, fun g t => ?_, fun g => ?_⟩
  · simp [hnone t]
  · cases m.entityAt g <;> simp

/-- The entity of the target is known, or was not known before. -/
theorem rename (h : LookedUp ρ m done m') (hg : g ∉ done) (hgone : ¬ m.Gone ρ g)
    {entity : Option EntityId} (hentity : ∀ e, m.entityAt g = some e → e.bind ρ = entity) :
    LookedUp ρ m (done ++ [g]) (m'.modifyTarget g fun target => { target with entity }) := by
  have hdoomed : ∀ t, m.Doomed ρ (done ++ [g]) t ↔ m.Doomed ρ done t := by
    intro t
    rw [doomed_append, or_iff_left fun hlost => hgone hlost.1]
  refine ⟨(h.cancels.congr fun t _ _ => (hdoomed t).symm).of_eq rfl rfl rfl,
    fun k t => ?_, fun k => ?_⟩
  · have hlinks : (m'.modifyTarget g fun target => { target with entity }).Hosts k t ↔
        m'.Hosts k t := by
      simp only [Hosts, targets_modifyTarget, Table.get?_modify]
      split
      · simp
      · rfl
    have hlost : (k ∈ done ++ [g] ∧ m.Gone ρ k) ↔ k ∈ done ∧ m.Gone ρ k := by
      refine and_congr_left fun hk => ?_
      rw [List.mem_append, List.mem_singleton, or_iff_left]
      rintro rfl
      exact hgone hk
    rw [hlinks, h.hosts, hdoomed, hlost]
  · refine (entityAt_modifyTarget (fun _ => by rfl) k).trans ?_
    rw [h.entityAt, Option.map_map]
    cases he : m.entityAt k with
    | none => rfl
    | some e =>
      by_cases hk : k = g
      · subst hk
        simp [hentity e he]
      · simp [hk]

/-- The entity of the target is gone, and all that the target lists is cancelled. -/
theorem detach {target : Target} (h : LookedUp ρ m done m') (hg : g ∉ done) (hgone : m.Gone ρ g)
    (htarget : m'.targets.get? g = some target) :
    LookedUp ρ m (done ++ [g]) (target.threads.foldl cleanup
      (m'.modifyTarget g fun target => { target with entity := none, threads := [] })) := by
  have hlisted : ∀ t, t ∈ target.threads ↔ m'.Hosts g t := by
    intro t
    simp [Hosts, htarget]
  -- what the target no longer lists was cancelled before
  have hdoomed : ∀ t, m.Doomed ρ (done ++ [g]) t ↔ m.Doomed ρ done t ∨ t ∈ target.threads := by
    intro t
    rw [doomed_append, hlisted, h.hosts]
    by_cases hbefore : m.Doomed ρ done t
    · simp [hbefore]
    · simp [hbefore, hg, hgone]
  rw [cleanupAll_modifyTarget]
  refine ⟨((h.cancels.trans (.cleanupAll m' target.threads)).congr fun t _ _ =>
    (hdoomed t).symm).of_eq
    rfl rfl rfl, fun k t => ?_, fun k => ?_⟩
  · by_cases hk : k = g
    · subst hk
      have hnil : ¬ ((target.threads.foldl cleanup m').modifyTarget k fun target =>
          { target with entity := none, threads := [] }).Hosts k t := by
        rintro ⟨other, hother, hmem⟩
        rw [targets_modifyTarget, Table.get?_modify, if_pos rfl] at hother
        obtain ⟨_, -, rfl⟩ := Option.map_eq_some_iff.1 hother
        cases hmem
      simp [hnil, hgone]
    · have hlinks : ((target.threads.foldl cleanup m').modifyTarget g fun target =>
          { target with entity := none, threads := [] }).Hosts k t ↔
            (target.threads.foldl cleanup m').Hosts k t := by
        rw [Hosts, targets_modifyTarget, Table.get?_modify, if_neg hk, Hosts]
      rw [hlinks, hosts_cleanupAll, h.hosts, h.cancels.runsOn, hdoomed]
      by_cases hbefore : m.Doomed ρ done t <;> simp [hbefore, hk, and_assoc]
  · refine (entityAt_modifyTarget (fun _ => by rfl) k).trans ?_
    rw [entityAt_cleanupAll, h.entityAt, Option.map_map]
    obtain ⟨e, he, hnone⟩ := hgone
    by_cases hk : k = g
    · subst hk
      simp [he, hnone]
    · simp [hk, Function.comp_def]

/-- **Looking up one more entity.** -/
theorem step {s : Setting} (h : LookedUp s.remap m done m') (hg : g ∉ done) :
    LookedUp s.remap m (done ++ [g]) ((remapTarget s g).run m').state := by
  have hold : m'.entityAt g = m.entityAt g := by
    rw [h.entityAt]
    simp [hg]
  -- a target without an entity is as good as renamed
  have hstill : (∀ e, m.entityAt g = some e → e = none) → LookedUp s.remap m (done ++ [g]) m' := by
    intro hentity
    have hsame : (m'.modifyTarget g fun target => { target with entity := none }) = m' := by
      refine ext_tables (Table.modify_eq_self fun target htarget => ?_) rfl rfl rfl rfl
      rw [← hentity target.entity (by rw [← hold, Machine.entityAt, htarget]; rfl)]
    rw [← hsame]
    refine h.rename hg ?_ fun e he => by rw [hentity e he]; rfl
    rintro ⟨e, he, -⟩
    cases hentity _ he
  simp only [remapTarget, Act.run_get_bind]
  cases htarget : m'.targets.get? g with
  | none =>
    refine hstill fun e he => ?_
    rw [← hold, Machine.entityAt, htarget] at he
    cases he
  | some target =>
    have hentityAt : m.entityAt g = some target.entity := by
      rw [← hold, Machine.entityAt, htarget]
      rfl
    cases hentity : target.entity with
    | none =>
      rw [hentity] at hentityAt
      simp only [hentity]
      exact hstill fun e he => by rw [hentityAt] at he; exact (Option.some.inj he).symm
    | some old =>
      rw [hentity] at hentityAt
      cases hremap : s.remap old with
      | some new =>
        simp only [hentity, hremap]
        refine h.rename hg ?_ fun e he => ?_
        · rintro ⟨e, he, hnone⟩
          rw [hentityAt] at he
          cases he
          rw [hremap] at hnone
          cases hnone
        · rw [hentityAt] at he
          cases he
          exact hremap
      | none =>
        simp only [hentity, hremap]
        exact h.detach hg ⟨old, hentityAt, hremap⟩ htarget

end LookedUp

/-- **The first pass** looks up every entity, and cancels what is listed by targets whose entity is
gone. -/
theorem lookedUp_remapTargets (s : Setting) (m : Machine) :
    LookedUp s.remap m m.targets.handles
      ((Act.forEach (remapTarget s) m.targets.handles).run m).state :=
  Act.forEach_induction (p := LookedUp s.remap m) m.targets.nodup_handles (.init m)
    fun _ _ _ hg _ hdone => hdone.step hg

/-! ## Relinking the invocations -/

/-- **After some invocations were relinked**: those adrift are cancelled, the others are listed by
their targets. -/
structure Relinked (m : Machine) (done : List ThreadHandle) (m' : Machine) : Prop where
  cancels : Cancels (fun t => t ∈ done ∧ m.Adrift t) m m'
  hosts : ∀ g t, m'.Hosts g t ↔
    if t ∈ done ∧ m.runsOn t g = true then ¬ m.Adrift t else m.Hosts g t
  entityAt : ∀ g, m'.entityAt g = m.entityAt g

namespace Relinked

variable {done : List ThreadHandle}

theorem init (m : Machine) : Relinked m [] m :=
  ⟨.none m fun _ hdone => absurd hdone.1 List.not_mem_nil, fun _ _ => by simp, fun _ => rfl⟩

/-- An invocation that is not adrift is listed, if it was not. -/
theorem keep (h : Relinked m done m') (ht : t ∉ done) (hmoored : ¬ m.Adrift t)
    (hthreads : m''.threads = m'.threads) (hframes : m''.frames = m'.frames)
    (hcommands : m''.commands = m'.commands) (hentity : ∀ g, m''.entityAt g = m'.entityAt g)
    (hhosts : ∀ g k, m''.Hosts g k ↔ m'.Hosts g k ∨ k = t ∧ m.runsOn t g = true) :
    Relinked m (done ++ [t]) m'' := by
  refine ⟨(h.cancels.congr fun k _ _ => ?_).of_eq hthreads hframes hcommands, fun g k => ?_,
    fun g => (hentity g).trans (h.entityAt g)⟩
  · refine and_congr_left fun hk => ?_
    rw [List.mem_append, List.mem_singleton, or_iff_left]
    rintro rfl
    exact hmoored hk
  · rw [hhosts, h.hosts]
    by_cases hk : k = t
    · subst hk
      by_cases hruns : m.runsOn k g = true <;> simp [ht, hruns, hmoored]
    · simp [hk]

/-- An invocation that is adrift is cancelled. -/
theorem cancel (h : Relinked m done m') (ht : t ∉ done) (hadrift : m.Adrift t) :
    Relinked m (done ++ [t]) (m'.cleanup t) := by
  refine ⟨(h.cancels.trans (.cleanupAll m' [t])).congr fun k _ _ => ?_, fun g k => ?_,
    fun g => (entityAt_cleanupAll m' [t] g).trans (h.entityAt g)⟩
  · rw [List.mem_append, or_and_right]
    refine or_congr_right ⟨fun hk => ⟨hk, ?_⟩, fun hk => hk.1⟩
    rwa [List.mem_singleton.1 hk]
  · rw [hosts_cleanup, h.hosts, h.cancels.runsOn]
    by_cases hk : k = t
    · subst hk
      by_cases hruns : m.runsOn k g = true <;> simp [ht, hruns, hadrift]
    · simp [hk]

/-- **Relinking one more invocation.** -/
theorem step (h : Relinked m done m') (ht : t ∉ done) :
    Relinked m (done ++ [t]) ((relinkThread t).run m').state := by
  have hthread : m'.threads.get? t = m.threads.get? t :=
    h.cancels.get?_threads fun hdone => ht hdone.1
  simp only [relinkThread, Act.run_get_bind, hthread]
  cases hget : m.threads.get? t with
  | none =>
    refine h.keep ht ?_ rfl rfl rfl (fun _ => rfl) fun g k => ?_
    · simp [Adrift, hget]
    · simp [runsOn, hget]
  | some thread =>
    have htargets : m'.targets.get? thread.target = none ↔ m.targets.get? thread.target = none := by
      rw [← entityAt_eq_none, h.entityAt, entityAt_eq_none]
    cases htarget : m'.targets.get? thread.target with
    | none =>
      simp only [htarget]
      exact h.cancel ht ⟨thread, hget, .inr (htargets.1 htarget)⟩
    | some target =>
      have hruns : ∀ g, m.runsOn t g = true ↔ g = thread.target := by
        intro g
        simp [runsOn, hget, eq_comm]
      simp only [htarget, Act.run_ite, List.isEmpty_iff]
      by_cases hempty : thread.stack = []
      · rw [if_pos hempty]
        exact h.cancel ht ⟨thread, hget, .inl hempty⟩
      · have hmoored : ¬ m.Adrift t := by
          rintro ⟨other, hother, hdrift⟩
          rw [hget] at hother
          cases hother
          rcases hdrift with hdrift | hdrift
          · exact hempty hdrift
          · rw [← htargets, htarget] at hdrift
            cases hdrift
        rw [if_neg hempty]
        by_cases hmem : t ∈ target.threads
        · rw [if_pos hmem]
          refine h.keep ht hmoored rfl rfl rfl (fun _ => rfl) fun g k => ?_
          refine (or_iff_left_of_imp ?_).symm
          rintro ⟨rfl, hg⟩
          rw [(hruns g).1 hg]
          exact ⟨target, htarget, hmem⟩
        · rw [if_neg hmem]
          refine h.keep ht hmoored rfl rfl rfl (fun g => ?_) fun g k => ?_
          · exact Table.map_get?_modify m'.targets g fun _ _ => rfl
          · rw [hruns, Hosts, Act.run_set, targets_modifyTarget, Table.get?_modify]
            by_cases hg : g = thread.target
            · subst hg
              simp [htarget, Hosts]
            · simp [hg, Hosts]

end Relinked

/-- **The second pass** cancels invocations without a target or frames, and puts the others on the
lists of their targets. -/
theorem relinked_relinkThreads (m : Machine) :
    Relinked m m.threads.handles ((Act.forEach relinkThread m.threads.handles).run m).state :=
  Act.forEach_induction (p := Relinked m) m.threads.nodup_handles (.init m)
    fun _ _ _ ht _ hdone => hdone.step ht

/-- **The third pass** takes off the lists what is not there. -/
theorem hosts_weeded :
    m.weeded.Hosts g t ↔ m.Hosts g t ∧ ∃ thread, m.threads.get? t = some thread := by
  simp only [Hosts, get?_targets_weeded]
  constructor
  · rintro ⟨_, htarget, hmem⟩
    obtain ⟨target, hg, rfl⟩ := Option.map_eq_some_iff.1 htarget
    obtain ⟨hmem, hlive⟩ := List.mem_filter.1 hmem
    exact ⟨⟨target, hg, hmem⟩, Table.contains_iff.1 hlive⟩
  · rintro ⟨⟨target, hg, hmem⟩, hlive⟩
    exact ⟨_, by rw [hg]; rfl, List.mem_filter.2 ⟨hmem, Table.contains_iff.2 hlive⟩⟩

theorem entityAt_weeded (m : Machine) (g : TargetHandle) : m.weeded.entityAt g = m.entityAt g := by
  rw [entityAt, get?_targets_weeded, Option.map_map]
  rfl

/-! ## Relinking the frames -/

/-- The frame is there, and its invocation does not stack it. -/
def Stray (m : Machine) (f : FrameHandle) : Prop := ∃ t, m.threadAt f = some t ∧ ¬ m.Stacks t f

/-- **After some frames were relinked**: those astray are removed. -/
structure Placing (m : Machine) (done : List FrameHandle) (m' : Machine) : Prop where
  targets : m'.targets = m.targets
  threads : m'.threads = m.threads
  frames : ∀ f frame, m'.frames.get? f = some frame ↔
    m.frames.get? f = some frame ∧ ¬ (f ∈ done ∧ m.Stray f)
  commands : ∀ c command, m'.commands.get? c = some command ↔
    m.commands.get? c = some command ∧ ∀ f ∈ done, m.Stray f → ¬ m.Lists f c

namespace Placing

variable {done : List FrameHandle}

theorem init (m : Machine) : Placing m [] m :=
  ⟨rfl, rfl, fun _ _ => by simp, fun _ _ => by simp⟩

theorem keep (h : Placing m done m') (hplaced : ¬ m.Stray f) : Placing m (done ++ [f]) m' := by
  refine ⟨h.targets, h.threads, fun k frame => ?_, fun c command => ?_⟩
  · rw [h.frames]
    refine and_congr_right fun _ => not_congr (and_congr_left fun hk => ?_)
    rw [List.mem_append, List.mem_singleton, or_iff_left]
    rintro rfl
    exact hplaced hk
  · rw [h.commands, List.forall_mem_append, List.forall_mem_singleton]
    exact and_congr_right fun _ => (and_iff_left fun hstray => absurd hstray hplaced).symm

/-- A frame that is not on the stack of its invocation is removed when it is visited. -/
theorem remove (h : Placing m done m') (hf : f ∉ done) (hstray : m.Stray f) :
    Placing m (done ++ [f]) (m'.removeFrame f) := by
  have hlists : ∀ c, m'.Lists f c ↔ m.Lists f c := by
    intro c
    simp only [Lists, h.frames, hf, false_and, not_false_iff, and_true]
  refine ⟨(targets_removeFrame m' f).trans h.targets, (threads_removeFrame m' f).trans h.threads,
    fun k frame => ?_, fun c command => ?_⟩
  · rw [get?_frames_removeFrame, h.frames, and_assoc, List.mem_append, List.mem_singleton]
    by_cases hk : k = f
    · simp [hk, hstray]
    · simp [hk]
  · rw [get?_commands_removeFrame, h.commands, and_assoc, List.forall_mem_append,
      List.forall_mem_singleton, hlists]
    simp [hstray]

/-- **Relinking one more frame.** -/
theorem step (h : Placing m done m') (hf : f ∉ done) :
    Placing m (done ++ [f]) ((relinkFrame f).run m').state := by
  have hframe : m'.frames.get? f = m.frames.get? f :=
    Option.ext fun frame => (h.frames f frame).trans (and_iff_left fun hdone => hf hdone.1)
  simp only [relinkFrame, Act.run_get_bind, hframe, h.threads]
  cases hget : m.frames.get? f with
  | none => exact h.keep (by simp [Stray, threadAt, hget])
  | some frame =>
    have hstray : m.Stray f ↔ ¬ (m.threads.get? frame.thread).any (f ∈ ·.stack) := by
      simp [Stray, threadAt, hget, Stacks, Option.any_eq_true]
    simp only [Act.run_ite]
    split
    · next hplaced => exact h.keep fun hf => hstray.1 hf hplaced
    · next hastray => exact h.remove hf (hstray.2 hastray)

end Placing

/-- **The fourth pass** removes the frames that are not on the stack of their invocation. -/
theorem placing_relinkFrames (m : Machine) :
    Placing m m.frames.handles ((Act.forEach relinkFrame m.frames.handles).run m).state :=
  Act.forEach_induction (p := Placing m) m.frames.nodup_handles (.init m)
    fun _ _ _ hf _ hdone => hdone.step hf

/-! ## Pruning the stacks -/

/-- No frame that the invocation stacks is there. -/
def Lost (m : Machine) (t : ThreadHandle) : Prop := ∀ f, m.Stacks t f → m.frames.get? f = none

/-- **After some stacks were pruned**: frames that are gone are off them, and the invocations that
have lost all theirs are gone; no frame or command goes with these. -/
structure Pruned (m : Machine) (done : List ThreadHandle) (m' : Machine) : Prop where
  threads : ∀ t, t ∉ done → m'.threads.get? t = m.threads.get? t
  runsOn : ∀ t g, m'.runsOn t g = true ↔ m.runsOn t g = true ∧ ¬ (t ∈ done ∧ m.Lost t)
  stacked : ∀ t f, m'.Stacks t f ↔ m.Stacks t f ∧ (t ∈ done → ∃ frame, m.frames.get? f = some frame)
  frames : ∀ f, m'.frames.get? f = m.frames.get? f
  commands : ∀ c, m'.commands.get? c = m.commands.get? c
  hosts : ∀ g t, m'.Hosts g t ↔ m.Hosts g t ∧ ¬ (t ∈ done ∧ m.Lost t ∧ m.runsOn t g = true)
  entityAt : ∀ g, m'.entityAt g = m.entityAt g

namespace Pruned

variable {done : List ThreadHandle}

theorem init (m : Machine) : Pruned m [] m where
  threads _ _ := rfl
  runsOn _ _ := by simp
  stacked _ _ := by simp
  frames _ := rfl
  commands _ := rfl
  hosts _ _ := by simp
  entityAt _ := rfl

/-- An invocation that is not there stays so. -/
theorem skip (h : Pruned m done m') (hget : m.threads.get? t = none) :
    Pruned m (done ++ [t]) m' where
  threads k hk := h.threads k fun hdone => hk (List.mem_append_left _ hdone)
  runsOn k g := by
    rw [h.runsOn]
    by_cases hk : k = t
    · simp [hk, Machine.runsOn, hget]
    · simp [hk]
  stacked k f := by
    rw [h.stacked]
    by_cases hk : k = t
    · simp [hk, Stacks, hget]
    · simp [hk]
  frames := h.frames
  commands := h.commands
  hosts g k := by
    rw [h.hosts]
    by_cases hk : k = t
    · simp [hk, Machine.runsOn, hget]
    · simp [hk]
  entityAt := h.entityAt

/-- An invocation that has lost its frames is cancelled. -/
theorem cancel (h : Pruned m done m') (ht : t ∉ done) (hlost : m.Lost t) :
    Pruned m (done ++ [t]) (m'.cleanup t) where
  threads k hk := by
    rw [List.mem_append, List.mem_singleton, not_or] at hk
    rw [threads_cleanup, Table.get?_erase, if_neg hk.2, h.threads k hk.1]
  runsOn k g := by
    rw [runsOn_iff]
    simp only [get?_threads_cleanup, and_right_comm]
    rw [exists_and_right, ← runsOn_iff, h.runsOn]
    by_cases hk : k = t
    · simp [hk, hlost]
    · simp [hk]
  stacked k f := by
    rw [stacks_cleanup, h.stacked]
    by_cases hk : k = t
    · subst hk
      simp only [ne_eq, not_true_eq_false, and_false, false_iff, not_and, List.mem_append,
        List.mem_singleton, or_true, forall_const]
      rintro hs ⟨frame, hf⟩
      rw [hlost f hs] at hf
      cases hf
    · simp [hk]
  frames f := by
    refine Option.ext fun frame => ?_
    rw [get?_frames_cleanup, h.frames, and_iff_left_of_imp]
    intro hf hs
    rw [hlost f ((h.stacked t f).1 hs).1] at hf
    cases hf
  commands c := by
    refine Option.ext fun command => ?_
    rw [get?_commands_cleanup, h.commands, and_iff_left_of_imp]
    rintro - f hs ⟨frame, hf, -⟩
    rw [h.frames, hlost f ((h.stacked t f).1 hs).1] at hf
    cases hf
  hosts g k := by
    rw [hosts_cleanup, h.hosts, h.runsOn]
    by_cases hk : k = t
    · simp [hk, ht, hlost]
    · simp [hk]
  entityAt g := (entityAt_cleanupAll m' [t] g).trans (h.entityAt g)

/-- An invocation that has frames left keeps those. -/
theorem restack {thread : Thread} (h : Pruned m done m') (ht : t ∉ done)
    (hget : m.threads.get? t = some thread) (hkept : ¬ m.Lost t) :
    Pruned m (done ++ [t])
      (m'.modifyThread t fun old =>
        { old with stack := thread.stack.filter m'.frames.contains }) where
  threads k hk := by
    rw [List.mem_append, List.mem_singleton, not_or] at hk
    rw [threads_modifyThread, Table.get?_modify, if_neg hk.2, h.threads k hk.1]
  runsOn k g := by
    have hsame : (m'.modifyThread t fun old =>
        { old with stack := thread.stack.filter m'.frames.contains }).runsOn k g =
            m'.runsOn k g := by
      rw [Machine.runsOn, Machine.runsOn, threads_modifyThread, Table.get?_modify]
      split
      · rw [Option.any_map]
      · rfl
    rw [hsame, h.runsOn]
    by_cases hk : k = t
    · simp [hk, hkept]
    · simp [hk]
  stacked k f := by
    rw [Stacks, threads_modifyThread, Table.get?_modify]
    by_cases hk : k = t
    · subst hk
      rw [if_pos rfl, h.threads k ht, hget, Stacks, hget]
      simp [Table.contains_iff, h.frames]
    · rw [if_neg hk]
      refine (h.stacked k f).trans ?_
      simp [hk]
  frames := h.frames
  commands := h.commands
  hosts g k := by
    refine (h.hosts g k).trans ?_
    by_cases hk : k = t
    · simp [hk, hkept]
    · simp [hk]
  entityAt := h.entityAt

/-- **Pruning one more stack.** -/
theorem step (h : Pruned m done m') (ht : t ∉ done) :
    Pruned m (done ++ [t]) ((pruneThread t).run m').state := by
  simp only [pruneThread, Act.run_get_bind, h.threads t ht]
  cases hget : m.threads.get? t with
  | none => exact h.skip hget
  | some thread =>
    have hlost : m.Lost t ↔ thread.stack.filter m'.frames.contains = [] := by
      rw [List.filter_eq_nil_iff]
      simp [Lost, Stacks, hget, Table.contains_eq, h.frames]
    simp only [Act.run_ite, List.isEmpty_iff]
    split
    · next hnil => exact h.cancel ht (hlost.2 hnil)
    · next hcons => exact h.restack ht hget fun hnone => hcons (hlost.1 hnone)

end Pruned

/-- **The fifth pass** takes off the stacks what is not there, and cancels who has nothing left. -/
theorem pruned_pruneThreads (m : Machine) :
    Pruned m m.threads.handles ((Act.forEach pruneThread m.threads.handles).run m).state :=
  Act.forEach_induction (p := Pruned m) m.threads.nodup_handles (.init m)
    fun _ _ _ ht _ hdone => hdone.step ht

end Machine

end StepScript
