import StepScript.Proofs.Machine.Salvage

/-!
# Proofs/Machine/Remnants — the links after a load

The passes of the repair, put together: what a loaded machine links is a part of what was read, and
which part is told by `Machine.Survives`, `Machine.Remains` and `Machine.Stays`. A list entry that
only its target knows of, or a frame on the stack of an invocation it does not name, is not looked
at by any pass, so contradicting links stay as they are.

* `Machine.salvaged_repair` — the links after a repair, for every machine.
* `Machine.faithful_iff_of_load` — after a load the lists hold live handles of their own objects if
  and only if the save did not contest them.
* `Machine.embodied_iff_of_load` — every loaded invocation has an entity if and only if those that
  stay had one that is still known; what a target with a lost entity lists is gone with all it owns.
-/

namespace StepScript.Machine

variable {m m' m₁ m₂ : Machine} {t : ThreadHandle} {f : FrameHandle} {g : TargetHandle}
  {c : CommandHandle} {ρ : EntityId → Option EntityId}

/-! ## The passes over targets and invocations -/

theorem Hosts.mem_handles (h : m.Hosts g t) : g ∈ m.targets.handles := by
  obtain ⟨target, hg, -⟩ := h
  exact Table.mem_handles_iff.2 (Option.isSome_of_eq_some hg)

/-- An invocation is doomed if some target that lists it has lost its entity. -/
theorem doomed_handles : m.Doomed ρ m.targets.handles t ↔ ∃ g, m.Hosts g t ∧ m.Gone ρ g := by
  constructor
  · rintro ⟨g, -, hgone, hhosts⟩
    exact ⟨g, hhosts, hgone⟩
  · rintro ⟨g, hhosts, hgone⟩
    exact ⟨g, hhosts.mem_handles, hgone, hhosts⟩

/-- It survives the first two passes if it is neither doomed nor adrift. -/
theorem survives_iff {thread : Thread} (hthread : m.threads.get? t = some thread) :
    m.Survives ρ t ↔ ¬ m.Doomed ρ m.targets.handles t ∧ ¬ m.Adrift t := by
  rw [doomed_handles]
  constructor
  · rintro ⟨-, hmoored, hknown⟩
    refine ⟨?_, hmoored⟩
    rintro ⟨g, hhosts, hgone⟩
    exact hknown g hhosts hgone
  · rintro ⟨hknown, hmoored⟩
    exact ⟨⟨thread, hthread⟩, hmoored, fun g hhosts hgone => hknown ⟨g, hhosts, hgone⟩⟩

theorem LookedUp.adrift {done : List TargetHandle} (h : LookedUp ρ m done m₁) :
    m₁.Adrift t ↔ m.Adrift t ∧ ¬ m.Doomed ρ done t := by
  have htargets : ∀ g, m₁.targets.get? g = none ↔ m.targets.get? g = none := by
    intro g
    rw [← entityAt_eq_none, h.entityAt, Option.map_eq_none_iff, entityAt_eq_none]
  simp only [Adrift, h.cancels.threads, htargets, exists_found_and]

theorem LookedUp.mem_handles {done : List TargetHandle} {thread : Thread} (h : LookedUp ρ m done m₁)
    (ht : m.threads.get? t = some thread) (hkeep : ¬ m.Doomed ρ done t) : t ∈ m₁.threads.handles :=
  Table.mem_handles_iff.2 (Option.isSome_of_eq_some ((h.cancels.threads t thread).2 ⟨ht, hkeep⟩))

section

variable (h₁ : LookedUp ρ m m.targets.handles m₁) (h₂ : Relinked m₁ m₁.threads.handles m₂)

include h₁ h₂

/-- **The invocations that do not survive are cancelled.** -/
theorem Relinked.cancels_dead : Cancels (fun t => ¬ m.Survives ρ t) m m₂ := by
  refine (h₁.cancels.trans h₂.cancels).congr fun t thread ht => ?_
  rw [survives_iff ht, h₁.adrift, not_and_or, not_not, not_not]
  refine or_congr_right' fun hkeep => ?_
  simp [h₁.mem_handles ht hkeep, hkeep]

/-- **The lists**: an invocation that survives is on those it was on, and on that of its target. -/
theorem Relinked.hosts_weeded :
    m₂.weeded.Hosts g t ↔ m.Survives ρ t ∧ (m.Hosts g t ∨ m.runsOn t g = true) := by
  have hlive : (∃ thread, m₂.threads.get? t = some thread) ↔ m.Survives ρ t := by
    simp only [(h₂.cancels_dead h₁).threads, not_not, exists_and_right]
    exact and_iff_right_of_imp Survives.live
  rw [Machine.hosts_weeded, hlive, and_comm]
  refine and_congr_right fun hsurvives => ?_
  obtain ⟨thread, ht⟩ := hsurvives.live
  obtain ⟨hkeep, hmoored⟩ := (survives_iff ht).1 hsurvives
  have hruns : m₁.runsOn t g = true ↔ m.runsOn t g = true := by
    rw [h₁.cancels.runsOn]
    exact and_iff_left hkeep
  rw [h₂.hosts, h₁.adrift, h₁.hosts]
  simp only [h₁.mem_handles ht hkeep, hruns, hmoored, hkeep, true_and, false_and,
    not_false_iff, and_true]
  by_cases hon : m.runsOn t g = true
  · simp [hon]
  · rw [if_neg hon, or_iff_left hon]
    exact and_iff_left_of_imp fun hhosts hgone => hsurvives.known g hhosts hgone.2

end

/-! ## The passes over frames and stacks -/

/-- **After the frames were relinked**, the frames that remain are there, and the commands that no
other lists. -/
structure Screened (ρ : EntityId → Option EntityId) (m m' : Machine) : Prop where
  threads : ∀ t thread, m'.threads.get? t = some thread ↔
    m.threads.get? t = some thread ∧ m.Survives ρ t
  frames : ∀ f frame, m'.frames.get? f = some frame ↔ m.frames.get? f = some frame ∧ m.Remains ρ f
  commands : ∀ c command, m'.commands.get? c = some command ↔
    m.commands.get? c = some command ∧ ∀ f, m.Lists f c → m.Remains ρ f
  hosts : ∀ g t, m'.Hosts g t ↔ m.Survives ρ t ∧ (m.Hosts g t ∨ m.runsOn t g = true)
  entityAt : ∀ g, m'.entityAt g = (m.entityAt g).map (·.bind ρ)

/-- A frame remains if it is on the stack of its own invocation, and no stack that it is on goes. -/
theorem remains_iff {frame : Frame} (hf : m.frames.get? f = some frame) :
    m.Remains ρ f ↔ m.Stacks frame.thread f ∧ ∀ t, m.Stacks t f → m.Survives ρ t := by
  constructor
  · rintro ⟨⟨t, ht, hs⟩, hspared⟩
    obtain rfl : frame.thread = t := by simpa [threadAt, hf] using ht
    exact ⟨hs, hspared⟩
  · rintro ⟨hs, hspared⟩
    exact ⟨⟨frame.thread, by rw [threadAt, hf, Option.map_some], hs⟩, hspared⟩

theorem stray_iff {frame : Frame} (hf : m.frames.get? f = some frame) :
    m.Stray f ↔ ¬ m.Stacks frame.thread f := by
  simp [Stray, threadAt, hf]

/-- A frame remains if it is not removed with an invocation, and is not astray afterwards. -/
theorem Cancels.remains_iff {frame : Frame} (h : Cancels (fun t => ¬ m.Survives ρ t) m m')
    (hf : m.frames.get? f = some frame) :
    m.Remains ρ f ↔ (∀ t, ¬ m.Survives ρ t → ¬ m.Stacks t f) ∧ ¬ m'.Stray f := by
  rw [Machine.remains_iff hf]
  constructor
  · rintro ⟨hs, hspared⟩
    have hclear : ∀ t, ¬ m.Survives ρ t → ¬ m.Stacks t f := fun t hdead ht => hdead (hspared t ht)
    refine ⟨hclear, ?_⟩
    rw [stray_iff ((h.frames f frame).2 ⟨hf, hclear⟩), not_not, h.stacked, not_not]
    exact ⟨hs, hspared _ hs⟩
  · rintro ⟨hclear, hplaced⟩
    rw [stray_iff ((h.frames f frame).2 ⟨hf, hclear⟩), not_not, h.stacked] at hplaced
    exact ⟨hplaced.1, fun t ht => by_contra fun hdead => hclear t hdead ht⟩

/-- **Cancelling what does not survive, and then removing the frames that are astray.** -/
theorem Placing.screened (h : Placing m₁ m₁.frames.handles m₂)
    (hcancels : Cancels (fun t => ¬ m.Survives ρ t) m m₁)
    (hhosts : ∀ g t, m₁.Hosts g t ↔ m.Survives ρ t ∧ (m.Hosts g t ∨ m.runsOn t g = true))
    (hentity : ∀ g, m₁.entityAt g = (m.entityAt g).map (·.bind ρ)) : Screened ρ m m₂ where
  threads t thread := by rw [h.threads, hcancels.threads, not_not]
  frames f frame := by
    rw [h.frames, and_congr_right_iff.2 fun hf => ?_, hcancels.frames, and_assoc]
    · exact and_congr_right fun hf => (hcancels.remains_iff hf).symm
    · rw [and_iff_right (Table.mem_handles_iff.2 (Option.isSome_of_eq_some hf))]
  commands c command := by
    rw [h.commands, hcancels.commands, and_assoc]
    refine and_congr_right fun _ => ⟨?_,
      fun hall => ⟨fun t hdead f hs hl => ?_, fun f _ hstray hl => ?_⟩⟩
    · rintro ⟨hclear, hplaced⟩ f ⟨frame, hf, hc⟩
      have hclear' : ∀ t, ¬ m.Survives ρ t → ¬ m.Stacks t f :=
        fun t hdead hs => hclear t hdead f hs ⟨frame, hf, hc⟩
      have hf' := (hcancels.frames f frame).2 ⟨hf, hclear'⟩
      refine (hcancels.remains_iff hf).2 ⟨hclear', fun hstray => ?_⟩
      exact hplaced f (Table.mem_handles_iff.2 (Option.isSome_of_eq_some hf')) hstray
        ⟨frame, hf', hc⟩
    · exact hdead ((hall f hl).spared t hs)
    · obtain ⟨⟨frame, hf, hc⟩, -⟩ := hcancels.lists.1 hl
      exact ((hcancels.remains_iff hf).1 (hall f ⟨frame, hf, hc⟩)).2 hstray
  hosts g t := by rw [Hosts, h.targets, ← Hosts, hhosts]
  entityAt g := by rw [Machine.entityAt, h.targets, ← Machine.entityAt, hentity]

/-! ## The repair -/

/-- **The links after a repair**, in terms of those before. -/
structure Salvaged (ρ : EntityId → Option EntityId) (m m' : Machine) : Prop where
  runsOn : ∀ t g, m'.runsOn t g = true ↔ m.runsOn t g = true ∧ m.Stays ρ t
  stacked : ∀ t f, m'.Stacks t f ↔ m.Stacks t f ∧ m.Remains ρ f
  threadAt : ∀ f t, m'.threadAt f = some t ↔ m.threadAt f = some t ∧ m.Remains ρ f
  lists : ∀ f c, m'.Lists f c ↔ m.Lists f c ∧ m.Remains ρ f
  commands : ∀ c, (m'.commands.get? c).isSome = true ↔ (m.commands.get? c).isSome = true ∧
    (∃ f, m.Lists f c) ∧ ∀ f, m.Lists f c → m.Remains ρ f
  hosts : ∀ g t, m'.Hosts g t ↔ m.Survives ρ t ∧ (m.Hosts g t ∨ m.runsOn t g = true) ∧
    (m.runsOn t g = true → m.Stays ρ t)
  entityAt : ∀ g, m'.entityAt g = (m.entityAt g).map (·.bind ρ)

theorem Screened.stacked (h : Screened ρ m m₁) : m₁.Stacks t f ↔ m.Stacks t f ∧ m.Survives ρ t := by
  simp only [Stacks, h.threads, exists_found_and]

theorem Screened.lists (h : Screened ρ m m₁) : m₁.Lists f c ↔ m.Lists f c ∧ m.Remains ρ f := by
  simp only [Lists, h.frames, exists_found_and]

theorem Screened.threadAt (h : Screened ρ m m₁) :
    m₁.threadAt f = some t ↔ m.threadAt f = some t ∧ m.Remains ρ f := by
  simp only [Machine.threadAt, Option.map_eq_some_iff, h.frames, exists_found_and]

theorem Screened.runsOn (h : Screened ρ m m₁) :
    m₁.runsOn t g = true ↔ m.runsOn t g = true ∧ m.Survives ρ t := by
  simp only [runsOn_iff, h.threads, exists_found_and]

theorem Screened.mem_handles (h : Screened ρ m m₁) : t ∈ m₁.threads.handles ↔ m.Survives ρ t := by
  rw [Table.mem_handles_iff, Option.isSome_iff_exists]
  simp only [h.threads, exists_and_right]
  exact and_iff_right_of_imp Survives.live

/-- After the first passes, an invocation has lost its frames exactly if it is not to stay. -/
theorem Screened.lost (h : Screened ρ m m₁) (hsurvives : m.Survives ρ t) :
    m₁.Lost t ↔ ¬ m.Stays ρ t := by
  constructor
  · rintro hlost ⟨f, hs, hremains⟩
    obtain ⟨frame, hf⟩ := hremains.frame
    have hgone := hlost f (h.stacked.2 ⟨hs, hsurvives⟩)
    rw [(h.frames f frame).2 ⟨hf, hremains⟩] at hgone
    cases hgone
  · intro hnone f hs
    refine Option.eq_none_iff_forall_ne_some.2 fun frame hf => hnone ?_
    exact ⟨f, (h.stacked.1 hs).1, ((h.frames f frame).1 hf).2⟩

theorem Pruned.lists {done : List ThreadHandle} (h : Pruned m done m') :
    m'.Lists f c ↔ m.Lists f c := by
  rw [Lists, Lists, h.frames]

/-- **Pruning the stacks and the commands.** -/
theorem Pruned.salvaged (h : Pruned m₁ m₁.threads.handles m₂) (hm : Screened ρ m m₁) :
    Salvaged ρ m m₂.pruneCommands where
  runsOn t g := by
    refine (h.runsOn t g).trans ?_
    rw [hm.runsOn, hm.mem_handles, and_assoc]
    refine and_congr_right fun _ => ⟨?_, fun hstays => ⟨hstays.survives, fun hlost => ?_⟩⟩
    · rintro ⟨hsurvives, hkept⟩
      exact not_not.1 fun hleaves => hkept ⟨hsurvives, (hm.lost hsurvives).2 hleaves⟩
    · exact (hm.lost hstays.survives).1 hlost.2 hstays
  stacked t f := by
    refine (h.stacked t f).trans ?_
    rw [hm.stacked, hm.mem_handles, and_assoc]
    refine and_congr_right fun hs => ⟨?_, fun hremains => ⟨hremains.spared t hs, fun _ => ?_⟩⟩
    · rintro ⟨hsurvives, hlive⟩
      obtain ⟨frame, hf⟩ := hlive hsurvives
      exact ((hm.frames f frame).1 hf).2
    · obtain ⟨frame, hf⟩ := hremains.frame
      exact ⟨frame, (hm.frames f frame).2 ⟨hf, hremains⟩⟩
  threadAt f t := by
    rw [← hm.threadAt]
    exact (congrArg (Option.map Frame.thread · = some t) (h.frames f)).to_iff
  lists f c := h.lists.trans hm.lists
  commands c := by
    simp only [Option.isSome_iff_exists, get?_commands_pruneCommands, h.commands, hm.commands,
      h.lists, hm.lists, and_assoc, exists_and_right]
    refine and_congr_right fun _ => ⟨?_, ?_⟩
    · rintro ⟨hall, f, hl, -⟩
      exact ⟨⟨f, hl⟩, hall⟩
    · rintro ⟨⟨f, hl⟩, hall⟩
      exact ⟨hall, f, hl, hall f hl⟩
  hosts g t := by
    refine (h.hosts g t).trans ?_
    rw [hm.hosts, hm.runsOn, hm.mem_handles, and_assoc]
    refine and_congr_right fun hsurvives => and_congr_right fun _ => ?_
    rw [hm.lost hsurvives]
    simp [hsurvives, imp_iff_not_or, or_comm]
  entityAt g := (h.entityAt g).trans (hm.entityAt g)

theorem hosts_iff_threadList : m.Hosts g t ↔ ∃ ts, m.threadList g = some ts ∧ t ∈ ts := by
  simp [Hosts, threadList]

theorem stacks_iff_stackAt : m.Stacks t f ↔ ∃ fs, m.stackAt t = some fs ∧ f ∈ fs := by
  simp [Stacks, stackAt]

theorem lists_iff_commandsAt : m.Lists f c ↔ ∃ cs, m.commandsAt f = some cs ∧ c ∈ cs := by
  simp [Lists, commandsAt]

theorem runsOn_iff_targetAt : m.runsOn t g = true ↔ m.targetAt t = some g := by
  simp [runsOn_iff, targetAt]

/-- What is salvaged depends on links and entities only. -/
theorem Salvaged.congr (h : Salvaged ρ m m₁) (hlinks : SameLinks m₁ m₂)
    (hentity : ∀ g, m₂.entityAt g = m₁.entityAt g) : Salvaged ρ m m₂ where
  runsOn t g := by rw [runsOn_iff_targetAt, hlinks.targetAt, ← runsOn_iff_targetAt, h.runsOn]
  stacked t f := by rw [stacks_iff_stackAt, hlinks.stackAt, ← stacks_iff_stackAt, h.stacked]
  threadAt f t := by rw [hlinks.threadAt, h.threadAt]
  lists f c := by rw [lists_iff_commandsAt, hlinks.commandsAt, ← lists_iff_commandsAt, h.lists]
  commands c := by rw [hlinks.live, h.commands]
  hosts g t := by rw [hosts_iff_threadList, hlinks.threadList, ← hosts_iff_threadList, h.hosts]
  entityAt g := (hentity g).trans (h.entityAt g)

/-- Every frame that is left names an invocation that is left. -/
theorem Salvaged.housed (h : Salvaged ρ m m') : m'.Housed := by
  intro f frame hf
  have hthread : m'.threadAt f = some frame.thread := by rw [Machine.threadAt, hf, Option.map_some]
  obtain ⟨hbefore, hremains⟩ := (h.threadAt f frame.thread).1 hthread
  obtain ⟨t, ht, hs⟩ := hremains.placed
  rw [hbefore] at ht
  cases ht
  obtain ⟨thread, hlive, -⟩ := (h.stacked frame.thread f).2 ⟨hs, hremains⟩
  exact ⟨thread, hlive⟩

/-- **The links after a repair.** -/
theorem salvaged_repair (s : Setting) (m : Machine) :
    Salvaged s.remap m ((repair s).run m).state := by
  obtain ⟨m₁, l₁, m₂, l₂, m₃, l₃, m₄, l₄, m₅, l₅, m₆, l₆, h₁, h₂, h₃, h₄, h₅, h₆, hrun⟩ :=
    repair_passes s m
  have hlooked := lookedUp_remapTargets s m
  rw [h₁] at hlooked
  have hrelinked := relinked_relinkThreads m₁
  rw [h₂] at hrelinked
  rw [run_pruneTargets] at h₃
  cases h₃
  have hplacing := placing_relinkFrames m₂.weeded
  rw [h₄] at hplacing
  have hpruned := pruned_pruneThreads m₄
  rw [h₅] at hpruned
  have hentity : ∀ g, m₂.weeded.entityAt g = (m.entityAt g).map (·.bind s.remap) := by
    intro g
    rw [entityAt_weeded, hrelinked.entityAt, hlooked.entityAt]
    cases hg : m.targets.get? g with
    | none => simp [entityAt, hg]
    | some target =>
      have hmem : g ∈ m.targets.handles := Table.mem_handles_iff.2 (Option.isSome_of_eq_some hg)
      simp [entityAt, hg, hmem]
  have hscreened : Screened s.remap m m₄ := hplacing.screened
    ((hrelinked.cancels_dead hlooked).of_eq rfl rfl rfl)
    (fun _ _ => hrelinked.hosts_weeded hlooked) hentity
  have hsalvaged := hpruned.salvaged hscreened
  have hended := hsalvaged.housed.ended
  rw [h₆] at hended
  rw [hrun]
  refine hsalvaged.congr hended.edits.sameLinks fun g => ?_
  have htarget := congrArg (Option.map Target.entity) (hended.targets g)
  rwa [Option.map_map, Option.map_map] at htarget

/-! ## Lists of live handles -/

/-- **The lists are faithful**: what a target lists is a live invocation on it, and what an
invocation stacks is a live frame of it. -/
structure Faithful (m : Machine) : Prop where
  listed : ∀ g t, m.Hosts g t → m.runsOn t g = true
  stacked : ∀ t f, m.Stacks t f → m.threadAt f = some t

/-- **The lists are not contested**: an invocation that survives is on no list but that of its
target, and a frame that remains is on no stack but that of its invocation. -/
structure Uncontested (ρ : EntityId → Option EntityId) (m : Machine) : Prop where
  listed : ∀ g t, m.Hosts g t → m.Survives ρ t → m.runsOn t g = true
  stacked : ∀ t f, m.Stacks t f → m.Remains ρ f → m.threadAt f = some t

/-- Whether links are faithful can be decided by looking through the tables. -/
theorem faithful_iff_entries : m.Faithful ↔
    (∀ e ∈ m.targets.toList, ∀ t ∈ e.2.threads, m.runsOn t e.1 = true) ∧
      ∀ e ∈ m.threads.toList, ∀ f ∈ e.2.stack, m.threadAt f = some e.1 := by
  constructor
  · rintro ⟨hlisted, hstacked⟩
    refine ⟨fun e he t ht => ?_, fun e he f hf => ?_⟩
    · exact hlisted e.1 t ⟨e.2, Table.mem_toList_iff.1 he, ht⟩
    · exact hstacked e.1 f ⟨e.2, Table.mem_toList_iff.1 he, hf⟩
  · rintro ⟨hlisted, hstacked⟩
    refine ⟨?_, ?_⟩
    · rintro g t ⟨target, hg, ht⟩
      exact hlisted (g, target) (Table.mem_toList_iff.2 hg) t ht
    · rintro t f ⟨thread, ht, hf⟩
      exact hstacked (t, thread) (Table.mem_toList_iff.2 ht) f hf

instance (m : Machine) : Decidable m.Faithful := decidable_of_iff' _ faithful_iff_entries

/-- Which lists are faithful after a repair is decided by what was read. -/
theorem Salvaged.faithful_iff (h : Salvaged ρ m m') : m'.Faithful ↔ m.Uncontested ρ := by
  constructor
  · rintro ⟨hlisted, hstacked⟩
    refine ⟨fun g t hhosts hsurvives => by_contra fun hforeign => ?_, fun t f hs hremains => ?_⟩
    · have hkept := (h.hosts g t).2 ⟨hsurvives, .inl hhosts, fun hruns => absurd hruns hforeign⟩
      exact hforeign ((h.runsOn t g).1 (hlisted g t hkept)).1
    · exact ((h.threadAt f t).1 (hstacked t f ((h.stacked t f).2 ⟨hs, hremains⟩))).1
  · rintro ⟨hlisted, hstacked⟩
    refine ⟨fun g t hhosts => ?_, fun t f hs => ?_⟩
    · obtain ⟨hsurvives, hlinked, hstays⟩ := (h.hosts g t).1 hhosts
      have hruns : m.runsOn t g = true := hlinked.elim (hlisted g t · hsurvives) id
      exact (h.runsOn t g).2 ⟨hruns, hstays hruns⟩
    · obtain ⟨hs, hremains⟩ := (h.stacked t f).1 hs
      exact (h.threadAt f t).2 ⟨hstacked t f hs hremains, hremains⟩

/-- **A load leaves what can be salvaged** of the machine in the save. -/
theorem salvaged_of_load {s : Setting} {bs : Bytes} {m₀ : Machine}
    (hload : ((load s bs).run m₀).value = .ok ()) :
    ∃ fresh, read bs = .ok fresh ∧ Salvaged s.remap fresh ((load s bs).run m₀).state := by
  cases hread : read bs with
  | error refusal =>
    rw [value_load_error hread] at hload
    cases hload
  | ok fresh =>
    have hstate : ((load s bs).run m₀).state = ((repair s).run fresh).state := by
      rw [run_load_ok hread]
    have hrepair := salvaged_repair s fresh
    rw [← hstate] at hrepair
    exact ⟨fresh, rfl, hrepair⟩

/-- **The lists after a load.** Every handle on a stack is that of a live frame, and the lists are
faithful exactly if they were not contested when read: an invocation on the list of another target,
or a frame on the stack of another invocation, is left there. -/
theorem faithful_iff_of_load {s : Setting} {bs : Bytes} {m₀ : Machine}
    (hload : ((load s bs).run m₀).value = .ok ()) :
    (∀ t f, ((load s bs).run m₀).state.Stacks t f →
      (((load s bs).run m₀).state.frames.get? f).isSome = true) ∧
      ∃ fresh, read bs = .ok fresh ∧
        (((load s bs).run m₀).state.Faithful ↔ fresh.Uncontested s.remap) := by
  obtain ⟨fresh, hread, hsalvaged⟩ := salvaged_of_load hload
  refine ⟨fun t f hs => ?_, fresh, hread, hsalvaged.faithful_iff⟩
  obtain ⟨-, hremains⟩ := (hsalvaged.stacked t f).1 hs
  obtain ⟨owner, howner, -⟩ := hremains.placed
  obtain ⟨frame, hframe, -⟩ :=
    Option.map_eq_some_iff.1 ((hsalvaged.threadAt f owner).2 ⟨howner, hremains⟩)
  exact Option.isSome_of_eq_some hframe

/-- The damaged save lists only handles that are gone, and loads with faithful lists. -/
theorem damaged_uncontested :
    ∃ bs fresh, damaged.save = .ok bs ∧ ((load {} bs).run ∅).value = .ok () ∧
      ((load {} bs).run ∅).state.Faithful ∧ read bs = .ok fresh ∧ fresh.Uncontested some := by
  obtain ⟨bs, hsave, hload, hfaithful⟩ : ∃ bs, damaged.save = .ok bs ∧
      ((load {} bs).run ∅).value = .ok () ∧ ((load {} bs).run ∅).state.Faithful := by
    refine ⟨damaged.save.toOption.getD [], ?_, ?_, ?_⟩ <;> decide +kernel
  obtain ⟨-, fresh, hread, hiff⟩ := faithful_iff_of_load hload
  exact ⟨bs, fresh, hsave, hload, hfaithful, hread, hiff.1 hfaithful⟩

/-- A machine with two targets that both list the invocations of the first, one of which has lost
its frames. -/
def contested : Machine where
  targets := Table.ofObjects
    (((∅ : Assoc _ _ _).insert ⟨1⟩ { entity := some ⟨7⟩, threads := [⟨1⟩, ⟨2⟩] }).insert ⟨2⟩
      { entity := some ⟨8⟩, threads := [⟨1⟩, ⟨2⟩] })
  threads := Table.ofObjects (((∅ : Assoc _ _ _).insert ⟨1⟩
    { target := ⟨1⟩, script := "greet", stack := [⟨1⟩] }).insert ⟨2⟩
    { target := ⟨1⟩, script := "greet", stack := [⟨9⟩] })
  frames := Table.ofObjects ((∅ : Assoc _ _ _).insert ⟨1⟩
    { thread := ⟨1⟩, script := "greet", dialect := .line, commands := [⟨1⟩],
      gotos := ∅, gosubs := ∅ })
  commands := Table.ofObjects ((∅ : Assoc _ _ _).insert ⟨1⟩ ⟨1, ["end"]⟩)

/-- After a load the second target still lists both: one is that of the first target, the other is
gone. -/
theorem contested_not_faithful :
    ∃ bs, contested.save = .ok bs ∧ ((load {} bs).run ∅).value = .ok () ∧
      ((load {} bs).run ∅).state.threadList ⟨2⟩ = some [⟨1⟩, ⟨2⟩] ∧
      ((load {} bs).run ∅).state.targetAt ⟨1⟩ = some ⟨1⟩ ∧
      ((load {} bs).run ∅).state.targetAt ⟨2⟩ = none ∧
      ¬ ((load {} bs).run ∅).state.Faithful := by
  refine ⟨contested.save.toOption.getD [], ?_, ?_, ?_, ?_, ?_, ?_⟩ <;> decide +kernel

/-! ## Invocations without an entity -/

/-- **Every invocation has an entity**: its target is there, and has one. -/
def Embodied (m : Machine) : Prop :=
  ∀ t thread, m.threads.get? t = some thread → ∃ e, m.entityAt thread.target = some (some e)

theorem embodied_iff_entries : m.Embodied ↔
    ∀ e ∈ m.threads.toList, ((m.entityAt e.2.target).bind id).isSome = true := by
  simp only [Option.isSome_iff_exists, Option.bind_eq_some_iff, id_eq]
  constructor
  · rintro h ⟨t, thread⟩ he
    obtain ⟨e, hentity⟩ := h t thread (Table.mem_toList_iff.1 he)
    exact ⟨e, some e, hentity, rfl⟩
  · intro h t thread ht
    obtain ⟨e, _, hentity, rfl⟩ := h (t, thread) (Table.mem_toList_iff.2 ht)
    exact ⟨e, hentity⟩

instance (m : Machine) : Decidable m.Embodied := decidable_of_iff' _ embodied_iff_entries

/-- Every invocation that is left has an entity if those that stay had one that is still known. -/
theorem Salvaged.embodied_iff (h : Salvaged ρ m m') :
    m'.Embodied ↔ ∀ t, m.Stays ρ t → m.Kept ρ t := by
  constructor
  · intro hembodied t hstays
    obtain ⟨thread, ht⟩ := hstays.survives.live
    obtain ⟨thread', ht', heq⟩ :=
      runsOn_iff.1 ((h.runsOn t _).2 ⟨runsOn_iff.2 ⟨thread, ht, rfl⟩, hstays⟩)
    obtain ⟨e, hentity⟩ := hembodied t thread' ht'
    rw [heq, h.entityAt] at hentity
    obtain ⟨saved, hsaved, hknown⟩ := Option.map_eq_some_iff.1 hentity
    obtain ⟨target, htarget, rfl⟩ := Option.map_eq_some_iff.1 hsaved
    exact ⟨thread, target, ht, htarget, Option.isSome_of_eq_some hknown⟩
  · intro hkept t thread ht
    obtain ⟨hruns, hstays⟩ := (h.runsOn t thread.target).1 (runsOn_iff.2 ⟨thread, ht, rfl⟩)
    obtain ⟨thread', target, ht', htarget, hknown⟩ := hkept t hstays
    obtain ⟨_, hsame, heq⟩ := runsOn_iff.1 hruns
    rw [ht'] at hsame
    cases hsame
    obtain ⟨e, he⟩ := Option.isSome_iff_exists.1 hknown
    refine ⟨e, ?_⟩
    rw [← heq, h.entityAt, Machine.entityAt, htarget, Option.map_some, Option.map_some, he]

/-- What is not to stay is gone after the repair. -/
theorem Salvaged.threads_eq_none (h : Salvaged ρ m m') (hleaves : ¬ m.Stays ρ t) :
    m'.threads.get? t = none := by
  refine Option.eq_none_iff_forall_ne_some.2 fun thread ht => hleaves ?_
  exact ((h.runsOn t thread.target).1 (runsOn_iff.2 ⟨thread, ht, rfl⟩)).2

theorem Salvaged.frames_eq_none (h : Salvaged ρ m m') (hleaves : ¬ m.Remains ρ f) :
    m'.frames.get? f = none := by
  refine Option.eq_none_iff_forall_ne_some.2 fun frame hf => hleaves ?_
  exact ((h.threadAt f frame.thread).1 (by rw [Machine.threadAt, hf, Option.map_some])).2

theorem Salvaged.commands_eq_none (h : Salvaged ρ m m') (hleaves : ¬ m.Remains ρ f)
    (hl : m.Lists f c) :
    m'.commands.get? c = none := by
  refine Option.eq_none_iff_forall_ne_some.2 fun command hc => hleaves ?_
  exact ((h.commands c).1 (Option.isSome_of_eq_some hc)).2.2 f hl

/-- **The entities after a load.** What a target whose entity is gone lists is gone, with its frames
and their commands. An invocation that only names such a target stays on it, so every invocation has
an entity exactly if those that stay had one that is still known. -/
theorem embodied_iff_of_load {s : Setting} {bs : Bytes} {m₀ : Machine}
    (hload : ((load s bs).run m₀).value = .ok ()) :
    ∃ fresh, read bs = .ok fresh ∧
      (((load s bs).run m₀).state.Embodied ↔ ∀ t, fresh.Stays s.remap t → fresh.Kept s.remap t) ∧
      ∀ g t, fresh.Gone s.remap g → fresh.Hosts g t →
        ((load s bs).run m₀).state.threads.get? t = none ∧
        ∀ f, fresh.Stacks t f → ((load s bs).run m₀).state.frames.get? f = none ∧
          ∀ c, fresh.Lists f c → ((load s bs).run m₀).state.commands.get? c = none := by
  obtain ⟨fresh, hread, hsalvaged⟩ := salvaged_of_load hload
  refine ⟨fresh, hread, hsalvaged.embodied_iff, fun g t hgone hhosts => ?_⟩
  have hdead : ¬ fresh.Survives s.remap t := fun hsurvives => hsurvives.known g hhosts hgone
  refine ⟨hsalvaged.threads_eq_none fun hstays => hdead hstays.survives, fun f hs => ?_⟩
  have hleaves : ¬ fresh.Remains s.remap f := fun hremains => hdead (hremains.spared t hs)
  exact ⟨hsalvaged.frames_eq_none hleaves, fun c hl => hsalvaged.commands_eq_none hleaves hl⟩

/-- A host that no longer knows entity 7. -/
def bereft : Setting where
  remap e := if e = ⟨7⟩ then none else some e

/-- A machine with two targets and an invocation on each. -/
def paired : Machine where
  targets :=
    Table.ofObjects (((∅ : Assoc _ _ _).insert ⟨1⟩ { entity := some ⟨7⟩, threads := [⟨1⟩] }).insert
    ⟨2⟩ { entity := some ⟨8⟩, threads := [⟨2⟩] })
  threads := Table.ofObjects (((∅ : Assoc _ _ _).insert ⟨1⟩
    { target := ⟨1⟩, script := "greet", stack := [⟨1⟩] }).insert ⟨2⟩
    { target := ⟨2⟩, script := "greet", stack := [⟨2⟩] })
  frames := Table.ofObjects (((∅ : Assoc _ _ _).insert ⟨1⟩
    { thread := ⟨1⟩, script := "greet", dialect := .line, commands := [⟨1⟩], gotos := ∅,
      gosubs := ∅ }).insert ⟨2⟩
    { thread := ⟨2⟩, script := "greet", dialect := .line, commands := [⟨2⟩],
      gotos := ∅, gosubs := ∅ })
  commands := Table.ofObjects (((∅ : Assoc _ _ _).insert ⟨1⟩ ⟨1, ["end"]⟩).insert ⟨2⟩ ⟨1, ["end"]⟩)

/-- One of the two invocations goes with its entity, the other stays with its own. -/
theorem paired_embodied :
    ∃ bs fresh, paired.save = .ok bs ∧ ((load bereft bs).run ∅).value = .ok () ∧
      ((load bereft bs).run ∅).state.threads.handles = [⟨2⟩] ∧
      ((load bereft bs).run ∅).state.Embodied ∧
      read bs = .ok fresh ∧ (∀ t, fresh.Stays bereft.remap t → fresh.Kept bereft.remap t) ∧
      ∀ g t, fresh.Gone bereft.remap g → fresh.Hosts g t →
        ((load bereft bs).run ∅).state.threads.get? t = none := by
  obtain ⟨bs, hsave, hload, hkept, hembodied⟩ : ∃ bs, paired.save = .ok bs ∧
      ((load bereft bs).run ∅).value = .ok () ∧
      ((load bereft bs).run ∅).state.threads.handles = [⟨2⟩] ∧
      ((load bereft bs).run ∅).state.Embodied := by
    refine ⟨paired.save.toOption.getD [], ?_, ?_, ?_, ?_⟩ <;> decide +kernel
  obtain ⟨fresh, hread, hiff, hgone⟩ := embodied_iff_of_load hload
  exact ⟨bs, fresh, hsave, hload, hkept, hembodied, hread, hiff.1 hembodied,
    fun g t hg ht => (hgone g t hg ht).1⟩

/-- A machine with an invocation that its target does not list. -/
def unlisted : Machine where
  targets := Table.ofObjects ((∅ : Assoc _ _ _).insert ⟨1⟩ { entity := some ⟨7⟩ })
  threads := Table.ofObjects
    ((∅ : Assoc _ _ _).insert ⟨1⟩ { target := ⟨1⟩, script := "greet", stack := [⟨1⟩] })
  frames := Table.ofObjects ((∅ : Assoc _ _ _).insert ⟨1⟩
    { thread := ⟨1⟩, script := "greet", dialect := .line, commands := [⟨1⟩],
      gotos := ∅, gosubs := ∅ })
  commands := Table.ofObjects ((∅ : Assoc _ _ _).insert ⟨1⟩ ⟨1, ["end"]⟩)

/-- After the entity is gone the invocation is listed by the target that lost it. -/
theorem unlisted_not_embodied : ∃ bs, unlisted.save = .ok bs ∧
    ((load bereft bs).run ∅).value = .ok () ∧
    ((load bereft bs).run ∅).state.entityAt ⟨1⟩ = some none ∧
    ((load bereft bs).run ∅).state.threadList ⟨1⟩ = some [⟨1⟩] ∧
    ¬ ((load bereft bs).run ∅).state.Embodied := by
  refine ⟨unlisted.save.toOption.getD [], ?_, ?_, ?_, ?_, ?_⟩ <;> decide +kernel

end StepScript.Machine
