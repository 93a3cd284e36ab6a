import StepScript.Proofs.Machine.EndCalls

/-!
# Proofs/Machine/Reload — what a load gives back

A sound machine that was saved is loaded again. The invocations whose entity is still known are back
with all they own, the others are gone; every target is back, with its entity looked up again.
Claims, scans and open calls are forgotten, and the variables that waited for an open call are
empty. Nothing else differs.

* `Machine.Restored` — this, as a relation between the machine that was saved and the one loaded.
* `Machine.Sound.load_save` — a load of a save succeeds and gives such a machine, whatever was there
  before.
-/

namespace StepScript.Machine

variable {m m' : Machine} {ρ : EntityId → Option EntityId}

/-- A kept invocation waits for a call to fill the variable. -/
def Awaited (ρ : EntityId → Option EntityId) (m : Machine) (cell : Cell) (name : String) : Prop :=
  ∃ f frame, m.frames.get? f = some frame ∧ m.Kept ρ frame.thread ∧ m.receiver f = some (cell, name)

/-- **The machine `m'` is what comes back of `m`.** The objects are given without their variables,
and the variables by cell. -/
structure Restored (ρ : EntityId → Option EntityId) (m m' : Machine) : Prop where
  /-- Every target is back; its entity is looked up, and if it is gone so is the list. -/
  target : ∀ g, (m'.targets.get? g).map Target.bare =
    (m.targets.get? g).map fun target => (target.remapped ρ).bare
  /-- Exactly the kept invocations are back, unclaimed. -/
  thread : ∀ t thread, (m'.threads.get? t).map Thread.bare = some thread ↔
    ∃ old, m.threads.get? t = some old ∧ m.Kept ρ t ∧ thread = { old.bare with claimed := false }
  /-- Exactly their frames are back, unscanned and with every open call ended. -/
  frame : ∀ f frame, (m'.frames.get? f).map Frame.bare = some frame ↔
    ∃ old, m.frames.get? f = some old ∧ m.Kept ρ old.thread ∧
      frame = { old.ended.bare with readiness := .unknown }
  /-- Exactly the commands of these frames are back. -/
  command : ∀ c command, m'.commands.get? c = some command ↔
    m.commands.get? c = some command ∧
      ∃ f frame, m.frames.get? f = some frame ∧ c ∈ frame.commands ∧ m.Kept ρ frame.thread
  /-- The variables that waited for an open call are empty. -/
  emptied : ∀ cell name, m.Awaited ρ cell name → m'.valueAt cell name = some ""
  /-- All other variables have the value they had. -/
  untouched : ∀ cell name, (m'.varsAt cell).isSome = true → ¬ m.Awaited ρ cell name →
    m'.valueAt cell name = m.valueAt cell name

/-! ## After the entities were looked up -/

section

variable (h : m.Sound) (hd : Detached ρ m m.targets.handles m')

include h in
theorem mem_handles_target {t : ThreadHandle} {thread : Thread}
    (ht : m.threads.get? t = some thread) :
    thread.target ∈ m.targets.handles := by
  obtain ⟨target, htarget, -⟩ := h.owned.target_of_thread ht
  exact Table.mem_handles_iff.2 (by rw [htarget]; rfl)

include hd in
/-- After the lookup every target has the entity that its old one became. -/
theorem Detached.get?_targets (g : TargetHandle) :
    m'.targets.get? g = (m.targets.get? g).map (Target.remapped ρ) := by
  rw [hd.targets]
  cases hg : m.targets.get? g with
  | none => rfl
  | some target =>
    have hmem : g ∈ m.targets.handles := Table.mem_handles_iff.2 (by rw [hg]; rfl)
    simp [hmem]

include hd in
/-- What is still there has its variables. -/
theorem Detached.varsAt_eq {cell : Cell} (hlive : (m'.varsAt cell).isSome = true) :
    m'.varsAt cell = m.varsAt cell := by
  cases cell with
  | frame f =>
    rw [varsAt, Option.isSome_map, Option.isSome_iff_exists] at hlive
    obtain ⟨frame, hf⟩ := hlive
    rw [varsAt, varsAt, hf, hd.frames f frame hf]
  | thread t =>
    rw [varsAt, Option.isSome_map, Option.isSome_iff_exists] at hlive
    obtain ⟨thread, ht⟩ := hlive
    rw [varsAt, varsAt, ht, ((hd.threads t thread).1 ht).1]
  | target g =>
    rw [varsAt, varsAt, hd.get?_targets]
    cases m.targets.get? g <;> rfl
  | global => rw [varsAt, varsAt, hd.globals]

include h hd

/-- The invocations that are left are those whose entity is known. -/
theorem Detached.get?_threads {t : ThreadHandle} {thread : Thread} :
    m'.threads.get? t = some thread ↔ m.threads.get? t = some thread ∧ m.Kept ρ t := by
  rw [hd.threads]
  exact and_congr_right fun ht =>
    ⟨fun hkept => hkept (mem_handles_target h ht), fun hkept _ => hkept⟩

/-- The frames of the invocations that are kept, and no others. -/
theorem Detached.get?_frames {f : FrameHandle} {frame : Frame} :
    m'.frames.get? f = some frame ↔ m.frames.get? f = some frame ∧ m.Kept ρ frame.thread := by
  constructor
  · intro hf
    obtain ⟨thread, hthread, -⟩ := hd.sound.owned.thread_of_frame hf
    exact ⟨hd.frames f frame hf, ((hd.get?_threads h).1 hthread).2⟩
  · rintro ⟨hf, hkept⟩
    obtain ⟨thread, hthread, hmem⟩ := h.owned.thread_of_frame hf
    obtain ⟨frame', hf', -⟩ :=
      hd.sound.owned.frame_of_stacked ((hd.get?_threads h).2 ⟨hthread, hkept⟩) hmem
    have hsame := hd.frames f frame' hf'
    rw [hf] at hsame
    exact Option.some.inj hsame ▸ hf'

/-- The commands of the invocations that are kept, and no others. -/
theorem Detached.get?_commands {c : CommandHandle} {command : Command} :
    m'.commands.get? c = some command ↔ m.commands.get? c = some command ∧
      ∃ f frame, m.frames.get? f = some frame ∧ c ∈ frame.commands ∧ m.Kept ρ frame.thread := by
  constructor
  · intro hc
    obtain ⟨f, frame, hf, hmem⟩ := hd.sound.owned.frame_of_command hc
    obtain ⟨hf, hkept⟩ := (hd.get?_frames h).1 hf
    exact ⟨hd.commands c command hc, f, frame, hf, hmem, hkept⟩
  · rintro ⟨hc, f, frame, hf, hmem, hkept⟩
    obtain ⟨command', hc'⟩ :=
      hd.sound.owned.command_of_listed ((hd.get?_frames h).2 ⟨hf, hkept⟩) hmem
    have hsame := hd.commands c command' hc'
    rw [hc] at hsame
    exact Option.some.inj hsame ▸ hc'

/-- A frame that is still there waits for the same variable. -/
theorem Detached.receiver_eq {f : FrameHandle} {frame : Frame}
    (hf : m'.frames.get? f = some frame) :
    m'.receiver f = m.receiver f := by
  obtain ⟨thread, hthread, -⟩ := hd.sound.owned.thread_of_frame hf
  have hthread' := ((hd.threads _ _).1 hthread).1
  obtain ⟨target, htarget, -⟩ := hd.sound.owned.target_of_thread hthread
  obtain ⟨target', htarget', -⟩ := h.owned.target_of_thread hthread'
  have hcell : ∀ origin scope, m'.cellOf ⟨frame.thread, some f, origin⟩ scope
      = m.cellOf ⟨frame.thread, some f, origin⟩ scope := by
    intro origin scope
    cases scope with
    | frame => simp [cellOf, Option.filter, Table.contains_eq, hf, hd.frames f frame hf]
    | thread => simp [cellOf, Table.contains_eq, hthread, hthread']
    | target =>
      simp [cellOf, value_targetOf, Table.contains_eq, hthread, hthread', htarget, htarget']
    | global => rfl
  simp only [receiver, hf, hd.frames f frame hf, Option.bind_some, hcell]

end

/-! ## After the open calls have ended -/

section

variable (m) (f : FrameHandle) (t : ThreadHandle)

theorem get?_targets_reread (g : TargetHandle) : m.reread.targets.get? g = m.targets.get? g := by
  simp [reread]

/-- A thread that is read again is unclaimed, and else as it was. -/
theorem get?_threads_reread :
    m.reread.threads.get? t =
      (m.threads.get? t).map fun thread => { thread with claimed := false } :=
  Table.get?_reread _ _ t

/-- A frame that is read again is unscanned, and else as it was. -/
theorem get?_frames_reread : m.reread.frames.get? f =
    (m.frames.get? f).map fun frame => { frame with readiness := .unknown } :=
  Table.get?_reread _ _ f

theorem get?_commands_reread (c : CommandHandle) :
    m.reread.commands.get? c = m.commands.get? c := by
  simp [reread]

theorem kept_reread : m.reread.Kept ρ t ↔ m.Kept ρ t := by
  constructor
  · rintro ⟨thread, target, hthread, htarget, hknown⟩
    rw [get?_threads_reread] at hthread
    rw [get?_targets_reread] at htarget
    obtain ⟨old, hold, rfl⟩ := Option.map_eq_some_iff.1 hthread
    exact ⟨old, target, hold, htarget, hknown⟩
  · rintro ⟨thread, target, hthread, htarget, hknown⟩
    refine ⟨{ thread with claimed := false }, target, ?_, ?_, hknown⟩
    · rw [get?_threads_reread, hthread]
      rfl
    · rw [get?_targets_reread, htarget]

/-- Where the result of an open call goes is the same after reading. -/
theorem receiver_reread : m.reread.receiver f = m.receiver f := by
  have hcell := cellOf_congr m.sameLinks_reread
  have hread := m.get?_frames_reread f
  cases hf : m.frames.get? f with
  | none =>
    rw [hf] at hread
    rw [receiver, receiver, hread, hf]
    rfl
  | some frame =>
    rw [hf] at hread
    simp only [receiver, hf, hread, Option.map_some, Option.bind_some, hcell]

theorem varsAt_reread (cell : Cell) : m.reread.varsAt cell = m.varsAt cell := by
  cases cell <;> simp [varsAt, reread, Function.comp_def]

end

/-- Objects that are equal up to their variables are there together. -/
theorem Ended.isSome_varsAt {done : List FrameHandle} (h : Ended m done m') (cell : Cell) :
    (m'.varsAt cell).isSome = (m.varsAt cell).isSome := by
  cases cell with
  | frame f => simpa [varsAt] using congrArg Option.isSome (h.frames f)
  | thread t => simpa [varsAt] using congrArg Option.isSome (h.threads t)
  | target g => simpa [varsAt] using congrArg Option.isSome (h.targets g)
  | global => rfl

section

variable {m₁ m₂ : Machine} (h : m.Sound) (hd : Detached ρ m.reread m.reread.targets.handles m₁)

include h hd

/-- The invocations after the look-up are those that are kept, unclaimed. -/
theorem Detached.get?_threads_iff {t : ThreadHandle} {thread : Thread} :
    m₁.threads.get? t = some thread ↔
      ∃ old, m.threads.get? t = some old ∧ m.Kept ρ t ∧ { old with claimed := false } = thread := by
  rw [hd.get?_threads h.reread, get?_threads_reread, kept_reread, Option.map_eq_some_iff]
  exact ⟨fun ⟨⟨old, hold, heq⟩, hkept⟩ => ⟨old, hold, hkept, heq⟩,
    fun ⟨old, hold, hkept, heq⟩ => ⟨⟨old, hold, heq⟩, hkept⟩⟩

/-- The frames after the look-up are those of the kept invocations, unscanned. -/
theorem Detached.get?_frames_iff {f : FrameHandle} {frame : Frame} : m₁.frames.get? f = some frame ↔
    ∃ old, m.frames.get? f = some old ∧ m.Kept ρ old.thread ∧
      { old with readiness := .unknown } = frame := by
  rw [hd.get?_frames h.reread, get?_frames_reread, kept_reread, Option.map_eq_some_iff]
  constructor
  · rintro ⟨⟨old, hold, rfl⟩, hkept⟩
    exact ⟨old, hold, hkept, rfl⟩
  · rintro ⟨old, hold, hkept, rfl⟩
    exact ⟨⟨old, hold, rfl⟩, hkept⟩

/-- The frames that wait after the look-up are those of kept invocations that waited before. -/
theorem Detached.awaited_iff {cell : Cell} {name : String} :
    (∃ f ∈ m₁.frames.handles, m₁.receiver f = some (cell, name)) ↔ m.Awaited ρ cell name := by
  constructor
  · rintro ⟨f, hf, hreceiver⟩
    obtain ⟨frame, hframe⟩ := Option.isSome_iff_exists.1 (Table.mem_handles_iff.1 hf)
    rw [hd.receiver_eq h.reread hframe, receiver_reread] at hreceiver
    obtain ⟨old, hold, hkept, -⟩ := (hd.get?_frames_iff h).1 hframe
    exact ⟨f, old, hold, hkept, hreceiver⟩
  · rintro ⟨f, old, hold, hkept, hreceiver⟩
    have hframe := (hd.get?_frames_iff h).2 ⟨old, hold, hkept, rfl⟩
    refine ⟨f, Table.mem_handles_iff.2 (by rw [hframe]; rfl), ?_⟩
    rw [hd.receiver_eq h.reread hframe, receiver_reread, hreceiver]

/-- **What comes back** if the entities are looked up and then the open calls end. -/
theorem Sound.restored (he : Ended m₁ m₁.frames.handles m₂) : Restored ρ m m₂ := by
  refine ⟨fun g => ?_, fun t thread => ?_, fun f frame => ?_, fun c command => ?_,
    fun cell name hwait => he.emptied cell name ((hd.awaited_iff h).2 hwait),
    fun cell name hlive hwait => ?_⟩
  · rw [he.targets, hd.get?_targets, Option.map_map, get?_targets_reread]
    rfl
  · rw [he.threads, Option.map_eq_some_iff]
    constructor
    · rintro ⟨kept, hkept, rfl⟩
      obtain ⟨old, hold, hknown, rfl⟩ := (hd.get?_threads_iff h).1 hkept
      exact ⟨old, hold, hknown, rfl⟩
    · rintro ⟨old, hold, hknown, rfl⟩
      exact ⟨_, (hd.get?_threads_iff h).2 ⟨old, hold, hknown, rfl⟩, rfl⟩
  · rw [he.frames, Option.map_eq_some_iff]
    constructor
    · rintro ⟨kept, hkept, rfl⟩
      have hmem : f ∈ m₁.frames.handles := Table.mem_handles_iff.2 (by rw [hkept]; rfl)
      obtain ⟨old, hold, hknown, rfl⟩ := (hd.get?_frames_iff h).1 hkept
      rw [if_pos hmem]
      exact ⟨old, hold, hknown, rfl⟩
    · rintro ⟨old, hold, hknown, rfl⟩
      have hkept := (hd.get?_frames_iff h).2 ⟨old, hold, hknown, rfl⟩
      have hmem : f ∈ m₁.frames.handles := Table.mem_handles_iff.2 (by rw [hkept]; rfl)
      exact ⟨_, hkept, by rw [if_pos hmem]; rfl⟩
  · rw [he.edits.commands, hd.get?_commands h.reread, get?_commands_reread]
    refine and_congr_right fun _ => ⟨?_, ?_⟩
    · rintro ⟨f, frame, hframe, hmem, hknown⟩
      rw [get?_frames_reread] at hframe
      obtain ⟨old, hold, rfl⟩ := Option.map_eq_some_iff.1 hframe
      exact ⟨f, old, hold, hmem, (m.kept_reread _).1 hknown⟩
    · rintro ⟨f, old, hold, hmem, hknown⟩
      refine ⟨f, { old with readiness := .unknown }, ?_, hmem, (m.kept_reread _).2 hknown⟩
      rw [get?_frames_reread, hold]
      rfl
  · rw [he.isSome_varsAt] at hlive
    rw [he.untouched cell name fun hsome => hwait ((hd.awaited_iff h).1 hsome), valueAt, valueAt,
      hd.varsAt_eq hlive, varsAt_reread]

end

/-- **A load of a save succeeds, and gives back the machine.** -/
theorem Sound.load_save (h : m.Sound) (hfits : m.Fits) {bs : Bytes} (hsave : m.save = .ok bs)
    (s : Setting) (m₀ : Machine) :
    ((load s bs).run m₀).value = .ok () ∧ ((load s bs).run m₀).state.Sound ∧
      m.Restored s.remap ((load s bs).run m₀).state := by
  have hread := read_save hsave hfits (h.storable hfits)
  have hd := h.reread.detached s
  have he := hd.sound.housed.ended
  rw [run_load_ok hread, h.reread.state_repair s rfl]
  exact ⟨rfl, hd.sound.moves he.edits.moves, h.restored hd he⟩

end StepScript.Machine
