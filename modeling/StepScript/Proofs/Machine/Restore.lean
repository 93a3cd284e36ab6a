import Mathlib.Data.List.Nodup
import StepScript.Machine.Repair
import StepScript.Proofs.Codec.Records
import StepScript.Proofs.Machine.Moves

/-!
# Proofs/Machine/Restore — loading what was saved

A machine that is sound reads back as it was, apart from claims and scans, and is sound again.
Mending it then looks up the entities anew, finds every link in order, and ends the open calls.

* `Machine.Kept` — the invocations whose entity the host still knows.
* `Machine.Detached` — the machine after the entities were looked up.
* `Machine.Rooted` — the links that the passes after that look for.
* `Machine.Sound.state_repair` — on a sound machine the passes over links change nothing.
-/

namespace StepScript

/-- **A target whose entity is looked up again.** Without an entity nothing runs on it. -/
def Target.remapped (ρ : EntityId → Option EntityId) (target : Target) : Target :=
  { target with
    entity := target.entity.bind ρ
    threads := if (target.entity.bind ρ).isSome then target.threads else [] }

namespace Machine

variable {m m' : Machine}

/-! ## Reading back -/

theorem length_commands_lt {frame : Frame} (h : (Binary.encode frame).length ≤ Stream.maxFrame) :
    frame.commands.length < UInt64.size := by
  have hbytes := frame.length_encode
  have hlist := Binary.length_encode_list frame.commands
  have hitems := Binary.length_le_encodeAll Binary.encode_handle_pos frame.commands
  have hmax := Binary.maxFrame_lt
  omega

/-- A sound machine that fits can be stored: its numbers are bounded by its commands. -/
theorem Sound.storable (h : m.Sound) (hfits : m.Fits) : m.Storable where
  targets := h.proper.targets
  threads := h.proper.threads
  frames := h.proper.frames
  commands := h.proper.commands
  frame f frame hf := by
    have hsound := h.frame f frame hf
    have hlength := length_commands_lt (hfits.frames f frame hf)
    refine ⟨Nat.lt_of_le_of_lt hsound.cursor hlength, fun e he => ?_, fun e he => ?_,
      fun index hindex => Nat.lt_trans (hsound.returns index hindex) hlength, hsound.pending⟩
    · exact Nat.lt_trans (hsound.goto_lt ((frame.gotos.mem_entries_iff e.1 e.2).1 he)) hlength
    · exact Nat.lt_trans (hsound.gosub_lt ((frame.gosubs.mem_entries_iff e.1 e.2).1 he)) hlength
  command := h.line

/-- Storing and reading changes no link. -/
theorem sameLinks_reread (m : Machine) : SameLinks m m.reread where
  threadList g := by simp [threadList, reread]
  targetAt t := by simp [targetAt, reread, Function.comp_def]
  stackAt t := by simp [stackAt, reread, Function.comp_def]
  threadAt f := by simp [threadAt, reread, Function.comp_def]
  commandsAt f := by simp [commandsAt, reread, Function.comp_def]
  live c := by simp [reread]

/-- **What reads back is sound again.** -/
theorem Sound.reread (h : m.Sound) : m.reread.Sound where
  owned := h.owned.congr m.sameLinks_reread
  proper := ⟨h.proper.targets.reread _, h.proper.threads.reread _, h.proper.frames.reread _,
    h.proper.commands.reread _⟩
  frame f frame hf := by
    rw [Machine.reread, Table.get?_reread] at hf
    obtain ⟨old, hold, rfl⟩ := Option.map_eq_some_iff.1 hf
    have hsound := h.frame f old hold
    have hsame : m.FrameSound { old with readiness := .unknown } :=
      ⟨hsound.cursor, hsound.declared, hsound.returns, hsound.pending, fun hne => absurd rfl hne⟩
    exact hsame.congr fun c _ => by simp [Machine.reread]
  line c command hc := by
    rw [Machine.reread, Table.get?_reread, Option.map_id] at hc
    exact h.line c command hc
  entity g target hg := by
    rw [Machine.reread, Table.get?_reread, Option.map_id] at hg
    exact h.entity g target hg
  claim t thread ht hclaimed := by
    rw [Machine.reread, Table.get?_reread] at ht
    obtain ⟨old, -, rfl⟩ := Option.map_eq_some_iff.1 ht
    cases hclaimed

/-! ## Looking up the entities -/

/-- **The invocation is kept**: the entity of its target is still known. -/
def Kept (ρ : EntityId → Option EntityId) (m : Machine) (t : ThreadHandle) : Prop :=
  ∃ thread target, m.threads.get? t = some thread ∧ m.targets.get? thread.target = some target ∧
    (target.entity.bind ρ).isSome = true

/-- **The machine after the entities of some targets were looked up**: the invocations that are not
kept are gone, with all they own. -/
structure Detached (ρ : EntityId → Option EntityId) (m : Machine) (done : List TargetHandle)
    (m' : Machine) : Prop where
  sound : m'.Sound
  targets : ∀ g, m'.targets.get? g =
    (m.targets.get? g).map fun target => if g ∈ done then target.remapped ρ else target
  threads : ∀ t thread, m'.threads.get? t = some thread ↔
    m.threads.get? t = some thread ∧ (thread.target ∈ done → m.Kept ρ t)
  frames : ∀ f frame, m'.frames.get? f = some frame → m.frames.get? f = some frame
  commands : ∀ c command, m'.commands.get? c = some command → m.commands.get? c = some command
  globals : m'.globals = m.globals

/-- It does not matter whether a target forgets its invocations before or after they are
cancelled. -/
theorem cleanupAll_modifyTarget (m : Machine) (g : TargetHandle) (ts : List ThreadHandle) :
    ts.foldl cleanup (m.modifyTarget g fun target =>
      { target with entity := none, threads := [] }) =
      (ts.foldl cleanup m).modifyTarget g fun target =>
        { target with entity := none, threads := [] } := by
  refine ext_tables (Table.ext_get? ?_ fun k => ?_)
    (Table.ext_get? ?_ fun k => Option.ext fun thread => ?_)
    (Table.ext_get? ?_ fun f => Option.ext fun frame => ?_)
    (Table.ext_get? ?_ fun c => Option.ext fun command => ?_) ?_
  · rw [next_targets_cleanupAll, targets_modifyTarget, targets_modifyTarget, Table.next_modify,
      Table.next_modify, next_targets_cleanupAll]
  · rw [get?_targets_cleanupAll, targets_modifyTarget, targets_modifyTarget, Table.get?_modify,
      Table.get?_modify, get?_targets_cleanupAll]
    by_cases hk : k = g
    · rw [if_pos hk, if_pos hk]
      cases m.targets.get? k <;> rfl
    · rw [if_neg hk, if_neg hk]
      rfl
  · rw [next_threads_cleanupAll, threads_modifyTarget, threads_modifyTarget,
      next_threads_cleanupAll]
  · rw [get?_threads_cleanupAll, threads_modifyTarget, threads_modifyTarget,
      get?_threads_cleanupAll]
  · rw [next_frames_cleanupAll, frames_modifyTarget, frames_modifyTarget, next_frames_cleanupAll]
  · rw [get?_frames_cleanupAll, frames_modifyTarget, frames_modifyTarget, get?_frames_cleanupAll]
    rfl
  · rw [next_commands_cleanupAll, commands_modifyTarget, commands_modifyTarget,
      next_commands_cleanupAll]
  · rw [get?_commands_cleanupAll, commands_modifyTarget, commands_modifyTarget,
      get?_commands_cleanupAll]
    rfl
  · rw [globals_cleanupAll, globals_modifyTarget, globals_modifyTarget, globals_cleanupAll]

theorem Sound.cleanupAll (h : m.Sound) (ts : List ThreadHandle) :
    (ts.foldl Machine.cleanup m).Sound := by
  induction ts generalizing m with
  | nil => exact h
  | cons t ts ih => exact ih (h.cleanup t)

/-- Cancelling what runs on one target leaves the lists of the others alone. -/
theorem Sound.get?_targets_cleanupAll {g : TargetHandle} {target : Target} (h : m.Sound)
    (hg : m.targets.get? g = some target) (k : TargetHandle) :
    (target.threads.foldl Machine.cleanup m).targets.get? k =
      if k = g then some { target with threads := [] } else m.targets.get? k := by
  have hruns : ∀ t ∈ target.threads, ∀ k, m.runsOn t k = true ↔ k = g := by
    intro t ht k
    obtain ⟨thread, hthread, htarget⟩ := h.owned.thread_of_listed hg ht
    rw [runsOn_iff]
    constructor
    · rintro ⟨thread', hthread', rfl⟩
      rw [hthread] at hthread'
      cases hthread'
      exact htarget
    · rintro rfl
      exact ⟨thread, hthread, htarget⟩
  rw [Machine.get?_targets_cleanupAll]
  by_cases hk : k = g
  · subst hk
    rw [if_pos rfl, hg, Option.map_some, List.filter_eq_nil_iff.2]
    intro t ht
    simp [ht, (hruns t ht k).2 rfl]
  · rw [if_neg hk]
    cases hget : m.targets.get? k with
    | none => rfl
    | some other =>
      rw [Option.map_some, List.filter_eq_self.2]
      intro t _
      by_cases ht : t ∈ target.threads
      · have hfalse : m.runsOn t k = false := by
          rw [← Bool.not_eq_true, hruns t ht]
          exact hk
        simp [hfalse]
      · simp [ht]

section

variable {s : Setting} {done : List TargetHandle} {g : TargetHandle}

/-- A target that needs no change counts as looked up. -/
theorem Detached.skip (h : Detached s.remap m done m') (hg : g ∉ done)
    (hsame : ∀ target, m.targets.get? g = some target → target.remapped s.remap = target)
    (hidle : ∀ target, m.targets.get? g = some target → target.threads = []) :
    Detached s.remap m (done ++ [g]) m' where
  sound := h.sound
  targets k := by
    rw [h.targets]
    by_cases hk : k = g
    · subst hk
      cases hget : m.targets.get? k with
      | none => rfl
      | some target => simp [hg, hsame target hget]
    · simp [hk]
  threads t thread := by
    rw [h.threads]
    refine and_congr_right fun ht => ⟨fun hkept hmem => ?_, fun hkept hmem => ?_⟩
    · rcases List.mem_append.1 hmem with hmem | hmem
      · exact hkept hmem
      · -- nothing runs on this target
        have hlive : m'.threads.get? t = some thread :=
          (h.threads t thread).2 ⟨ht, hkept⟩
        rw [List.mem_singleton] at hmem
        obtain ⟨target, htarget, hlisted⟩ := h.sound.owned.target_of_thread hlive
        rw [h.targets, hmem] at htarget
        obtain ⟨old, hold, rfl⟩ := Option.map_eq_some_iff.1 htarget
        rw [if_neg hg, hidle old hold] at hlisted
        cases hlisted
    · exact hkept (List.mem_append_left _ hmem)
  frames := h.frames
  commands := h.commands
  globals := h.globals

/-- A target's entity has a new name. -/
theorem Detached.rename {target : Target} {old new : EntityId} (h : Detached s.remap m done m')
    (hg : g ∉ done) (hold : m.targets.get? g = some target) (hentity : target.entity = some old)
    (hremap : s.remap old = some new) :
    Detached s.remap m (done ++ [g])
      (m'.modifyTarget g fun target => { target with entity := some new }) where
  sound := h.sound.modifyTarget (fun _ _ => rfl) fun _ _ => nofun
  targets k := by
    rw [targets_modifyTarget, Table.get?_modify, h.targets]
    by_cases hk : k = g
    · subst hk
      simp [hold, hg, Target.remapped, hentity, hremap]
    · simp [hk]
  threads t thread := by
    rw [threads_modifyTarget, h.threads]
    refine and_congr_right fun ht => ⟨fun hkept hmem => ?_, fun hkept hmem => ?_⟩
    · rcases List.mem_append.1 hmem with hmem | hmem
      · exact hkept hmem
      · rw [List.mem_singleton] at hmem
        exact ⟨thread, target, ht, hmem ▸ hold, by simp [hentity, hremap]⟩
    · exact hkept (List.mem_append_left _ hmem)
  frames := h.frames
  commands := h.commands
  globals := h.globals

/-- A target's entity is gone, and all that runs on it is cancelled. -/
theorem Detached.detach {target : Target} {old : EntityId} (h : Detached s.remap m done m')
    (hg : g ∉ done) (hold : m.targets.get? g = some target) (hentity : target.entity = some old)
    (hremap : s.remap old = none) :
    Detached s.remap m (done ++ [g])
      (target.threads.foldl cleanup
        (m'.modifyTarget g fun target => { target with entity := none, threads := [] })) := by
  have hget : m'.targets.get? g = some target := by rw [h.targets, hold]; simp [hg]
  have hcancelled := h.sound.get?_targets_cleanupAll hget
  rw [cleanupAll_modifyTarget]
  refine ⟨?_, fun k => ?_, fun t thread => ?_, fun f frame hf => ?_, fun c command hc => ?_, ?_⟩
  · refine (h.sound.cleanupAll _).modifyTarget (fun left hleft => ?_) fun left hleft _ => ?_
    · rw [hcancelled, if_pos rfl] at hleft
      cases hleft
      rfl
    · rw [hcancelled, if_pos rfl] at hleft
      cases hleft
      exact Or.inr rfl
  · rw [targets_modifyTarget, Table.get?_modify, hcancelled]
    by_cases hk : k = g
    · subst hk
      simp [hold, Target.remapped, hentity, hremap]
    · rw [if_neg hk, if_neg hk, h.targets]
      simp [hk]
  · rw [threads_modifyTarget, get?_threads_cleanupAll, h.threads, and_assoc]
    refine and_congr_right fun ht => ⟨?_, fun hkept => ⟨fun hmem => ?_, fun hmem => ?_⟩⟩
    · rintro ⟨hkept, hnot⟩ hmem
      rcases List.mem_append.1 hmem with hmem | hmem
      · exact hkept hmem
      · rw [List.mem_singleton] at hmem
        obtain ⟨owner, howner, hlisted⟩ :=
          h.sound.owned.target_of_thread ((h.threads t thread).2 ⟨ht, hkept⟩)
        rw [hmem, hget] at howner
        cases howner
        exact absurd hlisted hnot
    · exact hkept (List.mem_append_left _ hmem)
    · -- a listed invocation runs on the target, whose entity is gone
      obtain ⟨thread', hthread', htarget⟩ := h.sound.owned.thread_of_listed hget hmem
      have hsame := ((h.threads t thread').1 hthread').1
      rw [ht] at hsame
      cases hsame
      obtain ⟨kept, owner, hlive, howner, hknown⟩ := hkept (by simp [htarget])
      rw [ht] at hlive
      cases hlive
      rw [htarget, hold] at howner
      cases howner
      simp [hentity, hremap] at hknown
  · exact h.frames f frame (get?_frames_cleanupAll.1 hf).1
  · exact h.commands c command (get?_commands_cleanupAll.1 hc).1
  · rw [globals_modifyTarget, globals_cleanupAll, h.globals]

/-- **Looking up the entity of one more target.** -/
theorem Detached.step (h : Detached s.remap m done m') (hg : g ∉ done) :
    Detached s.remap m (done ++ [g]) ((remapTarget s g).run m').state := by
  simp only [remapTarget, Act.run_get_bind]
  have hget : m'.targets.get? g = m.targets.get? g := by
    rw [h.targets]
    cases m.targets.get? g <;> simp [hg]
  cases hold : m.targets.get? g with
  | none =>
    rw [hold] at hget
    simp only [hget]
    exact h.skip hg (by simp [hold]) (by simp [hold])
  | some target =>
    rw [hold] at hget
    simp only [hget]
    cases hentity : target.entity with
    | none =>
      have hnil : target.threads = [] := h.sound.entity g target hget hentity
      refine h.skip hg (fun other hother => ?_) fun other hother => ?_
      · rw [hold] at hother
        cases hother
        cases target
        simp_all [Target.remapped]
      · rw [hold] at hother
        cases hother
        exact hnil
    | some old =>
      cases hremap : s.remap old with
      | some new =>
        simp only [hremap]
        exact h.rename hg hold hentity hremap
      | none =>
        simp only [hremap]
        exact h.detach hg hold hentity hremap

/-- **Looking up all entities.** -/
theorem Sound.detached (h : m.Sound) (s : Setting) :
    Detached s.remap m m.targets.handles
      ((Act.forEach (remapTarget s) m.targets.handles).run m).state := by
  refine Act.forEach_induction (p := Detached s.remap m) m.targets.nodup_handles ?_
    fun done g m' hg _ hdone => hdone.step hg
  refine ⟨h, fun g => ?_, fun t thread => ?_, fun _ _ => id, fun _ _ => id, rfl⟩
  · cases m.targets.get? g <;> simp
  · simp

end

/-! ## Links in order -/

/-- **The links that the passes of the repair look for.** -/
structure Rooted (m : Machine) : Prop where
  target : ∀ t thread, m.threads.get? t = some thread →
    ∃ target, m.targets.get? thread.target = some target ∧ t ∈ target.threads
  stack : ∀ t thread, m.threads.get? t = some thread → thread.stack ≠ [] ∧
    ∀ f ∈ thread.stack, ∃ frame, m.frames.get? f = some frame
  stacked : ∀ f frame, m.frames.get? f = some frame →
    ∃ thread, m.threads.get? frame.thread = some thread ∧ f ∈ thread.stack
  held : ∀ c command, m.commands.get? c = some command →
    ∃ f frame, m.frames.get? f = some frame ∧ c ∈ frame.commands

/-- An entity that is kept is looked up without effect. -/
theorem run_remapTarget_of_keeps {s : Setting} (hkeeps : ∀ e, s.remap e = some e) (g : TargetHandle)
    (m : Machine) : (remapTarget s g).run m = ⟨(), m, []⟩ := by
  simp only [remapTarget, Act.run_get_bind]
  cases hg : m.targets.get? g with
  | none => rfl
  | some target =>
    cases hentity : target.entity with
    | none => simp only [hentity, Act.run_pure]
    | some e =>
      have hsame : (m.modifyTarget g fun target => { target with entity := some e }) = m := by
        refine ext_tables (Table.modify_eq_self fun target' htarget' => ?_) rfl rfl rfl rfl
        rw [hg] at htarget'
        cases htarget'
        rw [← hentity]
      simp only [hentity, hkeeps, Act.run_set, hsame]

/-- A sound machine is rooted: links lead from every object up to a target. -/
theorem Sound.rooted (h : m.Sound) : m.Rooted where
  target _ _ ht := h.owned.target_of_thread ht
  stack _ _ ht := by
    refine ⟨h.owned.stack_ne_nil ht, fun f hf => ?_⟩
    obtain ⟨frame, hframe, -⟩ := h.owned.frame_of_stacked ht hf
    exact ⟨frame, hframe⟩
  stacked _ _ hf := h.owned.thread_of_frame hf
  held _ _ hc := h.owned.frame_of_command hc

/-- A rooted machine goes through each pass of the repair as it is, and nothing is reported. -/
theorem Rooted.run_relinkThread (h : m.Rooted) (t : ThreadHandle) :
    (relinkThread t).run m = ⟨(), m, []⟩ := by
  simp only [relinkThread, Act.run_get_bind]
  cases ht : m.threads.get? t with
  | none => rfl
  | some thread =>
    obtain ⟨target, htarget, hmem⟩ := h.target t thread ht
    have hstack : thread.stack.isEmpty = false := by
      rw [List.isEmpty_eq_false_iff]
      exact (h.stack t thread ht).1
    simp only [htarget, hstack, hmem, Bool.false_eq_true, if_false, if_true]
    rfl

theorem Sound.run_pruneTarget (h : m.Sound) (g : TargetHandle) :
    (pruneTarget g).run m = ⟨(), m, []⟩ := by
  have hsame : (m.modifyTarget g fun target =>
      { target with threads := target.threads.filter m.threads.contains }) = m := by
    refine ext_tables (Table.modify_eq_self fun target hg => ?_) rfl rfl rfl rfl
    rw [List.filter_eq_self.2]
    intro t ht
    obtain ⟨thread, hthread, -⟩ := h.owned.thread_of_listed hg ht
    exact Table.contains_iff.2 ⟨thread, hthread⟩
  rw [pruneTarget, Act.run_modify, hsame]

theorem Rooted.run_relinkFrame (h : m.Rooted) (f : FrameHandle) :
    (relinkFrame f).run m = ⟨(), m, []⟩ := by
  simp only [relinkFrame, Act.run_get_bind]
  cases hf : m.frames.get? f with
  | none => rfl
  | some frame =>
    obtain ⟨thread, hthread, hmem⟩ := h.stacked f frame hf
    simp only [hthread, Option.any_some, hmem, decide_true, if_true]
    rfl

theorem Rooted.run_pruneThread (h : m.Rooted) (t : ThreadHandle) :
    (pruneThread t).run m = ⟨(), m, []⟩ := by
  simp only [pruneThread, Act.run_get_bind]
  cases ht : m.threads.get? t with
  | none => rfl
  | some thread =>
    obtain ⟨hne, hframes⟩ := h.stack t thread ht
    have hlive : thread.stack.filter m.frames.contains = thread.stack :=
      List.filter_eq_self.2 fun f hf => Table.contains_iff.2 (hframes f hf)
    have hstack : thread.stack.isEmpty = false := by
      rw [List.isEmpty_eq_false_iff]
      exact hne
    have hsame : (m.modifyThread t fun old => { old with stack := thread.stack }) = m := by
      refine ext_tables rfl (Table.modify_eq_self fun old hold => ?_) rfl rfl rfl
      rw [ht] at hold
      cases hold
      rfl
    simp only [hlive, hstack, Bool.false_eq_true, if_false, Act.run_set, hsame]

/-- A command is removed exactly if no frame lists it. -/
theorem get?_commands_pruneCommands {c : CommandHandle} {command : Command} :
    m.pruneCommands.commands.get? c = some command ↔
      m.commands.get? c = some command ∧ ∃ f, m.Lists f c := by
  have hlisted : (c ∈ m.frames.toList.flatMap fun e => e.2.commands) ↔ ∃ f, m.Lists f c := by
    rw [List.mem_flatMap]
    constructor
    · rintro ⟨⟨f, frame⟩, hmem, hc⟩
      exact ⟨f, frame, Table.mem_toList_iff.1 hmem, hc⟩
    · rintro ⟨f, frame, hf, hc⟩
      exact ⟨(f, frame), Table.mem_toList_iff.2 hf, hc⟩
  have hstruck : c ∈ m.commands.handles.diff (m.frames.toList.flatMap fun e => e.2.commands) ↔
      c ∈ m.commands.handles ∧ ¬ ∃ f, m.Lists f c := by
    rw [m.commands.nodup_handles.mem_sdiff_iff, hlisted]
  rw [pruneCommands, ← List.diff_eq_foldl, Table.get?_eraseAll]
  by_cases hl : ∃ f, m.Lists f c
  · simp [hstruck, hl]
  · cases hget : m.commands.get? c with
    | none => simp
    | some old =>
      have hmem : c ∈ m.commands.handles := Table.mem_handles_iff.2 (by rw [hget]; rfl)
      simp [hstruck, hl, hmem]

theorem Rooted.pruneCommands_eq (h : m.Rooted) : m.pruneCommands = m := by
  refine ext_tables rfl rfl rfl (Table.ext_get? (Table.next_eraseAll _ _) fun c => ?_) rfl
  refine Option.ext fun command => ?_
  rw [get?_commands_pruneCommands]
  exact and_iff_left_of_imp fun hc => h.held c command hc

/-- **The passes of the repair**, one after the other. -/
theorem run_repair {s : Setting} {m₁ m₂ m₃ m₄ m₅ m₆ : Machine} {l₁ l₂ l₃ l₄ l₅ l₆ : List Diagnostic}
    (h₁ : (Act.forEach (remapTarget s) m.targets.handles).run m = ⟨(), m₁, l₁⟩)
    (h₂ : (Act.forEach relinkThread m₁.threads.handles).run m₁ = ⟨(), m₂, l₂⟩)
    (h₃ : (Act.forEach pruneTarget m₂.targets.handles).run m₂ = ⟨(), m₃, l₃⟩)
    (h₄ : (Act.forEach relinkFrame m₃.frames.handles).run m₃ = ⟨(), m₄, l₄⟩)
    (h₅ : (Act.forEach pruneThread m₄.threads.handles).run m₄ = ⟨(), m₅, l₅⟩)
    (h₆ : (Act.forEach endCall m₅.pruneCommands.frames.handles).run m₅.pruneCommands =
      ⟨(), m₆, l₆⟩) :
    (repair s).run m = ⟨(), m₆, l₁ ++ (l₂ ++ (l₃ ++ (l₄ ++ (l₅ ++ l₆))))⟩ := by
  unfold repair
  rw [Act.run_get_bind, Act.run_bind, h₁]
  dsimp only
  rw [Act.run_get_bind, Act.run_bind, h₂]
  dsimp only
  rw [Act.run_get_bind, Act.run_bind, h₃]
  dsimp only
  rw [Act.run_get_bind, Act.run_bind, h₄]
  dsimp only
  rw [Act.run_get_bind, Act.run_bind, h₅]
  dsimp only
  rw [Act.run_bind, Act.run_modify]
  dsimp only
  rw [Act.run_get_bind, h₆]
  rfl

/-- The passes of the repair, with the machines between them. -/
theorem repair_passes (s : Setting) (m : Machine) :
    ∃ m₁ l₁ m₂ l₂ m₃ l₃ m₄ l₄ m₅ l₅ m₆ l₆,
      (Act.forEach (remapTarget s) m.targets.handles).run m = ⟨(), m₁, l₁⟩ ∧
      (Act.forEach relinkThread m₁.threads.handles).run m₁ = ⟨(), m₂, l₂⟩ ∧
      (Act.forEach pruneTarget m₂.targets.handles).run m₂ = ⟨(), m₃, l₃⟩ ∧
      (Act.forEach relinkFrame m₃.frames.handles).run m₃ = ⟨(), m₄, l₄⟩ ∧
      (Act.forEach pruneThread m₄.threads.handles).run m₄ = ⟨(), m₅, l₅⟩ ∧
      (Act.forEach endCall m₅.pruneCommands.frames.handles).run m₅.pruneCommands = ⟨(), m₆, l₆⟩ ∧
      (repair s).run m = ⟨(), m₆, l₁ ++ (l₂ ++ (l₃ ++ (l₄ ++ (l₅ ++ l₆))))⟩ := by
  have hpass : ∀ (x : Act Machine Unit) (m : Machine), ∃ m' l, x.run m = ⟨(), m', l⟩ := fun x m =>
    ⟨_, _, rfl⟩
  obtain ⟨m₁, l₁, h₁⟩ := hpass (Act.forEach (remapTarget s) m.targets.handles) m
  obtain ⟨m₂, l₂, h₂⟩ := hpass (Act.forEach relinkThread m₁.threads.handles) m₁
  obtain ⟨m₃, l₃, h₃⟩ := hpass (Act.forEach pruneTarget m₂.targets.handles) m₂
  obtain ⟨m₄, l₄, h₄⟩ := hpass (Act.forEach relinkFrame m₃.frames.handles) m₃
  obtain ⟨m₅, l₅, h₅⟩ := hpass (Act.forEach pruneThread m₄.threads.handles) m₄
  obtain ⟨m₆, l₆, h₆⟩ :=
    hpass (Act.forEach endCall m₅.pruneCommands.frames.handles) m₅.pruneCommands
  exact ⟨m₁, l₁, m₂, l₂, m₃, l₃, m₄, l₄, m₅, l₅, m₆, l₆, h₁, h₂, h₃, h₄, h₅, h₆,
    run_repair h₁ h₂ h₃ h₄ h₅ h₆⟩

/-- **On a sound machine, mending is looking up the entities and ending the open calls.** -/
theorem Sound.state_repair (h : m.Sound) (s : Setting) {m₁ : Machine}
    (hm₁ : ((Act.forEach (remapTarget s) m.targets.handles).run m).state = m₁) :
    ((repair s).run m).state = ((Act.forEach endCall m₁.frames.handles).run m₁).state := by
  have hsound : m₁.Sound := hm₁ ▸ (h.detached s).sound
  have hcalls : (Act.forEach endCall m₁.pruneCommands.frames.handles).run m₁.pruneCommands =
      (Act.forEach endCall m₁.frames.handles).run m₁ := by
    rw [hsound.rooted.pruneCommands_eq]
  have hremap : (Act.forEach (remapTarget s) m.targets.handles).run m =
      ⟨(), m₁, ((Act.forEach (remapTarget s) m.targets.handles).run m).log⟩ := by
    rw [← hm₁]
  rw [run_repair hremap (Act.run_forEach_of_still fun t _ => hsound.rooted.run_relinkThread t)
    (Act.run_forEach_of_still fun g _ => hsound.run_pruneTarget g)
    (Act.run_forEach_of_still fun f _ => hsound.rooted.run_relinkFrame f)
    (Act.run_forEach_of_still fun t _ => hsound.rooted.run_pruneThread t) hcalls]
  rfl

/-! ## Loading -/

/-- A save that can be read is repaired, and what was there before does not matter. -/
theorem run_load_ok {s : Setting} {bs : Bytes} (hread : read bs = .ok m') :
    (load s bs).run m = ⟨.ok (), ((repair s).run m').state, ((repair s).run m').log⟩ := by
  simp only [load, hread]
  rw [Act.run_set_bind, Act.run_bind, Act.run_pure, List.append_nil]

/-- A save that cannot be read is refused with the reason. -/
theorem value_load_error {s : Setting} {bs : Bytes} {refusal : Refusal}
    (hread : read bs = .error refusal) :
    ((load s bs).run m).value = .error refusal.cause.failure := by
  simp only [load, hread]
  cases refusal.table <;> rfl

end Machine

end StepScript
