import StepScript.Proofs.Codec.Range
import StepScript.Proofs.Machine.Mend
import StepScript.Proofs.Machine.Reload

/-!
# Proofs/Machine/FixedPoint — loading again changes nothing

A machine that was loaded is mended, whatever the bytes were. When it is saved and loaded where
every entity is kept, one thing is left to do: an invocation that was cancelled for want of frames
may still be listed by a target it did not run on, and goes off that list. After that a save and a
load give back the machine to the last handle.

* `Machine.Storable.repair` — the repair keeps a machine fit for a save.
* `Machine.weeded` — the machine whose targets list live invocations only.
* `Machine.Rooted.run_repair` — all that the repair does to a machine whose links are in order.
* `Machine.reread_weeded`, `Machine.weeded_weeded` — why nothing is left to do after that.
-/

namespace StepScript

namespace Machine

variable {m m' : Machine} {t : ThreadHandle} {f : FrameHandle} {g : TargetHandle}

/-! ## Fit for a save

Each step of the repair removes objects, or changes what has no number in it. -/

namespace Storable

/-- Objects may go; the counters stay. -/
theorem of_subset (h : m.Storable) (htargets : m'.targets.Proper) (hthreads : m'.threads.Proper)
    (hframes : m'.frames.next = m.frames.next ∧
      ∀ f frame, m'.frames.get? f = some frame → m.frames.get? f = some frame)
    (hcommands : m'.commands.next = m.commands.next ∧
      ∀ c command, m'.commands.get? c = some command → m.commands.get? c = some command) :
    m'.Storable where
  targets := htargets
  threads := hthreads
  frames :=
    ⟨hframes.1 ▸ h.frames.next, fun f frame hf => h.frames.live f frame (hframes.2 f frame hf)⟩
  commands :=
    ⟨hcommands.1 ▸ h.commands.next,
      fun c command hc => h.commands.live c command (hcommands.2 c command hc)⟩
  frame f frame hf := h.frame f frame (hframes.2 f frame hf)
  command c command hc := h.command c command (hcommands.2 c command hc)

theorem modifyTarget (h : m.Storable) (g : TargetHandle) (u : Target → Target) :
    (m.modifyTarget g u).Storable :=
  { h with targets := h.targets.modify g u }

theorem modifyThread (h : m.Storable) (t : ThreadHandle) (u : Thread → Thread) :
    (m.modifyThread t u).Storable :=
  { h with threads := h.threads.modify t u }

/-- A machine can be stored after a frame has changed, if the frame's numbers still fit their
words. -/
theorem modifyFrame (h : m.Storable) (f : FrameHandle) {u : Frame → Frame}
    (hu : ∀ frame, frame.WordSized → (u frame).WordSized) : (m.modifyFrame f u).Storable where
  targets := h.targets
  threads := h.threads
  frames := h.frames.modify f u
  commands := h.commands
  frame k frame hk := by
    rw [frames_modifyFrame, Table.get?_modify] at hk
    split at hk
    · obtain ⟨old, hold, rfl⟩ := Option.map_eq_some_iff.1 hk
      exact hu old (h.frame k old hold)
    · exact h.frame k frame hk
  command := h.command

/-- Removing objects leaves a machine that can be stored. -/
theorem cleanup (h : m.Storable) (t : ThreadHandle) : (m.cleanup t).Storable :=
  h.of_subset ((Shrinks.cleanup m t).targets.proper h.targets)
    ((Shrinks.cleanup m t).threads.proper h.threads) ⟨next_frames_cleanup m t,
      fun _ _ hf => (get?_frames_cleanup.1 hf).1⟩
    ⟨next_commands_cleanup m t, fun _ _ hc => (get?_commands_cleanup.1 hc).1⟩

theorem cleanupAll (h : m.Storable) (ts : List ThreadHandle) :
    (ts.foldl Machine.cleanup m).Storable := by
  induction ts generalizing m with
  | nil => exact h
  | cons t ts ih => exact ih (h.cleanup t)

theorem removeFrame (h : m.Storable) (f : FrameHandle) : (m.removeFrame f).Storable :=
  h.of_subset (targets_removeFrame m f ▸ h.targets) (threads_removeFrame m f ▸ h.threads)
    ⟨by rw [frames_removeFrame, Table.next_erase], fun _ _ hf => (get?_frames_removeFrame.1 hf).1⟩
    ⟨next_commands_removeFrame m f, fun _ _ hc => (get?_commands_removeFrame.1 hc).1⟩

theorem pruneCommands (h : m.Storable) : m.pruneCommands.Storable :=
  h.of_subset h.targets h.threads ⟨rfl, fun _ _ => id⟩
    ⟨Table.next_eraseAll _ _, fun _ _ hc => (get?_commands_pruneCommands.1 hc).1⟩

theorem assign (h : m.Storable) (cell : Cell) (name value : String) :
    (m.assign cell name value).Storable := by
  cases cell with
  | frame f => exact h.modifyFrame f fun _ hframe => { hframe with }
  | thread t => exact h.modifyThread t _
  | target g => exact h.modifyTarget g _
  | global => exact { h with }

/-- So does delivering a value, which is a text. -/
theorem delivered (h : m.Storable) (v : Vantage) (assignTo : Option String) (value : String) :
    (m.delivered v assignTo value).Storable := by
  rcases m.delivered_cases v assignTo value with hsame | ⟨scope, cell, name, -, hassign⟩
  · rwa [hsame]
  · rw [hassign]
    exact h.assign cell name value

theorem completeCall (h : m.Storable) (f : FrameHandle) (result : String) :
    ((Machine.completeCall f result).run m).state.Storable := by
  rcases completeCall_cases f result m with hsame | ⟨v, assignTo, hstate⟩
  · rwa [hsame]
  · have hanswered : (m.answered f result).Storable :=
      h.modifyFrame f fun _ hframe => { hframe with pending := by rintro _ ⟨⟩ }
    rw [hstate]
    exact hanswered.delivered v assignTo result

theorem endCall (h : m.Storable) (f : FrameHandle) :
    ((Machine.endCall f).run m).state.Storable := by
  simp only [Machine.endCall, Act.run_get_bind]
  split
  · exact h
  · rw [Act.run_bind]
    split <;> exact h.completeCall f ""

/-- Each pass of a repair leaves a machine that can be stored. -/
theorem remapTarget (h : m.Storable) (s : Setting) (g : TargetHandle) :
    ((Machine.remapTarget s g).run m).state.Storable := by
  simp only [Machine.remapTarget, Act.run_get_bind]
  split
  · exact h
  · split
    · exact h
    · split
      · exact h.modifyTarget g _
      · exact (h.modifyTarget g _).cleanupAll _

theorem relinkThread (h : m.Storable) (t : ThreadHandle) :
    ((Machine.relinkThread t).run m).state.Storable := by
  simp only [Machine.relinkThread, Act.run_get_bind]
  split
  · exact h
  · split
    · exact h.cleanup t
    · simp only [Act.run_ite]
      split
      · exact h.cleanup t
      · split
        · exact h
        · exact h.modifyTarget _ _

theorem relinkFrame (h : m.Storable) (f : FrameHandle) :
    ((Machine.relinkFrame f).run m).state.Storable := by
  simp only [Machine.relinkFrame, Act.run_get_bind]
  split
  · exact h
  · simp only [Act.run_ite]
    split
    · exact h
    · exact h.removeFrame f

theorem pruneThread (h : m.Storable) (t : ThreadHandle) :
    ((Machine.pruneThread t).run m).state.Storable := by
  simp only [Machine.pruneThread, Act.run_get_bind]
  split
  · exact h
  · simp only [Act.run_ite]
    split
    · exact h.cleanup t
    · exact h.modifyThread t _

/-- A pass keeps what each of its visits keeps. -/
theorem pass {kind : String} {α : Type} {f : Handle kind → Act Machine Unit} {table : Table kind α}
    {log : List Diagnostic} (hvisit : ∀ k m, m.Storable → ((f k).run m).state.Storable)
    (hrun : (Act.forEach f table.handles).run m = ⟨(), m', log⟩) (h : m.Storable) :
    m'.Storable := by
  have hall := Act.forEach_induction (f := f) (p := fun _ m => m.Storable) table.nodup_handles h
    fun _ k m _ _ hm => hvisit k m hm
  rwa [hrun] at hall

/-- **The repair keeps a machine fit for a save.** -/
theorem repair (h : m.Storable) (s : Setting) : ((Machine.repair s).run m).state.Storable := by
  obtain ⟨m₁, l₁, m₂, l₂, m₃, l₃, m₄, l₄, m₅, l₅, m₆, l₆, hm₁, hm₂, hm₃, hm₄, hm₅, hm₆, hrun⟩ :=
    repair_passes s m
  have h₁ := pass (fun g _ hm => hm.remapTarget s g) hm₁ h
  have h₂ := pass (fun t _ hm => hm.relinkThread t) hm₂ h₁
  have h₃ := pass (f := pruneTarget) (fun g _ hm => hm.modifyTarget g _) hm₃ h₂
  have h₄ := pass (fun f _ hm => hm.relinkFrame f) hm₄ h₃
  have h₅ := pass (fun t _ hm => hm.pruneThread t) hm₅ h₄
  rw [hrun]
  exact pass (fun f _ hm => hm.endCall f) hm₆ h₅.pruneCommands

/-- A machine that was loaded is fit for a save. -/
theorem of_load {s : Setting} {bs : Bytes} (hload : ((load s bs).run m).value = .ok ()) :
    ((load s bs).run m).state.Storable := by
  cases hread : read bs with
  | error refusal =>
    rw [value_load_error hread] at hload
    cases hload
  | ok fresh =>
    rw [run_load_ok hread]
    dsimp only
    exact (storable_of_read hread).repair s

/-- What was stored and read can be stored again. -/
theorem reread (h : m.Storable) : m.reread.Storable where
  targets := h.targets.reread _
  threads := h.threads.reread _
  frames := h.frames.reread _
  commands := h.commands.reread _
  frame f frame hf := by
    rw [get?_frames_reread] at hf
    obtain ⟨old, hold, rfl⟩ := Option.map_eq_some_iff.1 hf
    exact { h.frame f old hold with }
  command c command hc := by
    rw [get?_commands_reread] at hc
    exact h.command c command hc

end Storable

/-! ## Lists of live invocations -/

/-- **The machine whose targets list live invocations only.** -/
def weeded (m : Machine) : Machine :=
  { m with
    targets :=
      { m.targets with
        objects := m.targets.objects.mapValues fun target =>
          { target with threads := target.threads.filter m.threads.contains } } }

/-- The machine `m'` has the objects and variables of `m`, but no list has an invocation that is
gone. -/
structure Weeded (m m' : Machine) : Prop where
  targets : ∀ g, m'.targets.get? g = (m.targets.get? g).map fun target =>
    { target with threads := target.threads.filter m.threads.contains }
  threads : ∀ t, m'.threads.get? t = m.threads.get? t
  frames : ∀ f, m'.frames.get? f = m.frames.get? f
  commands : ∀ c, m'.commands.get? c = m.commands.get? c
  globals : m'.globals = m.globals

/-- Weeding keeps of each list the invocations that are there. -/
theorem get?_targets_weeded (m : Machine) (g : TargetHandle) :
    m.weeded.targets.get? g = (m.targets.get? g).map fun target =>
      { target with threads := target.threads.filter m.threads.contains } :=
  Assoc.find?_mapValues _ _ g

/-- It changes nothing else. -/
@[simp] theorem threads_weeded (m : Machine) : m.weeded.threads = m.threads := rfl

@[simp] theorem frames_weeded (m : Machine) : m.weeded.frames = m.frames := rfl

@[simp] theorem commands_weeded (m : Machine) : m.weeded.commands = m.commands := rfl

@[simp] theorem globals_weeded (m : Machine) : m.weeded.globals = m.globals := rfl

/-- Weeding twice is weeding once. -/
theorem weeded_weeded (m : Machine) : m.weeded.weeded = m.weeded := by
  refine ext_tables (Table.ext_get? rfl fun g => ?_) rfl rfl rfl rfl
  rw [get?_targets_weeded, get?_targets_weeded, Option.map_map, threads_weeded]
  refine congrArg (fun u => (m.targets.get? g).map u) (funext fun target => ?_)
  simp

theorem Storable.weeded (h : m.Storable) : m.weeded.Storable :=
  { h with
    targets := h.targets.of_subset rfl fun g hg => by rw [get?_targets_weeded, hg]; rfl }

/-- A shorter list has no more bytes. -/
theorem length_encode_weeded (target : Target) (p : ThreadHandle → Bool) :
    (Binary.encode { target with threads := target.threads.filter p }).length ≤
      (Binary.encode target).length := by
  have hitems : ∀ ts : List ThreadHandle,
      (Binary.encodeAll (ts.filter p)).length ≤ (Binary.encodeAll ts).length := by
    intro ts
    induction ts with
    | nil => exact Nat.le_refl 0
    | cons t ts ih =>
      rw [List.filter_cons]
      split
      · simp only [Binary.encodeAll, List.length_append]
        omega
      · simp only [Binary.encodeAll, List.length_append]
        omega
  have hthreads := hitems target.threads
  change (Binary.encode target.entity ++ Binary.encode target.vars ++
      Binary.encode (target.threads.filter p)).length ≤
    (Binary.encode target.entity ++ Binary.encode target.vars ++
      Binary.encode target.threads).length
  simp only [List.length_append, Binary.length_encode_list]
  omega

/-- A list gets no longer by it, so what fits its frame still does. -/
theorem Fits.weeded (h : m.Fits) : m.weeded.Fits :=
  { h with
    targets := fun g target hg => by
      rw [get?_targets_weeded] at hg
      obtain ⟨old, hold, rfl⟩ := Option.map_eq_some_iff.1 hg
      exact Nat.le_trans (length_encode_weeded old _) (h.targets g old hold) }

/-- The bytes of an object do not tell whether it is claimed or scanned. -/
theorem Fits.reread (h : m.Fits) : m.reread.Fits where
  targets g target hg := by
    rw [get?_targets_reread] at hg
    exact h.targets g target hg
  threads t thread ht := by
    rw [get?_threads_reread] at ht
    obtain ⟨old, hold, rfl⟩ := Option.map_eq_some_iff.1 ht
    exact h.threads t old hold
  frames f frame hf := by
    rw [get?_frames_reread] at hf
    obtain ⟨old, hold, rfl⟩ := Option.map_eq_some_iff.1 hf
    exact h.frames f old hold
  commands c command hc := by
    rw [get?_commands_reread] at hc
    exact h.commands c command hc
  globals := h.globals

/-! ## Links in order -/

/-- A mended machine is rooted: links lead from every object up to a target. -/
theorem Mended.rooted (h : m.Mended) : m.Rooted := ⟨h.target, h.stack, h.stacked, h.held⟩

theorem Rooted.weeded (h : m.Rooted) : m.weeded.Rooted :=
  { h with
    target := fun t thread ht => by
      obtain ⟨target, htarget, hmem⟩ := h.target t thread ht
      refine ⟨_, by rw [get?_targets_weeded, htarget]; rfl, List.mem_filter.2 ⟨hmem, ?_⟩⟩
      exact Table.contains_iff.2 ⟨thread, ht⟩ }

/-- Storing and reading changes no link. -/
theorem Rooted.reread (h : m.Rooted) : m.reread.Rooted where
  target t thread ht := by
    rw [get?_threads_reread] at ht
    obtain ⟨old, hold, rfl⟩ := Option.map_eq_some_iff.1 ht
    obtain ⟨target, htarget, hmem⟩ := h.target t old hold
    exact ⟨target, by rw [get?_targets_reread, htarget], hmem⟩
  stack t thread ht := by
    rw [get?_threads_reread] at ht
    obtain ⟨old, hold, rfl⟩ := Option.map_eq_some_iff.1 ht
    obtain ⟨hne, hlive⟩ := h.stack t old hold
    refine ⟨hne, fun f hf => ?_⟩
    obtain ⟨frame, hframe⟩ := hlive f hf
    exact ⟨_, by rw [get?_frames_reread, hframe]; rfl⟩
  stacked f frame hf := by
    rw [get?_frames_reread] at hf
    obtain ⟨old, hold, rfl⟩ := Option.map_eq_some_iff.1 hf
    obtain ⟨thread, hthread, hmem⟩ := h.stacked f old hold
    exact ⟨{ thread with claimed := false }, by rw [get?_threads_reread, hthread]; rfl, hmem⟩
  held c command hc := by
    rw [get?_commands_reread] at hc
    obtain ⟨f, frame, hframe, hmem⟩ := h.held c command hc
    exact ⟨f, { frame with readiness := .unknown }, by rw [get?_frames_reread, hframe]; rfl, hmem⟩

/-- **The pass over targets weeds them.** -/
theorem run_pruneTargets (m : Machine) :
    (Act.forEach pruneTarget m.targets.handles).run m = ⟨(), m.weeded, []⟩ := by
  -- what the pass has done after some of the targets
  have hpass := Act.forEach_spec (f := pruneTarget) (q := fun _ => False) (s := m)
    (p := fun done m' => m'.targets.next = m.targets.next ∧
      (∀ g, m'.targets.get? g = (m.targets.get? g).map fun target =>
        if g ∈ done then { target with threads := target.threads.filter m.threads.contains }
        else target) ∧
      m'.threads = m.threads ∧ m'.frames = m.frames ∧ m'.commands = m.commands ∧
      m'.globals = m.globals)
    m.targets.nodup_handles ⟨rfl, fun g => by simp, rfl, rfl, rfl, rfl⟩ ?_
  · obtain ⟨⟨hnext, htargets, hthreads, hframes, hcommands, hglobals⟩, hlog⟩ := hpass
    have hstate : ((Act.forEach pruneTarget m.targets.handles).run m).state = m.weeded := by
      refine ext_tables (Table.ext_get? hnext fun g => ?_) hthreads hframes hcommands hglobals
      rw [htargets, get?_targets_weeded]
      cases hg : m.targets.get? g with
      | none => rfl
      | some target =>
        rw [Option.map_some, if_pos (Table.mem_handles_iff.2 (by rw [hg]; rfl)), Option.map_some]
    rw [← hstate, ← List.eq_nil_iff_forall_not_mem.2 hlog]
  · rintro done g m' hg - ⟨hnext, htargets, hthreads, hframes, hcommands, hglobals⟩
    refine ⟨⟨hnext, fun k => ?_, hthreads, hframes, hcommands, hglobals⟩, List.forall_mem_nil _⟩
    rw [pruneTarget, Act.run_modify, targets_modifyTarget, Table.get?_modify, htargets, hthreads]
    by_cases hk : k = g
    · subst hk
      simp [hg]
    · simp [hk]

/-- **All that the repair does to a machine whose links are in order**, if no call is open and every
entity is kept. -/
theorem Rooted.run_repair {s : Setting} (h : m.Rooted) (hsettled : m.Settled)
    (hkeeps : ∀ e, s.remap e = some e) : (repair s).run m = ⟨(), m.weeded, []⟩ := by
  have hsame := h.weeded.pruneCommands_eq
  refine Machine.run_repair
    (Act.run_forEach_of_still fun g _ => run_remapTarget_of_keeps hkeeps g m)
    (Act.run_forEach_of_still fun t _ => h.run_relinkThread t) (run_pruneTargets m)
    (Act.run_forEach_of_still fun f _ => h.weeded.run_relinkFrame f)
    (Act.run_forEach_of_still fun t _ => h.weeded.run_pruneThread t) ?_
  rw [hsame]
  exact Act.run_forEach_of_still fun f _ => run_endCall_of_idle (hsettled f)

/-! ## Loading what was saved -/

/-- **What was read and weeded reads back as it is**, its counters included. -/
theorem reread_weeded (m : Machine) : m.reread.weeded.reread = m.reread.weeded := by
  refine ext_tables (Table.reread_eq_self ?_ fun _ _ _ => rfl)
    (Table.reread_eq_self rfl fun t thread ht => ?_) (Table.reread_eq_self rfl fun f frame hf => ?_)
    (Table.reread_eq_self rfl fun _ _ _ => rfl) rfl
  · exact (Table.next_ofObjects_mapValues _ _).symm
  · rw [threads_weeded, get?_threads_reread] at ht
    obtain ⟨old, -, rfl⟩ := Option.map_eq_some_iff.1 ht
    rfl
  · rw [frames_weeded, get?_frames_reread] at hf
    obtain ⟨old, -, rfl⟩ := Option.map_eq_some_iff.1 hf
    rfl

/-- No frame of a settled machine waits, also after storing and reading. -/
theorem Settled.reread (h : m.Settled) : m.reread.Settled := by
  intro f frame hf
  rw [get?_frames_reread] at hf
  obtain ⟨old, hold, rfl⟩ := Option.map_eq_some_iff.1 hf
  exact h f old hold

/-- **Loading the save of a machine whose links are in order** weeds it, and reports nothing. -/
theorem Rooted.load_save {s : Setting} {bs : Bytes} (h : m.Rooted) (hsettled : m.Settled)
    (hfits : m.Fits) (hstorable : m.Storable) (hsave : m.save = .ok bs)
    (hkeeps : ∀ e, s.remap e = some e) (m₀ : Machine) :
    (load s bs).run m₀ = ⟨.ok (), m.reread.weeded, []⟩ := by
  rw [run_load_ok (read_save hsave hfits hstorable), h.reread.run_repair hsettled.reread hkeeps]

/-- **Storing, reading and weeding a mended machine** gives the machine itself, but for claims and
for what frames remember. -/
theorem Mended.weeded_reread (h : m.Mended) : Weeded m m.reread.weeded where
  targets g := by
    have hlive : m.reread.threads.contains = m.threads.contains := by
      funext t
      rw [Table.contains_eq, Table.contains_eq, get?_threads_reread, Option.isSome_map]
    rw [get?_targets_weeded, get?_targets_reread, hlive]
  threads t := by
    rw [threads_weeded, get?_threads_reread]
    cases ht : m.threads.get? t with
    | none => rfl
    | some thread => rw [Option.map_some, ← h.claimed t thread ht]
  frames f := by
    rw [frames_weeded, get?_frames_reread]
    cases hf : m.frames.get? f with
    | none => rfl
    | some frame => rw [Option.map_some, ← h.readiness f frame hf]
  commands c := by rw [commands_weeded, get?_commands_reread]
  globals := rfl

/-- The variables of a machine that can be saved can be counted in 32 bits. -/
theorem size_globals_of_save {bs : Bytes} (hsave : m.save = .ok bs) :
    m.globals.size < UInt32.size := by
  obtain ⟨_, _, _, _, _, -, -, -, -, hglobals, -⟩ := save_eq_ok hsave
  obtain ⟨-, hlt, -, -⟩ := Vars.save_eq_ok hglobals
  exact hlt

/-- **Repair reaches a fixed point.** Whatever bytes a machine was loaded from, it can be saved if
its objects fit and its variables can be counted. Loaded again where every entity is kept, it loses
nothing but the invocations that are gone from the lists of targets; and from then on a save and a
load give back the same machine, and so the same bytes. -/
theorem fixed_of_load {s : Setting} {bs : Bytes} {m₀ : Machine} {log : List Diagnostic}
    (hload : (load s bs).run m₀ = ⟨.ok (), m, log⟩) (hfits : m.Fits) :
    ((∃ bs₁, m.save = .ok bs₁) ↔ m.globals.size < UInt32.size) ∧
      ∀ bs₁, m.save = .ok bs₁ → ∃ second bs₂, Weeded m second ∧ second.save = .ok bs₂ ∧
        ∀ keep : Setting, (∀ e, keep.remap e = some e) →
          (∀ m₁, (load keep bs₁).run m₁ = ⟨.ok (), second, []⟩) ∧
          ∀ m₂, (load keep bs₂).run m₂ = ⟨.ok (), second, []⟩ := by
  have hvalue : ((load s bs).run m₀).value = .ok () := by rw [hload]
  obtain ⟨hmended, -⟩ := mended_of_load s bs m₀ hvalue
  have hstorable := Storable.of_load hvalue
  rw [hload] at hmended hstorable
  refine ⟨⟨fun ⟨_, hsave⟩ => size_globals_of_save hsave, exists_save hfits hstorable⟩,
    fun bs₁ hsave => ?_⟩
  have hfits' := hfits.reread.weeded
  have hstorable' := hstorable.reread.weeded
  have hcount : m.globals.size < UInt32.size := size_globals_of_save hsave
  obtain ⟨bs₂, hsave'⟩ := exists_save hfits' hstorable' hcount
  refine ⟨m.reread.weeded, bs₂, hmended.weeded_reread, hsave',
    fun keep hkeeps => ⟨fun m₁ => ?_, fun m₂ => ?_⟩⟩
  · exact hmended.rooted.load_save hmended.pending hfits hstorable hsave hkeeps m₁
  · have hagain :=
      hmended.rooted.reread.weeded.load_save (Settled.reread hmended.pending) hfits' hstorable'
      hsave' hkeeps m₂
    rwa [reread_weeded, weeded_weeded] at hagain

/-- A machine with an invocation that has lost its frames and that two targets list. -/
def crosslisted : Machine where
  targets := Table.ofObjects
    (((∅ : Assoc _ _ _).insert ⟨1⟩ { entity := some ⟨7⟩, threads := [⟨1⟩, ⟨2⟩] }).insert ⟨2⟩
      { entity := some ⟨8⟩, threads := [⟨2⟩] })
  threads := Table.ofObjects (((∅ : Assoc _ _ _).insert ⟨1⟩
    { target := ⟨1⟩, script := "greet", stack := [⟨1⟩] }).insert ⟨2⟩
    { target := ⟨1⟩, script := "greet", stack := [⟨9⟩] })
  frames := Table.ofObjects ((∅ : Assoc _ _ _).insert ⟨1⟩
    { thread := ⟨1⟩, script := "greet", dialect := .line, commands := [⟨1⟩],
      gotos := ∅, gosubs := ∅ })
  commands := Table.ofObjects ((∅ : Assoc _ _ _).insert ⟨1⟩ ⟨1, ["say", "hello"]⟩)

/-- The second load takes the lost invocation off the list that the first one left it on. -/
theorem crosslisted_fixed :
    ∃ bs m log bs₁ second bs₂, crosslisted.save = .ok bs ∧ (load {} bs).run ∅ = ⟨.ok (), m, log⟩ ∧
      (m.targets.get? ⟨2⟩).map Target.threads = some [⟨2⟩] ∧ m.save = .ok bs₁ ∧
      (second.targets.get? ⟨2⟩).map Target.threads = some [] ∧ second.save = .ok bs₂ ∧
      (load {} bs₁).run ∅ = ⟨.ok (), second, []⟩ ∧ (load {} bs₂).run ∅ = ⟨.ok (), second, []⟩ := by
  obtain ⟨bs, hsave, hload, hfits, hcount, hlisted, hgone⟩ : ∃ bs, crosslisted.save = .ok bs ∧
      ((load {} bs).run ∅).value = .ok () ∧ ((load {} bs).run ∅).state.Fits ∧
      ((load {} bs).run ∅).state.globals.size < UInt32.size ∧
      (((load {} bs).run ∅).state.targets.get? ⟨2⟩).map Target.threads = some [⟨2⟩] ∧
      ((load {} bs).run ∅).state.threads.contains ⟨2⟩ = false := by
    refine ⟨crosslisted.save.toOption.getD [], ?_, ?_, ?_, ?_, ?_, ?_⟩ <;> decide +kernel
  generalize hrun : (load {} bs).run ∅ = o at hload hfits hcount hlisted hgone
  obtain ⟨value, m, log⟩ := o
  obtain rfl : value = .ok () := hload
  obtain ⟨hsaves, hsecond⟩ := fixed_of_load hrun hfits
  obtain ⟨bs₁, hsave₁⟩ := hsaves.2 hcount
  obtain ⟨second, bs₂, hweeded, hsave₂, hagain⟩ := hsecond bs₁ hsave₁
  obtain ⟨hreload, hstay⟩ := hagain {} fun _ => rfl
  refine ⟨bs, m, log, bs₁, second, bs₂, hsave, hrun, hlisted, hsave₁, ?_, hsave₂,
    hreload ∅, hstay ∅⟩
  obtain ⟨target, htarget, hthreads⟩ := Option.map_eq_some_iff.1 hlisted
  rw [hweeded.targets, htarget, Option.map_some, Option.map_some, hthreads]
  exact congrArg some (List.filter_cons_of_neg (by simpa using hgone))

end Machine

end StepScript
