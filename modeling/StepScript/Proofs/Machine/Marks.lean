import StepScript.Proofs.Machine.Bounded
import StepScript.Proofs.Machine.Opening
import StepScript.Proofs.Machine.Oversize

/-!
# Proofs/Machine/Marks — nothing but a claim marks an invocation

An invocation carries two marks: that it is claimed, and that it ever was. A load takes the first
away and keeps the second. Whatever else happens to a machine, sound or not, leaves the marks of the
invocations that stay as they are (`Machine.KeepsMarks`), so that only starts and claims remain to
be looked at.

* `Machine.KeepsMarks` — no invocation is new, and none has a mark that it did not have.
* `Line.Program.keepsMarks`, `Machine.KeepsMarks.prepare` — lines, and what precedes them.
* `Machine.KeepsMarks.reload` — a save that is loaded at once.
* `Machine.claimNext_cases` — what a claim marks.
-/

namespace StepScript

namespace Machine

variable {m m' : Machine}

/-- Zero names no target and no invocation. -/
structure Tidy (m : Machine) : Prop where
  targets : m.targets.Proper
  threads : m.threads.Proper

/-- **Marks are kept**: no invocation is new; one that was ever claimed still says so, and no other
does; none is claimed that was not. -/
structure KeepsMarks (m m' : Machine) : Prop where
  tidy : m.Tidy → m'.Tidy
  thread : ∀ t thread', m'.threads.get? t = some thread' →
    ∃ thread, m.threads.get? t = some thread ∧
    thread'.wasClaimed = thread.wasClaimed ∧ (thread'.claimed = true → thread.claimed = true)

namespace KeepsMarks

theorem refl (m : Machine) : KeepsMarks m m := ⟨id, fun _ thread ht => ⟨thread, ht, rfl, id⟩⟩

theorem trans {m₁ m₂ m₃ : Machine} (h : KeepsMarks m₁ m₂) (h' : KeepsMarks m₂ m₃) :
    KeepsMarks m₁ m₃ := by
  refine ⟨h'.tidy ∘ h.tidy, fun t thread ht => ?_⟩
  obtain ⟨mid, hmid, hwas', hclaimed'⟩ := h'.thread t thread ht
  obtain ⟨first, hfirst, hwas, hclaimed⟩ := h.thread t mid hmid
  exact ⟨first, hfirst, hwas'.trans hwas, hclaimed ∘ hclaimed'⟩

/-- Targets may change, and frames and commands may come and go. -/
theorem of_targets (htargets : m.targets.Proper → m'.targets.Proper)
    (hthreads : m'.threads = m.threads) :
    KeepsMarks m m' := by
  refine ⟨fun h => ⟨htargets h.targets, hthreads ▸ h.threads⟩, fun t thread ht => ?_⟩
  rw [hthreads] at ht
  exact ⟨thread, ht, rfl, id⟩

/-- What leaves targets and threads alone keeps marks. -/
theorem of_same (htargets : m'.targets = m.targets) (hthreads : m'.threads = m.threads) :
    KeepsMarks m m' :=
  of_targets (fun h => htargets ▸ h) hthreads

theorem modifyTarget (m : Machine) (g : TargetHandle) (u : Target → Target) :
    KeepsMarks m (m.modifyTarget g u) :=
  of_targets (fun h => h.modify g u) rfl

/-- So does a change of an invocation that leaves its marks alone. -/
theorem modifyThread (m : Machine) (t : ThreadHandle) {u : Thread → Thread}
    (hu : ∀ thread, (u thread).wasClaimed = thread.wasClaimed ∧
      (u thread).claimed = thread.claimed) :
    KeepsMarks m (m.modifyThread t u) := by
  refine ⟨fun h => ⟨h.targets, h.threads.modify t u⟩, fun k thread' hk => ?_⟩
  rw [threads_modifyThread, Table.get?_modify] at hk
  split at hk
  · obtain ⟨thread, hthread, rfl⟩ := Option.map_eq_some_iff.1 hk
    exact ⟨thread, hthread, (hu thread).1, fun hclaimed => (hu thread).2 ▸ hclaimed⟩
  · exact ⟨thread', hk, rfl, id⟩

theorem erase (m : Machine) (t : ThreadHandle) :
    KeepsMarks m { m with threads := m.threads.erase t } := by
  refine ⟨fun h => ⟨h.targets, h.threads.erase t⟩, fun k thread hk => ?_⟩
  rw [Table.get?_erase] at hk
  split at hk
  · cases hk
  · exact ⟨thread, hk, rfl, id⟩

/-- Cancelling an invocation takes its marks with it and leaves the others. -/
theorem cleanup (m : Machine) (t : ThreadHandle) : KeepsMarks m (m.cleanup t) := by
  have hshrinks := Shrinks.cleanup m t
  refine ⟨fun h => ⟨hshrinks.targets.proper h.targets, hshrinks.threads.proper h.threads⟩,
    fun k thread hk => ?_⟩
  rw [threads_cleanup] at hk
  exact (erase m t).thread k thread hk

theorem reset (m : Machine) : KeepsMarks m ∅ := by
  refine ⟨fun _ => ⟨.empty, .empty⟩, fun t thread ht => ?_⟩
  cases ht

theorem removeFrame (m : Machine) (f : FrameHandle) : KeepsMarks m (m.removeFrame f) :=
  of_same (targets_removeFrame m f) (threads_removeFrame m f)

theorem unstack (m : Machine) (t : ThreadHandle) (f : FrameHandle) : KeepsMarks m (m.unstack t f) :=
  modifyThread m t fun _ => ⟨rfl, rfl⟩

/-- Edits keep marks. -/
theorem edits (h : Edits m m') : KeepsMarks m m' := by
  induction h with
  | refl => exact refl m
  | tail _ hedit ih =>
    refine ih.trans ?_
    cases hedit with
    | frame => exact of_same rfl rfl
    | threadVariable t name value => exact modifyThread _ t fun _ => ⟨rfl, rfl⟩
    | targetVariable g name value => exact modifyTarget _ g _
    | globalVariable => exact of_same rfl rfl

/-- Pushing a script keeps marks. -/
theorem pushed (m : Machine) (t : ThreadHandle) (script : Script) (args : List String) :
    KeepsMarks m (m.pushed t script args) :=
  (modifyThread m t (u := fun thread => { thread with stack := m.frames.fresh :: thread.stack })
    fun _ => ⟨rfl, rfl⟩).trans (of_same rfl rfl)

theorem abandoned (m : Machine) (t : ThreadHandle) (script : Script) (args : List String) :
    KeepsMarks m (m.abandoned t script args) :=
  (pushed m t script args).trans (removeFrame _ _)

/-! ## Before and after a line -/

/-- Unwinding keeps the marks of who stays. -/
theorem settle (n : Nat) (t : ThreadHandle) (m : Machine) :
    KeepsMarks m ((Machine.settle n t).run m).state := by
  induction n generalizing m with
  | zero => exact cleanup m t
  | succ n ih =>
    simp only [Machine.settle, Act.run_get_bind]
    split
    · exact cleanup m t
    · next top _ =>
      have hready := edits (edits_ensureReady top m)
      rw [Act.run_bind]
      split
      · exact hready.trans ((unstack _ t top).trans ((removeFrame _ top).trans (ih _)))
      · exact hready
      · exact hready.trans ((unstack _ t top).trans (ih _))

theorem popFrame (t : ThreadHandle) (f : FrameHandle) (m : Machine) :
    KeepsMarks m ((Machine.popFrame t f).run m).state := by
  simp only [Machine.popFrame, Act.run_get_bind]
  split
  · exact removeFrame m f
  · have hleave := (unstack m t f).trans (removeFrame _ f)
    rw [Act.run_ite]
    split <;> exact hleave.trans (settle _ t _)

theorem loadLine (t : ThreadHandle) (f : FrameHandle) (m : Machine) :
    KeepsMarks m ((Machine.loadLine t f).run m).state := by
  simp only [Machine.loadLine, Act.run_get_bind]
  split
  · exact refl m
  · split
    · exact of_same rfl rfl
    · exact refl m

/-- **Readying a frame.** -/
theorem prepare (f : FrameHandle) (m : Machine) :
    KeepsMarks m ((Machine.prepare f).run m).state := by
  simp only [Machine.prepare, Act.run_get_bind]
  split
  · exact refl m
  · rw [Act.run_bind, state_threadOf]
    split
    · exact refl m
    · next t _ =>
      have hready := edits (edits_ensureReady f m)
      rw [Act.run_ite, Act.run_ite, Act.run_bind]
      split
      · exact refl m
      · split
        · exact refl m
        · split
          · exact hready
          · exact hready.trans (popFrame t f _)
          · exact hready.trans (loadLine t f _)

/-- **However the host answers.** -/
theorem takeAnswer (l : Line) (call : Call) (assignTo : Option String)
    (answer : Except Failure Completion) (m : Machine) :
    KeepsMarks m ((Machine.takeAnswer l call assignTo answer).run m).state := by
  rcases answer with failure | value | _
  · exact of_same rfl rfl
  · have hresult : KeepsMarks m (m.resulted l.frame value) := of_same rfl rfl
    rw [(run_takeAnswer_ready l call assignTo value m).2]
    exact hresult.trans ((edits (edits_delivered _ _ _ _)).trans (of_same rfl rfl))
  · exact of_same rfl rfl

end KeepsMarks

end Machine

/-- **A line** marks no invocation, wherever it stands. -/
theorem Line.Program.keepsMarks {s : Setting} {l : Line} {α : Type} {x : Act Machine α}
    (h : l.Program s x) (m : Machine) : m.KeepsMarks (x.run m).state := by
  induction h generalizing m with
  | pure => exact .refl m
  | bind _ _ hx hy => exact (hx m).trans (hy _ _)
  | look _ _ hy => exact hy m m
  | warn => exact .refl m
  | readToken =>
    rw [Machine.state_readToken]
    exact .refl m
  | entityOf =>
    rw [Machine.state_entityOf]
    exact .refl m
  | assignToken => exact .edits (Machine.edits_assignToken ..)
  | enterSub => exact .of_same rfl rfl
  | leaveSub => exact .of_same rfl rfl

namespace Machine

variable {m m' : Machine}

namespace KeepsMarks

/-- Planning a line keeps marks. -/
theorem plan (s : Setting) (l : Line) (m : Machine) :
    KeepsMarks m ((Machine.plan s l).run m).state :=
  (Line.Program.plan s l).keepsMarks m

/-! ## Loads -/

theorem cleanupAll (ts : List ThreadHandle) (m : Machine) :
    KeepsMarks m (ts.foldl Machine.cleanup m) := by
  induction ts generalizing m with
  | nil => exact refl m
  | cons t ts ih => exact (cleanup m t).trans (ih _)

/-- Each pass of a repair keeps the marks of who stays. -/
theorem remapTarget (s : Setting) (g : TargetHandle) (m : Machine) :
    KeepsMarks m ((Machine.remapTarget s g).run m).state := by
  simp only [Machine.remapTarget, Act.run_get_bind]
  split
  · exact refl m
  · split
    · exact refl m
    · split
      · exact modifyTarget m g _
      · exact (modifyTarget m g _).trans (cleanupAll _ _)

theorem relinkThread (t : ThreadHandle) (m : Machine) :
    KeepsMarks m ((Machine.relinkThread t).run m).state := by
  simp only [Machine.relinkThread, Act.run_get_bind]
  split
  · exact refl m
  · split
    · exact cleanup m t
    · rw [Act.run_ite, Act.run_ite]
      split
      · exact cleanup m t
      · split
        · exact refl m
        · exact modifyTarget m _ _

theorem relinkFrame (f : FrameHandle) (m : Machine) :
    KeepsMarks m ((Machine.relinkFrame f).run m).state := by
  simp only [Machine.relinkFrame, Act.run_get_bind]
  split
  · exact refl m
  · rw [Act.run_ite]
    split
    · exact refl m
    · exact removeFrame m f

theorem pruneThread (t : ThreadHandle) (m : Machine) :
    KeepsMarks m ((Machine.pruneThread t).run m).state := by
  simp only [Machine.pruneThread, Act.run_get_bind]
  split
  · exact refl m
  · rw [Act.run_ite]
    split
    · exact cleanup m t
    · exact modifyThread m t fun _ => ⟨rfl, rfl⟩

theorem endCall (f : FrameHandle) (m : Machine) :
    KeepsMarks m ((Machine.endCall f).run m).state := by
  simp only [Machine.endCall, Act.run_get_bind]
  split
  · exact refl m
  · have hcomplete := edits (edits_completeCall f "" m)
    rw [Act.run_bind]
    split <;> exact hcomplete

/-- A pass keeps marks if each of its visits does. -/
theorem pass {α : Type} {x : α → Act Machine Unit} {as : List α} {l : List Diagnostic}
    (hvisit : ∀ a m, KeepsMarks m ((x a).run m).state)
    (hrun : (Act.forEach x as).run m = ⟨(), m', l⟩) :
    KeepsMarks m m' := by
  induction as generalizing m l with
  | nil =>
    cases hrun
    exact refl _
  | cons a as ih =>
    rw [Act.run_forEach_cons] at hrun
    obtain ⟨-, rfl, -⟩ := Outcome.mk.inj hrun
    exact (hvisit a m).trans (ih rfl)

/-- **Mending a machine** that was read. -/
theorem repair (s : Setting) (m : Machine) : KeepsMarks m ((Machine.repair s).run m).state := by
  obtain ⟨m₁, l₁, m₂, l₂, m₃, l₃, m₄, l₄, m₅, l₅, m₆, l₆, hm₁, hm₂, hm₃, hm₄, hm₅, hm₆, hrun⟩ :=
    repair_passes s m
  rw [hrun]
  have h₃ : KeepsMarks m m₃ := ((pass (remapTarget s) hm₁).trans (pass relinkThread hm₂)).trans
    (pass (x := pruneTarget) (fun g m => modifyTarget m g _) hm₃)
  have h₅ : KeepsMarks m m₅ := (h₃.trans (pass relinkFrame hm₄)).trans (pass pruneThread hm₅)
  have hpruned : KeepsMarks m₅ m₅.pruneCommands := of_same rfl rfl
  exact (h₅.trans hpruned).trans (pass endCall hm₆)

/-- Reading a save back gives the invocations that were saved, unclaimed. -/
theorem of_read {bs : Bytes} (hsave : m.save = .ok bs) (htidy : m.Tidy) (hread : read bs = .ok m') :
    KeepsMarks m m' := by
  have hfits := fits_of_read hsave hread
  obtain ⟨targets, threads, frames, commands, globals, htargets, hthreads, -, -, -, rfl⟩ :=
    save_eq_ok hsave
  obtain ⟨bs₁, bs₂, bs₃, bs₄, bs₅, left, hversion, hfirst, hsecond, -⟩ := read_eq_ok.1 hread
  have hback := Table.load_save (f := id) htargets fun g target hg =>
    ⟨htidy.targets.live g target hg, hfits.targets g target hg,
      target.readsBack (hfits.targets g target hg)⟩
  have hback' :=
    Table.load_save (f := fun t => { t with claimed := false }) hthreads fun t thread ht =>
    ⟨htidy.threads.live t thread ht, hfits.threads t thread ht,
      thread.readsBack (hfits.threads t thread ht)⟩
  simp only [List.append_assoc, Stream.readWord_encode, Prod.mk.injEq, true_and] at hversion
  rw [← hversion, hback, Prod.mk.injEq] at hfirst
  rw [← hfirst.2, hback', Prod.mk.injEq] at hsecond
  have hm₁ : m.targets.reread id = m'.targets := Except.ok.inj hfirst.1
  have hm₂ : m.threads.reread (fun t => { t with claimed := false }) = m'.threads :=
    Except.ok.inj hsecond.1
  refine ⟨fun h => ⟨hm₁ ▸ h.targets.reread id, hm₂ ▸ h.threads.reread _⟩, fun t thread' ht => ?_⟩
  rw [← hm₂, Table.get?_reread] at ht
  obtain ⟨thread, hthread, rfl⟩ := Option.map_eq_some_iff.1 ht
  exact ⟨thread, hthread, rfl, fun hclaimed => Bool.noConfusion hclaimed⟩

/-- **A save that is loaded at once**: it is refused and nothing is left, or those that were ever
claimed still say so. -/
theorem reload {bs : Bytes} (hsave : m.save = .ok bs) (htidy : m.Tidy) (s : Setting)
    (m₀ : Machine) :
    KeepsMarks m ((Machine.load s bs).run m₀).state := by
  cases hread : read bs with
  | error refusal =>
    rw [state_load_error hread]
    exact reset m
  | ok m' =>
    rw [run_load_ok hread]
    dsimp only
    exact (of_read hsave htidy hread).trans (repair s m')

end KeepsMarks

/-! ## Starts and claims -/

/-- A machine is still tidy when an invocation is being started. -/
theorem Tidy.opened (h : m.Tidy) (entity : EntityId) (name : String) :
    (m.opened entity name).Tidy :=
  ⟨proper_home h.targets entity, h.threads.create _⟩

/-- **A claim** finds that all invocations are marked, or marks the one with the smallest handle
that is not. -/
theorem claimNext_cases (m : Machine) :
    (m.claimNext = (none, m) ∧
        ∀ t thread, m.threads.get? t = some thread → (thread.claimed || thread.wasClaimed) = true) ∨
      ∃ t thread, m.threads.get? t = some thread ∧ (thread.claimed || thread.wasClaimed) = false ∧
        (∀ k other, m.threads.get? k = some other → (other.claimed || other.wasClaimed) = false →
          t.raw ≤ k.raw) ∧
        m.claimNext = (some t,
          m.modifyThread t fun thread => { thread with claimed := true, wasClaimed := true }) := by
  rw [claimNext]
  cases hfind : m.threads.findHandle? fun t => !(t.claimed || t.wasClaimed) with
  | none =>
    have hmarked := Table.findHandle?_eq_none_iff.1 hfind
    simp only [Bool.not_eq_false'] at hmarked
    exact .inl ⟨rfl, hmarked⟩
  | some t =>
    have hleast := Table.findHandle?_least hfind
    simp only [Bool.not_eq_true'] at hleast
    obtain ⟨⟨thread, hthread, hunmarked⟩, hleast⟩ := hleast
    exact .inr ⟨t, thread, hthread, hunmarked, hleast, rfl⟩

end Machine

end StepScript
