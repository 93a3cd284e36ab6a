import StepScript.Proofs.Host.Operation
import StepScript.Proofs.Machine.Salvage

/-!
# Proofs/Machine/Bounded — what keeps a run within bounds

A save need not come from a machine. Once it is loaded, a frame's cursor and labels may lie far past
its commands, commands may be gone or shared, a stack may have a frame twice, and frames may stand
on stacks of invocations that are not theirs. Little has to hold of a machine for every index to
stay in range all the same: no frame can be sent past a number that a machine word cannot hold, and
a frame that remembers to be ready has a command at its cursor. Nothing is asked of the links.

* `Frame.Bounded`, `Machine.Bounded` — the invariant.
* `Machine.Bounded.edits`, `Machine.Bounded.prepare`, `Machine.Bounded.pushed`, … — it is kept.
* `Machine.Countable.bounded_of_load` — a load establishes it, if what was saved to go on after can
  be counted up.
-/

namespace StepScript

/-- **The frame is within bounds**: whatever it may go on after can be counted up in a machine word,
and the command that it remembers as ready is one of its own. -/
structure Frame.Bounded (frame : Frame) : Prop where
  count : frame.commands.length < UInt64.size
  gosub : ∀ key index, frame.gosubs.find? key = some index → index + 1 < UInt64.size
  returns : ∀ index ∈ frame.returns, index + 1 < UInt64.size
  ready : frame.readiness = .ready → frame.cursor < frame.commands.length

namespace Machine

variable {m m' : Machine} {f : FrameHandle} {t : ThreadHandle}

/-- **The machine is within bounds**, whoever owns what. -/
structure Bounded (m : Machine) : Prop where
  proper : m.Proper
  frame : ∀ f frame, m.frames.get? f = some frame → frame.Bounded

/-! ## Scanning -/

/-- A command that a scan finds ready is one of those it looked at. -/
theorem index_scanFrom_lt {index : Nat} {hs : List CommandHandle}
    (h : (m.scanFrom index hs).readiness = .ready) :
    (m.scanFrom index hs).index < index + hs.length := by
  rcases (m.scanFrom_spec index hs).2 with ⟨-, c, -, hc, -⟩ | ⟨hexhausted, -⟩
  · have hlt := (List.getElem?_eq_some_iff.1 hc).1
    omega
  · rw [hexhausted] at h
    cases h

/-- **A frame that was readied** is ready or exhausted, and remembers which. -/
theorem readiness_ensureReady {frame : Frame} (hf : m.frames.get? f = some frame) :
    ∃ frame', ((ensureReady f).run m).state.frames.get? f = some frame' ∧
      ((ensureReady f).run m).value = .ok frame'.readiness ∧ frame'.readiness ≠ .unknown := by
  simp only [ensureReady, Act.run_get_bind, hf]
  split
  · have hscan := (m.scanFrom_spec frame.cursor (frame.commands.drop frame.cursor)).2
    refine ⟨_, (Table.get?_modify m.frames f f _).trans
      ((if_pos rfl).trans (congrArg (Option.map _) hf)), rfl, ?_⟩
    rcases hscan with ⟨hready, -⟩ | ⟨hexhausted, -⟩
    · simp [hready]
    · simp [hexhausted]
  · next hknown => exact ⟨frame, hf, rfl, hknown⟩

/-! ## Contents -/

/-- **A frame that runs stays within bounds.** -/
theorem FrameEdit.bounded {frame frame' : Frame} (h : m.FrameEdit frame frame')
    (hframe : frame.Bounded) :
    frame'.Bounded := by
  have hcount := hframe.count
  cases h with
  | assign => exact { hframe with }
  | result => exact { hframe with }
  | complete => exact { hframe with }
  | enterSub hindex =>
    exact { hframe with returns := List.forall_mem_cons.2 ⟨by omega, hframe.returns⟩ }
  | leaveSub =>
    exact { hframe with
      returns := fun index hmem => hframe.returns index (List.mem_of_mem_tail hmem) }
  | move => exact { hframe with ready := by rintro ⟨⟩ }
  | park => exact { hframe with ready := by rintro ⟨⟩ }
  | scan =>
    refine { hframe with ready := fun hready => ?_ }
    have hlt := index_scanFrom_lt hready
    have hstart := (index_scanFrom m frame.cursor (frame.commands.drop frame.cursor)).1
    rw [List.length_drop] at hlt
    change min _ frame.commands.length < frame.commands.length
    omega

/-- No edit takes a frame out of bounds. -/
theorem Edit.frame_bounded (h : Edit m m')
    (hm : ∀ f frame, m.frames.get? f = some frame → frame.Bounded) :
    ∀ f frame, m'.frames.get? f = some frame → frame.Bounded := by
  intro k frame hk
  cases h with
  | @frame f old u hold hu =>
    rw [frames_modifyFrame, Table.get?_modify] at hk
    split at hk
    · next heq =>
      rw [heq, hold] at hk
      cases hk
      exact hu.bounded (hm f old hold)
    · exact hm k frame hk
  | threadVariable => exact hm k frame hk
  | targetVariable => exact hm k frame hk
  | globalVariable => exact hm k frame hk

theorem Edits.frame_bounded (h : Edits m m')
    (hm : ∀ f frame, m.frames.get? f = some frame → frame.Bounded) :
    ∀ f frame, m'.frames.get? f = some frame → frame.Bounded := by
  induction h with
  | refl => exact hm
  | tail _ hedit ih => exact hedit.frame_bounded ih

namespace Bounded

/-- Edits stay within bounds. -/
theorem edits (h : m.Bounded) (hedits : Edits m m') : m'.Bounded :=
  ⟨hedits.shrinks.proper h.proper, hedits.frame_bounded h.frame⟩

theorem ensureReady (h : m.Bounded) (f : FrameHandle) :
    ((Machine.ensureReady f).run m).state.Bounded :=
  h.edits (edits_ensureReady f m)

/-- A cursor is never moved past the end, so moving it stays within bounds. -/
theorem moveCursor (h : m.Bounded) (f : FrameHandle) (index : Nat) :
    (m.moveCursor f index).Bounded :=
  h.edits (edits_modifyFrame fun _ _ => .move index)

/-- What follows a line can be counted up. -/
theorem index_lt {l : Line} (h : m.Bounded) (hl : l.In m) : l.index + 1 < UInt64.size := by
  obtain ⟨frame, c, -, hf, -, hc, -⟩ := hl
  have hcount := (h.frame _ _ hf).count
  have hindex := (List.getElem?_eq_some_iff.1 hc).1
  omega

/-! ## Removal -/

/-- Objects that go take no others out of bounds. -/
theorem of_shrinks (h : m.Bounded) (hshrinks : Shrinks m m')
    (hframe : ∀ f frame, m'.frames.get? f = some frame → m.frames.get? f = some frame) :
    m'.Bounded where
  proper := hshrinks.proper h.proper
  frame f frame hf := h.frame f frame (hframe f frame hf)

/-- Removing an invocation stays within bounds, and so does everything that only removes. -/
theorem cleanup (h : m.Bounded) (t : ThreadHandle) : (m.cleanup t).Bounded :=
  h.of_shrinks (Shrinks.cleanup m t) fun _ _ hf => (get?_frames_cleanup.1 hf).1

theorem unstack (h : m.Bounded) (t : ThreadHandle) (f : FrameHandle) : (m.unstack t f).Bounded :=
  h.of_shrinks { Shrinks.refl m with threads := .modify _ _ _ } fun _ _ => id

theorem leave (h : m.Bounded) (t : ThreadHandle) (f : FrameHandle) :
    ((m.unstack t f).removeFrame f).Bounded :=
  h.of_shrinks (Shrinks.leave m t f) fun _ _ hf => (get?_frames_removeFrame.1 hf).1

/-- Unwinding a stack stays within bounds, however far it goes. -/
theorem settle (h : m.Bounded) (n : Nat) (t : ThreadHandle) :
    ((Machine.settle n t).run m).state.Bounded := by
  induction n generalizing m with
  | zero => exact h.cleanup t
  | succ n ih =>
    simp only [Machine.settle, Act.run_get_bind]
    split
    · exact h.cleanup t
    · next top _ =>
      rw [Act.run_bind]
      split
      · exact ih ((h.ensureReady top).leave t top)
      · exact h.ensureReady top
      · exact ih ((h.ensureReady top).unstack t top)

/-- Taking a frame off the stack of an invocation that is live. -/
theorem popFrame (h : m.Bounded) (hlive : m.threads.contains t = true) (f : FrameHandle) :
    ((Machine.popFrame t f).run m).state.Bounded := by
  obtain ⟨thread, ht⟩ := Table.contains_iff.1 hlive
  have hrest := (h.leave t f).settle thread.stack.length t
  simp only [Machine.popFrame, Act.run_get_bind, ht, Act.run_ite]
  split <;> exact hrest

/-! ## Readying a frame -/

theorem loadLine (h : m.Bounded) (t : ThreadHandle) (f : FrameHandle) :
    ((Machine.loadLine t f).run m).state.Bounded := by
  simp only [Machine.loadLine, Act.run_get_bind]
  split
  · exact h
  · split
    · exact h.moveCursor f _
    · exact h

end Bounded

/-- The frame belongs to an invocation that is live, if it says which. -/
theorem threadOf_eq_ok (h : ((threadOf f).run m).value = .ok t) :
    ∃ frame thread, m.frames.get? f = some frame ∧ frame.thread = t ∧
      m.threads.get? t = some thread := by
  simp only [threadOf, Act.run_get_bind] at h
  split at h
  · cases h
  · next frame hf =>
    rw [Act.run_ite] at h
    split at h
    · next hlive =>
      cases h
      obtain ⟨thread, hthread⟩ := Table.contains_iff.1 hlive
      exact ⟨frame, thread, hf, rfl, hthread⟩
    · cases h

/-- A line that was loaded is one of its frame, and loading it changed nothing. -/
theorem loadLine_eq_line {frame : Frame} {l : Line} (hf : m.frames.get? f = some frame)
    (h : ((loadLine frame.thread f).run m).value = .ok (.line l)) :
    ((loadLine frame.thread f).run m).state = m ∧ l.In m ∧ l.frame = f ∧
      l.thread = frame.thread := by
  simp only [loadLine, Act.run_get_bind, hf] at h ⊢
  split at h
  · cases h
  · next command hcommand =>
    obtain ⟨c, hc, hget⟩ := Option.bind_eq_some_iff.1 hcommand
    cases h
    exact ⟨rfl, ⟨frame, c, command, hf, rfl, hc, hget, rfl, rfl, rfl⟩, rfl, rfl⟩

/-- A change of contents keeps every invocation. -/
theorem Edits.contains_thread (h : Edits m m') (t : ThreadHandle) :
    m'.threads.contains t = m.threads.contains t := by
  have hlive := congrArg Option.isSome (h.sameLinks.targetAt t)
  simpa [targetAt, Table.contains_eq] using hlive

/-- **Readying a frame** keeps the machine within bounds. A line that comes of it is a line of the
frame, and its invocation is live. -/
theorem Bounded.prepare (h : m.Bounded) (f : FrameHandle) :
    ((Machine.prepare f).run m).state.Bounded ∧
      ∀ l, ((Machine.prepare f).run m).value = .ok (.line l) →
        l.In ((Machine.prepare f).run m).state ∧ l.frame = f ∧
          ((Machine.prepare f).run m).state.threads.contains l.thread = true := by
  simp only [Machine.prepare, Act.run_get_bind]
  split
  · exact ⟨h, by rintro l ⟨⟩⟩
  · rw [Act.run_bind, state_threadOf]
    split
    · exact ⟨h, by rintro l ⟨⟩⟩
    · next t ht =>
      obtain ⟨frame, thread, hf, rfl, hthread⟩ := threadOf_eq_ok ht
      have hlive := ((edits_ensureReady f m).contains_thread frame.thread).trans
        (Table.contains_iff.2 ⟨thread, hthread⟩)
      have hready := h.ensureReady f
      rw [Act.run_ite, Act.run_ite, Act.run_bind]
      split
      · exact ⟨h, by rintro l ⟨⟩⟩
      · split
        · exact ⟨h, by rintro l ⟨⟩⟩
        · split
          · exact ⟨hready, by rintro l ⟨⟩⟩
          · exact ⟨hready.popFrame hlive f, by rintro l ⟨⟩⟩
          · refine ⟨hready.loadLine frame.thread f, fun l hl => ?_⟩
            obtain ⟨frame', hf', hlink, -⟩ := (edits_ensureReady f m).frame_kept hf
            have hline := loadLine_eq_line (l := l) hf'
            rw [hlink] at hline
            obtain ⟨hstate, hin, hframe, hown⟩ := hline hl
            dsimp only
            rw [hstate, hown]
            exact ⟨hin, hframe, hlive⟩

/-! ## Growth -/

/-- New handles are distinct, so there are no more of them than handles. -/
theorem length_createAll_lt {kind : String} {α : Type} {table : Table kind α} {as : List α}
    (hproper : table.Proper) (hroom : ¬ (table.createAll as).2.Full) :
    (table.createAll as).1.length < UInt64.size ∧ (table.createAll as).1.length = as.length := by
  have hlive := Table.map_get?_createAll hproper hroom
  have hsub : (table.createAll as).1 ⊆ (table.createAll as).2.handles := by
    intro h hmem
    have hget : (table.createAll as).2.get? h ∈ as.map some := hlive ▸ List.mem_map_of_mem hmem
    obtain ⟨a, -, ha⟩ := List.mem_map.1 hget
    exact Table.mem_handles_iff.2 (Option.isSome_of_eq_some ha.symm)
  have hlength := (Table.createAll_fresh hproper hroom).1.length_le_of_subset hsub
  rw [Table.length_handles] at hlength
  refine ⟨Nat.lt_trans (Nat.lt_of_le_of_lt hlength (Table.size_lt (hproper.createAll as)))
    (by decide), ?_⟩
  simpa using congrArg List.length hlive

/-- **A frame that just entered a script is within bounds.** -/
theorem bounded_newFrame {script : Script} (hproper : m.commands.Proper)
    (hroom : ¬ (m.commands.createAll script.commands).2.Full) (hscript : script.Readable)
    (t : ThreadHandle) (args : List String) :
    (newFrame t script (m.commands.createAll script.commands).1 args).Bounded := by
  obtain ⟨hcount, hlength⟩ := length_createAll_lt hproper hroom
  refine ⟨hcount, fun key index hindex => ?_,
    fun _ hmem => absurd hmem List.not_mem_nil, by rintro ⟨⟩⟩
  obtain ⟨name, dialect, text, warnings, hread, -⟩ := hscript
  obtain ⟨c, hc, -⟩ := (Script.declared hread).subroutine key index hindex
  have hlt := (List.getElem?_eq_some_iff.1 hc).1
  omega

theorem proper_home (h : m.targets.Proper) (entity : EntityId) : (m.home entity).2.Proper := by
  rcases m.targets.findOrCreate_cases (fun target => target.entity = some entity)
    { entity := some entity } with ⟨g, target, -, -, -, heq⟩ | ⟨-, heq⟩
  · rw [home, heq]
    exact h
  · rw [home, heq]
    exact h.create _

namespace Bounded

/-- A script that was read from a text has its labels within its commands, so pushing it stays
within bounds. -/
theorem pushed {script : Script} {args : List String} (h : m.Bounded) (hscript : script.Readable)
    (hroom : ¬ (m.commands.createAll script.commands).2.Full) :
    (m.pushed t script args).Bounded where
  proper := ⟨h.proper.targets, h.proper.threads.modify t _, h.proper.frames.create _,
    h.proper.commands.createAll _⟩
  frame f frame hf := by
    rw [get?_frames_pushed] at hf
    split at hf
    · cases hf
      exact bounded_newFrame h.proper.commands hroom hscript t args
    · exact h.frame f frame hf

theorem opened (h : m.Bounded) (entity : EntityId) (name : String) :
    (m.opened entity name).Bounded where
  proper := ⟨proper_home h.proper.targets entity, h.proper.threads.create _, h.proper.frames,
    h.proper.commands⟩
  frame := h.frame

/-- Starting a script stays within bounds, as pushing it does. -/
theorem started {script : Script} (h : m.Bounded) (hscript : script.Readable)
    (hroom : ¬ (m.commands.createAll script.commands).2.Full) (entity : EntityId) (name : String) :
    (m.started entity name script).Bounded :=
  ((h.opened entity name).pushed hscript hroom).of_shrinks
    { Shrinks.refl _ with targets := .modify _ _ _ } fun _ _ => id

theorem withdrawn (h : m.Bounded) (entity : EntityId) : (m.withdrawn entity).Bounded where
  proper := by
    refine ⟨?_, h.proper.threads.skip, h.proper.frames, h.proper.commands⟩
    rw [Machine.withdrawn]
    dsimp only
    split
    · exact h.proper.targets.skip
    · exact h.proper.targets
  frame := h.frame

end Bounded

/-! ## Loading -/

/-- **What was saved to go on after can be counted up**: the return addresses and the subroutines of
every frame. -/
def Countable (m : Machine) : Prop :=
  ∀ f frame, m.frames.get? f = some frame →
    (∀ index ∈ frame.returns, index < UInt64.size - 1) ∧
      ∀ e ∈ frame.gosubs.entries, e.2 < UInt64.size - 1

/-- Whether a machine can be counted up can be decided by looking through its frames. -/
theorem countable_iff : m.Countable ↔ ∀ e ∈ m.frames.toList,
    (∀ index ∈ e.2.returns, index < UInt64.size - 1) ∧
      ∀ g ∈ e.2.gosubs.entries, g.2 < UInt64.size - 1 :=
  ⟨fun h e he => h e.1 e.2 (Table.mem_toList_iff.1 he),
    fun h f frame hf => h (f, frame) (Table.mem_toList_iff.2 hf)⟩

instance (m : Machine) : Decidable m.Countable := decidable_of_iff' _ countable_iff

/-- A machine that can be stored is proper in all its tables. -/
theorem Storable.proper (h : m.Storable) : m.Proper := ⟨h.targets, h.threads, h.frames, h.commands⟩

/-- The frames that were read are within bounds. -/
theorem Countable.bounded {bs : Bytes} (h : m.Countable) (hread : read bs = .ok m) : m.Bounded := by
  obtain ⟨_, _, _, _, _, _, -, -, -, hframes, -, -⟩ := read_eq_ok.1 hread
  have hcount := Table.forall_of_load (fun _ _ _ _ => Binary.yields_commands _ _ _) hframes
  refine ⟨(storable_of_read hread).proper, fun f frame hf => ?_⟩
  obtain ⟨hreturns, hgosubs⟩ := h f frame hf
  refine ⟨hcount f frame hf, fun key index hindex => ?_, fun index hmem => ?_, fun hready => ?_⟩
  · have hlt := hgosubs (key, index) ((frame.gosubs.mem_entries_iff key index).2 hindex)
    omega
  · have hlt := hreturns index hmem
    omega
  · rw [(read_forgets hread).2 f frame hf] at hready
    cases hready

/-- No pass of the repair but the last changes a frame that it keeps, and that one ends calls
only. -/
theorem Bounded.frame_repair (h : m.Bounded) (s : Setting) :
    ∀ f frame, ((repair s).run m).state.frames.get? f = some frame → frame.Bounded := by
  obtain ⟨m₁, l₁, m₂, l₂, m₃, l₃, m₄, l₄, m₅, l₅, m₆, l₆, h₁, h₂, h₃, h₄, h₅, h₆, hrun⟩ :=
    repair_passes s m
  have hlooked := lookedUp_remapTargets s m
  rw [h₁] at hlooked
  have hrelinked := relinked_relinkThreads m₁
  rw [h₂] at hrelinked
  rw [run_pruneTargets] at h₃
  cases h₃
  have hplacing := placing_relinkFrames m₂.weeded
  rw [h₄] at hplacing
  have hpruned := pruned_pruneThreads m₄
  rw [h₅] at hpruned
  have hended : Edits m₅.pruneCommands
      ((Act.forEach endCall m₅.pruneCommands.frames.handles).run m₅.pruneCommands).state :=
    Act.forEach_induction (p := fun _ m' => Edits m₅.pruneCommands m') (Table.nodup_handles _) .refl
      fun _ f m' _ _ hm' => hm'.trans (edits_endCall f m')
  rw [h₆] at hended
  rw [hrun]
  refine hended.frame_bounded fun f frame hf => ?_
  have hpruned : m₄.frames.get? f = some frame := (hpruned.frames f).symm.trans hf
  have hplaced := ((hplacing.frames f frame).1 hpruned).1
  have hlinked := ((hrelinked.cancels.frames f frame).1 hplaced).1
  exact h.frame f frame ((hlooked.cancels.frames f frame).1 hlinked).1

/-- **A machine that was loaded is within bounds**, if what was saved to go on after can be counted
up. -/
theorem Countable.bounded_of_load {saved : Machine} {s : Setting} {bs : Bytes} (h : saved.Countable)
    (hread : read bs = .ok saved) : ((load s bs).run m).state.Bounded := by
  rw [run_load_ok hread]
  dsimp only
  exact ⟨((storable_of_read hread).repair s).proper, (h.bounded hread).frame_repair s⟩

end Machine

end StepScript
