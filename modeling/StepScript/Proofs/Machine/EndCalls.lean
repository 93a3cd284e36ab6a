import StepScript.Proofs.Machine.Cell
import StepScript.Proofs.Machine.Restore

/-!
# Proofs/Machine/EndCalls — open calls end empty

A load ends the calls that were open when the machine was saved, as if the host had completed each
with the empty text. The frames forget their calls and keep the empty result, and the variables that
waited for a result become empty; whatever the order, nothing else changes (`Machine.Ended`).
-/

namespace StepScript

/-- A frame whose open call, if it has one, has ended empty. -/
def Frame.ended (frame : Frame) : Frame :=
  { frame with pending := none, result := if frame.pending.isSome then "" else frame.result }

namespace Machine

variable {m m' : Machine} {done : List FrameHandle} {f : FrameHandle}

/-- **The machine after the open calls of some frames have ended.** -/
structure Ended (m : Machine) (done : List FrameHandle) (m' : Machine) : Prop where
  edits : Edits m m'
  targets : ∀ g, (m'.targets.get? g).map Target.bare = (m.targets.get? g).map Target.bare
  threads : ∀ t, (m'.threads.get? t).map Thread.bare = (m.threads.get? t).map Thread.bare
  frames : ∀ f, (m'.frames.get? f).map Frame.bare =
    (m.frames.get? f).map fun frame => (if f ∈ done then frame.ended else frame).bare
  emptied : ∀ cell name, (∃ f ∈ done, m.receiver f = some (cell, name)) →
    m'.valueAt cell name = some ""
  untouched : ∀ cell name, (¬ ∃ f ∈ done, m.receiver f = some (cell, name)) →
    m'.valueAt cell name = m.valueAt cell name

/-- Before the first frame is visited, nothing has ended. -/
theorem Ended.init (m : Machine) : Ended m [] m := by
  refine ⟨.refl, fun _ => rfl, fun _ => rfl, fun f => ?_, fun _ _ => ?_, fun _ _ _ => rfl⟩
  · cases m.frames.get? f <;> simp
  · rintro ⟨f, hf, -⟩
    cases hf

/-- A frame without an open call counts as ended. -/
theorem Ended.skip (h : Ended m done m')
    (hidle : ∀ frame, m.frames.get? f = some frame → frame.pending = none) :
    Ended m (done ++ [f]) m' := by
  have hnone : m.receiver f = none := by
    rw [receiver]
    cases hf : m.frames.get? f with
    | none => rfl
    | some frame => simp [hidle frame hf]
  have hsame : ∀ var, (∃ k ∈ done ++ [f], m.receiver k = some var) ↔
      ∃ k ∈ done, m.receiver k = some var := by
    intro var
    simp [or_and_right, exists_or, hnone]
  refine ⟨h.edits, h.targets, h.threads, fun k => ?_, fun cell name => ?_, fun cell name => ?_⟩
  · rw [h.frames]
    by_cases hk : k = f
    · subst hk
      cases hf : m.frames.get? k with
      | none => rfl
      | some frame =>
        have hended : frame.ended = frame := by
          have hpending := hidle frame hf
          cases frame
          simp_all [Frame.ended]
        simp [hended]
    · simp [hk]
  · rw [hsame]
    exact h.emptied cell name
  · rw [hsame]
    exact h.untouched cell name

/-- The variable that waits for a call is the same as long as the call is open. -/
theorem Ended.receiver_eq (h : Ended m done m') (hf : f ∉ done) : m'.receiver f = m.receiver f := by
  have hframe := h.frames f
  rw [receiver, receiver]
  cases hold : m.frames.get? f with
  | none =>
    rw [hold] at hframe
    rw [Option.map_eq_none_iff.1 hframe]
    rfl
  | some frame =>
    rw [hold, Option.map_some, if_neg hf] at hframe
    obtain ⟨frame', hframe', hbare⟩ := Option.map_eq_some_iff.1 hframe
    have hthread : frame'.bare.thread = frame.bare.thread := by rw [hbare]
    have hpending : frame'.bare.pending = frame.bare.pending := by rw [hbare]
    simp only [Frame.bare] at hthread hpending
    simp only [hframe', Option.bind_some, hthread, hpending, cellOf_congr h.edits.sameLinks]

/-- The open call of a frame ends, and the empty text is delivered to the variable that waits for
it. -/
theorem Ended.complete {frame : Frame} {call : PendingCall} {v : Vantage} {assignTo : Option String}
    (h : Ended m done m') (hf : f ∉ done) (hframe : m.frames.get? f = some frame)
    (hpending : frame.pending = some call) (hreceiver : m'.receiver f = m'.addressee v assignTo) :
    Ended m (done ++ [f]) ((m'.answered f "").delivered v assignTo "") := by
  have hanswered : Edits m' (m'.answered f "") := edits_modifyFrame fun _ _ => .complete ""
  have hvalue : ∀ cell name, ((m'.answered f "").delivered v assignTo "").valueAt cell name =
      if m.receiver f = some (cell, name) then some "" else m'.valueAt cell name := by
    intro cell name
    rw [valueAt_delivered, addressee_congr (m'.sameLinks_answered f ""), ← hreceiver,
      h.receiver_eq hf, valueAt, varsAt_answered, ← valueAt]
  refine ⟨h.edits.trans (hanswered.trans (edits_delivered ..)),
    fun g => (bare_targets_delivered ..).trans (h.targets g),
    fun t => (bare_threads_delivered ..).trans (h.threads t), fun k => ?_, fun cell name => ?_,
    fun cell name => ?_⟩
  · rw [bare_frames_delivered, answered, frames_modifyFrame, Table.get?_modify]
    have hold := h.frames k
    by_cases hk : k = f
    · subst hk
      rw [hframe, Option.map_some, if_neg hf] at hold
      obtain ⟨frame', hframe', hbare⟩ := Option.map_eq_some_iff.1 hold
      have hended : { frame'.bare with result := "", pending := none }
          = { frame.bare with result := "", pending := none } := by rw [hbare]
      simp only [if_true, hframe', hframe, Option.map_some, List.mem_append,
        List.mem_singleton, or_true]
      simp only [Frame.ended, hpending, Option.isSome_some, if_true]
      exact congrArg some hended
    · rw [if_neg hk, hold]
      simp [hk]
  · rintro ⟨k, hk, hreceiver⟩
    rw [hvalue]
    split
    · rfl
    · next hne =>
      refine h.emptied cell name ⟨k, ?_, hreceiver⟩
      rcases List.mem_append.1 hk with hk | hk
      · exact hk
      · rw [List.mem_singleton.1 hk] at hreceiver
        exact absurd hreceiver hne
  · intro hnone
    rw [hvalue, if_neg fun hreceiver => hnone ⟨f, by simp, hreceiver⟩]
    refine h.untouched cell name ?_
    rintro ⟨k, hk, hreceiver⟩
    exact hnone ⟨k, List.mem_append_left _ hk, hreceiver⟩

/-- No frame has an open call. -/
def Settled (m : Machine) : Prop := ∀ f frame, m.frames.get? f = some frame → frame.pending = none

instance (m : Machine) : Decidable m.Settled :=
  decidable_of_iff (∀ e ∈ m.frames.toList, e.2.pending = none)
    ⟨fun h f frame hf => h (f, frame) (Table.mem_toList_iff.2 hf),
      fun h e he => h e.1 e.2 (Table.mem_toList_iff.1 he)⟩

/-- The invocation of every frame is there. -/
def Housed (m : Machine) : Prop :=
  ∀ f frame, m.frames.get? f = some frame → ∃ thread, m.threads.get? frame.thread = some thread

/-- **Ending a call** does nothing to a frame without one, and completes it otherwise. -/
theorem endCall_cases (h : m.Housed) (f : FrameHandle) :
    ((m.frames.get? f).bind Frame.pending = none ∧ (endCall f).run m = ⟨(), m, []⟩) ∨
      ∃ frame call, m.frames.get? f = some frame ∧ frame.pending = some call ∧
        (endCall f).run m =
          ⟨(), (m.answered f "").delivered ⟨frame.thread, some f,
            .source call.source⟩ call.assignTo "", ((completeCall f "").run m).log⟩ := by
  simp only [endCall, Act.run_get_bind]
  cases hf : m.frames.get? f with
  | none => exact Or.inl ⟨rfl, rfl⟩
  | some frame =>
    cases hpending : frame.pending with
    | none =>
      refine Or.inl ⟨hpending, ?_⟩
      simp only [Option.bind_some, hpending]
      rfl
    | some call =>
      obtain ⟨thread, hthread⟩ := h f frame hf
      obtain ⟨hvalue, hstate⟩ := run_completeCall hf hthread hpending ""
      refine Or.inr ⟨frame, call, rfl, hpending, ?_⟩
      simp only [Option.bind_some, hpending]
      rw [Act.run_bind, hvalue, ← hstate, Act.run_pure, List.append_nil]

/-- A frame that does not wait is passed over. -/
theorem run_endCall_of_idle (h : ∀ frame, m.frames.get? f = some frame → frame.pending = none) :
    (endCall f).run m = ⟨(), m, []⟩ := by
  have hnone : (m.frames.get? f).bind Frame.pending = none := by
    cases hf : m.frames.get? f with
    | none => rfl
    | some frame => exact h frame hf
  simp only [endCall, Act.run_get_bind, hnone, Act.run_pure]

/-- Ending a call is made of edits. -/
theorem edits_endCall (f : FrameHandle) (m : Machine) : Edits m ((endCall f).run m).state := by
  simp only [endCall, Act.run_get_bind]
  split
  · exact .refl
  · rw [Act.run_bind]
    split <;> exact edits_completeCall f "" m

theorem Ended.housed (h : Ended m done m') (hm : m.Housed) : m'.Housed := by
  intro f frame' hframe'
  have hold := h.frames f
  rw [hframe'] at hold
  obtain ⟨frame, hframe, hbare⟩ := Option.map_eq_some_iff.1 hold.symm
  have hsame : frame'.thread = frame.thread := by
    have hsame : frame'.bare.thread = (if f ∈ done then frame.ended else frame).bare.thread := by
      rw [hbare]
    simp only [Frame.bare] at hsame
    rw [hsame]
    split <;> rfl
  obtain ⟨thread, hthread⟩ := hm f frame hframe
  have hlive := h.threads frame.thread
  rw [hthread] at hlive
  obtain ⟨thread', hthread', -⟩ := Option.map_eq_some_iff.1 hlive
  exact ⟨thread', hsame ▸ hthread'⟩

/-- **One more open call ends.** -/
theorem Ended.step (hm : m.Housed) (h : Ended m done m') (hf : f ∉ done) :
    Ended m (done ++ [f]) ((endCall f).run m').state := by
  have hold := h.frames f
  rcases endCall_cases (h.housed hm) f with ⟨hidle, hrun⟩ | ⟨frame', call, hframe', hpending, hrun⟩
  · rw [hrun]
    refine h.skip fun frame hframe => ?_
    rw [hframe, Option.map_some, if_neg hf] at hold
    obtain ⟨frame', hframe', hbare⟩ := Option.map_eq_some_iff.1 hold
    have hsame : frame'.bare.pending = frame.bare.pending := by rw [hbare]
    rw [hframe'] at hidle
    exact hsame.symm.trans hidle
  · rw [hframe'] at hold
    obtain ⟨frame, hframe, hbare⟩ := Option.map_eq_some_iff.1 hold.symm
    rw [if_neg hf] at hbare
    have hsame : frame.bare.pending = frame'.bare.pending := by rw [hbare]
    rw [hrun]
    exact h.complete hf hframe (hsame.trans hpending) (receiver_eq_addressee hframe' hpending)

/-- **All open calls end.** -/
theorem Housed.ended (h : m.Housed) :
    Ended m m.frames.handles ((Act.forEach endCall m.frames.handles).run m).state :=
  Act.forEach_induction (p := Ended m) m.frames.nodup_handles (Ended.init m)
    fun _ _ _ hf _ hdone => hdone.step h hf

/-- In a sound machine the invocation of every frame is there. -/
theorem Sound.housed (h : m.Sound) : m.Housed := fun _ _ hf => by
  obtain ⟨thread, hthread, -⟩ := h.owned.thread_of_frame hf
  exact ⟨thread, hthread⟩

end Machine

end StepScript
