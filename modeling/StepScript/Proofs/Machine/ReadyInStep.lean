import StepScript.Proofs.Machine.InStep

/-!
# Proofs/Machine/ReadyInStep — readying frames of machines in step

A frame remembers what the last scan found; a machine that was loaded has forgotten it. On sound
machines the difference cannot be seen: what is remembered is what a new scan finds
(`Machine.FrameSound.run_ensureReady`). So frames are readied alike, and exhausted frames leave
their stacks alike.
-/

namespace StepScript.Machine

variable {π : Renaming} {m m' : Machine}

/-- What a frame is ready for, in the machine that stands for another. -/
def Readied.rename (π : Renaming) : Readied → Readied
  | .settled signal => .settled signal
  | .line l => .line (l.rename π)

/-- **Frames of machines in step are readied alike.** -/
theorem Renamed.ensureReady (hm : Renamed π m m') (hsound : m.Sound) (hsound' : m'.Sound)
    {f : FrameHandle} {frame : Frame} (hf : m.frames.get? f = some frame) :
    ∃ readiness, ((Machine.ensureReady f).run m).value = .ok readiness ∧
      ((Machine.ensureReady (π.frame.apply f)).run m').value = .ok readiness ∧
      Renamed π ((Machine.ensureReady f).run m).state
        ((Machine.ensureReady (π.frame.apply f)).run m').state := by
  obtain ⟨frame', hf', hlike⟩ := hm.frames.live f frame hf
  have hscan : ∀ x x' : Frame, Frame.Like π x x' →
      (m'.scanOf x').readiness = (m.scanOf x).readiness ∧
      (m'.scanOf x').index = (m.scanOf x).index := by
    intro x x' h
    rw [scanOf, h.cursor, h.commands, ← List.map_drop]
    exact hm.scanFrom_apply x.cursor (x.commands.drop x.cursor)
  rw [(hsound.frame f frame hf).run_ensureReady hf,
    (hsound'.frame _ frame' hf').run_ensureReady hf', (hscan frame frame' hlike).1]
  refine ⟨_, rfl, rfl, hm.modifyFrame fun x x' h => ?_⟩
  obtain ⟨hready, hindex⟩ := hscan x x' h
  exact { h with
    cursor := by simp only [hindex, h.commands, List.length_map] }

/-! ## Leaving a stack -/

/-- The innermost frames leave, and the frames below them are settled. -/
theorem Renamed.drop {t : ThreadHandle} {f : FrameHandle} {below : List FrameHandle} {fuel : Nat}
    (hsettle : ∀ m m' : Machine, Renamed π m m' → m.Sound → m'.Sound →
      ((settle fuel t).run m).value = ((settle fuel (π.thread.apply t)).run m').value ∧
        Renamed π ((settle fuel t).run m).state ((settle fuel (π.thread.apply t)).run m').state)
    (hm : Renamed π m m') (hsound : m.Sound) (hsound' : m'.Sound)
    (ht : m.stackAt t = some (f :: below)) :
    ((settle fuel t).run ((m.unstack t f).removeFrame f)).value =
        ((settle fuel (π.thread.apply t)).run
          ((m'.unstack (π.thread.apply t) (π.frame.apply f)).removeFrame (π.frame.apply f))).value ∧
      Renamed π ((settle fuel t).run ((m.unstack t f).removeFrame f)).state
        ((settle fuel (π.thread.apply t)).run
          ((m'.unstack (π.thread.apply t) (π.frame.apply f)).removeFrame
            (π.frame.apply f))).state := by
  have hleft := (hm.unstack t f).removeFrame f
  have ht' : m'.stackAt (π.thread.apply t) = some (π.frame.apply f :: below.map π.frame.apply) := by
    obtain ⟨thread, hthread, hstack⟩ := Option.map_eq_some_iff.1 ht
    obtain ⟨thread', hthread', hlike⟩ := hm.threads.live t thread hthread
    rw [stackAt, hthread', Option.map_some, hlike.stack, hstack, List.map_cons]
  by_cases hbelow : below = []
  · subst hbelow
    have hempty : ((m.unstack t f).removeFrame f).frameOf t = none := by
      rw [frameOf_eq_head?, hsound.owned.stackAt_leave ht, if_pos rfl]
      rfl
    have hempty' := hleft.frameOf_apply t
    rw [hempty] at hempty'
    rw [settle_of_frameOf_eq_none hempty, settle_of_frameOf_eq_none hempty']
    exact ⟨rfl, hleft.cleanup t⟩
  · exact hsettle _ _ hleft (hsound.leave ht hbelow)
      (hsound'.leave ht' fun hnil => hbelow (List.map_eq_nil_iff.1 hnil))

/-- **Exhausted frames leave alike.** -/
theorem Renamed.settle {t : ThreadHandle} (fuel : Nat) (hm : Renamed π m m') (hsound : m.Sound)
    (hsound' : m'.Sound) :
    ((Machine.settle fuel t).run m).value =
      ((Machine.settle fuel (π.thread.apply t)).run m').value ∧
      Renamed π ((Machine.settle fuel t).run m).state
        ((Machine.settle fuel (π.thread.apply t)).run m').state := by
  induction fuel generalizing m m' with
  | zero => exact ⟨rfl, hm.cleanup t⟩
  | succ fuel ih =>
    simp only [Machine.settle, Act.run_get_bind, hm.frameOf_apply]
    cases htop : m.frameOf t with
    | none => exact ⟨rfl, hm.cleanup t⟩
    | some top =>
      obtain ⟨below, hstack⟩ := stackAt_of_frameOf htop
      obtain ⟨thread, hthread, hmem⟩ := Option.map_eq_some_iff.1 hstack
      obtain ⟨frame, hf, -⟩ := hsound.owned.frame_of_stacked hthread (hmem ▸ List.mem_cons_self)
      obtain ⟨readiness, hvalue, hvalue', hready⟩ := hm.ensureReady hsound hsound' hf
      have hscan := edits_ensureReady top m
      have hscan' := edits_ensureReady (π.frame.apply top) m'
      simp only [Option.map_some, Act.run_bind, hvalue, hvalue']
      rw [← hscan.sameLinks.stackAt] at hstack
      cases readiness with
      | exhausted =>
        exact hready.drop (fun _ _ h hs hs' => ih h hs hs') (hsound.moves hscan.moves)
          (hsound'.moves hscan'.moves) hstack
      | unknown => exact ⟨rfl, hready⟩
      | ready => exact ⟨rfl, hready⟩

theorem Renamed.popFrame {t : ThreadHandle} {f : FrameHandle} (hm : Renamed π m m')
    (hsound : m.Sound) (hsound' : m'.Sound) (htop : m.frameOf t = some f) :
    ((Machine.popFrame t f).run m).value =
        ((Machine.popFrame (π.thread.apply t) (π.frame.apply f)).run m').value ∧
      Renamed π ((Machine.popFrame t f).run m).state
        ((Machine.popFrame (π.thread.apply t) (π.frame.apply f)).run m').state := by
  obtain ⟨below, hstack⟩ := stackAt_of_frameOf htop
  obtain ⟨thread, hthread, hbelow⟩ := Option.map_eq_some_iff.1 hstack
  obtain ⟨thread', hthread', hlike⟩ := hm.threads.live t thread hthread
  have hstack' : m'.stackAt (π.thread.apply t) =
      some (π.frame.apply f :: below.map π.frame.apply) := by
    rw [stackAt, hthread', Option.map_some, hlike.stack, hbelow, List.map_cons]
  rw [run_popFrame_of_stack hstack, run_popFrame_of_stack hstack', List.length_map]
  exact hm.drop (fun _ _ h hs hs' => h.settle _ hs hs') hsound hsound' hstack

/-! ## Before a command -/

/-- **The same line is loaded.** -/
theorem Renamed.loadLine {f : FrameHandle} {frame : Frame} (t : ThreadHandle) (hm : Renamed π m m')
    (hf : m.frames.get? f = some frame) :
    ∃ readied, ((Machine.loadLine t f).run m).value = .ok readied ∧
      ((Machine.loadLine (π.thread.apply t) (π.frame.apply f)).run m').value =
        .ok (readied.rename π) ∧
      Renamed π ((Machine.loadLine t f).run m).state
        ((Machine.loadLine (π.thread.apply t) (π.frame.apply f)).run m').state := by
  obtain ⟨frame', hf', hlike⟩ := hm.frames.live f frame hf
  have hcommand : frame'.commands[frame'.cursor]?.bind m'.commands.get? =
      frame.commands[frame.cursor]?.bind m.commands.get? := by
    rw [hlike.commands, hlike.cursor, List.getElem?_map]
    cases frame.commands[frame.cursor]? with
    | none => rfl
    | some c => exact hm.get?_commands c
  simp only [Machine.loadLine, Act.run_get_bind, hf, hf', hcommand]
  cases frame.commands[frame.cursor]?.bind m.commands.get? with
  | none => exact ⟨_, rfl, rfl, hlike.cursor ▸ hm.moveCursor f (frame.cursor + 1)⟩
  | some command =>
    refine ⟨_, rfl, ?_, hm⟩
    simp only [hlike.cursor, hlike.commands, hlike.script, List.length_map]
    rfl

/-- **Frames are readied for a step alike.** -/
theorem Renamed.prepare (f : FrameHandle) (hm : Renamed π m m') (hsound : m.Sound)
    (hsound' : m'.Sound) :
    ∃ readied, ((Machine.prepare f).run m).value = .ok readied ∧
      ((Machine.prepare (π.frame.apply f)).run m').value = .ok (readied.rename π) ∧
      Renamed π ((Machine.prepare f).run m).state
        ((Machine.prepare (π.frame.apply f)).run m').state := by
  simp only [Machine.prepare, Act.run_get_bind]
  cases hf : m.frames.get? f with
  | none =>
    rw [hm.frames.gone f hf]
    exact ⟨.settled .idle, rfl, rfl, hm⟩
  | some frame =>
    obtain ⟨frame', hf', hlike⟩ := hm.frames.live f frame hf
    obtain ⟨readiness, hvalue, hvalue', hready⟩ := hm.ensureReady hsound hsound' hf
    have hscan := edits_ensureReady f m
    obtain ⟨scanned, hscanned, -⟩ := hscan.frame_kept hf
    have htop : (m'.frameOf frame'.thread = some (π.frame.apply f)) ↔
        m.frameOf frame.thread = some f := by
      rw [hlike.thread, hm.frameOf_apply]
      cases m.frameOf frame.thread <;> simp
    simp only [hf', Act.run_bind, hsound.run_threadOf hf, hsound'.run_threadOf hf', Act.run_ite,
      ne_eq, htop, hlike.pending]
    split
    · exact ⟨.settled .idle, rfl, rfl, hm⟩
    · next hinner =>
      split
      · exact ⟨.settled .idle, rfl, rfl, hm⟩
      · simp only [hvalue, hvalue', hlike.thread]
        cases readiness with
        | exhausted =>
          have hinner' : ((Machine.ensureReady f).run m).state.frameOf frame.thread = some f := by
            rw [frameOf_eq_head?, hscan.sameLinks.stackAt, ← frameOf_eq_head?]
            exact Decidable.not_not.1 hinner
          obtain ⟨hsignal, hpopped⟩ := hready.popFrame (hsound.moves hscan.moves)
            (hsound'.moves (edits_ensureReady _ m').moves) hinner'
          refine ⟨_, rfl, ?_, hpopped⟩
          simp only [Act.run_bind, Act.run_pure, ← hsignal]
          rfl
        | unknown => exact hready.loadLine frame.thread hscanned
        | ready => exact hready.loadLine frame.thread hscanned

end StepScript.Machine
