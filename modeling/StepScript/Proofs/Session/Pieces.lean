import StepScript.Proofs.Host.Promise
import StepScript.Session

/-!
# Proofs/Session/Pieces — running in pieces

A run stops at the first step that is not followed by more work, or when its steps are used up. Only
the latter depends on how many steps it was given. So a run that used up its steps can be taken up
where it stopped, and a run that stopped before would have stopped there with more steps, too. This
holds for any host and any world: what a step does is determined by the world it starts from.

* `Host.runFrom_of_pending`, `Host.runFrom_of_ending` — what a run makes of one step.
* `Host.runFrom_add` — a longer run is a shorter one, taken up or not.
* `Host.runUntilIdle_add` — running in pieces is running at once.
-/

namespace StepScript

/-- The report of a run that was taken up after some steps. -/
def RunReport.after (taken : Nat) (r : RunReport) : RunReport := ⟨taken + r.steps, r.outcome⟩

/-- Steps that were taken before add up. -/
theorem RunReport.after_after (a b : Nat) (r : RunReport) :
    (r.after b).after a = r.after (a + b) := by
  rw [after, after, after, Nat.add_assoc]

/-- **How a run ends with a step**, if there is no more work after it. -/
def ending? : Except Failure Signal → Option (Except Failure RunOutcome)
  | .error failure => some (.error failure)
  | .ok .finished => some (.ok .finished)
  | .ok .idle => some (.ok .idle)
  | .ok .pending => none

/-- A step does not end a run only if there is more to do. -/
theorem ending?_eq_none {value : Except Failure Signal} (h : ending? value = none) :
    value = .ok .pending := by
  rcases value with failure | (_ | _ | _)
  · cases h
  · rfl
  · cases h
  · cases h

/-- No step ends a run for having used up its steps. -/
theorem ending?_ne_stepLimit (value : Except Failure Signal) :
    ending? value ≠ some (.ok .stepLimit) := by
  rcases value with failure | (_ | _ | _) <;> simp [ending?]

namespace Host

variable {η : Type} (h : Host η) (t : ThreadHandle) {w : World η}

/-! ## One step of a run -/

/-- A run goes on after a step if there is more to do. -/
theorem runFrom_of_pending (hstep : ((h.stepInvocation t).run w).value = .ok .pending)
    (left taken : Nat) (log : List Diagnostic) : (h.runFrom t (left + 1) taken log).run w =
      (h.runFrom t left (taken + 1) (((h.stepInvocation t).run w).log.reverse ++ log)).run
        ((h.stepInvocation t).run w).state := by
  rw [Act.run, runFrom]
  dsimp only
  rw [hstep]
  rfl

/-- It ends with the step that has nothing more to do. -/
theorem runFrom_of_ending {ending : Except Failure RunOutcome}
    (hstep : ending? ((h.stepInvocation t).run w).value = some ending) (left taken : Nat)
    (log : List Diagnostic) :
    (h.runFrom t (left + 1) taken log).run w =
      ⟨ending.map fun outcome => ⟨taken + 1, outcome⟩, ((h.stepInvocation t).run w).state,
        (((h.stepInvocation t).run w).log.reverse ++ log).reverse⟩ := by
  rw [Act.run, runFrom]
  dsimp only
  generalize ((h.stepInvocation t).run w).value = value at hstep
  rcases value with failure | (_ | _ | _) <;> cases hstep <;> rfl

/-! ## Runs -/

/-- **A longer run**: if the shorter one used up its steps, it is taken up where it stopped;
otherwise it is the shorter one. -/
theorem runFrom_add (n m taken : Nat) (log : List Diagnostic) (w : World η) :
    (((h.runFrom t n taken log).run w).value = .ok ⟨taken + n, .stepLimit⟩ ∧
        ∃ log', (h.runFrom t (n + m) taken log).run w =
          (h.runFrom t m (taken + n) log').run ((h.runFrom t n taken log).run w).state) ∨
      ((∀ k, ((h.runFrom t n taken log).run w).value ≠ .ok ⟨k, .stepLimit⟩) ∧
        (h.runFrom t (n + m) taken log).run w = (h.runFrom t n taken log).run w) := by
  induction n generalizing taken log w with
  | zero =>
    rw [Nat.zero_add]
    exact .inl ⟨rfl, log, rfl⟩
  | succ n ih =>
    rw [Nat.succ_add]
    cases hstep : ending? ((h.stepInvocation t).run w).value with
    | none =>
      have hpending := ending?_eq_none hstep
      have hcount : taken + 1 + n = taken + (n + 1) := by omega
      rw [h.runFrom_of_pending t hpending, h.runFrom_of_pending t hpending, ← hcount]
      exact ih (taken + 1) _ _
    | some ending =>
      rw [h.runFrom_of_ending t hstep, h.runFrom_of_ending t hstep]
      refine .inr ⟨fun k hk => ending?_ne_stepLimit ((h.stepInvocation t).run w).value ?_, rfl⟩
      cases ending with
      | error failure => cases hk
      | ok outcome =>
        cases hk
        exact hstep

/-- **Steps counted beforehand** show in the report alone, and what was reported before does not
show at all. -/
theorem runFrom_shift (left taken : Nat) (log : List Diagnostic) (w : World η) :
    ((h.runFrom t left taken log).run w).state = ((h.runFrom t left 0 []).run w).state ∧
      ((h.runFrom t left taken log).run w).value =
        ((h.runFrom t left 0 []).run w).value.map (.after taken) := by
  induction left generalizing taken log w with
  | zero => exact ⟨rfl, rfl⟩
  | succ left ih =>
    cases hstep : ending? ((h.stepInvocation t).run w).value with
    | none =>
      have hpending := ending?_eq_none hstep
      rw [h.runFrom_of_pending t hpending, h.runFrom_of_pending t hpending]
      -- Both runs have counted one step more; each is compared with a run that has counted none.
      rw [(ih (taken + 1) _ _).1, (ih (0 + 1) _ _).1, (ih (taken + 1) _ _).2, (ih (0 + 1) _ _).2]
      refine ⟨rfl, ?_⟩
      cases ((h.runFrom t left 0 []).run ((h.stepInvocation t).run w).state).value with
      | error failure => rfl
      | ok report => exact congrArg Except.ok (RunReport.after_after taken 1 report).symm
    | some ending =>
      rw [h.runFrom_of_ending t hstep, h.runFrom_of_ending t hstep]
      refine ⟨rfl, ?_⟩
      cases ending with
      | error failure => rfl
      | ok outcome => rfl

theorem run_runUntilIdle {n : Nat} (hn : 0 < n) (w : World η) :
    (h.runUntilIdle t n).run w = (h.runFrom t n 0 []).run w := by
  rw [runUntilIdle, if_neg (Nat.pos_iff_ne_zero.1 hn)]

/-- **Running in pieces is running at once.** If a run uses up its steps, then taking it up for more
steps leads to the same world as running that much longer from the start, with the same outcome or
failure, and the steps add up. If it ends otherwise, with an outcome or a failure, a longer run does
the same. -/
theorem runUntilIdle_add (w : World η) {n m : Nat} (hn : 0 < n) (hm : 0 < m) :
    (∀ k, ((h.runUntilIdle t n).run w).value = .ok ⟨k, .stepLimit⟩ →
        k = n ∧
        ((h.runUntilIdle t (n + m)).run w).state =
          ((h.runUntilIdle t m).run ((h.runUntilIdle t n).run w).state).state ∧
        ((h.runUntilIdle t (n + m)).run w).value =
          ((h.runUntilIdle t m).run ((h.runUntilIdle t n).run w).state).value.map (.after n)) ∧
      ((∀ k, ((h.runUntilIdle t n).run w).value ≠ .ok ⟨k, .stepLimit⟩) →
        ((h.runUntilIdle t (n + m)).run w).value = ((h.runUntilIdle t n).run w).value ∧
        ((h.runUntilIdle t (n + m)).run w).state = ((h.runUntilIdle t n).run w).state) := by
  rw [h.run_runUntilIdle t hn, h.run_runUntilIdle t hm,
    h.run_runUntilIdle t (Nat.add_pos_left hn m)]
  rcases h.runFrom_add t n m 0 [] w with ⟨hlimit, log, hwhole⟩ | ⟨hends, hwhole⟩
  · obtain ⟨hstate, hvalue⟩ := h.runFrom_shift t m (0 + n) log ((h.runFrom t n 0 []).run w).state
    rw [Nat.zero_add] at hlimit hwhole hstate hvalue
    refine ⟨fun k hk => ?_, fun hnot => absurd hlimit (hnot n)⟩
    rw [hlimit] at hk
    cases hk
    rw [hwhole]
    exact ⟨rfl, hstate, hvalue⟩
  · rw [hwhole]
    exact ⟨fun k hk => absurd hk (hends k), fun _ => ⟨rfl, rfl⟩⟩

end Host

namespace Machine

/-- The script runs for three steps with answers at once, and for one step with promises. -/
theorem greeting_in_pieces :
    ((naming.runUntilIdle ⟨1⟩ 1).run greeting).value = .ok ⟨1, .stepLimit⟩ ∧
      ((naming.runUntilIdle ⟨1⟩ 2).run ((naming.runUntilIdle ⟨1⟩ 1).run greeting).state).value =
        .ok ⟨2, .finished⟩ ∧
      ((naming.runUntilIdle ⟨1⟩ (1 + 2)).run greeting).value = .ok ⟨3, .finished⟩ ∧
      ((naming.runUntilIdle ⟨1⟩ (1 + 2)).run greeting).state =
        ((naming.runUntilIdle ⟨1⟩ 2).run ((naming.runUntilIdle ⟨1⟩ 1).run greeting).state).state ∧
      (((asking {}).runUntilIdle ⟨1⟩ 1).run greeting).value = .ok ⟨1, .idle⟩ ∧
      (((asking {}).runUntilIdle ⟨1⟩ (1 + 2)).run greeting).value = .ok ⟨1, .idle⟩ := by
  have hfirst : ((naming.runUntilIdle ⟨1⟩ 1).run greeting).value = .ok ⟨1, .stepLimit⟩ := by
    decide +kernel
  have hsecond :
      ((naming.runUntilIdle ⟨1⟩ 2).run ((naming.runUntilIdle ⟨1⟩ 1).run greeting).state).value =
      .ok ⟨2, .finished⟩ := by decide +kernel
  have hidle : (((asking {}).runUntilIdle ⟨1⟩ 1).run greeting).value = .ok ⟨1, .idle⟩ := by
    decide +kernel
  obtain ⟨hpieces, -⟩ := Host.runUntilIdle_add naming ⟨1⟩ greeting Nat.one_pos Nat.two_pos
  obtain ⟨-, hends⟩ := Host.runUntilIdle_add (asking {}) ⟨1⟩ greeting Nat.one_pos Nat.two_pos
  obtain ⟨-, hstate, hvalue⟩ := hpieces 1 hfirst
  rw [hsecond] at hvalue
  refine ⟨hfirst, hsecond, hvalue, hstate, hidle, ?_⟩
  rw [(hends fun k hk => ?_).1, hidle]
  rw [hidle] at hk
  cases hk

end Machine

end StepScript
