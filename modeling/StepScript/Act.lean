import StepScript.Diagnostic

/-!
# Act — computations over a state that report diagnostics

An `Act σ α` reads and replaces a state `σ`, gives an `α` and reports diagnostics in order. What it
reports never influences what it does: the log is an output, not part of the state, so two runs from
the same state agree whatever was reported before.
-/

namespace StepScript

/-- What a computation leaves behind: its value, the new state, and what it reported. -/
structure Outcome (σ α : Type) where
  value : α
  state : σ
  log : List Diagnostic

/-- **A computation** over the state `σ` with result `α`. -/
def Act (σ α : Type) : Type := σ → Outcome σ α

namespace Act

variable {σ τ α β : Type}

/-- Runs a computation from a state. -/
def run (x : Act σ α) (s : σ) : Outcome σ α := x s

instance : Monad (Act σ) where
  pure a := fun s => ⟨a, s, []⟩
  bind x f := fun s =>
    let r := x s
    let q := f r.value r.state
    ⟨q.value, q.state, r.log ++ q.log⟩

instance : MonadStateOf σ (Act σ) where
  get := fun s => ⟨s, s, []⟩
  set s := fun _ => ⟨(), s, []⟩
  modifyGet f := fun s => ⟨(f s).1, (f s).2, []⟩

/-- Reports one diagnostic. -/
def report (d : Diagnostic) : Act σ Unit := fun s => ⟨(), s, [d]⟩

/-- Reports diagnostics. -/
def reportAll (ds : List Diagnostic) : Act σ Unit := fun s => ⟨(), s, ds⟩

/-- Runs a computation on a part of the state. -/
def focus (get : τ → σ) (put : τ → σ → τ) (x : Act σ α) : Act τ α := fun t =>
  let r := x (get t)
  ⟨r.value, put t r.state, r.log⟩

/-- Runs a computation for each element, in order. -/
def forEach (f : α → Act σ Unit) : List α → Act σ Unit
  | [] => pure ()
  | a :: as => do f a; forEach f as

/-- Runs a computation for each element and collects the results. -/
def collect (f : α → Act σ β) : List α → Act σ (List β)
  | [] => pure []
  | a :: as => do
    let b ← f a
    let bs ← collect f as
    return b :: bs

/-! ## What the combinators do -/

@[simp] theorem run_pure (a : α) (s : σ) : (pure a : Act σ α).run s = ⟨a, s, []⟩ := rfl

@[simp] theorem run_bind (x : Act σ α) (f : α → Act σ β) (s : σ) :
    (x >>= f).run s =
      ⟨((f (x.run s).value).run (x.run s).state).value,
        ((f (x.run s).value).run (x.run s).state).state,
        (x.run s).log ++ ((f (x.run s).value).run (x.run s).state).log⟩ := rfl

@[simp] theorem run_get (s : σ) : (get : Act σ σ).run s = ⟨s, s, []⟩ := rfl

/-- A computation that starts by reading the state is given the state. -/
theorem run_get_bind (f : σ → Act σ α) (s : σ) : ((get : Act σ σ) >>= f).run s = (f s).run s := rfl

@[simp] theorem run_set (s t : σ) : (set s : Act σ Unit).run t = ⟨(), s, []⟩ := rfl

theorem run_set_bind (s t : σ) (f : PUnit → Act σ α) :
    (set s >>= f : Act σ α).run t = (f ⟨⟩).run s := rfl

@[simp] theorem run_modify (f : σ → σ) (s : σ) :
    (modify f : Act σ Unit).run s = ⟨(), f s, []⟩ := rfl

@[simp] theorem run_report (d : Diagnostic) (s : σ) :
    (report d : Act σ Unit).run s = ⟨(), s, [d]⟩ := rfl

@[simp] theorem run_reportAll (ds : List Diagnostic) (s : σ) :
    (reportAll ds : Act σ Unit).run s = ⟨(), s, ds⟩ := rfl

@[simp] theorem run_focus (get : τ → σ) (put : τ → σ → τ) (x : Act σ α) (t : τ) :
    (x.focus get put).run t =
      ⟨(x.run (get t)).value, put t (x.run (get t)).state, (x.run (get t)).log⟩ :=
  rfl

theorem run_ite {c : Prop} [Decidable c] (x y : Act σ α) (s : σ) :
    (if c then x else y).run s = if c then x.run s else y.run s := by
  split <;> rfl

instance : LawfulMonad (Act σ) := LawfulMonad.mk' _
  (fun x => by funext s; simp [Functor.map, Function.comp])
  (fun a f => by funext s; simp [bind, pure])
  (fun x f g => by funext s; simp [bind, List.append_assoc])

@[simp] theorem run_map (f : α → β) (x : Act σ α) (s : σ) :
    (f <$> x).run s = ⟨f (x.run s).value, (x.run s).state, (x.run s).log⟩ := by
  rw [map_eq_pure_bind, run_bind, run_pure, List.append_nil]

/-! ## Loops -/

theorem run_forEach_cons (f : α → Act σ Unit) (a : α) (as : List α) (s : σ) :
    (forEach f (a :: as)).run s =
      ⟨(), ((forEach f as).run ((f a).run s).state).state,
        ((f a).run s).log ++ ((forEach f as).run ((f a).run s).state).log⟩ := rfl

/-- A loop whose rounds change nothing and report nothing does neither. -/
theorem run_forEach_of_still {f : α → Act σ Unit} {as : List α} {s : σ}
    (h : ∀ a ∈ as, (f a).run s = ⟨(), s, []⟩) : (forEach f as).run s = ⟨(), s, []⟩ := by
  induction as with
  | nil => rfl
  | cons a as ih =>
    obtain ⟨ha, has⟩ := List.forall_mem_cons.1 h
    rw [run_forEach_cons, ha, ih has]
    rfl

/-- **What every round carries on holds at the end**, and all reports are of the kind that the
rounds make. The property may speak of the elements done so far. -/
theorem forEach_spec {f : α → Act σ Unit} {p : List α → σ → Prop} {q : Diagnostic → Prop}
    {as : List α} {s : σ} (hnodup : as.Nodup) (hinit : p [] s)
    (hstep : ∀ done a s, a ∉ done → a ∈ as → p done s →
      p (done ++ [a]) ((f a).run s).state ∧ ∀ d ∈ ((f a).run s).log, q d) :
    p as ((forEach f as).run s).state ∧ ∀ d ∈ ((forEach f as).run s).log, q d := by
  suffices hall : ∀ done rest s, done ++ rest = as → p done s →
      p as ((forEach f rest).run s).state ∧ ∀ d ∈ ((forEach f rest).run s).log, q d from
    hall [] as s rfl hinit
  intro done rest
  induction rest generalizing done with
  | nil =>
    intro s heq hp
    rw [List.append_nil] at heq
    exact ⟨heq ▸ hp, nofun⟩
  | cons a rest ih =>
    intro s heq hp
    rw [← heq] at hnodup
    have hnew : a ∉ done := fun hmem =>
      (List.nodup_append.1 hnodup).2.2 a hmem a List.mem_cons_self rfl
    obtain ⟨hround, hlog⟩ :=
      hstep done a s hnew (heq ▸ List.mem_append_right done List.mem_cons_self) hp
    obtain ⟨hend, hrest⟩ := ih (done ++ [a]) _ (by rw [List.append_assoc]; exact heq) hround
    exact ⟨hend, List.forall_mem_append.2 ⟨hlog, hrest⟩⟩

theorem forEach_induction {f : α → Act σ Unit} {p : List α → σ → Prop} {as : List α} {s : σ}
    (hnodup : as.Nodup) (hinit : p [] s)
    (hstep : ∀ done a s, a ∉ done → a ∈ as → p done s → p (done ++ [a]) ((f a).run s).state) :
    p as ((forEach f as).run s).state :=
  (forEach_spec (q := fun _ => True) hnodup hinit fun done a s hnew hmem hp =>
    ⟨hstep done a s hnew hmem hp, fun _ _ => trivial⟩).1

end Act

end StepScript
