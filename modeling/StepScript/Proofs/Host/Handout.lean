import StepScript.Proofs.Host.Awaited
import StepScript.Proofs.Host.Resume
import StepScript.Proofs.Machine.Marks

/-!
# Proofs/Host/Handout — each invocation is handed out once

A claim returns the invocation with the smallest handle that was never returned before. The machine
does not keep what was returned; it marks invocations. Whatever hosts do, also while they are asked,
and through any number of saves that are loaded at once, an invocation is marked exactly if a claim
returned it since it was started.

* `Moment.HandedOut` — a claim returned an invocation, and it has not ended since.
* `Machine.Hands` — what a claim does, given what happened before.
* `Host.Course` — what hosts do, resets and loads included, with all its moments.
* `Moment.Passes`, `Host.Course.track` — what becomes of marks from a moment to the next, and so
  along a course.
* `Machine.Marked.after` — marks go on to agree with what happened.
* `Host.Course.handed_out_once` — no invocation is returned twice in its life, and claims return all
  of them in turn.
-/

namespace StepScript

/-! ## What was handed out -/

namespace Moment

variable {past : List Moment} {d : Moment} {t : ThreadHandle}

/-- A claim begins that returns the invocation. -/
def Claims (e : Moment) (t : ThreadHandle) : Prop :=
  e.next = some .claim ∧ e.machine.claimNext.1 = some t

/-- **The invocation was handed out**: a claim returned it, and it has been live at every moment
since. -/
def HandedOut (past : List Moment) (t : ThreadHandle) : Prop :=
  ∃ before e since, past = before ++ e :: since ∧ e.Claims t ∧
    ∀ d ∈ since, d.machine.threads.contains t = true

/-- One moment later the invocation was handed out just then, or before and it is still live. -/
theorem handedOut_concat :
    HandedOut (past ++ [d]) t ↔
      d.Claims t ∨ HandedOut past t ∧ d.machine.threads.contains t = true := by
  constructor
  · rintro ⟨before, e, since, hpast, hclaims, hlive⟩
    rcases List.eq_nil_or_concat' since with rfl | ⟨since, last, rfl⟩
    · obtain ⟨-, heq⟩ := List.append_inj' hpast rfl
      cases heq
      exact .inl hclaims
    · rw [← List.cons_append, ← List.append_assoc] at hpast
      obtain ⟨rfl, heq⟩ := List.append_inj' hpast rfl
      cases heq
      obtain ⟨hlive, hlast⟩ := List.forall_mem_append.1 hlive
      exact .inr ⟨⟨before, e, since, rfl, hclaims, hlive⟩, hlast d (List.mem_singleton_self d)⟩
  · rintro (hclaims | ⟨⟨before, e, since, rfl, hclaims, hlive⟩, hlast⟩)
    · exact ⟨past, d, [], rfl, hclaims, List.forall_mem_nil _⟩
    · refine ⟨before, e, since ++ [d], by rw [List.append_assoc, List.cons_append], hclaims, ?_⟩
      exact List.forall_mem_append.2 ⟨hlive, List.forall_mem_singleton.2 hlast⟩

/-- What a claim returns is live. -/
theorem Claims.exists_thread (h : d.Claims t) :
    ∃ thread, d.machine.threads.get? t = some thread := by
  have hclaim := h.2
  rcases d.machine.claimNext_cases with ⟨hnone, -⟩ | ⟨k, thread, hthread, -, -, hsome⟩
  · rw [hnone] at hclaim
    cases hclaim
  · rw [hsome] at hclaim
    cases hclaim
    exact ⟨thread, hthread⟩

/-! ## From a moment to the next -/

/-- **What becomes of marks** from a moment to the next: an invocation was there before, and has the
mark that it had or that a claim gave it; or it is new and has none. -/
structure Passes (e : Moment) (m : Machine) : Prop where
  tidy : m.Tidy
  thread : ∀ t thread', m.threads.get? t = some thread' →
    (∃ thread, e.machine.threads.get? t = some thread ∧
        (thread'.wasClaimed = true ↔ thread.wasClaimed = true ∨ e.Claims t) ∧
        (thread'.claimed = true → thread.claimed = true ∨ e.Claims t)) ∨
      e.machine.threads.get? t = none ∧ thread'.wasClaimed = false ∧ thread'.claimed = false

/-- What keeps marks passes them on, unless it is a claim. -/
theorem Passes.of_keepsMarks {e : Moment} {m : Machine} (htidy : e.machine.Tidy)
    (hnext : e.next ≠ some .claim) (h : e.machine.KeepsMarks m) : e.Passes m := by
  refine ⟨h.tidy htidy, fun t thread' ht => .inl ?_⟩
  obtain ⟨thread, hthread, hwas, hclaimed⟩ := h.thread t thread' ht
  exact ⟨thread, hthread, by simp [hwas, Claims, hnext], fun hc => .inl (hclaimed hc)⟩

/-- Where an operation goes on, or a host begins to answer. -/
theorem Passes.resume {m m' : Machine} (htidy : m.Tidy) (h : m.KeepsMarks m') :
    (Moment.mk m none).Passes m' :=
  .of_keepsMarks htidy (Option.some_ne_none _).symm h

/-- A start makes an invocation that has no marks. -/
theorem Passes.opened {m : Machine} (htidy : m.Tidy) (hroom : ¬ m.threads.Full) (entity : EntityId)
    (name : String) :
    (Moment.mk m (some (.start entity name))).Passes (m.opened entity name) := by
  refine ⟨htidy.opened entity name, fun t thread' ht => ?_⟩
  rw [Machine.get?_threads_opened] at ht
  split at ht
  · next hfresh =>
    cases ht
    exact .inr ⟨hfresh ▸ Table.get?_fresh htidy.threads.next hroom, rfl, rfl⟩
  · exact .inl ⟨thread', ht, by simp [Claims], .inl⟩

/-- A claim marks what it returns. -/
theorem Passes.claim {m : Machine} (htidy : m.Tidy) :
    (Moment.mk m (some .claim)).Passes m.claimNext.2 := by
  rcases m.claimNext_cases with ⟨hnone, -⟩ | ⟨k, thread, hthread, -, -, hsome⟩
  · rw [hnone]
    exact ⟨htidy, fun t thread' ht => .inl ⟨thread', ht, by simp [Claims, hnone], .inl⟩⟩
  · rw [hsome]
    refine ⟨⟨htidy.targets, htidy.threads.modify k _⟩, fun t thread' ht => .inl ?_⟩
    rw [Machine.threads_modifyThread, Table.get?_modify] at ht
    split at ht
    · next heq =>
      subst heq
      rw [hthread] at ht
      cases ht
      have hclaims : (Moment.mk m (some .claim)).Claims t := ⟨rfl, congrArg Prod.fst hsome⟩
      exact ⟨thread, hthread, iff_of_true rfl (.inr hclaims), fun _ => .inr hclaims⟩
    · next hne => exact ⟨thread', ht, by simp [Claims, hsome, Ne.symm hne], .inl⟩

end Moment

namespace Machine

open Moment (HandedOut)

variable {past : List Moment} {m : Machine} {t : ThreadHandle}

/-- **Marks agree with what happened**: who was handed out is marked, and who is claimed was. -/
structure Marked (past : List Moment) (m : Machine) : Prop where
  handedOut : ∀ t thread, m.threads.get? t = some thread →
    (thread.wasClaimed = true ↔ HandedOut past t)
  claimed : ∀ t thread, m.threads.get? t = some thread → thread.claimed = true →
    thread.wasClaimed = true

/-- **The invocation is next**: of those that are live and were not handed out, it has the smallest
handle. -/
structure IsNext (past : List Moment) (m : Machine) (t : ThreadHandle) : Prop where
  live : m.threads.contains t = true
  left : ¬ HandedOut past t
  least : ∀ k, m.threads.contains k = true → ¬ HandedOut past k → t.raw ≤ k.raw

/-- There is at most one invocation that is next. -/
theorem IsNext.unique {k : ThreadHandle} (ht : IsNext past m t) (hk : IsNext past m k) : t = k := by
  have hraw : t.raw = k.raw :=
    UInt32.le_antisymm (ht.least k hk.live hk.left) (hk.least t ht.live ht.left)
  exact congrArg Handle.mk hraw

/-- **What a claim does**, given what happened before: it returns the invocation that is next, and
changes the two marks of that invocation. -/
structure Hands (past : List Moment) (m : Machine) (reply : Option ThreadHandle) (m' : Machine) :
    Prop where
  none : reply = none ↔ ∀ t, m.threads.contains t = true → HandedOut past t
  some : ∀ t, reply = some t ↔ m.IsNext past t
  same : reply = Option.none → m' = m
  marks : ∀ t, reply = Option.some t →
    m' = m.modifyThread t fun thread => { thread with claimed := true, wasClaimed := true }

namespace Marked

theorem new : Marked [] ∅ := by
  refine ⟨fun t thread ht => ?_, fun t thread ht _ => ?_⟩ <;> cases ht

/-- **Marks go on to agree with what happened.** -/
theorem after {e : Moment} (h : Marked past e.machine) (hpasses : e.Passes m) :
    Marked (past ++ [e]) m := by
  refine ⟨fun t thread' ht => ?_, fun t thread' ht hclaimed' => ?_⟩
  · rw [Moment.handedOut_concat]
    rcases hpasses.thread t thread' ht with ⟨thread, hthread, hwas, -⟩ | ⟨hnone, hwas, -⟩
    · have hlive : e.machine.threads.contains t = true := Table.contains_iff.2 ⟨thread, hthread⟩
      rw [hwas, h.handedOut t thread hthread, and_iff_left hlive, or_comm]
    · -- a new invocation was not returned by a claim, for it was not there
      refine iff_of_false (Bool.eq_false_iff.1 hwas) ?_
      rintro (hclaims | ⟨-, hlive⟩)
      · obtain ⟨thread, hthread⟩ := hclaims.exists_thread
        rw [hnone] at hthread
        cases hthread
      · rw [Table.contains_eq, hnone] at hlive
        cases hlive
  · rcases hpasses.thread t thread' ht with ⟨thread, hthread, hwas, hclaimed⟩ | ⟨-, -, hclaimed⟩
    · exact hwas.2 ((hclaimed hclaimed').imp_left (h.claimed t thread hthread))
    · rw [hclaimed] at hclaimed'
      cases hclaimed'

/-- Whoever bears one of the two marks was handed out, and the other way round. -/
theorem iff_handedOut (h : Marked past m) {thread : Thread} (ht : m.threads.get? t = some thread) :
    (thread.claimed || thread.wasClaimed) = true ↔ HandedOut past t := by
  rw [Bool.or_eq_true, ← h.handedOut t thread ht]
  exact or_iff_right_of_imp (h.claimed t thread ht)

/-- **A claim goes by what happened.** -/
theorem hands (h : Marked past m) : Hands past m m.claimNext.1 m.claimNext.2 := by
  rcases m.claimNext_cases with ⟨hnone, hall⟩ | ⟨t, thread, hthread, hunmarked, hleast, hsome⟩
  · have hout : ∀ t, m.threads.contains t = true → HandedOut past t := by
      intro t ht
      obtain ⟨thread, hthread⟩ := Table.contains_iff.1 ht
      exact (h.iff_handedOut hthread).1 (hall t thread hthread)
    rw [hnone]
    refine ⟨iff_of_true rfl hout, fun t => iff_of_false (Option.some_ne_none t).symm ?_,
      fun _ => rfl, ?_⟩
    · exact fun hnext => hnext.left (hout t hnext.live)
    · rintro t ⟨⟩
  · have hnext : IsNext past m t := by
      refine ⟨Table.contains_iff.2 ⟨thread, hthread⟩, fun hout => ?_, fun k hk hleft => ?_⟩
      · rw [(h.iff_handedOut hthread).2 hout] at hunmarked
        cases hunmarked
      · obtain ⟨other, hother⟩ := Table.contains_iff.1 hk
        exact hleast k other hother (Bool.eq_false_iff.2 (mt (h.iff_handedOut hother).1 hleft))
    rw [hsome]
    refine ⟨iff_of_false (Option.some_ne_none t) fun hall => hnext.left (hall t hnext.live),
      fun k => ⟨?_, ?_⟩, ?_, ?_⟩
    · rintro ⟨⟩
      exact hnext
    · exact fun hk => congrArg some (hnext.unique hk)
    · rintro ⟨⟩
    · rintro k ⟨⟩
      rfl

end Marked

end Machine

/-! ## What hosts do to marks -/

namespace Host

open Machine (KeepsMarks)

variable {η : Type} {h : Host η} {w w' u v : World η} {t : ThreadHandle} {f : FrameHandle}
  {q : Question} {op : Operation}

/-- **Looking for a script**: from the answer on marks are kept. -/
theorem keepsMarks_pushFrame (h : Host η) (w : World η) (t : ThreadHandle) (name : String)
    (args : List String) :
    (h.answered w (.script t name args)).machine.KeepsMarks
      ((h.pushFrame t name args).run w).state.machine := by
  rcases h.pushFrame_cases w t name args with ⟨failure, -, -, hstate⟩ | ⟨script, warnings, -,
    ⟨thread, f, -, -, hstate⟩ | ⟨failure, -, -, hstate⟩⟩
  · rw [hstate]
    exact .refl _
  · rw [hstate]
    exact .pushed _ t script args
  · rw [hstate]
    exact .abandoned _ t script args

/-- **A step** keeps marks, up to its question or, if it asks nothing, to its end. -/
theorem keepsMarks_step (h : Host η) (w : World η) (f : FrameHandle) :
    (h.questionOf w f = none → w.machine.KeepsMarks ((h.step f).run w).state.machine) ∧
      ∀ q u, h.questionOf w f = some (q, u) → w.machine.KeepsMarks u.machine := by
  have hready := KeepsMarks.prepare f w.machine
  unfold questionOf step
  rw [Act.run_bind, World.run_liftM]
  dsimp only
  cases hvalue : ((Machine.prepare f).run w.machine).value with
  | error failure => exact ⟨fun _ => hready, fun q u hask => by cases hask⟩
  | ok readied =>
    cases readied with
    | settled signal => exact ⟨fun _ => hready, fun q u hask => by cases hask⟩
    | line l =>
      have hplan := hready.trans (.plan h.toSetting l _)
      dsimp only
      unfold questionAt execute
      rw [Act.run_bind, World.run_liftM]
      dsimp only
      cases hplanned :
          ((Machine.plan h.toSetting l).run ((Machine.prepare f).run w.machine).state).value with
      | go flow => exact ⟨fun _ => hplan.trans (.edits (Machine.edits_follow l flow _)),
          fun q u hask => by cases hask⟩
      | ask call assignTo =>
        refine ⟨fun hask => absurd hask (Option.some_ne_none _), fun q u hask => ?_⟩
        cases hask
        exact hplan
      | enter name args =>
        refine ⟨fun hask => absurd hask (Option.some_ne_none _), fun q u hask => ?_⟩
        cases hask
        exact hplan.trans (.of_same rfl rfl)

/-- **A start** keeps marks when it has looked for its script, whether it succeeds, fails, or finds
its target gone. -/
theorem keepsMarks_start (h : Host η) (w : World η) (entity : EntityId) (name : String) :
    ((h.pushFrame w.machine.threads.fresh name []).run
        { w with machine := w.machine.opened entity name }).state.machine.KeepsMarks
      ((h.start entity name).run w).state.machine := by
  cases hvalue : ((h.pushFrame w.machine.threads.fresh name []).run
    { w with machine := w.machine.opened entity name }).value with
  | error failure =>
    rw [start_of_error hvalue rfl]
    refine (KeepsMarks.erase _ w.machine.threads.fresh).trans (.of_targets (fun hproper => ?_) rfl)
    dsimp only
    split
    · exact hproper.eraseIf _ _
    · exact hproper
  | ok f =>
    by_cases hhome : ((h.pushFrame w.machine.threads.fresh name []).run
      { w with machine := w.machine.opened entity name }).state.machine.targets.contains
        (w.machine.home entity).1.1 = true
    · rw [start_of_ok hvalue rfl hhome]
      exact .modifyTarget _ _ _
    · obtain ⟨finish, hrun, -, hfinish⟩ := h.exists_run_start w entity name
      rw [hrun, Act.run_bind, hvalue]
      dsimp only
      rw [(hfinish f _).2 hhome]
      exact .cleanup _ _

/-- **From an answer to the end of the operation** marks are kept. -/
theorem keepsMarks_answer (hask : h.question v op = some (q, u)) :
    (h.answered u q).machine.KeepsMarks ((h.perform op).run v).state.machine := by
  have hstep : ∀ f, h.questionOf v f = some (q, u) →
      (h.answered u q).machine.KeepsMarks ((h.step f).run v).state.machine := by
    intro f hask
    cases q with
    | function call =>
      obtain ⟨l, assignTo, answer, hstate⟩ := step_of_function hask
      rw [hstate]
      exact .takeAnswer l call assignTo answer _
    | script t name args =>
      rw [(step_of_question hask).1]
      exact keepsMarks_pushFrame h u t name args
  cases op with
  | start entity name =>
    cases hask
    simp only [perform, Act.run_map]
    exact (keepsMarks_pushFrame h _ _ name []).trans (keepsMarks_start h v entity name)
  | step f =>
    simp only [perform, Act.run_map]
    exact hstep f hask
  | stepInvocation t =>
    obtain ⟨f, hrun, hask⟩ := stepInvocation_of_question hask
    simp only [perform, Act.run_map, hrun]
    exact hstep f hask
  | _ => cases hask

/-- **An operation that asks nothing** keeps marks, unless it is a claim. -/
theorem keepsMarks_plain (hask : h.question v op = none) (hop : op ≠ .claim) :
    v.machine.KeepsMarks ((h.perform op).run v).state.machine := by
  cases op with
  | start entity name => cases hask
  | step f =>
    simp only [perform, Act.run_map]
    exact (keepsMarks_step h v f).1 hask
  | stepInvocation t =>
    simp only [perform, Act.run_map]
    cases htop : v.machine.frameOf t with
    | none =>
      rw [machine_stepInvocation_of_bare htop]
      exact .cleanup _ t
    | some f =>
      obtain ⟨below, hstack⟩ := Machine.stackAt_of_frameOf htop
      rw [question, htop, Option.bind_some] at hask
      rw [run_stepInvocation hstack]
      exact (keepsMarks_step h v f).1 hask
  | complete f result =>
    simp only [perform, Act.run_map, World.run_onMachine]
    exact .edits (Machine.edits_completeCall f result v.machine)
  | setVariable t token value =>
    simp only [perform, Act.run_map, World.run_onMachine]
    exact .edits (Machine.edits_setVariable t token value v.machine)
  | setGlobal name value => exact .of_same rfl rfl
  | claim => exact absurd rfl hop
  | cleanup t => exact .cleanup _ t
  | reset => exact .reset _

/-- From the beginning of an operation that asks nothing to its end. -/
theorem passes_plain (htidy : v.machine.Tidy) (hask : h.question v op = none) :
    (Moment.mk v.machine (some op)).Passes ((h.perform op).run v).state.machine := by
  by_cases hop : op = .claim
  · subst hop
    exact .claim htidy
  · exact .of_keepsMarks htidy (mt Option.some.inj hop) (keepsMarks_plain hask hop)

/-- From the beginning of an operation to its question. -/
theorem passes_question (htidy : v.machine.Tidy) (hask : h.question v op = some (q, u))
    (hroom : ∀ entity name, op = .start entity name → ¬ v.machine.threads.Full) :
    (Moment.mk v.machine (some op)).Passes u.machine := by
  cases op with
  | start entity name =>
    cases hask
    exact .opened htidy (hroom entity name rfl) entity name
  | step f => exact .of_keepsMarks htidy (by rintro ⟨⟩) ((keepsMarks_step h v f).2 q u hask)
  | stepInvocation t =>
    obtain ⟨f, -, hask⟩ := Option.bind_eq_some_iff.1 hask
    exact .of_keepsMarks htidy (by rintro ⟨⟩) ((keepsMarks_step h v f).2 q u hask)
  | _ => cases hask

/-! ## Courses -/

/-- **What hosts do, with all its moments**, as a `Run` has them, resets and loads included. A load
takes the bytes of a save that was made just before; the machine that loads them may be another one.
There is room for each invocation that is started. -/
inductive Course : World η → World η → List Moment → Prop where
  | start (w : World η) : Course w w []
  | own {w v : World η} {es : List Moment} (hbefore : Course w v es) (own : η) :
    Course w { v with own } es
  | plain {w v : World η} {es : List Moment} {h : Host η} {op : Operation} (hbefore : Course w v es)
    (hask : h.question v op = none) :
    Course w ((h.perform op).run v).state (es ++ [⟨v.machine, some op⟩])
  | asking {w v u : World η} {es during : List Moment} {h : Host η} {op : Operation} {q : Question}
    (hbefore : Course w v es)
    (hroom : ∀ entity name, op = .start entity name → ¬ v.machine.threads.Full)
    (hask : h.question v op = some (q, u)) (hanswer : Course u (h.answered u q) during) :
    Course w ((h.perform op).run v).state
      (es ++ ⟨v.machine, some op⟩ :: ⟨u.machine, none⟩ :: during ++
        [⟨(h.answered u q).machine, none⟩])
  | reload {w v : World η} {es : List Moment} {bs : Bytes} (hbefore : Course w v es)
    (hsave : v.machine.save = .ok bs) (s : Setting) (m : Machine) :
    Course w { v with machine := ((Machine.load s bs).run m).state } (es ++ [⟨v.machine, none⟩])

/-- **The track of a course**: from each of its moments marks pass to the next. -/
inductive Track : Machine → List Moment → Machine → Prop where
  | nil (m : Machine) : Track m [] m
  | cons {e : Moment} {es : List Moment} {m m' : Machine} (hpasses : e.Passes m)
    (hrest : Track m es m') :
    Track e.machine (e :: es) m'

namespace Track

variable {m m' m'' : Machine} {es es' : List Moment}

/-- Tracks are joined end to end. -/
theorem append (h : Track m es m') (h' : Track m' es' m'') : Track m (es ++ es') m'' := by
  induction h with
  | nil => exact h'
  | cons hpasses _ ih => exact .cons hpasses (ih h')

/-- A track goes through the machines of its moments. -/
theorem upTo {e : Moment} (h : Track m (es ++ e :: es') m') : Track m es e.machine := by
  induction es generalizing m with
  | nil =>
    cases h with
    | cons hpasses hrest => exact .nil _
  | cons d es ih =>
    cases h with
    | cons hpasses hrest => exact .cons hpasses (ih hrest)

theorem tidy (h : Track m es m') (htidy : m.Tidy) : m'.Tidy := by
  induction h with
  | nil => exact htidy
  | cons hpasses _ ih => exact ih hpasses.tidy

/-- **Marks agree with what happened**, along the whole track. -/
theorem marked {past : List Moment} (h : Track m es m') (hmarked : m.Marked past) :
    m'.Marked (past ++ es) := by
  induction h generalizing past with
  | nil => rwa [List.append_nil]
  | cons hpasses _ ih =>
    have hafter := ih (hmarked.after hpasses)
    rwa [List.append_assoc, List.singleton_append] at hafter

end Track

/-- **Every course has a track.** -/
theorem Course.track {es : List Moment} (hcourse : Course w w' es) (htidy : w.machine.Tidy) :
    Track w.machine es w'.machine := by
  induction hcourse with
  | start w => exact .nil _
  | own _ _ ih => exact ih htidy
  | plain _ hask ih =>
    have htrack := ih htidy
    exact htrack.append (.cons (passes_plain (htrack.tidy htidy) hask) (.nil _))
  | asking _ hroom hask _ ih ihanswer =>
    have htrack := ih htidy
    have hasks := passes_question (htrack.tidy htidy) hask hroom
    -- the answer is a course of its own, from the question on
    have hanswer := ihanswer hasks.tidy
    have hends := Moment.Passes.resume (hanswer.tidy hasks.tidy) (keepsMarks_answer hask)
    rw [List.append_assoc]
    exact htrack.append
      (.cons hasks (.cons (.resume hasks.tidy (.refl _)) (hanswer.append (.cons hends (.nil _)))))
  | reload _ hsave s m ih =>
    have htrack := ih htidy
    have htidy' := htrack.tidy htidy
    exact htrack.append (.cons (.resume htidy' (.reload hsave htidy' s m)) (.nil _))

open Moment (HandedOut)

/-- **No invocation is handed out twice.** At every moment of what hosts do with a new machine, at
any depth: if a claim returns an invocation that a claim returned before, it has ended in between; a
claim returns the first of those that were not handed out, and none only if all were; it changes
nothing but the two marks of what it returns; and who is claimed was handed out. -/
theorem Course.handed_out_once {es before after : List Moment} {e : Moment}
    (hcourse : Course w w' es) (hnew : w.machine = ∅)
    (hmoments : es ++ [⟨w'.machine, none⟩] = before ++ e :: after) :
    (∀ past d between t, before = past ++ d :: between → d.Claims t → e.Claims t →
        ∃ x ∈ between, x.machine.threads.contains t = false) ∧
      (∀ (h : Host η) (own : η), ∃ reply m', (h.perform .claim).run ⟨e.machine, own⟩ =
        ⟨.claimed reply, ⟨m', own⟩, []⟩ ∧
        e.machine.Hands before reply m') ∧
      ∀ t thread, e.machine.threads.get? t = some thread → thread.claimed = true →
        thread.wasClaimed = true ∧ HandedOut before t := by
  have htidy : w.machine.Tidy := hnew ▸ ⟨.empty, .empty⟩
  have hunmarked : w.machine.Marked [] := hnew ▸ .new
  have htrack := hcourse.track htidy
  have hall := htrack.append (.cons (.resume (htrack.tidy htidy) (.refl _)) (.nil _))
  rw [hmoments] at hall
  have hmarked : e.machine.Marked before := hall.upTo.marked hunmarked
  have hhands := hmarked.hands
  refine ⟨fun past d between t hbefore hd he => ?_, fun h own => ⟨_, _, rfl, hhands⟩,
    fun t thread ht hclaimed => ?_⟩
  · by_contra hlive
    refine ((hhands.some t).1 he.2).left ⟨past, d, between, hbefore, hd, fun x hx => ?_⟩
    by_contra hgone
    exact hlive ⟨x, hx, Bool.eq_false_iff.2 hgone⟩
  · have hwas := hmarked.claimed t thread ht hclaimed
    exact ⟨hwas, (hmarked.handedOut t thread ht).1 hwas⟩

end Host

namespace Machine

open Moment (HandedOut)

/-- The first of two invocations was claimed. -/
def oneClaimed : World (List Call) := (((asking {}).perform .claim).run twice).state

/-- Then the machine was saved, and loaded by another. -/
def oneReloaded : World (List Call) :=
  { oneClaimed with machine := ((load {} (oneClaimed.machine.save.toOption.getD [])).run ∅).state }

/-- The world in which the machine was saved and loaded is one that hosts can come to. -/
theorem course_oneReloaded : ∃ es, Host.Course ⟨∅, []⟩ oneReloaded es := by
  have hempty : (∅ : Machine).Roomy := roomy_of_free 9 (by decide) (by decide +kernel)
  have hroom : greeting.machine.Roomy := roomy_of_free 9 (by decide) (by decide +kernel)
  obtain ⟨_, hfirst⟩ : ∃ es, Host.Course ⟨∅, []⟩ greeting es :=
    ⟨_, .asking (.start _) (fun _ _ _ => hempty.threads) rfl (.start _)⟩
  obtain ⟨_, hsecond⟩ : ∃ es, Host.Course ⟨∅, []⟩ twice es :=
    ⟨_, .asking hfirst (fun _ _ _ => hroom.threads) rfl (.start _)⟩
  obtain ⟨_, hclaimed⟩ : ∃ es, Host.Course ⟨∅, []⟩ oneClaimed es := ⟨_, .plain hsecond rfl⟩
  have hsave : oneClaimed.machine.save = .ok (oneClaimed.machine.save.toOption.getD []) := by
    decide +kernel
  exact ⟨_, .reload hclaimed hsave {} ∅⟩

/-- The machine that was loaded returns the second invocation, for the first was handed out before
the save. -/
theorem oneReloaded_hands_out_second : ∃ es, Host.Course ⟨∅, []⟩ oneReloaded es ∧
    (((asking {}).perform .claim).run oneReloaded).value = .claimed (some ⟨2⟩) ∧ HandedOut es ⟨1⟩ ∧
    ¬ HandedOut es ⟨2⟩ := by
  obtain ⟨es, hcourse⟩ := course_oneReloaded
  obtain ⟨hlive, hvalue⟩ : oneReloaded.machine.threads.contains ⟨1⟩ = true ∧
      (((asking {}).perform .claim).run oneReloaded).value = .claimed (some ⟨2⟩) := by
    decide +kernel
  -- from here on the world is any world with these properties
  generalize oneReloaded = w at *
  have hmoments : es ++ [⟨w.machine, none⟩] = es ++ (⟨w.machine, none⟩ : Moment) :: [] := rfl
  obtain ⟨-, hclaim, -⟩ := hcourse.handed_out_once rfl hmoments
  obtain ⟨reply, m', hrun, hhands⟩ := hclaim (asking {}) w.own
  have hreply : Reply.claimed reply = .claimed (some ⟨2⟩) :=
    (congrArg Outcome.value hrun).symm.trans hvalue
  have hnext := (hhands.some ⟨2⟩).1 (Reply.claimed.inj hreply)
  refine ⟨es, hcourse, hvalue, ?_, hnext.left⟩
  by_contra hfirst
  exact absurd (hnext.least ⟨1⟩ hlive hfirst) (by decide)

end Machine

end StepScript
