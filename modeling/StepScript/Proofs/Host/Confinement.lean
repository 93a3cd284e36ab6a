import StepScript.Proofs.Host.Reachable

/-!
# Proofs/Host/Confinement — a step touches only its own invocation

A token can name four stores of variables, and entering or leaving a script edits several tables.
All the same a step reaches no further than the invocation that is stepped: other invocations keep
everything they have, other targets are not touched, and below the innermost frame a stack changes
only by what comes off it.

* `Machine.Apart` — two machines that differ in one invocation only.
* `Machine.Restacked` — what a step can do to the stack of its invocation.
* `Machine.Reachable.step_confined` — every step of a reachable machine is of this kind.
-/

namespace StepScript

namespace Machine

variable {m m' : Machine} {t : ThreadHandle} {f : FrameHandle} {below : List FrameHandle}

/-! ## Machines that differ in one invocation -/

/-- **The machines differ in one invocation only.** Its target keeps its entity, and its list too
unless the invocation is gone. -/
structure Apart (t : ThreadHandle) (m m' : Machine) : Prop where
  thread : ∀ k, k ≠ t → m'.threads.get? k = m.threads.get? k
  frame : ∀ f frame, frame.thread ≠ t →
    (m'.frames.get? f = some frame ↔ m.frames.get? f = some frame)
  command : ∀ f frame, m.frames.get? f = some frame → frame.thread ≠ t →
    ∀ c ∈ frame.commands, m'.commands.get? c = m.commands.get? c
  target : ∀ g, m.targetAt t ≠ some g → m'.targets.get? g = m.targets.get? g
  home : ∀ g target, m.targetAt t = some g → m.targets.get? g = some target →
    ∃ target', m'.targets.get? g = some target' ∧ target'.entity = target.entity ∧
      target'.threads = if m'.isLive t then target.threads else target.threads.filter (· ≠ t)
  own : ∀ thread', m'.threads.get? t = some thread' →
    ∃ thread, m.threads.get? t = some thread ∧ thread'.target = thread.target ∧
      thread'.script = thread.script ∧ thread'.claimed = thread.claimed ∧
      thread'.wasClaimed = thread.wasClaimed

namespace Apart

/-- Changes to one invocation add up, as long as it is live in between. -/
theorem trans {m₁ m₂ m₃ : Machine} (h : Apart t m₁ m₂) (h' : Apart t m₂ m₃)
    (hlive : m₂.isLive t = true) : Apart t m₁ m₃ := by
  obtain ⟨thread, hthread⟩ := Table.contains_iff.1 hlive
  obtain ⟨old, hold, htarget, -⟩ := h.own thread hthread
  have hsame : m₂.targetAt t = m₁.targetAt t := by
    rw [targetAt, targetAt, hthread, hold, Option.map_some, Option.map_some, htarget]
  refine ⟨fun k hk => (h'.thread k hk).trans (h.thread k hk),
    fun k frame hne => (h'.frame k frame hne).trans (h.frame k frame hne),
    fun k frame hk hne c hc => ?_,
    fun g hg => (h'.target g (hsame ▸ hg)).trans (h.target g hg), fun g target hg htarget => ?_,
    fun thread' hthread' => ?_⟩
  · have hmid := (h.frame k frame hne).2 hk
    exact (h'.command k frame hmid hne c hc).trans (h.command k frame hk hne c hc)
  · obtain ⟨mid, hmid, hentity, hlist⟩ := h.home g target hg htarget
    obtain ⟨last, hlast, hentity', hlist'⟩ := h'.home g mid (hsame.trans hg) hmid
    rw [if_pos hlive] at hlist
    exact ⟨last, hlast, hentity'.trans hentity, hlist ▸ hlist'⟩
  · obtain ⟨mid, hmid, hfields⟩ := h'.own thread' hthread'
    obtain ⟨first, hfirst, hfields'⟩ := h.own mid hmid
    exact ⟨first, hfirst, hfields.1.trans hfields'.1, hfields.2.1.trans hfields'.2.1,
      hfields.2.2.1.trans hfields'.2.2.1, hfields.2.2.2.trans hfields'.2.2.2⟩

/-- What is within reach of a frame is within its invocation. -/
theorem of_within (h : Within t f m m') (hs : SameLinks m m') (hf : m.threadAt f = some t)
    (hlive : m.isLive t = true) : Apart t m m' where
  thread := h.thread
  frame k frame hne := by
    by_cases hk : k = f
    · -- the frame is one of the invocation before and after
      subst hk
      have hnot : ∀ m : Machine, m.threadAt k = some t → m.frames.get? k ≠ some frame := by
        intro m hthread hget
        rw [threadAt, hget] at hthread
        exact hne (Option.some.inj hthread)
      exact iff_of_false (hnot m' ((hs.threadAt k).trans hf)) (hnot m hf)
    · rw [h.frame k hk]
  command _ _ _ _ _ _ := by rw [h.commands]
  target := h.target
  home g target _ hg := by
    have hbare := h.home g
    rw [hg, Option.map_some] at hbare
    obtain ⟨target', hg', heq⟩ := Option.map_eq_some_iff.1 hbare
    have hlive' : m'.isLive t = true := by
      have hsome := congrArg Option.isSome (hs.targetAt t)
      rw [targetAt, targetAt, Option.isSome_map, Option.isSome_map] at hsome
      exact hsome.trans hlive
    have hentity : target'.bare.entity = target.bare.entity := congrArg Target.entity heq
    have hlist : target'.bare.threads = target.bare.threads := congrArg Target.threads heq
    rw [hlive', if_pos rfl]
    exact ⟨target', hg', hentity, hlist⟩
  own thread' hthread' := by
    have hbare := h.own t
    rw [hthread', Option.map_some] at hbare
    obtain ⟨thread, hthread, heq⟩ := Option.map_eq_some_iff.1 hbare.symm
    exact ⟨thread, hthread, (congrArg Thread.target heq).symm, (congrArg Thread.script heq).symm,
      (congrArg Thread.claimed heq).symm, (congrArg Thread.wasClaimed heq).symm⟩

/-- Readying the innermost frame. -/
theorem readied (hsound : m.Sound) (hstack : m.stackAt t = some (f :: below)) :
    Apart t m (m.readied f) := by
  refine of_within (Within.modifyFrame m _) (edits_readied m f).sameLinks
    (hsound.owned.stacked.owner_of_mem hstack List.mem_cons_self) ?_
  obtain ⟨thread, hthread, -⟩ := Option.map_eq_some_iff.1 hstack
  exact Table.contains_iff.2 ⟨thread, hthread⟩

/-- Taking the innermost frame away. -/
theorem leave (hsound : m.Sound) (hstack : m.stackAt t = some (f :: below)) :
    Apart t m ((m.unstack t f).removeFrame f) := by
  have howner : m.threadAt f = some t := hsound.owned.stacked.owner_of_mem hstack List.mem_cons_self
  have hne : ∀ k frame, m.frames.get? k = some frame → frame.thread ≠ t → k ≠ f := by
    rintro k frame hk hthread rfl
    rw [threadAt, hk] at howner
    exact hthread (Option.some.inj howner)
  refine ⟨fun k hk => ?_, fun k frame hthread => ?_, fun k frame hk hthread c hc => ?_,
    fun g _ => ?_, fun g target _ hg => ?_, fun thread' hthread' => ?_⟩
  · rw [threads_removeFrame, get?_threads_unstack, if_neg hk]
  · rw [get?_frames_removeFrame, frames_unstack]
    exact and_iff_left_of_imp fun hk => hne k frame hk hthread
  · refine get?_commands_leave ?_
    rintro ⟨other, hother, hmem⟩
    exact hne k frame hk hthread (hsound.owned.frame_unique hk hother hc hmem)
  · rw [targets_removeFrame, targets_unstack]
  · obtain ⟨thread, hthread, -⟩ := Option.map_eq_some_iff.1 hstack
    have hlive : ((m.unstack t f).removeFrame f).isLive t = true := by
      rw [isLive, threads_removeFrame, Table.contains_eq, get?_threads_unstack, if_pos rfl, hthread]
      rfl
    rw [targets_removeFrame, targets_unstack, hlive, if_pos rfl]
    exact ⟨target, hg, rfl, rfl⟩
  · rw [threads_removeFrame, get?_threads_unstack, if_pos rfl] at hthread'
    obtain ⟨thread, hthread, rfl⟩ := Option.map_eq_some_iff.1 hthread'
    exact ⟨thread, hthread, rfl, rfl, rfl, rfl⟩

/-- Taking the whole invocation away. -/
theorem cleanup (hsound : m.Sound) (t : ThreadHandle) : Apart t m (m.cleanup t) := by
  have hdead : (m.cleanup t).threads.get? t = none := by
    rw [threads_cleanup, Table.get?_erase, if_pos rfl]
  have hapart : ∀ k frame, m.frames.get? k = some frame → frame.thread ≠ t → ¬ m.Stacks t k := by
    intro k frame hk hthread hstacks
    rw [hsound.owned.stacks_iff, threadAt, hk] at hstacks
    exact hthread (Option.some.inj hstacks)
  refine ⟨fun k hk => ?_, fun k frame hthread => ?_,
    fun k frame hk hthread c hc => Option.ext fun command => ?_, fun g hg => ?_,
    fun g target hg htarget => ?_, fun thread' hthread' => ?_⟩
  · rw [threads_cleanup, Table.get?_erase, if_neg hk]
  · rw [get?_frames_cleanup]
    exact and_iff_left_of_imp fun hk => hapart k frame hk hthread
  · rw [get?_commands_cleanup, and_iff_left]
    rintro e he ⟨other, hother, hmem⟩
    exact hapart k frame hk hthread (hsound.owned.frame_unique hother hk hmem hc ▸ he)
  · have hkeep : ∀ ks : List ThreadHandle,
        (ks.filter fun k => !(decide (k = t) && m.runsOn k g)) = ks := by
      refine fun ks => List.filter_eq_self.2 fun k _ => ?_
      by_cases hk : k = t
      · have hruns : m.runsOn k g = false := by
          refine Bool.eq_false_iff.2 fun hruns => hg ?_
          obtain ⟨thread, hthread, rfl⟩ := runsOn_iff.1 hruns
          rw [targetAt, ← hk, hthread]
          rfl
        simp [hruns]
      · simp [hk]
    rw [get?_targets_cleanup]
    simp only [hkeep, Option.map_id']
  · have hruns : m.runsOn t g = true := by
      obtain ⟨thread, hthread, rfl⟩ := Option.map_eq_some_iff.1 hg
      exact runsOn_iff.2 ⟨thread, hthread, rfl⟩
    have hgone : (m.cleanup t).isLive t = false := by
      rw [isLive, Table.contains_eq, hdead]
      rfl
    have hfilter : (target.threads.filter fun k => !(decide (k = t) && m.runsOn k g)) =
        target.threads.filter (· ≠ t) := by
      refine List.filter_congr fun k _ => ?_
      by_cases hk : k = t <;> simp [hk, hruns]
    refine ⟨{ target with threads := target.threads.filter (· ≠ t) }, ?_, rfl, ?_⟩
    · rw [get?_targets_cleanup, htarget, Option.map_some, hfilter]
    · rw [hgone]
      rfl
  · rw [hdead] at hthread'
    cases hthread'

/-- Putting a script on top of the stack. -/
theorem pushed {thread : Thread} {script : Script} {args : List String} (hsound : m.Sound)
    (ht : m.threads.get? t = some thread) (hroom : (m.pushed t script args).Roomy) :
    Apart t m (m.pushed t script args) := by
  have hfresh : m.frames.get? m.frames.fresh = none :=
    Table.get?_fresh hsound.proper.frames.next fun hfull => hroom.frames (hfull.create _)
  have hown : (m.pushed t script args).threads.get? t =
      some { thread with stack := m.frames.fresh :: thread.stack } := by
    rw [get?_threads_pushed, if_pos rfl, ht]
    rfl
  refine ⟨fun k hk => ?_, fun k frame hthread => ?_, fun k frame hk _ c hc => ?_, fun _ _ => rfl,
    fun g target _ hg => ?_, fun thread' hthread' => ?_⟩
  · rw [get?_threads_pushed, if_neg hk]
  · rw [get?_frames_pushed]
    by_cases hk : k = m.frames.fresh
    · rw [if_pos hk, hk, hfresh]
      refine iff_of_false (fun heq => ?_) (by rintro ⟨⟩)
      cases heq
      exact hthread rfl
    · rw [if_neg hk]
  · obtain ⟨command, hcommand⟩ := hsound.owned.command_of_listed hk hc
    refine Table.get?_createAll_of_notMem fun hmem => ?_
    rw [(Table.createAll_fresh hsound.proper.commands hroom.commands).2 c hmem] at hcommand
    cases hcommand
  · have hlive : (m.pushed t script args).isLive t = true := Table.contains_iff.2 ⟨_, hown⟩
    rw [hlive, if_pos rfl]
    exact ⟨target, hg, rfl, rfl⟩
  · rw [hown] at hthread'
    cases hthread'
    exact ⟨thread, ht, rfl, rfl, rfl, rfl⟩

end Apart

/-! ## Frames that leave -/

/-- **The frame's cursor went forward** over commands that cannot run, and it remembers what it
found. -/
def Advanced (m m' : Machine) (f : FrameHandle) : Prop :=
  ∃ frame index readiness, m.frames.get? f = some frame ∧
    m'.frames.get? f = some { frame with cursor := index, readiness } ∧ frame.cursor ≤ index ∧
    ∀ i command, frame.cursor ≤ i → i < index → m.commandAt frame i = some command →
      command.isRunnable = false

/-- The innermost frame `f` left, and the frame `k` below it was readied. -/
structure Dropped (t : ThreadHandle) (f k : FrameHandle) (below : List FrameHandle)
    (m m' : Machine) :
    Prop where
  sound : m'.Sound
  apart : Apart t m m'
  stack : m'.stackAt t = some (k :: below)
  gone : m'.frames.get? f = none
  advanced : Advanced m m' k
  frame : ∀ e ∈ below, m'.frames.get? e = m.frames.get? e
  command : ∀ e frame, e ∈ below → m.frames.get? e = some frame →
    ∀ c ∈ frame.commands, m'.commands.get? c = m.commands.get? c

/-- A frame reads the same commands where its own commands are the same. -/
theorem commandAt_congr {frame : Frame}
    (h : ∀ c ∈ frame.commands, m'.commands.get? c = m.commands.get? c) (index : Nat) :
    m'.commandAt frame index = m.commandAt frame index := by
  rw [commandAt, commandAt]
  cases hc : frame.commands[index]? with
  | none => rfl
  | some c => exact h c (List.mem_of_getElem? hc)

/-- In a sound machine, the innermost frame leaves and the one below is readied, and nothing else
changes on the stack. -/
theorem Sound.dropped {k : FrameHandle} (h : m.Sound)
    (hstack : m.stackAt t = some (f :: k :: below)) :
    Dropped t f k below m (((m.unstack t f).removeFrame f).readied k) := by
  have hnodup := h.owned.stacked.nodup hstack
  obtain ⟨hf, hk⟩ := List.nodup_cons.1 hnodup
  obtain ⟨hne, hbelow⟩ := List.ne_and_not_mem_of_not_mem_cons hf
  have hleave : ((m.unstack t f).removeFrame f).Sound := h.leave hstack (List.cons_ne_nil k below)
  have hleft : ((m.unstack t f).removeFrame f).stackAt t = some (k :: below) := by
    rw [h.owned.stackAt_leave hstack, if_pos rfl]
  have hready := edits_readied ((m.unstack t f).removeFrame f) k
  have hframe : ∀ e, e ≠ f → ((m.unstack t f).removeFrame f).frames.get? e = m.frames.get? e := by
    intro e he
    rw [frames_removeFrame, frames_unstack, Table.get?_erase, if_neg he]
  have hcommand : ∀ e frame, e ≠ f → m.frames.get? e = some frame → ∀ c ∈ frame.commands,
      ((m.unstack t f).removeFrame f).commands.get? c = m.commands.get? c := by
    intro e frame he hget c hc
    refine get?_commands_leave ?_
    rintro ⟨other, hother, hmem⟩
    exact he (h.owned.frame_unique hget hother hc hmem)
  refine ⟨hleave.moves hready.moves, ?_, ?_, ?_, ?_, fun e he => ?_, fun e frame he hget => ?_⟩
  · refine (Apart.leave h hstack).trans (Apart.readied hleave hleft) ?_
    obtain ⟨thread, hthread, -⟩ := Option.map_eq_some_iff.1 hleft
    exact Table.contains_iff.2 ⟨thread, hthread⟩
  · rw [hready.sameLinks.stackAt, hleft]
  · rw [get?_frames_readied_of_ne _ hne, frames_removeFrame, Table.get?_erase, if_pos rfl]
  · obtain ⟨thread, hthread, hthreads⟩ := Option.map_eq_some_iff.1 hleft
    obtain ⟨frame, hget, -⟩ := hleave.owned.frame_of_stacked hthread (hthreads ▸ List.mem_cons_self)
    have hsound := hleave.frame k frame hget
    have hold : m.frames.get? k = some frame := (hframe k (Ne.symm hne)).symm.trans hget
    refine ⟨frame, _, _, hold, get?_frames_readied hsound hget, hsound.index_scanOf.1,
      fun i command hi hlt hcommand' => hsound.scanOf_spec.1 i command hi hlt ?_⟩
    rw [commandAt_congr (hcommand k frame (Ne.symm hne) hold), hcommand']
  · have hef : e ≠ f := fun heq => hbelow (heq ▸ he)
    have hek : e ≠ k := fun heq => (List.nodup_cons.1 hk).1 (heq ▸ he)
    rw [get?_frames_readied_of_ne _ hek, hframe e hef]
  · exact hcommand e frame (fun heq => hbelow (heq ▸ he)) hget

/-- **Frames came off the top of the stack** `f :: below`: all of them with the invocation, or some,
and then the one that is innermost now was readied. -/
inductive Popped (t : ThreadHandle) (f : FrameHandle) (below : List FrameHandle) (m m' : Machine) :
    Prop where
  | all (hdead : m'.threads.get? t = none) (hgone : ∀ e ∈ f :: below, m'.frames.get? e = none)
  | some {gone rest : List FrameHandle} {k : FrameHandle} (hbelow : below = gone ++ k :: rest)
    (hstack : m'.stackAt t = some (k :: rest)) (hgone : ∀ e ∈ f :: gone, m'.frames.get? e = none)
    (hk : Advanced m m' k) (hrest : ∀ e ∈ rest, m'.frames.get? e = m.frames.get? e)

/-- Unwinding brings no frame back. -/
theorem Unwinds.gone {signal : Signal} {k : FrameHandle} (h : Unwinds t m signal m')
    (hk : m.frames.get? k = none) : m'.frames.get? k = none := by
  have hdrop : ∀ (m : Machine) (f e : FrameHandle), m.frames.get? k = none →
      (((m.unstack t f).removeFrame f).readied e).frames.get? k = none := by
    intro m f e hk
    rw [readied, frames_modifyFrame, Table.get?_modify, frames_removeFrame, Table.get?_erase,
      frames_unstack, hk]
    simp
  induction h with
  | finish =>
    refine Option.eq_none_iff_forall_not_mem.2 fun frame hframe => ?_
    rw [(get?_frames_cleanup.1 hframe).1] at hk
    cases hk
  | stop => exact hdrop _ _ _ hk
  | next _ _ ih => exact ih (hdrop _ _ _ hk)

/-- **Unwinding takes frames off the top** and touches no other invocation. -/
theorem Unwinds.popped {signal : Signal} (h : Unwinds t m signal m') (hsound : m.Sound)
    (hstack : m.stackAt t = some (f :: below)) : Apart t m m' ∧ Popped t f below m m' := by
  induction h generalizing f below with
  | @finish m e he =>
    rw [hstack] at he
    cases he
    refine ⟨Apart.cleanup hsound t, .all ?_ (List.forall_mem_singleton.2 ?_)⟩
    · rw [threads_cleanup, Table.get?_erase, if_pos rfl]
    · refine Option.eq_none_iff_forall_not_mem.2 fun frame hframe => ?_
      obtain ⟨thread, hthread, heq⟩ := Option.map_eq_some_iff.1 hstack
      exact (get?_frames_cleanup.1 hframe).2 ⟨thread, hthread, heq ▸ List.mem_cons_self⟩
  | stop he =>
    rw [hstack] at he
    cases he
    have hdrop := hsound.dropped hstack
    exact ⟨hdrop.apart,
      .some (List.nil_append _).symm hdrop.stack (List.forall_mem_singleton.2 hdrop.gone)
      hdrop.advanced hdrop.frame⟩
  | @next m m' e k rest signal he hrest ih =>
    rw [hstack] at he
    cases he
    have hdrop := hsound.dropped hstack
    obtain ⟨hapart, hpopped⟩ := ih hdrop.sound hdrop.stack
    refine ⟨hdrop.apart.trans hapart ?_, ?_⟩
    · obtain ⟨thread, hthread, -⟩ := Option.map_eq_some_iff.1 hdrop.stack
      exact Table.contains_iff.2 ⟨thread, hthread⟩
    · have hgone := hrest.gone hdrop.gone
      rcases hpopped with ⟨hdead, hall⟩ | @⟨gone, rest, k', rfl, hlast, hall, hk', hsame⟩
      · exact .all hdead (List.forall_mem_cons.2 ⟨hgone, hall⟩)
      · have hmem : k' ∈ gone ++ k' :: rest := List.mem_append_right gone List.mem_cons_self
        refine .some List.cons_append.symm hlast (List.forall_mem_cons.2 ⟨hgone, hall⟩)
          ?_ fun e he => ?_
        · obtain ⟨frame, index, readiness, hget, hget', hcursor, hskip⟩ := hk'
          rw [hdrop.frame k' hmem] at hget
          refine ⟨frame, index, readiness, hget, hget', hcursor,
            fun i command hi hlt hcommand => ?_⟩
          refine hskip i command hi hlt ?_
          rw [commandAt_congr (hdrop.command k' frame hmem hget), hcommand]
        · rw [hsame e he]
          exact hdrop.frame e (List.mem_append_right gone (List.mem_cons_of_mem k' he))

/-! ## A step -/

/-- **What a step can do to the stack** `f :: below` of its invocation: leave it as it is, put a
script on top of it, if its line is a `call` (the cursor is past the line then), or take frames off
the top. -/
inductive Restacked (s : Setting) (t : ThreadHandle) (f : FrameHandle) (below : List FrameHandle)
    (m m' : Machine) : Prop where
  | same (hstack : m'.stackAt t = some (f :: below))
    (hbelow : ∀ e ∈ below, m'.frames.get? e = m.frames.get? e)
  | pushed {k : FrameHandle} {frame : Frame} {l : Line} {name : String} {args : List String}
    (hframe : l.frame = f) (hl : l.RunsNext m) (henters : l.Enters s m name args)
    (hnew : m.frames.get? k = none) (hstack : m'.stackAt t = some (k :: f :: below))
    (hf : m.frames.get? f = some frame)
    (hmoved : m'.frames.get? f = some (frame.moveTo (l.index + 1)))
    (hbelow : ∀ e ∈ below, m'.frames.get? e = m.frames.get? e)
  | popped (h : Popped t f below m m')

/-- What stays within reach of the innermost frame leaves the stack as it is. -/
theorem Sound.same_of_within (h : m.Sound) (hstack : m.stackAt t = some (f :: below))
    (hwithin : Within t f m m') (hlinks : SameLinks m m') (s : Setting) :
    Apart t m m' ∧ Restacked s t f below m m' := by
  obtain ⟨thread, hthread, -⟩ := Option.map_eq_some_iff.1 hstack
  have hnotMem := (List.nodup_cons.1 (h.owned.stacked.nodup hstack)).1
  refine ⟨.of_within hwithin hlinks (h.owned.stacked.owner_of_mem hstack List.mem_cons_self)
    (Table.contains_iff.2 ⟨thread, hthread⟩),
    .same ((hlinks.stackAt t).trans hstack) fun e he => ?_⟩
  exact hwithin.frame e fun heq => hnotMem (heq ▸ he)

/-- It does not matter for the frames below whether the innermost one was readied before it left. -/
theorem Popped.of_readied (h : Popped t f below (m.readied f) m') (hnotMem : f ∉ below) :
    Popped t f below m m' := by
  have hframe : ∀ e ∈ below, (m.readied f).frames.get? e = m.frames.get? e :=
    fun e he => get?_frames_readied_of_ne m fun heq => hnotMem (heq ▸ he)
  rcases h with ⟨hdead, hgone⟩ | @⟨gone, rest, k, rfl, hstack, hgone, hk, hrest⟩
  · exact .all hdead hgone
  · obtain ⟨frame, index, readiness, hget, hadvanced⟩ := hk
    refine .some rfl hstack hgone ⟨frame, index, readiness, ?_, hadvanced⟩ fun e he => ?_
    · rw [← hframe k (List.mem_append_right gone List.mem_cons_self), hget]
    · rw [hrest e he, hframe e (List.mem_append_right gone (List.mem_cons_of_mem k he))]

end Machine

namespace Host

variable {η : Type} {h : Host η} {w : World η} {t : ThreadHandle} {f : FrameHandle}
  {below : List FrameHandle}

open Machine

/-- **A step is confined to its invocation.** -/
theorem Stepped.confined {value : Except Failure Signal} {m' : Machine}
    (hstep : h.Stepped t f w value m') (hsound : w.machine.Sound)
    (hstack : w.machine.stackAt t = some (f :: below)) (hroom : m'.Roomy) :
    Apart t w.machine m' ∧ Restacked h.toSetting t f below w.machine m' := by
  have hready := edits_readied w.machine f
  have hwithin : Within t f w.machine (w.machine.readied f) := Within.modifyFrame _ _
  have hnotMem := (List.nodup_cons.1 (hsound.owned.stacked.nodup hstack)).1
  obtain ⟨thread, hthread, hthreads⟩ := Option.map_eq_some_iff.1 hstack
  cases hstep with
  | unwound _ hunwinds =>
    have hsound' := hsound.moves hready.moves
    have hstack' : (w.machine.readied f).stackAt t = some (f :: below) :=
      (hready.sameLinks.stackAt t).trans hstack
    obtain ⟨hapart, hpopped⟩ := hunwinds.popped hsound' hstack'
    exact ⟨(Apart.readied hsound hstack).trans hapart (Table.contains_iff.2 ⟨thread, hthread⟩),
      .popped (hpopped.of_readied hnotMem)⟩
  | went hat _ hchanges flow =>
    obtain ⟨rfl, rfl⟩ := hat
    exact hsound.same_of_within hstack
      (hwithin.trans (hchanges.within.trans (Within.modifyFrame _ _)))
      (Edits.sameLinks (hready.trans (hchanges.edits.trans (edits_follow _ flow _)))) _
  | asked hat hl =>
    obtain ⟨rfl, rfl⟩ := hat
    have hin := hready.line hl.stands
    exact hsound.same_of_within hstack (hwithin.trans (within_takeAnswer _ _ _ _ _))
      (Edits.sameLinks (hready.trans (edits_takeAnswer (fun _ => hin) _ _ _))) _
  | @entered l name args values script warnings hat hl henters =>
    have hmove : Edits w.machine (w.machine.moveCursor f (l.index + 1)) :=
      edits_modifyFrame fun _ _ => .move _
    have hsound' := hsound.moves hmove.moves
    obtain ⟨hapart, -⟩ :=
      hsound.same_of_within hstack (Within.modifyFrame _ _) hmove.sameLinks h.toSetting
    have hfresh := Table.get?_fresh hsound'.proper.frames.next
      fun hfull => hroom.frames (hfull.create (newFrame t script _ values))
    have hnew :
        w.machine.frames.get? (w.machine.moveCursor f (l.index + 1)).frames.fresh = none := by
      rw [moveCursor, frames_modifyFrame, Table.get?_modify] at hfresh
      split at hfresh
      · exact Option.map_eq_none_iff.1 hfresh
      · exact hfresh
    have hlive : ∀ e ∈ f :: below, e ≠ (w.machine.moveCursor f (l.index + 1)).frames.fresh := by
      rintro e he rfl
      obtain ⟨frame, hframe, -⟩ := hsound.owned.frame_of_stacked hthread (hthreads ▸ he)
      rw [hframe] at hnew
      cases hnew
    obtain ⟨frame, hf, -⟩ := hsound.owned.frame_of_stacked hthread (hthreads ▸ List.mem_cons_self)
    refine ⟨hapart.trans (Apart.pushed hsound' hthread hroom)
      (Table.contains_iff.2 ⟨thread, hthread⟩),
      .pushed hat.2 hl henters hnew ?_ hf ?_ fun e he => ?_⟩
    · rw [stackAt_pushed (m := w.machine.moveCursor f (l.index + 1)) hstack, if_pos rfl]
    · rw [get?_frames_pushed, if_neg (hlive f List.mem_cons_self), moveCursor, frames_modifyFrame,
        Table.get?_modify, if_pos rfl, hf]
      rfl
    · have hef : e ≠ f := fun heq => hnotMem (heq ▸ he)
      rw [get?_frames_pushed, if_neg (hlive e (List.mem_cons_of_mem f he)), moveCursor,
        frames_modifyFrame, Table.get?_modify, if_neg hef]
  | refused hat hl =>
    exact hsound.same_of_within hstack (Within.modifyFrame _ _)
      (Edits.sameLinks (edits_modifyFrame fun _ _ => .move _)) _

end Host

namespace Machine

/-! ## Steps of reachable machines -/

/-- **A step touches only its own invocation.** Other invocations keep all they have, and other
targets are as they were; of the stack, only the top changes. -/
theorem Reachable.step_confined {η : Type} {h : Host η} {w : World η} {t : ThreadHandle}
    {thread : Thread} {f : FrameHandle} {below : List FrameHandle} (hreach : w.machine.Reachable)
    (hq : h.Quiet) (ht : w.machine.threads.get? t = some thread)
    (hstack : thread.stack = f :: below)
    (hroom : ((h.stepInvocation t).run w).state.machine.Roomy) :
    Apart t w.machine ((h.stepInvocation t).run w).state.machine ∧
      Restacked h.toSetting t f below w.machine ((h.stepInvocation t).run w).state.machine := by
  have hsound := hreach.sound
  have hstackAt : w.machine.stackAt t = some (f :: below) := by
    rw [stackAt, ht, Option.map_some, hstack]
  obtain ⟨frame, hf, ⟨-, hidle⟩ | ⟨-, hstepped, -⟩⟩ := hq.stepInvocation_cases hsound hstackAt
  · rw [hidle]
    exact hsound.same_of_within hstackAt (Within.refl _) (SameLinks.refl _) _
  · exact hstepped.confined hsound hstackAt hroom

/-- The one script of a host: it calls itself. -/
def again (_ : String) : Except Failure Located := .ok ⟨"again.scr", .line, "call again\n"⟩

/-- The host knows no functions. -/
def calling : Host (List Call) :=
  Host.fixed {} again fun name _ _ => .error (Cause.noFunctions name).failure

/-- The script was started twice, on one entity. -/
def abreast : World (List Call) :=
  ((calling.perform (.start ⟨7⟩ "again")).run
    ((calling.perform (.start ⟨7⟩ "again")).run ⟨∅, []⟩).state).state

theorem quiet_calling : calling.Quiet := by
  refine Host.quiet_fixed (fun name located hlocated => ?_) _
  cases hlocated
  decide +kernel

/-- The world in which a script was started twice is one that hosts can come to. -/
theorem reachable_abreast : abreast.machine.Reachable := by
  have honce : ((calling.perform (.start ⟨7⟩ "again")).run ⟨∅, []⟩).state.machine.Roomy :=
    roomy_of_free 9 (by decide) (by decide +kernel)
  have hboth : abreast.machine.Roomy := roomy_of_free 9 (by decide) (by decide +kernel)
  unfold abreast at hboth ⊢
  exact .perform quiet_calling (.perform quiet_calling .new honce) hboth

/-- The first of two invocations on one entity enters a script; the second keeps all it has. -/
theorem abreast_confined : abreast.machine.Reachable ∧ calling.Quiet ∧
    (∃ thread, abreast.machine.threads.get? ⟨1⟩ = some thread ∧ thread.stack = [⟨1⟩]) ∧
    Apart ⟨1⟩ abreast.machine ((calling.stepInvocation ⟨1⟩).run abreast).state.machine ∧
    Restacked {} ⟨1⟩ ⟨1⟩ [] abreast.machine
      ((calling.stepInvocation ⟨1⟩).run abreast).state.machine := by
  have hstack : (abreast.machine.threads.get? ⟨1⟩).map Thread.stack = some [⟨1⟩] := by
    decide +kernel
  obtain ⟨thread, hthread, heq⟩ := Option.map_eq_some_iff.1 hstack
  have hroom : ((calling.stepInvocation ⟨1⟩).run abreast).state.machine.Roomy :=
    roomy_of_free 9 (by decide) (by decide +kernel)
  exact ⟨reachable_abreast, quiet_calling, ⟨thread, hthread, heq⟩,
    reachable_abreast.step_confined quiet_calling hthread heq hroom⟩

end Machine

end StepScript
