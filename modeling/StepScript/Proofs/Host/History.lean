import Mathlib.Data.List.Chain
import StepScript.Proofs.Host.Confinement
import StepScript.Proofs.Host.Landing
import StepScript.Proofs.Machine.Oversize

/-!
# Proofs/Host/History — the lines that a frame has executed

A machine does not remember what it did. Beside a run of operations we keep, for every frame, the
lines that it executed since it was pushed, each with the machine in which it ran
(`Machine.Traced`). What a frame is at the end can then be read off its lines: a frame goes on where
its last line led, apart from commands that cannot run, and nothing but its own lines moves it.

* `Machine.Still` — all frames of a machine stand where they stood in another.
* `Machine.Moved` — what an operation can have done to a frame: nothing, one line, or it is new.
* `Machine.Recorded` — what the lines of a frame say about it.
* `Machine.Traced.recorded` — it holds of every frame of every run.
-/

namespace StepScript

/-- Nothing can run from one index on until another. -/
def Skips (text : Nat → Option Command) (start stop : Nat) : Prop :=
  start ≤ stop ∧ ∀ i command, start ≤ i → i < stop → text i = some command →
    command.isRunnable = false

theorem Skips.refl (text : Nat → Option Command) (index : Nat) : Skips text index index :=
  ⟨Nat.le_refl index, fun _ _ hi hlt => absurd hi (Nat.not_le_of_lt hlt)⟩

theorem Skips.trans {text : Nat → Option Command} {i j k : Nat} (h : Skips text i j)
    (h' : Skips text j k) :
    Skips text i k := by
  refine ⟨h.1.trans h'.1, fun n command hi hk hcommand => ?_⟩
  rcases Nat.lt_or_ge n j with hlt | hge
  · exact h.2 n command hi hlt hcommand
  · exact h'.2 n command hge hk hcommand

namespace Machine

variable {m m' : Machine} {t : ThreadHandle} {f : FrameHandle} {below : List FrameHandle}

/-! ## Frames that do not go on -/

/-- The frame has kept its commands, and they say what they said. -/
structure Retains (m m' : Machine) (frame frame' : Frame) : Prop where
  commands : frame'.commands = frame.commands
  text : ∀ c ∈ frame.commands, m'.commands.get? c = m.commands.get? c

/-- The frame has not gone on, except over commands that cannot run. -/
structure Rests (m m' : Machine) (frame frame' : Frame) :
    Prop extends Retains m m' frame frame' where
  returns : frame'.returns = frame.returns
  cursor : Skips (m.commandAt frame) frame.cursor frame'.cursor

/-- A frame that has kept its commands reads the same at every index. -/
theorem Retains.commandAt {frame frame' : Frame} (h : Retains m m' frame frame') :
    m'.commandAt frame' = m.commandAt frame := by
  funext index
  rw [Machine.commandAt, h.commands, ← commandAt_congr h.text]
  rfl

theorem Rests.refl (m : Machine) (frame : Frame) : Rests m m frame frame :=
  ⟨⟨rfl, fun _ _ => rfl⟩, rfl, .refl _ _⟩

theorem Rests.trans {m₁ m₂ m₃ : Machine} {x y z : Frame} (h : Rests m₁ m₂ x y)
    (h' : Rests m₂ m₃ y z) :
    Rests m₁ m₃ x z where
  commands := h'.commands.trans h.commands
  text c hc := (h'.text c (h.commands ▸ hc)).trans (h.text c hc)
  returns := h'.returns.trans h.returns
  cursor := h.cursor.trans (h.commandAt ▸ h'.cursor)

/-- **All frames stand where they stood**, and none is new. -/
def Still (m m' : Machine) : Prop :=
  ∀ f frame', m'.frames.get? f = some frame' →
    ∃ frame, m.frames.get? f = some frame ∧ Rests m m' frame frame'

namespace Still

theorem refl (m : Machine) : Still m m := fun _ frame hf => ⟨frame, hf, .refl m frame⟩

theorem trans {m₁ m₂ m₃ : Machine} (h : Still m₁ m₂) (h' : Still m₂ m₃) : Still m₁ m₃ := by
  intro f frame hf
  obtain ⟨mid, hmid, hrests'⟩ := h' f frame hf
  obtain ⟨first, hfirst, hrests⟩ := h f mid hmid
  exact ⟨first, hfirst, hrests.trans hrests'⟩

/-- What a frame waits for and what it holds does not move it. -/
theorem of_fields {α : Type} {v : Frame → α} (hcommands : m'.commands = m.commands)
    (hsame : ∀ f, (m'.frames.get? f).map v = (m.frames.get? f).map v)
    (hfields : ∀ x y : Frame, v x = v y →
      x.commands = y.commands ∧ x.returns = y.returns ∧ x.cursor = y.cursor) : Still m m' := by
  intro f frame' hf
  have hown := hsame f
  rw [hf, Option.map_some] at hown
  obtain ⟨frame, hframe, heq⟩ := Option.map_eq_some_iff.1 hown.symm
  obtain ⟨hlist, hreturns, hcursor⟩ := hfields frame' frame heq.symm
  exact ⟨frame, hframe, ⟨hlist, fun c _ => by rw [hcommands]⟩, hreturns, hcursor ▸ .refl _ _⟩

/-- Frames stand where they stood if nothing but their variables and their results was changed. -/
theorem of_bare (hcommands : m'.commands = m.commands)
    (hbare : ∀ f, (m'.frames.get? f).map Frame.bare = (m.frames.get? f).map Frame.bare) :
    Still m m' :=
  of_fields hcommands hbare fun _ _ heq =>
    ⟨(congrArg Frame.commands heq :), (congrArg Frame.returns heq :), (congrArg Frame.cursor heq :)⟩

theorem of_frames (hcommands : m'.commands = m.commands) (hframes : m'.frames = m.frames) :
    Still m m' :=
  of_bare hcommands fun f => by rw [hframes]

/-- An answer moves no frame. -/
theorem answered (m : Machine) (f : FrameHandle) (result : String) :
    Still m (m.answered f result) := by
  refine of_fields (v := fun frame => (frame.commands, frame.returns, frame.cursor))
    rfl (fun k => ?_) fun x y heq => by simpa using heq
  exact Table.map_get?_modify m.frames k fun _ _ => rfl

theorem completeCall (f : FrameHandle) (result : String) (m : Machine) :
    Still m ((Machine.completeCall f result).run m).state := by
  rcases completeCall_cases f result m with hsame | ⟨v, assignTo, hstate⟩
  · rw [hsame]
    exact refl m
  · rw [hstate]
    exact (answered m f result).trans
      (of_bare (commands_delivered ..) (bare_frames_delivered _ _ _ _))

/-- A claim moves no frame. -/
theorem claimNext (m : Machine) : Still m m.claimNext.2 := by
  unfold Machine.claimNext
  split
  · exact refl m
  · exact of_frames rfl rfl

/-- Setting a variable moves no frame. -/
theorem setVariable (t : ThreadHandle) (token value : String) (m : Machine) :
    Still m ((Machine.setVariable t token value).run m).state := by
  have hcommands := (edits_setVariable t token value m).commands
  refine of_bare hcommands fun f => ?_
  simp only [Machine.setVariable, Act.run_bind, state_vantageOf]
  split
  · rfl
  · rw [state_assignToken]
    exact bare_frames_delivered ..

/-- Readying a frame moves it over commands that cannot run. -/
theorem readied (hsound : m.Sound) (f : FrameHandle) : Still m (m.readied f) := by
  intro k frame' hk
  by_cases heq : k = f
  · subst heq
    rw [Machine.readied, frames_modifyFrame, Table.get?_modify, if_pos rfl] at hk
    obtain ⟨frame, hframe, rfl⟩ := Option.map_eq_some_iff.1 hk
    have hown := hsound.frame k frame hframe
    refine ⟨frame, hframe, ⟨rfl, fun _ _ => rfl⟩, rfl, ?_⟩
    rw [Nat.min_eq_left hown.index_scanOf.2]
    exact ⟨hown.index_scanOf.1, hown.scanOf_spec.1⟩
  · rw [get?_frames_readied_of_ne m heq] at hk
    exact ⟨frame', hk, ⟨rfl, fun _ _ => rfl⟩, rfl, .refl _ _⟩

/-- Cancelling an invocation takes frames away, and moves none of the others. -/
theorem cleanup (hsound : m.Sound) (t : ThreadHandle) : Still m (m.cleanup t) := by
  intro f frame hf
  obtain ⟨hframe, hnot⟩ := get?_frames_cleanup.1 hf
  refine ⟨frame, hframe, ⟨rfl, fun c hc => Option.ext fun command => ?_⟩, rfl, .refl _ _⟩
  rw [get?_commands_cleanup, and_iff_left]
  rintro e he ⟨other, hother, hmem⟩
  exact hnot (hsound.owned.frame_unique hother hframe hmem hc ▸ he)

/-- The same for a frame that leaves its stack. -/
theorem leave (hsound : m.Sound) (t : ThreadHandle) (f : FrameHandle) :
    Still m ((m.unstack t f).removeFrame f) := by
  intro k frame hk
  rw [get?_frames_removeFrame, frames_unstack] at hk
  refine ⟨frame, hk.1, ⟨rfl, fun c hc => get?_commands_leave ?_⟩, rfl, .refl _ _⟩
  rintro ⟨other, hother, hmem⟩
  exact hk.2 (hsound.owned.frame_unique hk.1 hother hc hmem)

end Still

/-- **Unwinding** moves no frame that stays. -/
theorem Unwinds.still {signal : Signal} (h : Unwinds t m signal m') (hsound : m.Sound) :
    Still m m' := by
  induction h with
  | finish => exact .cleanup hsound t
  | stop hstack =>
    exact (Still.leave hsound t _).trans (.readied (hsound.leave hstack (List.cons_ne_nil _ _)) _)
  | next hstack _ ih =>
    have hleave := hsound.leave hstack (List.cons_ne_nil _ _)
    exact (Still.leave hsound t _).trans
      ((Still.readied hleave _).trans (ih (hleave.moves (edits_readied _ _).moves)))

/-- **A load** moves no frame that it brings back. -/
theorem Restored.still {ρ : EntityId → Option EntityId} (h : Restored ρ m m') : Still m m' := by
  intro f frame' hf
  obtain ⟨old, hold, hkept, hframe⟩ := (h.frame f frame'.bare).1 (by rw [hf, Option.map_some])
  have hcommands : frame'.commands = old.commands := (congrArg Frame.commands hframe :)
  have hreturns : frame'.returns = old.returns := (congrArg Frame.returns hframe :)
  have hcursor : frame'.cursor = old.cursor := (congrArg Frame.cursor hframe :)
  refine ⟨old, hold, ⟨hcommands, fun c hc => Option.ext fun command => ?_⟩, hreturns,
    hcursor ▸ .refl _ _⟩
  rw [h.command, and_iff_left]
  exact ⟨f, old, hold, hc, hkept⟩

end Machine

/-! ## Lines and operations -/

/-- **A line that was executed**, with the setting and the machine in which it ran. -/
structure Executed where
  setting : Setting
  machine : Machine
  line : Line

namespace Executed

variable (e : Executed)

/-- The command of the language that was executed, if it was one. -/
def keyword? : Option Keyword := e.line.keyword? e.setting e.machine

/-- Where the frame went on. -/
def landing : Nat := e.line.landing e.setting e.machine

/-- The line was a jump that was taken. -/
def Diverts : Prop := e.line.Diverts e.setting e.machine

/-- The open subroutines after the line. -/
def reopened (returns : List Nat) : List Nat := e.line.reopened e.setting e.machine returns

/-- The command at an index of the frame that executed the line. -/
def commandAt (index : Nat) : Option Command :=
  (e.machine.frames.get? e.line.frame).bind fun frame => e.machine.commandAt frame index

end Executed

namespace Machine

variable {m m' : Machine} {f : FrameHandle} {s : Setting} {op : Operation}

/-- The line that a step of a frame executes, if it executes one. -/
def lineAt? (s : Setting) (m : Machine) (f : FrameHandle) : Option Executed :=
  match ((prepare f).run m).value with
  | .ok (.line l) => some ⟨s, ((prepare f).run m).state, l⟩
  | _ => none

/-- The line that an operation executes, if it executes one. -/
def executed? (s : Setting) (m : Machine) : Operation → Option Executed
  | .step f => m.lineAt? s f
  | .stepInvocation t => (m.frameOf t).bind (m.lineAt? s)
  | _ => none

/-- **What became of a frame in an operation**: it is new, it stands where it stood, or it executed
a line. -/
inductive Moved (s : Setting) (op : Operation) (m m' : Machine) (f : FrameHandle) (frame' : Frame) :
    Prop where
  | new (hnew : m.frames.get? f = none) (hreturns : frame'.returns = [])
  | rests {frame : Frame} (hf : m.frames.get? f = some frame)
    (hother : ∀ e, m.executed? s op = some e → e.line.frame ≠ f) (hrests : Rests m m' frame frame')
  | goes {frame : Frame} {e : Executed} (hf : m.frames.get? f = some frame)
    (he : m.executed? s op = some e) (hown : e.line.frame = f) (hl : e.line.RunsNext m)
    (hmachine : e.machine = m.readied f) (hretains : Retains m m' frame frame')
    (hcursor : frame'.cursor = e.landing) (hreturns : frame'.returns = e.reopened frame.returns)

/-- An operation that executes no line, and moves no frame. -/
theorem Still.moved {frame' : Frame} (h : Still m m') (hnone : m.executed? s op = none)
    (hf : m'.frames.get? f = some frame') : Moved s op m m' f frame' := by
  obtain ⟨frame, hframe, hrests⟩ := h f frame' hf
  exact .rests hframe (fun e he => by rw [hnone] at he; cases he) hrests

/-- **Frames may be new**; the others are as they were, and commands say what they said. -/
structure Grows (m m' : Machine) : Prop where
  text : ∀ c command, m.commands.get? c = some command → m'.commands.get? c = some command
  frame : ∀ k frame', m'.frames.get? k = some frame' →
    m.frames.get? k = some frame' ∨ m.frames.get? k = none ∧ frame'.returns = []

/-- The same for all frames but one. -/
structure Others (f : FrameHandle) (m m' : Machine) : Prop where
  text : ∀ c command, m.commands.get? c = some command → m'.commands.get? c = some command
  frame : ∀ k frame', k ≠ f → m'.frames.get? k = some frame' →
    m.frames.get? k = some frame' ∨ m.frames.get? k = none ∧ frame'.returns = []

/-- New frames get new commands. -/
theorem Grows.of_create {t : ThreadHandle} {script : Script} {args : List String}
    (hproper : m.Proper) (hroom : m'.Roomy)
    (hcommands : m'.commands = (m.commands.createAll script.commands).2)
    (hframes : m'.frames =
      (m.frames.create (newFrame t script (m.commands.createAll script.commands).1 args)).2) :
    Grows m m' where
  text c command hcommand := by
    rw [hcommands, ← hcommand]
    refine Table.get?_createAll_of_notMem fun hmem => ?_
    rw [(Table.createAll_fresh hproper.commands (hcommands ▸ hroom.commands)).2 c hmem] at hcommand
    cases hcommand
  frame k frame' hget := by
    rw [hframes, Table.get?_create] at hget
    split at hget
    · next heq =>
      cases hget
      refine .inr ⟨?_, rfl⟩
      rw [heq]
      exact Table.get?_fresh hproper.frames.next fun hfull =>
        hroom.frames (hframes ▸ hfull.create _)
    · exact .inl hget

/-- The step of one frame, and what it makes, leaves the other frames where they stood. -/
theorem Others.of_grows {t : ThreadHandle} {m₁ m₂ m₃ : Machine} (h : Within t f m₁ m₂)
    (h' : Grows m₂ m₃) :
    Others f m₁ m₃ where
  text c command hc := h'.text c command (h.commands ▸ hc)
  frame k frame' hk hget := h.frame k hk ▸ h'.frame k frame' hget

theorem Others.of_within {t : ThreadHandle} (h : Within t f m m') : Others f m m' :=
  of_grows h ⟨fun _ _ hc => hc, fun _ _ hf => .inl hf⟩

/-- The commands of a frame still say what they said. -/
theorem Sound.text_kept {frame : Frame} (hsound : m.Sound) (hf : m.frames.get? f = some frame)
    (h : ∀ c command, m.commands.get? c = some command → m'.commands.get? c = some command) :
    ∀ c ∈ frame.commands, m'.commands.get? c = m.commands.get? c := by
  intro c hc
  obtain ⟨command, hcommand⟩ := hsound.owned.command_of_listed hf hc
  rw [h c command hcommand, hcommand]

/-- An operation that executes no line, and makes frames at most. -/
theorem Grows.moved {frame' : Frame} (h : Grows m m') (hsound : m.Sound)
    (hnone : m.executed? s op = none) (hf : m'.frames.get? f = some frame') :
    Moved s op m m' f frame' := by
  rcases h.frame f frame' hf with hframe | ⟨hnew, hreturns⟩
  · exact .rests hframe (fun e he => by rw [hnone] at he; cases he)
      ⟨⟨rfl, hsound.text_kept hframe h.text⟩, rfl, .refl _ _⟩
  · exact .new hnew hreturns

end Machine

namespace Host

variable {η : Type} {h : Host η} {w : World η} {f : FrameHandle} {op : Operation}

open Machine

/-- **What a line leaves alone**: what commands say, and every frame but its own. -/
theorem Stepped.others {t : ThreadHandle} {value : Except Failure Signal} {m' : Machine}
    (hstep : h.Stepped t f w value m') (hline : ∃ l : Line, l.frame = f ∧ l.RunsNext w.machine)
    (hsound : w.machine.Sound) (hroom : m'.Roomy) : Others f w.machine m' := by
  have hready : Within t f w.machine (w.machine.readied f) := Within.modifyFrame _ _
  cases hstep with
  | unwound hnone =>
    obtain ⟨l, hframe, hl⟩ := hline
    exact absurd hl (hnone l hframe)
  | went hat _ hchanges flow =>
    obtain ⟨rfl, rfl⟩ := hat
    exact .of_within (hready.trans (hchanges.within.trans (Within.modifyFrame _ _)))
  | asked hat =>
    obtain ⟨rfl, rfl⟩ := hat
    exact .of_within (hready.trans (within_takeAnswer _ _ _ _ _))
  | @entered l =>
    have hmove : Within t f w.machine (w.machine.moveCursor f (l.index + 1)) :=
      Within.modifyFrame _ _
    have hsound' : (w.machine.moveCursor f (l.index + 1)).Sound :=
      hsound.moves (Edits.moves (edits_modifyFrame fun _ _ => .move _))
    exact .of_grows hmove (.of_create hsound'.proper hroom rfl rfl)
  | refused hat => exact .of_within (t := t) (Within.modifyFrame _ _)

/-- **A line that is executed** moves its own frame. -/
theorem Quiet.moved_execute (hq : h.Quiet) {l : Line} {frame' : Frame} (hsound : w.machine.Sound)
    (hl : l.RunsNext w.machine)
    (he : w.machine.executed? h.toSetting op = some ⟨h.toSetting, w.machine.readied l.frame, l⟩)
    (hroom : ((h.execute l).run
      { w with machine := w.machine.readied l.frame }).state.machine.Roomy)
    (hf : ((h.execute l).run
      { w with machine := w.machine.readied l.frame }).state.machine.frames.get? f =
      some frame') :
    Moved h.toSetting op w.machine
      ((h.execute l).run { w with machine := w.machine.readied l.frame }).state.machine
        f frame' := by
  have hothers := (hq.stepped_execute hsound hl).1.others ⟨l, rfl, hl⟩ hsound hroom
  by_cases hown : f = l.frame
  · subst hown
    obtain ⟨frame, -, -, hframe, -⟩ := hl.stands
    obtain ⟨last, hlast, hcommands, hcursor, hreturns⟩ := hq.standsAt_execute hsound hl hframe hroom
    rw [hf] at hlast
    cases hlast
    exact .goes hframe he rfl hl rfl ⟨hcommands,
      hsound.text_kept hframe hothers.text⟩ hcursor hreturns
  · rcases hothers.frame f frame' hown hf with hframe | ⟨hnew, hreturns⟩
    · refine .rests hframe (fun e he' => ?_) ⟨⟨rfl, hsound.text_kept hframe hothers.text⟩, rfl,
        .refl _ _⟩
      rw [he] at he'
      cases he'
      exact Ne.symm hown
    · exact .new hnew hreturns

/-- **An operation that executes a line** is the execution of that line, with its frame readied. -/
theorem perform_of_executed {e : Executed} (hsound : w.machine.Sound)
    (he : w.machine.executed? h.toSetting op = some e) :
    e.setting = h.toSetting ∧ e.machine = w.machine.readied e.line.frame ∧
      e.line.RunsNext w.machine ∧ ((h.perform op).run w).state =
        ((h.execute e.line).run { w with machine := w.machine.readied e.line.frame }).state := by
  have hstep : ∀ k, w.machine.lineAt? h.toSetting k = some e →
      e.setting = h.toSetting ∧ e.machine = w.machine.readied e.line.frame ∧
        e.line.RunsNext w.machine ∧ ((h.step k).run w).state =
          ((h.execute e.line).run { w with machine := w.machine.readied e.line.frame }).state := by
    intro k hk
    unfold lineAt? at hk
    rcases hsound.idle_or_innermost k with hidle | ⟨t, below, frame, horder, hframe, hpending⟩
    · rw [hidle] at hk
      cases hk
    · unfold step
      rw [Act.run_bind, World.run_liftM]
      rcases horder.run_prepare hframe hpending with
        ⟨l, rfl, -, hl, hrun⟩ | ⟨-, signal, m', -, hrun⟩
      · simp only [hrun] at hk ⊢
        cases hk
        exact ⟨rfl, rfl, hl, rfl⟩
      · rw [hrun] at hk
        cases hk
  cases op with
  | step k => exact hstep k he
  | stepInvocation t =>
    obtain ⟨k, hk, hline⟩ := Option.bind_eq_some_iff.1 he
    obtain ⟨below, hstack⟩ := stackAt_of_frameOf hk
    simp only [perform, Act.run_map]
    rw [run_stepInvocation hstack]
    exact hstep k hline
  | _ => cases he

/-- **What executing a line does to its frame**, as an operation. -/
theorem Quiet.standsAt_perform (hq : h.Quiet) {e : Executed} {frame : Frame}
    (hsound : w.machine.Sound) (he : w.machine.executed? h.toSetting op = some e)
    (hf : w.machine.frames.get? e.line.frame = some frame)
    (hroom : ((h.perform op).run w).state.machine.Roomy) :
    ((h.perform op).run w).state.machine.StandsAt e.line.frame frame.commands e.landing
      (e.reopened frame.returns) := by
  obtain ⟨hsetting, hmachine, hl, hrun⟩ := perform_of_executed hsound he
  rw [hrun] at hroom ⊢
  rw [Executed.landing, Executed.reopened, hsetting, hmachine]
  exact hq.standsAt_execute hsound hl hf hroom

/-- **What a step does to a frame.** -/
theorem Quiet.moved_step (hq : h.Quiet) {k : FrameHandle} {frame' : Frame}
    (hsound : w.machine.Sound)
    (hop : w.machine.executed? h.toSetting op = w.machine.lineAt? h.toSetting k)
    (hroom : ((h.step k).run w).state.machine.Roomy)
    (hf : ((h.step k).run w).state.machine.frames.get? f = some frame') :
    Moved h.toSetting op w.machine ((h.step k).run w).state.machine f frame' := by
  rcases hsound.idle_or_innermost k with hidle | ⟨t, below, frame, horder, hk, hpending⟩
  · rw [run_step_of_idle hidle] at hf ⊢
    exact (Still.refl _).moved (by rw [hop, lineAt?, hidle]) hf
  · unfold step at hroom hf ⊢
    rw [Act.run_bind, World.run_liftM] at hroom hf ⊢
    rcases horder.run_prepare hk hpending with
      ⟨l, rfl, rfl, hl, hrun⟩ | ⟨hnone, signal, m', hunwinds, hrun⟩
    · simp only [hrun] at hroom hf ⊢
      exact hq.moved_execute hsound hl (by rw [hop, lineAt?, hrun]) hroom hf
    · simp only [hrun] at hf ⊢
      have hstill :=
        (Still.readied hsound k).trans (hunwinds.still (hsound.moves (edits_readied _ _).moves))
      exact hstill.moved (by rw [hop, lineAt?, hrun]) hf

/-- **What an operation does to a frame.** -/
theorem Quiet.moved_perform (hq : h.Quiet) (op : Operation) {frame' : Frame}
    (hsound : w.machine.Sound) (hbefore : w.machine.Roomy)
    (hroom : ((h.perform op).run w).state.machine.Roomy)
    (hf : ((h.perform op).run w).state.machine.frames.get? f = some frame') :
    Moved h.toSetting op w.machine ((h.perform op).run w).state.machine f frame' := by
  cases op with
  | start entity name =>
    simp only [perform, Act.run_map] at hroom hf ⊢
    rw [hq.run_start hsound.proper hbefore] at hroom hf ⊢
    cases hscript : h.script name { w with machine := w.machine.opened entity name } with
    | error failure =>
      rw [hscript] at hf
      exact Still.moved (m := w.machine) (.of_frames rfl rfl) rfl hf
    | ok result =>
      rw [hscript] at hroom hf
      exact (Grows.of_create hsound.proper hroom rfl rfl).moved hsound rfl hf
  | step k =>
    simp only [perform, Act.run_map] at hroom hf ⊢
    exact hq.moved_step hsound rfl hroom hf
  | stepInvocation t =>
    simp only [perform, Act.run_map] at hroom hf ⊢
    cases ht : w.machine.threads.get? t with
    | none =>
      have hnone : w.machine.executed? h.toSetting (.stepInvocation t) = none := by
        rw [executed?, frameOf, ht]
        rfl
      rw [run_stepInvocation_of_dead ht] at hf ⊢
      exact (Still.refl _).moved hnone hf
    | some thread =>
      obtain ⟨k, below, hstack⟩ := hsound.exists_stack ht
      rw [run_stepInvocation hstack] at hroom hf ⊢
      refine hq.moved_step hsound ?_ hroom hf
      rw [executed?, frameOf_eq_head?, hstack]
      rfl
  | complete k result =>
    simp only [perform, Act.run_map, World.run_onMachine] at hf ⊢
    exact (Still.completeCall k result _).moved rfl hf
  | setVariable t token value =>
    simp only [perform, Act.run_map, World.run_onMachine] at hf ⊢
    exact (Still.setVariable t token value _).moved rfl hf
  | setGlobal name value => exact Still.moved (m := w.machine) (.of_frames rfl rfl) rfl hf
  | claim => exact (Still.claimNext w.machine).moved rfl hf
  | cleanup t => exact (Still.cleanup hsound t).moved rfl hf
  | reset => cases hf

end Host

/-! ## Histories -/

/-- The lines that every frame has executed, in order. -/
abbrev Past : Type := FrameHandle → List Executed

/-- The lines after one more operation. A frame that was not there before has executed none. -/
def Past.after (past : Past) (s : Setting) (m : Machine) (op : Operation) : Past := fun f =>
  if m.frames.contains f
    then past f ++ ((m.executed? s op).filter (·.line.frame = f)).toList else []

/-- **The subroutines that lines leave open**, as the lines after whose `gosub` they go on, the last
one first. -/
def openSubs (es : List Executed) : List Nat := es.foldl (fun returns e => e.reopened returns) []

/-- The second line is the next one to run where the first one led. -/
def Executed.Follows (e e' : Executed) : Prop := Skips e'.commandAt e.landing e'.line.index

namespace Machine

variable {m m' : Machine} {f : FrameHandle} {past : Past}

/-- **The machines that hosts can make, with the lines that their frames have executed.** What is
loaded comes with the lines of the run that was saved. -/
inductive Traced : Machine → Past → Prop
  | new : Traced ∅ fun _ => []
  | perform {η : Type} {h : Host η} {w : World η} {op : Operation} {past : Past} (hquiet : h.Quiet)
      (hbefore : Traced w.machine past) (hroom : ((h.perform op).run w).state.machine.Roomy) :
      Traced ((h.perform op).run w).state.machine (past.after h.toSetting w.machine op)
  | load {m saved : Machine} {other past : Past} {bs : Bytes} (s : Setting)
      (hbefore : Traced m other) (hsaved : Traced saved past) (hsave : saved.save = .ok bs) :
      Traced ((load s bs).run m).state past

/-- The machine whose lines are kept is one that hosts can make. -/
theorem Traced.reachable (h : Traced m past) : m.Reachable := by
  induction h with
  | new => exact .new
  | perform hquiet _ hroom ih => exact .perform hquiet ih hroom
  | @load _ saved _ _ _ s _ _ hsave ih ih' =>
    by_cases hfits : saved.Fits
    · exact .load s ih ih' hsave hfits
    · -- a save that does not fit its format is refused
      obtain ⟨-, -, -, hempty⟩ := refused_of_not_fits hsave hfits s _
      rw [hempty]
      exact .new

/-- **What the lines of a frame say about it.** -/
structure Recorded (m : Machine) (frame : Frame) (es : List Executed) : Prop where
  /-- The open subroutines are those that the lines left open. -/
  returns : frame.returns = openSubs es
  /-- The commands were the same all along. -/
  text : ∀ e ∈ es, e.commandAt = m.commandAt frame
  stands : ∀ e ∈ es, e.line.In e.machine
  chain : es.IsChain Executed.Follows
  /-- The frame goes on where the last line led. -/
  cursor : ∀ e ∈ es.getLast?, Skips (m.commandAt frame) e.landing frame.cursor

namespace Recorded

variable {frame frame' : Frame} {es : List Executed}

/-- Nothing is said of a frame that has executed no line and has no open subroutine. -/
theorem nil (h : frame.returns = []) : Recorded m frame [] :=
  ⟨h, List.forall_mem_nil _, List.forall_mem_nil _, .nil, fun e he => by cases he⟩

/-- What was said of a frame is still true of it when it has only been scanned. -/
theorem rests (h : Recorded m frame es) (hrests : Rests m m' frame frame') :
    Recorded m' frame' es where
  returns := hrests.returns.trans h.returns
  text e he := (h.text e he).trans hrests.commandAt.symm
  stands := h.stands
  chain := h.chain
  cursor e he := hrests.commandAt ▸ (h.cursor e he).trans hrests.cursor

/-- **One more line.** It is the first that can run where the last one led. -/
theorem concat {e : Executed} (h : Recorded m frame es) (hsound : m.Sound)
    (hf : m.frames.get? e.line.frame = some frame) (hl : e.line.RunsNext m)
    (hmachine : e.machine = m.readied e.line.frame) (hretains : Retains m m' frame frame')
    (hcursor : frame'.cursor = e.landing) (hreturns : frame'.returns = e.reopened frame.returns) :
    Recorded m' frame' (es ++ [e]) := by
  have htext : e.commandAt = m.commandAt frame := by
    funext index
    rw [Executed.commandAt, hmachine, get?_frames_readied (hsound.frame _ _ hf) hf]
    rfl
  have hnext : Skips (m.commandAt frame) frame.cursor e.line.index :=
    ⟨hl.cursor frame hf, fun i command hi hlt => hl.skipped frame i command hf hi hlt⟩
  refine ⟨?_, ?_, ?_, ?_, ?_⟩
  · rw [hreturns, h.returns, openSubs, openSubs, List.foldl_append]
    rfl
  · rw [hretains.commandAt]
    exact List.forall_mem_append.2 ⟨h.text, List.forall_mem_singleton.2 htext⟩
  · refine List.forall_mem_append.2 ⟨h.stands, List.forall_mem_singleton.2 ?_⟩
    rw [hmachine]
    exact (edits_readied m _).line hl.stands
  · refine h.chain.append (.singleton e) fun last hlast first hfirst => ?_
    cases hfirst
    rw [Executed.Follows, htext]
    exact (h.cursor last hlast).trans hnext
  · intro last hlast
    rw [List.getLast?_concat] at hlast
    cases hlast
    rw [hcursor]
    exact .refl _ _

end Recorded

/-- **The lines of a frame say where it is**, whatever happened to the machine. -/
theorem Traced.recorded {frame : Frame} (h : Traced m past) (hf : m.frames.get? f = some frame) :
    Recorded m frame (past f) := by
  induction h generalizing f frame with
  | new => cases hf
  | @perform η h w op past hquiet hbefore hroom ih =>
    obtain ⟨hsound, hbefore⟩ := hbefore.reachable.sound_and_roomy
    cases hquiet.moved_perform op hsound hbefore hroom hf with
    | new hnew hreturns =>
      rw [Past.after, Table.contains_eq, hnew]
      exact .nil hreturns
    | rests hframe hother hrests =>
      have hnone : (w.machine.executed? h.toSetting op).filter (·.line.frame = f) = none :=
        Option.filter_eq_none_iff.2 fun e he => by simpa using hother e he
      rw [Past.after, if_pos (Table.contains_iff.2 ⟨_, hframe⟩), hnone, Option.toList_none,
        List.append_nil]
      exact (ih hframe).rests hrests
    | goes hframe he hown hl hmachine hretains hcursor hreturns =>
      subst hown
      rw [Past.after, if_pos (Table.contains_iff.2 ⟨_, hframe⟩), he]
      simp only [Option.filter_some, decide_true, if_true, Option.toList_some]
      exact (ih hframe).concat hsound hframe hl hmachine hretains hcursor hreturns
  | @load _ saved _ _ _ s _ hsaved hsave _ ih =>
    by_cases hfits : saved.Fits
    · obtain ⟨-, -, hrestored⟩ := hsaved.reachable.sound.load_save hfits hsave s _
      obtain ⟨old, hold, hrests⟩ := hrestored.still f frame hf
      exact (ih hold).rests hrests
    · obtain ⟨-, -, -, hempty⟩ := refused_of_not_fits hsave hfits s _
      rw [hempty] at hf
      cases hf

end Machine

end StepScript
