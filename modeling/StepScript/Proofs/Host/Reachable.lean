import Mathlib.Data.List.Nodup
import StepScript.Proofs.Host.Operation
import StepScript.Proofs.Machine.Reload

/-!
# Proofs/Host/Reachable — the machines that hosts can make

A machine starts empty. Hosts perform operations on it, and replace it by what was saved of such a
machine; between two operations it is sound. So every object but a target has exactly one owner, and
a save can be loaded anywhere.

* `Machine.Reachable` — the machines that such a run can lead to.
* `Machine.Reachable.sound` — every one of them is sound.
* `Machine.Linked` — every object is listed by its owner, once, and by no one else.
-/

namespace StepScript

/-- A host that finds scripts by their names, answers a call by its name, arguments and entity, and
keeps the calls. -/
def Host.fixed (s : Setting) (source : String → Except Failure Located)
    (answer : String → List String → Option EntityId → Except Failure Completion) :
    Host (List Call) where
  toSetting := s
  dispatch call := do
    modify fun w => { w with own := w.own ++ [call] }
    return answer call.name call.args call.entity
  load name := return source name

/-- A host of fixed answers leaves the machine alone, if the lines of its scripts can be counted. -/
theorem Host.quiet_fixed {s : Setting} {source : String → Except Failure Located}
    (htext : ∀ name located, source name = .ok located → located.text.length < UInt64.size)
    (answer : String → List String → Option EntityId → Except Failure Completion) :
    (Host.fixed s source answer).Quiet where
  dispatch _ _ := rfl
  load _ _ := rfl
  text name _ located hlocated := htext name located hlocated

namespace Machine

variable {m m' : Machine}

/-- **The machines that hosts can make**, with room in every table. A save is loaded by a host that
may know other entities. -/
inductive Reachable : Machine → Prop
  | new : Reachable ∅
  | perform {η : Type} {h : Host η} {w : World η} {op : Operation} (hquiet : h.Quiet)
      (hbefore : Reachable w.machine) (hroom : ((h.perform op).run w).state.machine.Roomy) :
      Reachable ((h.perform op).run w).state.machine
  | load {m saved : Machine} {bs : Bytes} (s : Setting) (hbefore : Reachable m)
      (hsaved : Reachable saved) (hsave : saved.save = .ok bs) (hfits : saved.Fits) :
      Reachable ((load s bs).run m).state

/-- A number that names nothing in any of the tables shows that there is room. -/
theorem roomy_of_free (n : UInt32) (hn : n ≠ 0)
    (hfree : (m.targets.contains ⟨n⟩ || m.threads.contains ⟨n⟩ || m.frames.contains ⟨n⟩ ||
      m.commands.contains ⟨n⟩) = false) : m.Roomy := by
  simp only [Bool.or_eq_false_iff] at hfree
  obtain ⟨⟨⟨htargets, hthreads⟩, hframes⟩, hcommands⟩ := hfree
  have hvalid : ∀ kind, (⟨n⟩ : Handle kind).isValid = true := fun kind => bne_iff_ne.2 hn
  exact ⟨Table.not_full_of_free _ (hvalid _) htargets, Table.not_full_of_free _ (hvalid _) hthreads,
    Table.not_full_of_free _ (hvalid _) hframes, Table.not_full_of_free _ (hvalid _) hcommands⟩

/-- An invocation that is loaded was saved. -/
theorem Restored.contains_threads {ρ : EntityId → Option EntityId} (h : Restored ρ m m')
    {t : ThreadHandle} (ht : m'.threads.contains t = true) : m.threads.contains t = true := by
  obtain ⟨thread, hthread⟩ := Table.contains_iff.1 ht
  obtain ⟨old, hold, -⟩ := (h.thread t thread.bare).1 (by rw [hthread]; rfl)
  exact Table.contains_iff.2 ⟨old, hold⟩

/-- A frame that is loaded was saved. -/
theorem Restored.contains_frames {ρ : EntityId → Option EntityId} (h : Restored ρ m m')
    {f : FrameHandle} (hf : m'.frames.contains f = true) : m.frames.contains f = true := by
  obtain ⟨frame, hframe⟩ := Table.contains_iff.1 hf
  obtain ⟨old, hold, -⟩ := (h.frame f frame.bare).1 (by rw [hframe]; rfl)
  exact Table.contains_iff.2 ⟨old, hold⟩

/-- What is loaded takes no more room than what was saved. -/
theorem Restored.roomy {ρ : EntityId → Option EntityId} (h : Restored ρ m m') (hm : m.Roomy) :
    m'.Roomy where
  targets hfull := hm.targets fun g hg => by
    have hsame := congrArg Option.isSome (h.target g)
    rw [Option.isSome_map, Option.isSome_map, ← Table.contains_eq, ← Table.contains_eq] at hsame
    rw [← hsame, hfull g hg]
  threads hfull := hm.threads fun t ht => h.contains_threads (hfull t ht)
  frames hfull := hm.frames fun f hf => h.contains_frames (hfull f hf)
  commands hfull := hm.commands fun c hc => by
    obtain ⟨command, hcommand⟩ := Table.contains_iff.1 (hfull c hc)
    exact Table.contains_iff.2 ⟨command, ((h.command c command).1 hcommand).1⟩

/-- **Reachable machines are sound, and have room.** -/
theorem Reachable.sound_and_roomy (h : Reachable m) : m.Sound ∧ m.Roomy := by
  induction h with
  | new => exact ⟨Sound.empty, roomy_of_free 1 (by decide) (by decide)⟩
  | perform hquiet _ hroom ih =>
    exact ⟨ih.1.moves (Host.moves_perform hquiet _ ih.1 ih.2 hroom), hroom⟩
  | load s _ _ hsave hfits _ ih =>
    obtain ⟨-, hsound, hrestored⟩ := ih.1.load_save hfits hsave s _
    exact ⟨hsound, hrestored.roomy ih.2⟩

/-- **Every machine that quiet hosts can make is sound.** -/
theorem Reachable.sound (h : Reachable m) : m.Sound := h.sound_and_roomy.1

/-! ## Owners -/

/-- **Every object but a target has one owner**, which lists it once. -/
structure Linked (m : Machine) : Prop where
  /-- An invocation is listed by its target, once, and by no other. -/
  target : ∀ t thread, m.threads.get? t = some thread →
    ∃ target, m.targets.get? thread.target = some target ∧ target.threads.count t = 1 ∧
      ∀ g other, m.targets.get? g = some other → t ∈ other.threads → g = thread.target
  /-- What a target lists is there. -/
  listed : ∀ g target, m.targets.get? g = some target → ∀ t ∈ target.threads,
    ∃ thread, m.threads.get? t = some thread
  /-- An invocation has frames, all different; they are there and know it. -/
  stack : ∀ t thread, m.threads.get? t = some thread → thread.stack ≠ [] ∧ thread.stack.Nodup ∧
    ∀ f ∈ thread.stack, ∃ frame, m.frames.get? f = some frame ∧ frame.thread = t
  /-- A frame is on the stack of its invocation. -/
  stacked : ∀ f frame, m.frames.get? f = some frame →
    ∃ thread, m.threads.get? frame.thread = some thread ∧ f ∈ thread.stack
  /-- The commands of a frame are there, all different, and those of no other. -/
  commands : ∀ f frame, m.frames.get? f = some frame → ∀ c ∈ frame.commands,
    (∃ command, m.commands.get? c = some command) ∧ frame.commands.count c = 1 ∧
      ∀ k other, m.frames.get? k = some other → c ∈ other.commands → k = f
  /-- A command belongs to a frame. -/
  held : ∀ c command, m.commands.get? c = some command →
    ∃ f frame, m.frames.get? f = some frame ∧ c ∈ frame.commands

/-- Where everything has one owner, links hold in both directions. -/
theorem Owned.linked (h : m.Owned) : m.Linked where
  target t thread ht := by
    obtain ⟨target, htarget, hmem⟩ := h.target_of_thread ht
    refine ⟨target, htarget, List.nodup_iff_count_eq_one.1 (h.nodup_threads htarget) t hmem,
      fun g other hg hlisted => ?_⟩
    obtain ⟨thread', ht', rfl⟩ := h.thread_of_listed hg hlisted
    rw [ht] at ht'
    cases ht'
    rfl
  listed g target hg t hmem := by
    obtain ⟨thread, ht, -⟩ := h.thread_of_listed hg hmem
    exact ⟨thread, ht⟩
  stack t thread ht := ⟨h.stack_ne_nil ht, h.nodup_stack ht, fun f hf => h.frame_of_stacked ht hf⟩
  stacked f frame hf := h.thread_of_frame hf
  commands f frame hf c hc :=
    ⟨h.command_of_listed hf hc, List.nodup_iff_count_eq_one.1 (h.nodup_commands hf) c hc,
      fun k other hk hlisted => h.frame_unique hk hf hlisted hc⟩
  held c command hc := h.frame_of_command hc

/-! ## A script that asks -/

/-- The one script of a host: it asks for a name and keeps it. -/
def greet (_ : String) : Except Failure Located :=
  .ok ⟨"greet.scr", .line, "set $thread#name resultfrom ask name\nsay $thread#name\n"⟩

/-- The host promises every answer. -/
def asking (s : Setting) : Host (List Call) := Host.fixed s greet fun _ _ _ => .ok .pending

/-- The script was started. -/
def greeting : World (List Call) := (((asking {}).perform (.start ⟨7⟩ "greet")).run ⟨∅, []⟩).state

/-- The script waits for the name. -/
def waiting : Machine := (((asking {}).perform (.stepInvocation ⟨1⟩)).run greeting).state.machine

theorem length_greet (name : String) (located : Located) (h : greet name = .ok located) :
    located.text.length < UInt64.size := by
  cases h
  decide +kernel

theorem quiet_asking (s : Setting) : (asking s).Quiet := Host.quiet_fixed length_greet _

theorem reachable_greeting : greeting.machine.Reachable := by
  have hroom : greeting.machine.Roomy := roomy_of_free 9 (by decide) (by decide +kernel)
  unfold greeting at hroom ⊢
  exact .perform (quiet_asking {}) .new hroom

/-- A machine with an invocation that waits for the host is one that hosts can make. -/
theorem reachable_waiting : waiting.Reachable := by
  have hroom : waiting.Roomy := roomy_of_free 9 (by decide) (by decide +kernel)
  unfold waiting at hroom ⊢
  exact .perform (quiet_asking {}) reachable_greeting hroom

/-! ## Between operations -/

/-- **Every object of a reachable machine has its owner.** -/
theorem Reachable.owners_linked (h : Reachable m) : m.Linked := h.sound.owned.linked

/-- The links of a machine hold while an invocation in it waits for the host. -/
theorem waiting_linked : waiting.Reachable ∧ waiting.Linked :=
  ⟨reachable_waiting, reachable_waiting.owners_linked⟩

/-- **A save of a reachable machine can be loaded anywhere**, and gives back the machine. -/
theorem Reachable.restored_of_save (h : Reachable m) (hfits : m.Fits) (s : Setting) (m₀ : Machine) :
    (m.globals.size < UInt32.size → ∃ bs, m.save = .ok bs) ∧
      ∀ bs, m.save = .ok bs → ((Machine.load s bs).run m₀).value = .ok () ∧
        m.Restored s.remap ((Machine.load s bs).run m₀).state := by
  refine ⟨fun hsize => exists_save hfits (h.sound.storable hfits) hsize, fun bs hsave => ?_⟩
  obtain ⟨hvalue, -, hrestored⟩ := h.sound.load_save hfits hsave s m₀
  exact ⟨hvalue, hrestored⟩

/-- The script that waits is saved, and loaded over itself where the entity has another number. -/
theorem waiting_restored : waiting.Reachable ∧ waiting.Fits ∧ ∃ bs, waiting.save = .ok bs ∧
    ((load { remap := fun e => some ⟨e.id + 1⟩ } bs).run waiting).value = .ok () ∧
    waiting.Restored (fun e => some ⟨e.id + 1⟩)
      ((load { remap := fun e => some ⟨e.id + 1⟩ } bs).run waiting).state := by
  have hfits : waiting.Fits := by decide +kernel
  obtain ⟨hsave, hload⟩ :=
    reachable_waiting.restored_of_save hfits { remap := fun e => some ⟨e.id + 1⟩ } waiting
  obtain ⟨bs, hbs⟩ := hsave (by decide +kernel)
  exact ⟨reachable_waiting, hfits, bs, hbs, hload bs hbs⟩

end Machine

end StepScript
