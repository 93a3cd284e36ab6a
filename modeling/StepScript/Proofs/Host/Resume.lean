import StepScript.Proofs.Host.InStep

/-!
# Proofs/Host/Resume — saving and resuming cannot be noticed

A machine without open calls that is saved and loaded differs from the original in what it knows
about claims and scans, and in its counters: they start again after the largest handle in use. From
then on the two machines are in step.

* `Table.Known` — the handles in use, and those yet to be given out.
* `Renaming.Suits` — the renaming keeps the handles in use, and the order of all that are known.
* `Machine.Sound.renamed_reread` — a machine and what is read back of it are in step.
* `Machine.Sound.load_save_settled` — what is loaded is what is read back.
-/

namespace StepScript

namespace Table

variable {kind : String} {α : Type} {t : Table kind α}

/-- **The handles in use, and those yet to be given out.** -/
def Known (t : Table kind α) (h : Handle kind) : Prop := t.contains h = true ∨ t.next.raw ≤ h.raw

/-! ## The counter that is read back -/

/-- The counter that is read back is one past the largest handle in use, if there is one. -/
theorem next_reread_cases (f : α → α) (t : Table kind α) :
    ((∀ h, t.contains h = false) ∧ (t.reread f).next = ⟨1⟩) ∨
      ∃ newest, t.contains newest = true ∧ (∀ h, t.contains h = true → h.raw ≤ newest.raw) ∧
        (t.reread f).next = newest.next := by
  have hsorted := t.objects.sorted
  have hmem := t.objects.mem_entries_iff
  have hkeys : (t.objects.mapValues f).keys = t.objects.entries.map Prod.fst := by
    simp [Assoc.keys, Assoc.mapValues]
  rw [reread, ofObjects, hkeys]
  cases hentries : t.objects.entries with
  | nil =>
    refine Or.inl ⟨fun h => Bool.eq_false_iff.2 fun hh => ?_, rfl⟩
    obtain ⟨a, ha⟩ := contains_iff.1 hh
    have hnone := (hmem h a).2 ha
    rw [hentries] at hnone
    cases hnone
  | cons e es =>
    rw [hentries] at hsorted hmem
    refine Or.inr ⟨e.1, contains_iff.2 ⟨e.2, (hmem e.1 e.2).1 List.mem_cons_self⟩,
      fun h hh => ?_, rfl⟩
    obtain ⟨a, ha⟩ := contains_iff.1 hh
    rcases List.mem_cons.1 ((hmem h a).2 ha) with heq | hlater
    · rw [← heq]
      exact UInt32.le_refl _
    · have hlt := (List.pairwise_cons.1 hsorted).1 (h, a) hlater
      exact UInt32.le_of_lt (Std.compare_eq_lt.1 hlt)

/-- The counter of a table that was read again is ahead of every handle in use. -/
theorem Ahead.lt_next_reread (hahead : t.Ahead) (f : α → α) {h : Handle kind}
    (hh : t.contains h = true) : h.raw < (t.reread f).next.raw := by
  rcases t.next_reread_cases f with ⟨hempty, -⟩ | ⟨newest, hused, hlargest, hnext⟩
  · rw [hempty h] at hh
    cases hh
  · have hle := hlargest h hh
    rw [UInt32.le_iff_toNat_le] at hle
    rw [UInt32.lt_iff_toNat_lt, hnext, toNat_next_of_lt (hahead.lt newest hused)]
    omega

/-- It is not ahead of the counter that was saved. -/
theorem Ahead.next_reread_le (hahead : t.Ahead) (f : α → α) :
    (t.reread f).next.raw ≤ t.next.raw := by
  rw [UInt32.le_iff_toNat_le]
  rcases t.next_reread_cases f with ⟨-, hnext⟩ | ⟨newest, hused, -, hnext⟩
  · rw [hnext]
    exact Handle.isValid_iff.1 hahead.next
  · have hlt := hahead.lt newest hused
    rw [hnext, toNat_next_of_lt hlt]
    exact UInt32.lt_iff_toNat_lt.1 hlt

/-! ## The renaming to what is read back -/

/-- The renaming from a table to the table as it reads back: it closes the gap between the
counters. -/
def Ahead.shift (hahead : t.Ahead) (f : α → α) : Shift where
  low := (t.reread f).next.raw.toNat
  gap := t.next.raw.toNat - (t.reread f).next.raw.toNat
  bound := by
    have hlt : t.next.raw.toNat < 4294967296 := t.next.raw.toNat_lt
    have hle := UInt32.le_iff_toNat_le.1 (hahead.next_reread_le f)
    omega
  kept n := t.contains ⟨n⟩ = true
  kept_lt _ hn := UInt32.lt_iff_toNat_lt.1 (hahead.lt_next_reread f hn)

/-- The shift spares the handles in use and those yet to be given out. -/
theorem Ahead.spares_shift (hahead : t.Ahead) (f : α → α) {h : Handle kind} :
    (hahead.shift f).Spares h ↔ t.Known h := by
  have hle := UInt32.le_iff_toNat_le.1 (hahead.next_reread_le f)
  have hgap : (hahead.shift f).low + (hahead.shift f).gap = t.next.raw.toNat :=
    Nat.add_sub_of_le hle
  rw [Shift.Spares, Known, hgap, ← UInt32.le_iff_toNat_le]
  rfl

theorem Ahead.shift_apply (hahead : t.Ahead) (f : α → α) {h : Handle kind}
    (hh : t.contains h = true) :
    (hahead.shift f).apply h = h :=
  Shift.apply_of_lt (UInt32.lt_iff_toNat_lt.1 (hahead.lt_next_reread f hh))

/-- **A table and what is read back of it are in step.** -/
theorem Ahead.renamed_reread (hahead : t.Ahead) (f : α → α) {r : α → α → Prop}
    (hr : ∀ h a, t.get? h = some a → r a (f a)) : t.Renamed (hahead.shift f) r (t.reread f) where
  live h a ha := by
    refine ⟨f a, ?_, hr h a ha⟩
    rw [hahead.shift_apply f (contains_iff.2 ⟨a, ha⟩), get?_reread, ha]
    rfl
  gone h hh := by
    rw [get?_reread, Option.map_eq_none_iff]
    cases ha : t.get? ((hahead.shift f).apply h) with
    | none => rfl
    | some a =>
      have hsame := Shift.apply_inj.1 (hahead.shift_apply f (contains_iff.2 ⟨a, ha⟩))
      rw [hsame, hh] at ha
      cases ha
  spares h hh := (hahead.spares_shift f).2 (Or.inl hh)
  ahead := hahead
  next := (Nat.add_sub_of_le (UInt32.le_iff_toNat_le.1 (hahead.next_reread_le f))).symm
  low := Nat.le_refl _
  pos := Handle.isValid_iff.1 (isValid_next_ofObjects _)

end Table

/-- **The renaming suits a table**: it keeps the handles in use, and the order of all that are
known. -/
structure Shift.Suits {kind : String} {α : Type} (σ : Shift) (t : Table kind α) : Prop where
  keeps : ∀ h, t.contains h = true → σ.apply h = h
  order : ∀ h k, t.Known h → t.Known k → ((σ.apply h).raw < (σ.apply k).raw ↔ h.raw < k.raw)

/-- The shift of a table that is ahead suits it. -/
theorem Table.Ahead.suits {kind : String} {α : Type} {t : Table kind α} (hahead : t.Ahead)
    (f : α → α) :
    (hahead.shift f).Suits t where
  keeps _ hh := hahead.shift_apply f hh
  order _ _ hh hk :=
    Shift.apply_lt_iff ((hahead.spares_shift f).2 hh) ((hahead.spares_shift f).2 hk)

/-- Lists of handles in use stay as they are. -/
theorem Shift.Suits.map_eq {kind : String} {α : Type} {σ : Shift} {t : Table kind α} (h : σ.Suits t)
    {hs : List (Handle kind)} (hused : ∀ k ∈ hs, ∃ a, t.get? k = some a) : hs.map σ.apply = hs := by
  conv_rhs => rw [← List.map_id hs]
  refine List.map_congr_left fun k hk => ?_
  exact h.keeps k (Table.contains_iff.2 (hused k hk))

/-- **The renaming suits a machine.** -/
structure Renaming.Suits (π : Renaming) (m : Machine) : Prop where
  target : π.target.Suits m.targets
  thread : π.thread.Suits m.threads
  frame : π.frame.Suits m.frames
  command : π.command.Suits m.commands

namespace Machine

variable {m m' : Machine}

/-- What is in use in the second machine was in use in the first, or was given out since. -/
structure Since (m m' : Machine) : Prop where
  target : ∀ g, m'.targets.contains g = true → m.targets.Known g
  thread : ∀ t, m'.threads.contains t = true → m.threads.Known t
  frame : ∀ f, m'.frames.contains f = true → m.frames.Known f
  command : ∀ c, m'.commands.contains c = true → m.commands.Known c

/-! ## What is read back -/

/-- The renaming from a machine to the machine as it reads back. -/
def Ahead.renaming (h : m.Ahead) : Renaming where
  target := h.targets.shift id
  thread := h.threads.shift fun t => { t with claimed := false }
  frame := h.frames.shift fun f => { f with readiness := .unknown }
  command := h.commands.shift id

theorem Ahead.suits (h : m.Ahead) : h.renaming.Suits m :=
  ⟨h.targets.suits _, h.threads.suits _, h.frames.suits _, h.commands.suits _⟩

/-- **A sound machine and what is read back of it are in step.** -/
theorem Sound.renamed_reread (hsound : m.Sound) (h : m.Ahead) : Renamed h.renaming m m.reread where
  targets := h.targets.renamed_reread id fun g target hg =>
    ⟨rfl, rfl, (h.suits.thread.map_eq fun t ht => by
      obtain ⟨thread, hthread, -⟩ := hsound.owned.thread_of_listed hg ht
      exact ⟨thread, hthread⟩).symm⟩
  threads := h.threads.renamed_reread _ fun t thread ht => by
    obtain ⟨target, htarget, -⟩ := hsound.owned.target_of_thread ht
    refine ⟨(h.suits.target.keeps _ (Table.contains_iff.2 ⟨target, htarget⟩)).symm, rfl, rfl,
      (h.suits.frame.map_eq fun f hf => ?_).symm, rfl⟩
    obtain ⟨frame, hframe, -⟩ := hsound.owned.frame_of_stacked ht hf
    exact ⟨frame, hframe⟩
  frames := h.frames.renamed_reread _ fun f frame hf => by
    obtain ⟨thread, hthread, -⟩ := hsound.owned.thread_of_frame hf
    exact ⟨(h.suits.thread.keeps _ (Table.contains_iff.2 ⟨thread, hthread⟩)).symm, rfl, rfl,
      (h.suits.command.map_eq fun c hc => hsound.owned.command_of_listed hf hc).symm,
      rfl, rfl, rfl, rfl, rfl, rfl, rfl, rfl⟩
  commands := h.commands.renamed_reread id fun _ _ _ => rfl
  globals := rfl

/-- What is in use in a machine that is in step with another was in use at the save or was given out
since. -/
theorem Renamed.since {later later' : Machine} {h : m.Ahead}
    (hr : Renamed h.renaming later later') :
    Since m later where
  target g hg := (h.targets.spares_shift _).1 (hr.targets.spares g hg)
  thread t ht := (h.threads.spares_shift _).1 (hr.threads.spares t ht)
  frame f hf := (h.frames.spares_shift _).1 (hr.frames.spares f hf)
  command c hc := (h.commands.spares_shift _).1 (hr.commands.spares c hc)

/-! ## What is loaded -/

/-- **A machine without open calls is loaded as it reads back**, if every entity is kept. -/
theorem Sound.load_save_settled {s : Setting} {bs : Bytes} (h : m.Sound) (hfits : m.Fits)
    (hsave : m.save = .ok bs) (hsettled : m.Settled) (hkeeps : ∀ e, s.remap e = some e)
    (m₀ : Machine) :
    ((load s bs).run m₀).value = .ok () ∧ ((load s bs).run m₀).state = m.reread := by
  have hread := read_save hsave hfits (h.storable hfits)
  have hremap : (Act.forEach (remapTarget s) m.reread.targets.handles).run m.reread =
      ⟨(), m.reread, []⟩ :=
    Act.run_forEach_of_still fun g _ => run_remapTarget_of_keeps hkeeps g m.reread
  have hcalls : (Act.forEach endCall m.reread.frames.handles).run m.reread =
      ⟨(), m.reread, []⟩ := by
    refine Act.run_forEach_of_still fun f _ => run_endCall_of_idle fun frame hframe => ?_
    rw [Machine.reread, Table.get?_reread] at hframe
    obtain ⟨old, hold, rfl⟩ := Option.map_eq_some_iff.1 hframe
    exact hsettled f old hold
  rw [run_load_ok hread, h.reread.state_repair s (congrArg Outcome.state hremap), hcalls]
  exact ⟨rfl, rfl⟩

/-! ## Resuming -/

/-- **Saving and resuming cannot be noticed.** A machine without open calls is saved, and loaded
where every entity is kept. Whatever operations follow, the replies, the calls that are asked and
all variables are the same, up to a renaming that keeps the handles in use at the save and the order
of the handles given out since. -/
theorem Reachable.resumed_in_step {s : Setting} {source : String → Except Failure Located}
    {bs : Bytes} (h : Reachable m) (hahead : m.Ahead) (hfits : m.Fits) (hsettled : m.Settled)
    (hsave : m.save = .ok bs) (hkeeps : ∀ e, s.remap e = some e)
    (htext : ∀ name located, source name = .ok located → located.text.length < UInt64.size)
    (answer : String → List String → Option EntityId → Except Failure Completion) (m₀ : Machine) :
    ((Machine.load s bs).run m₀).value = .ok () ∧
      ∃ π : Renaming, π.Suits m ∧ ∀ ops, (Host.fixed s source answer).Steady ⟨m, []⟩ ops →
        let original := (Act.collect (Host.fixed s source answer).perform ops).run ⟨m, []⟩
        let resumed := (Act.collect (Host.fixed s source answer).perform
          (ops.map (Operation.rename π))).run ⟨((Machine.load s bs).run m₀).state, []⟩
        resumed.value = original.value.map (Reply.rename π) ∧
          resumed.state.own = original.state.own.map (Call.rename π) ∧
          (∀ cell, resumed.state.machine.varsAt (cell.rename π) =
            original.state.machine.varsAt cell) ∧
          Since m original.state.machine := by
  obtain ⟨hvalue, hstate⟩ := h.sound.load_save_settled hfits hsave hsettled hkeeps m₀
  refine ⟨hvalue, hahead.renaming, hahead.suits, fun ops hsteady => ?_⟩
  have hstart : World.Renamed hahead.renaming ⟨m, []⟩ ⟨((Machine.load s bs).run m₀).state, []⟩ :=
    ⟨hstate ▸ h.sound.renamed_reread hahead, rfl⟩
  obtain ⟨hreplies, hmachine, hcalls⟩ :=
    Host.collect_in_step (Host.quiet_fixed htext answer) ops hstart
    h.sound (hstate ▸ h.sound.reread) hsteady
  exact ⟨hreplies, hcalls, hmachine.varsAt_rename, hmachine.since⟩

/-- The script was started twice. -/
def twice : World (List Call) := (((asking {}).perform (.start ⟨8⟩ "greet")).run greeting).state

/-- One of two invocations is gone, so the counters are ahead of what is in use. -/
def lone : Machine := (((asking {}).perform (.cleanup ⟨2⟩)).run twice).state.machine

/-- The machine with one invocation is one that hosts can make. -/
theorem reachable_lone : lone.Reachable := by
  have htwice : twice.machine.Reachable := by
    have hroom : twice.machine.Roomy := roomy_of_free 9 (by decide) (by decide +kernel)
    unfold twice at hroom ⊢
    exact .perform (quiet_asking {}) reachable_greeting hroom
  have hroom : lone.Roomy := roomy_of_free 9 (by decide) (by decide +kernel)
  unfold lone at hroom ⊢
  exact .perform (quiet_asking {}) htwice hroom

/-- What is done with it: another invocation asks for a name and gets it, then the first one
asks. -/
def talk : List Operation :=
  [.start ⟨9⟩ "greet", .stepInvocation ⟨3⟩, .complete ⟨3⟩ "Ann", .stepInvocation ⟨3⟩, .claim,
    .stepInvocation ⟨1⟩]

/-- A machine with one invocation is saved, and loaded over another machine. The same operations on
both then give the same replies, up to the names of what they make. -/
theorem lone_resumed_in_step :
    lone.Reachable ∧ lone.Ahead ∧ lone.Fits ∧ lone.Settled ∧ (asking {}).Steady ⟨lone, []⟩ talk ∧
      ∃ bs, lone.save = .ok bs ∧ ((load {} bs).run waiting).value = .ok () ∧
        ∃ π : Renaming, π.Suits lone ∧
          let original := (Act.collect (asking {}).perform talk).run ⟨lone, []⟩
          let resumed := (Act.collect (asking {}).perform (talk.map (Operation.rename π))).run
            ⟨((load {} bs).run waiting).state, []⟩
          resumed.value = original.value.map (Reply.rename π) ∧
            resumed.state.own = original.state.own.map (Call.rename π) ∧
            (∀ cell, resumed.state.machine.varsAt (cell.rename π) =
              original.state.machine.varsAt cell) ∧
            Since lone original.state.machine := by
  have hahead : lone.Ahead := by decide +kernel
  have hfits : lone.Fits := by decide +kernel
  have hsettled : lone.Settled := by decide +kernel
  have hsteady : (asking {}).Steady ⟨lone, []⟩ talk := by decide +kernel
  obtain ⟨bs, hsave⟩ := exists_save hfits (reachable_lone.sound.storable hfits) (by decide +kernel)
  refine ⟨reachable_lone, hahead, hfits, hsettled, hsteady, bs, hsave, ?_⟩
  obtain ⟨hvalue, π, hsuits, hrun⟩ :=
    reachable_lone.resumed_in_step (s := {}) hahead hfits hsettled hsave
    (fun _ => rfl) length_greet (fun _ _ _ => .ok .pending) waiting
  unfold asking at hsteady ⊢
  exact ⟨hvalue, π, hsuits, hrun talk hsteady⟩

end Machine

end StepScript
