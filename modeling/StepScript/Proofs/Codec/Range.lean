import StepScript.Proofs.Codec.Records

/-!
# Proofs/Codec/Range — what can be read

Whatever the bytes, a number that was read fits the field it was read from, and no object that was
read has the handle zero. So a machine that comes from a save, damaged or not, can go into one
again.

* `Binary.Yields` — a property of every value that can be read.
* `Machine.storable_of_read`.
-/

namespace StepScript

namespace Binary

variable {α β : Type}

/-- **Every value that can be read has the property.** -/
def Yields [Binary α] (p : α → Prop) : Prop := ∀ bs a rest, decode bs = some (a, rest) → p a

/-- A number read from so many bytes is one that so many bytes can hold. -/
theorem readLittleEndian_lt {width n : Nat} {bs rest : Bytes}
    (h : readLittleEndian width bs = some (n, rest)) : n < Nat.pow 256 width := by
  induction width generalizing bs rest n with
  | zero =>
    cases h
    decide
  | succ width ih =>
    cases bs with
    | nil => cases h
    | cons b bs =>
      obtain ⟨⟨high, left⟩, hread, heq⟩ := Option.map_eq_some_iff.1 h
      obtain ⟨rfl, -⟩ := Prod.mk.inj heq
      have hhigh := ih hread
      have hdigit : b.toNat < 256 := b.toNat_lt
      rw [pow_width_succ]
      omega

/-- A natural number that was read fits 64 bits. -/
theorem yields_nat : Yields fun n : Nat => n < UInt64.size := fun _ _ _ h => readLittleEndian_lt h

theorem Yields.option [Binary α] {p : α → Prop} (h : Yields p) :
    Yields fun o : Option α => ∀ a, o = some a → p a := by
  rintro bs o rest hread a rfl
  cases bs with
  | nil => cases hread
  | cons b bs =>
    simp only [decode] at hread
    split at hread
    · cases hread
    · split at hread
      · obtain ⟨⟨a', left⟩, hpayload, heq⟩ := Option.map_eq_some_iff.1 hread
        cases heq
        exact h bs _ _ hpayload
      · cases hread

/-- If every value that is read has a property, so has the second part of every pair. -/
theorem Yields.second [Binary α] [Binary β] {p : β → Prop} (h : Yields p) :
    Yields fun e : α × β => p e.2 := by
  intro bs e rest hread
  obtain ⟨⟨a, bs'⟩, -, hread⟩ := Option.bind_eq_some_iff.1 hread
  obtain ⟨⟨b, left⟩, hb, heq⟩ := Option.bind_eq_some_iff.1 hread
  cases heq
  exact h bs' _ _ hb

theorem Yields.list [Binary α] {p : α → Prop} (h : Yields p) :
    Yields fun as : List α => ∀ a ∈ as, p a := by
  have hall : ∀ (n : Nat) (bs : Bytes) (as : List α) (rest : Bytes),
      decodeAll n bs = some (as, rest) → ∀ a ∈ as, p a := by
    intro n
    induction n with
    | zero =>
      intro bs as rest hread
      cases hread
      exact List.forall_mem_nil p
    | succ n ih =>
      intro bs as rest hread
      obtain ⟨⟨a, bs'⟩, ha, hread⟩ := Option.bind_eq_some_iff.1 hread
      obtain ⟨⟨as', left⟩, has, heq⟩ := Option.bind_eq_some_iff.1 hread
      cases heq
      exact List.forall_mem_cons.2 ⟨h bs a bs' ha, ih bs' as' _ has⟩
  intro bs as rest hread
  obtain ⟨⟨n, bs'⟩, -, hread⟩ := Option.bind_eq_some_iff.1 hread
  exact hall n bs' as rest hread

/-- A list that was read is as long as the number before it says. -/
theorem yields_length [Binary α] : Yields fun as : List α => as.length < UInt64.size := by
  have hall : ∀ (n : Nat) (bs : Bytes) (as : List α) (rest : Bytes),
      decodeAll n bs = some (as, rest) → as.length = n := by
    intro n
    induction n with
    | zero =>
      intro bs as rest hread
      cases hread
      rfl
    | succ n ih =>
      intro bs as rest hread
      obtain ⟨⟨a, bs'⟩, -, hread⟩ := Option.bind_eq_some_iff.1 hread
      obtain ⟨⟨as', left⟩, has, heq⟩ := Option.bind_eq_some_iff.1 hread
      cases heq
      rw [List.length_cons, ih bs' as' _ has]
  intro bs as rest hread
  obtain ⟨⟨n, bs'⟩, hn, hread⟩ := Option.bind_eq_some_iff.1 hread
  rw [hall n bs' as rest hread]
  exact yields_nat _ _ _ hn

/-- A map that was read holds only values that were read. -/
theorem Yields.map [Binary α] {p : α → Prop} (h : Yields p) :
    Yields fun m : Assoc String α compare => ∀ e ∈ m.entries, p e.2 := by
  intro bs m rest hread
  obtain ⟨⟨es, left⟩, hes, heq⟩ := Option.map_eq_some_iff.1 hread
  cases heq
  exact fun e he => h.second.list bs es _ hes e (Assoc.mem_of_mem_ofList he)

/-- The line number of a command that was read fits 64 bits. -/
theorem yields_command : Yields fun c : Command => c.line < UInt64.size := by
  intro bs c rest hread
  obtain ⟨_, hline, hread⟩ := Option.bind_eq_some_iff.1 hread
  obtain ⟨_, -, heq⟩ := Option.bind_eq_some_iff.1 hread
  cases heq
  exact yields_nat _ _ _ hline

/-- So does that of a call that was open. -/
theorem yields_pendingCall : Yields fun call : PendingCall => call.source.line < UInt64.size := by
  intro bs call rest hread
  obtain ⟨_, -, hread⟩ := Option.bind_eq_some_iff.1 hread
  obtain ⟨_, hsource, hread⟩ := Option.bind_eq_some_iff.1 hread
  obtain ⟨_, -, heq⟩ := Option.bind_eq_some_iff.1 hread
  cases heq
  obtain ⟨_, -, hsource⟩ := Option.bind_eq_some_iff.1 hsource
  obtain ⟨_, hline, heq⟩ := Option.bind_eq_some_iff.1 hsource
  cases heq
  exact yields_nat _ _ _ hline

/-- **Every number of a frame that was read fits 64 bits.** -/
theorem yields_frame : Yields Frame.WordSized := by
  intro bs frame rest hread
  iterate 4 obtain ⟨_, -, hread⟩ := Option.bind_eq_some_iff.1 hread
  obtain ⟨_, hcursor, hread⟩ := Option.bind_eq_some_iff.1 hread
  iterate 2 obtain ⟨_, -, hread⟩ := Option.bind_eq_some_iff.1 hread
  obtain ⟨_, hgotos, hread⟩ := Option.bind_eq_some_iff.1 hread
  obtain ⟨_, hgosubs, hread⟩ := Option.bind_eq_some_iff.1 hread
  obtain ⟨_, hreturns, hread⟩ := Option.bind_eq_some_iff.1 hread
  obtain ⟨_, -, hread⟩ := Option.bind_eq_some_iff.1 hread
  obtain ⟨_, hpending, heq⟩ := Option.bind_eq_some_iff.1 hread
  cases heq
  exact ⟨yields_nat _ _ _ hcursor, yields_nat.map _ _ _ hgotos, yields_nat.map _ _ _ hgosubs,
    fun index hindex => yields_nat.list _ _ _ hreturns index (List.mem_reverse.1 hindex),
    yields_pendingCall.option _ _ _ hpending⟩

/-- A frame that was read has no more commands than 64 bits can count. -/
theorem yields_commands : Yields fun frame : Frame => frame.commands.length < UInt64.size := by
  intro bs frame rest hread
  iterate 3 obtain ⟨_, -, hread⟩ := Option.bind_eq_some_iff.1 hread
  obtain ⟨_, hcommands, hread⟩ := Option.bind_eq_some_iff.1 hread
  iterate 8 obtain ⟨_, -, hread⟩ := Option.bind_eq_some_iff.1 hread
  cases hread
  exact yields_length _ _ _ hcommands

end Binary

/-! ## Machines -/

/-- **Every table that was loaded is proper**: the next handle is valid, and so are those in use. -/
theorem Table.proper_of_load {kind : String} {α : Type} [Binary α] {t : Table kind α}
    {bs left : Bytes} (hload : load kind bs = (.ok t, left)) : t.Proper where
  next := by
    obtain ⟨_, _, m, -, -, rfl⟩ := load_eq_ok.1 hload
    exact isValid_next_ofObjects m
  live := forall_of_load (fun _ _ _ hvalid _ => hvalid) hload

/-- **A machine that was read can be saved again**, as far as its handles and numbers go. -/
theorem Machine.storable_of_read {m : Machine} {bs : Bytes} (h : read bs = .ok m) : m.Storable := by
  obtain ⟨_, _, _, _, _, _, -, htargets, hthreads, hframes, hcommands, -⟩ := read_eq_ok.1 h
  exact ⟨Table.proper_of_load htargets, Table.proper_of_load hthreads, Table.proper_of_load hframes,
    Table.proper_of_load hcommands,
    Table.forall_of_load (fun _ _ _ _ => Binary.yields_frame _ _ _) hframes,
    Table.forall_of_load (fun _ _ _ _ => Binary.yields_command _ _ _) hcommands⟩

end StepScript
