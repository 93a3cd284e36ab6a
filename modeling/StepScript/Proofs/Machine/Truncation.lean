import StepScript.Proofs.Host.Reachable

/-!
# Proofs/Machine/Truncation — a save that ends early is refused

A reader that succeeds does so whatever comes later in the stream (`Stream.Steady`), and on bytes
that were written it stops exactly where they end, if it gets that far (`Stream.StopsAfter`). So on
a save that lacks a last piece, what is left for each reader lacks that piece too, and for the last
one there would have to be less than nothing left.

* `Machine.eq_nil_of_read` — a save that can be read lacks nothing.
* `Machine.kind_of_read_error` — a stream is refused as corrupt, unless its version is another.
* `Machine.refused_of_truncated` — a load of a save that ends early fails as corrupt, and leaves the
  machine empty.
-/

namespace StepScript

open Binary

/-! ## Words and frames -/

namespace Stream

variable {α ε : Type} {r : Bytes → Except ε α × Bytes}

/-- **What the reader reads does not depend on what comes later.** -/
def Steady (r : Bytes → Except ε α × Bytes) : Prop :=
  ∀ ⦃bs a left⦄, r bs = (.ok a, left) → ∀ more, r (bs ++ more) = (.ok a, left ++ more)

/-- **The reader stops where `bs` ends**, if it succeeds at all. -/
def StopsAfter (r : Bytes → Except ε α × Bytes) (bs : Bytes) : Prop :=
  ∀ ⦃rest a left⦄, r (bs ++ rest) = (.ok a, left) → left = rest

/-- What is missing at the end of the stream is missing after each reader. -/
theorem Steady.append_missing (hr : Steady r) {bs front left rest missing : Bytes} {a : α}
    (hstop : StopsAfter r bs) (h : r front = (.ok a, left)) (heq : front ++ missing = bs ++ rest) :
    left ++ missing = rest :=
  hstop (heq ▸ hr h missing)

/-- A number that was read is read as well if more follows. -/
theorem readLittleEndian_append {width n : Nat} {bs left : Bytes}
    (h : readLittleEndian width bs = some (n, left)) (more : Bytes) :
    readLittleEndian width (bs ++ more) = some (n, left ++ more) := by
  induction width generalizing n bs with
  | zero =>
    cases h
    rfl
  | succ width ih =>
    cases bs with
    | nil => cases h
    | cons b bs =>
      obtain ⟨⟨k, tail⟩, hread, heq⟩ := Option.map_eq_some_iff.1 h
      cases heq
      rw [List.cons_append, readLittleEndian, ih hread]
      rfl

/-- Reading a word does not depend on what follows it. -/
theorem steady_readWord : Steady readWord := by
  intro bs n left h more
  cases hread : readLittleEndian 4 bs with
  | none => simp [readWord, decode, hread] at h
  | some r =>
    have hmore := readLittleEndian_append hread more
    simp only [readWord, decode, hread, Option.map_some, Prod.mk.injEq, Except.ok.injEq] at h
    simp only [readWord, decode, hmore, Option.map_some, h]

/-- A word that is cut off anywhere is not read. -/
theorem stopsAfter_readWord (n : UInt32) : StopsAfter readWord (encode n) := by
  intro rest k left h
  rw [readWord_encode] at h
  exact (Prod.mk.inj h).2.symm

theorem steady_readFrame [Binary α] : Steady (readFrame (α := α)) := by
  intro bs a left h more
  obtain ⟨length, rest, payload, hword, hle, htake, hpayload⟩ := readFrame_eq_ok.1 h
  obtain ⟨hlength, rfl⟩ := takeBytes?_eq_some.1 htake
  refine readFrame_eq_ok.2 ⟨length, _, payload, steady_readWord hword more, hle, ?_, hpayload⟩
  rw [List.append_assoc, ← hlength, takeBytes?_append]

/-- Whether or not the payload means anything, a frame is as long as it says. -/
theorem stopsAfter_readFrame [Binary α] {a : α} {bs : Bytes} (hwrite : writeFrame a = .ok bs) :
    StopsAfter (readFrame (α := α)) bs := by
  intro rest b left h
  obtain ⟨hlt, rfl⟩ := writeFrame_eq_ok hwrite
  obtain ⟨length, rest', payload, hword, -, htake, -⟩ := readFrame_eq_ok.1 h
  rw [List.append_assoc, readWord_encode] at hword
  cases hword
  rw [UInt32.toNat_ofNat_of_lt' hlt, takeBytes?_append] at htake
  cases htake
  rfl

end Stream

/-! ## Tables -/

namespace Table

open StepScript.Stream

variable {kind : String} {α : Type} [Binary α]

theorem steady_readRecords (n index : Nat) (m : Assoc (Handle kind) α Handle.newestFirst) :
    Steady (readRecords kind n index m) := by
  induction n generalizing index m with
  | zero =>
    intro bs m' left h more
    cases h
    rfl
  | succ n ih =>
    intro bs m' left h more
    obtain ⟨raw, rest, a, rest', hword, hfresh, hframe, h⟩ := readRecords_succ_eq_ok.1 h
    exact readRecords_succ_eq_ok.2 ⟨raw, _, a, _, steady_readWord hword more, hfresh,
      steady_readFrame hframe more, ih _ _ h more⟩

/-- **Records that are cut off anywhere are not read.** -/
theorem stopsAfter_readRecords {es : List (Handle kind × α)} {bs : Bytes}
    (hwrite : writeRecords es = .ok bs) (index : Nat)
    (m : Assoc (Handle kind) α Handle.newestFirst) :
    StopsAfter (readRecords kind es.length index m) bs := by
  induction es generalizing bs index m with
  | nil =>
    obtain rfl := Except.ok.inj hwrite
    intro rest m' left h
    cases h
    rfl
  | cons e es ih =>
    obtain ⟨frame, bytes, hframe, hbytes, rfl⟩ := writeRecords_cons_eq_ok hwrite
    intro rest m' left h
    obtain ⟨raw, rest₁, a, rest₂, hword, -, hread, h⟩ := readRecords_succ_eq_ok.1 h
    rw [List.append_assoc, List.append_assoc] at hword
    obtain rfl := stopsAfter_readWord e.1.raw hword
    obtain rfl := stopsAfter_readFrame hframe hread
    exact ih hbytes _ _ h

theorem steady_load : Steady (load (α := α) kind) := by
  intro bs t left h more
  obtain ⟨count, rest, m, hword, hread, ht⟩ := load_eq_ok.1 h
  exact load_eq_ok.2 ⟨count, _, m, steady_readWord hword more,
    steady_readRecords _ _ _ hread more, ht⟩

/-- Nor is the table that they are of. -/
theorem stopsAfter_load {t : Table kind α} {bs : Bytes} (hsave : t.save = .ok bs) :
    StopsAfter (load (α := α) kind) bs := by
  obtain ⟨records, hlt, hrecords, rfl⟩ := save_eq_ok hsave
  intro rest t' left h
  obtain ⟨count, rest', m, hword, hread, -⟩ := load_eq_ok.1 h
  rw [List.append_assoc, readWord_encode] at hword
  cases hword
  rw [UInt32.toNat_ofNat_of_lt' hlt] at hread
  exact stopsAfter_readRecords hrecords 0 ∅ hread

/-- Whatever is wrong with the records, the table is corrupt. -/
theorem kind_of_readRecords_error {n index : Nat} {m : Assoc (Handle kind) α Handle.newestFirst}
    {bs left : Bytes} {cause : Cause} (h : readRecords kind n index m bs = (.error cause, left)) :
    cause.kind = .corruptSave := by
  induction n generalizing index m bs with
  | zero => cases h
  | succ n ih =>
    rw [readRecords] at h
    split at h
    · cases h
      rfl
    · split at h
      · cases h
        rfl
      · split at h
        · cases h
          rfl
        · exact ih h

/-- Whatever goes wrong, the save is called corrupt. -/
theorem kind_of_load_error {bs left : Bytes} {cause : Cause}
    (h : load (α := α) kind bs = (.error cause, left)) : cause.kind = .corruptSave := by
  unfold load at h
  split at h
  · cases h
    rfl
  · split at h
    · next hread =>
      cases h
      exact kind_of_readRecords_error hread
    · cases h

end Table

/-! ## Variables -/

namespace Vars

open StepScript.Stream

theorem steady_readRecords (n : Nat) (m : Vars) : Steady (readRecords n m) := by
  induction n generalizing m with
  | zero =>
    intro bs m' left h more
    cases h
    rfl
  | succ n ih =>
    intro bs m' left h more
    obtain ⟨name, rest, value, rest', hname, hvalue, h⟩ := readRecords_succ_eq_ok.1 h
    exact readRecords_succ_eq_ok.2 ⟨name, _, value, _, steady_readFrame hname more,
      steady_readFrame hvalue more, ih _ h more⟩

theorem stopsAfter_readRecords {es : List (String × String)} {bs : Bytes}
    (hwrite : writeRecords es = .ok bs) (m : Vars) : StopsAfter (readRecords es.length m) bs := by
  induction es generalizing bs m with
  | nil =>
    obtain rfl := Except.ok.inj hwrite
    intro rest m' left h
    cases h
    rfl
  | cons e es ih =>
    obtain ⟨front, back, bytes, hfront, hback, hbytes, rfl⟩ := writeRecords_cons_eq_ok hwrite
    intro rest m' left h
    obtain ⟨name, rest₁, value, rest₂, hname, hvalue, h⟩ := readRecords_succ_eq_ok.1 h
    rw [List.append_assoc, List.append_assoc] at hname
    obtain rfl := stopsAfter_readFrame hfront hname
    obtain rfl := stopsAfter_readFrame hback hvalue
    exact ih hbytes _ h

theorem steady_load : Steady load := by
  intro bs vars left h more
  obtain ⟨count, rest, hword, hread⟩ := load_eq_ok.1 h
  exact load_eq_ok.2 ⟨count, _, steady_readWord hword more, steady_readRecords _ _ hread more⟩

theorem stopsAfter_load {vars : Vars} {bs : Bytes} (hsave : vars.save = .ok bs) :
    StopsAfter load bs := by
  obtain ⟨records, hlt, hrecords, rfl⟩ := save_eq_ok hsave
  intro rest vars' left h
  obtain ⟨count, rest', hword, hread⟩ := load_eq_ok.1 h
  rw [List.append_assoc, readWord_encode] at hword
  cases hword
  rw [UInt32.toNat_ofNat_of_lt' hlt] at hread
  exact stopsAfter_readRecords hrecords ∅ hread

theorem kind_of_readRecords_error {n : Nat} {m : Vars} {bs left : Bytes} {cause : Cause}
    (h : readRecords n m bs = (.error cause, left)) : cause.kind = .corruptSave := by
  induction n generalizing m bs with
  | zero => cases h
  | succ n ih =>
    rw [readRecords] at h
    split at h
    · cases h
      rfl
    · split at h
      · cases h
        rfl
      · exact ih h

theorem kind_of_load_error {bs left : Bytes} {cause : Cause} (h : load bs = (.error cause, left)) :
    cause.kind = .corruptSave := by
  unfold load at h
  split at h
  · cases h
    rfl
  · exact kind_of_readRecords_error h

end Vars

/-! ## Machines -/

namespace Machine

open StepScript.Stream

variable {m m' : Machine} {front missing : Bytes}

/-- **A save that can be read lacks nothing.** -/
theorem eq_nil_of_read (hsave : m.save = .ok (front ++ missing)) (hread : read front = .ok m') :
    missing = [] := by
  obtain ⟨targets, threads, frames, commands, globals, htargets, hthreads, hframes, hcommands,
    hglobals, heq⟩ := save_eq_ok hsave
  obtain ⟨bs₁, bs₂, bs₃, bs₄, bs₅, left, hword, hread₁, hread₂, hread₃, hread₄, hread₅⟩ :=
    read_eq_ok.1 hread
  simp only [List.append_assoc] at heq
  have h₁ := steady_readWord.append_missing (stopsAfter_readWord _) hword heq
  have h₂ := Table.steady_load.append_missing (Table.stopsAfter_load htargets) hread₁ h₁
  have h₃ := Table.steady_load.append_missing (Table.stopsAfter_load hthreads) hread₂ h₂
  have h₄ := Table.steady_load.append_missing (Table.stopsAfter_load hframes) hread₃ h₃
  have h₅ := Table.steady_load.append_missing (Table.stopsAfter_load hcommands) hread₄ h₄
  rw [← globals.append_nil] at h₅
  have h₆ := Vars.steady_load.append_missing (Vars.stopsAfter_load hglobals) hread₅ h₅
  exact (List.append_eq_nil_iff.1 h₆).2

theorem kind_of_readTable_error {kind : String} {α : Type} [Binary α] {bs : Bytes}
    {refusal : Refusal} (h : readTable (α := α) kind bs = .error refusal) :
    refusal.cause.kind = .corruptSave := by
  unfold readTable at h
  split at h
  · cases h
  · next hload =>
    cases h
    exact Table.kind_of_load_error hload

/-- **A stream is refused as corrupt**, unless its version is another. -/
theorem kind_of_read_error {bs : Bytes} {refusal : Refusal} (h : read bs = .error refusal) :
    refusal.cause.kind = .corruptSave ∨
      ∃ version left, readWord bs = (.ok version, left) ∧ version ≠ saveVersion := by
  unfold read at h
  split at h
  · cases h
    exact Or.inl rfl
  · next version left hword =>
    split at h
    · next hversion => exact Or.inr ⟨version, left, hword, hversion⟩
    · left
      simp only [bind, Except.bind] at h
      split at h
      · next htargets =>
        cases h
        exact kind_of_readTable_error htargets
      · split at h
        · next hthreads =>
          cases h
          exact kind_of_readTable_error hthreads
        · split at h
          · next hframes =>
            cases h
            exact kind_of_readTable_error hframes
          · split at h
            · next hcommands =>
              cases h
              exact kind_of_readTable_error hcommands
            · split at h
              · next hglobals =>
                cases h
                exact Vars.kind_of_load_error hglobals
              · cases h

/-- As far as it is there, the version of a save that ends early is the right one. -/
theorem version_of_readWord {version : UInt32} {left : Bytes}
    (hsave : m.save = .ok (front ++ missing)) (hword : readWord front = (.ok version, left)) :
    version = saveVersion := by
  obtain ⟨targets, threads, frames, commands, globals, -, -, -, -, -, heq⟩ := save_eq_ok hsave
  have hmore := steady_readWord hword missing
  simp only [heq, List.append_assoc, readWord_encode] at hmore
  exact (Except.ok.inj (Prod.mk.inj hmore).1).symm

/-- A save that cannot be read leaves an empty machine. -/
theorem state_load_error {s : Setting} {bs : Bytes} {refusal : Refusal}
    (hread : read bs = .error refusal) : ((load s bs).run m).state = ∅ := by
  simp only [load, hread]
  cases refusal.table <;> rfl

/-- **A save that ends early is refused as corrupt**, whatever was there before, and nothing is
left. -/
theorem refused_of_truncated {bs front : Bytes} (hsave : m.save = .ok bs) (hpre : front <+: bs)
    (hne : front ≠ bs) (s : Setting) (m₀ : Machine) :
    ∃ failure, ((load s front).run m₀).value = .error failure ∧ failure.kind = .corruptSave ∧
      ((load s front).run m₀).state = ∅ := by
  obtain ⟨missing, rfl⟩ := hpre
  cases hread : read front with
  | ok m' =>
    obtain rfl := eq_nil_of_read hsave hread
    exact absurd front.append_nil.symm hne
  | error refusal =>
    refine ⟨refusal.cause.failure, value_load_error hread, ?_, state_load_error hread⟩
    obtain hkind | ⟨version, left, hword, hversion⟩ := kind_of_read_error hread
    · exact hkind
    · exact absurd (version_of_readWord hsave hword) hversion

/-- One byte short, the save of a machine that waits for a call is refused by that same machine. -/
theorem waiting_truncated : ∃ bs, waiting.save = .ok bs ∧ bs.dropLast ≠ bs ∧
    ∃ failure, ((load {} bs.dropLast).run waiting).value = .error failure ∧
      failure.kind = .corruptSave ∧ ((load {} bs.dropLast).run waiting).state = ∅ := by
  obtain ⟨bs, hsave, hne⟩ : ∃ bs, waiting.save = .ok bs ∧ bs.dropLast ≠ bs := by
    refine ⟨waiting.save.toOption.getD [], ?_, ?_⟩ <;> decide +kernel
  exact ⟨bs, hsave, hne, refused_of_truncated hsave bs.dropLast_prefix hne {} waiting⟩

end Machine

end StepScript
