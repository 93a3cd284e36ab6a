import StepScript.Proofs.Machine.Truncation

/-!
# Proofs/Machine/Oversize — which saves can be loaded

A frame is written if its length can be counted in 32 bits, and read if it is at most
`Stream.maxFrame` bytes long. Between the two limits lie the objects and global variables that are
saved and then refused.

* `Machine.fits_of_read` — a save that can be read holds nothing that is too long.
* `Machine.Reachable.accepted_iff_fits` — a save of a reachable machine is accepted, on every
  machine, if and only if every object and every global variable fits a frame; otherwise it is
  refused as corrupt.
-/

namespace StepScript

open Binary

/-! ## Frames, tables and variables -/

/-- A frame that can be read back is not too long. -/
theorem Stream.fits_of_readFrame {α : Type} [Binary α] {a b : α} {bs rest left : Bytes}
    (hwrite : writeFrame a = .ok bs) (hread : readFrame (bs ++ rest) = (.ok b, left)) :
    (encode a).length ≤ maxFrame := by
  obtain ⟨hlt, rfl⟩ := writeFrame_eq_ok hwrite
  obtain ⟨length, rest', payload, hword, hle, -, -⟩ := readFrame_eq_ok.1 hread
  rw [List.append_assoc, readWord_encode] at hword
  cases hword
  rwa [UInt32.toNat_ofNat_of_lt' hlt] at hle

namespace Table

open StepScript.Stream

variable {kind : String} {α : Type} [Binary α]

/-- Records that were written and can be read are not too long. -/
theorem fits_of_readRecords {es : List (Handle kind × α)} {bs rest left : Bytes}
    (hwrite : writeRecords es = .ok bs) {index : Nat}
    {m m' : Assoc (Handle kind) α Handle.newestFirst}
    (hread : readRecords kind es.length index m (bs ++ rest) = (.ok m', left)) :
    ∀ e ∈ es, (encode e.2).length ≤ maxFrame := by
  induction es generalizing bs index m with
  | nil => exact List.forall_mem_nil _
  | cons e es ih =>
    obtain ⟨frame, bytes, hframe, hbytes, rfl⟩ := writeRecords_cons_eq_ok hwrite
    obtain ⟨raw, rest₁, a, rest₂, hword, -, hobject, hread⟩ := readRecords_succ_eq_ok.1 hread
    rw [List.append_assoc, List.append_assoc] at hword
    obtain rfl := stopsAfter_readWord e.1.raw hword
    have hfits := fits_of_readFrame hframe hobject
    obtain rfl := stopsAfter_readFrame hframe hobject
    exact List.forall_mem_cons.2 ⟨hfits, ih hbytes hread⟩

/-- **A table whose bytes can be loaded fits**: none of its objects is too long. -/
theorem fits_of_load {t t' : Table kind α} {bs rest left : Bytes} (hsave : t.save = .ok bs)
    (hload : load kind (bs ++ rest) = (.ok t', left)) :
    ∀ e ∈ t.toList, (encode e.2).length ≤ maxFrame := by
  obtain ⟨records, hlt, hrecords, rfl⟩ := save_eq_ok hsave
  obtain ⟨count, rest', m, hword, hread, -⟩ := load_eq_ok.1 hload
  rw [List.append_assoc, readWord_encode] at hword
  cases hword
  rw [UInt32.toNat_ofNat_of_lt' hlt] at hread
  exact fits_of_readRecords hrecords hread

end Table

namespace Vars

open StepScript.Stream

theorem fits_of_readRecords {es : List (String × String)} {bs rest left : Bytes}
    (hwrite : writeRecords es = .ok bs) {m m' : Vars}
    (hread : readRecords es.length m (bs ++ rest) = (.ok m', left)) :
    ∀ e ∈ es, (encode e.1).length ≤ maxFrame ∧ (encode e.2).length ≤ maxFrame := by
  induction es generalizing bs m with
  | nil => exact List.forall_mem_nil _
  | cons e es ih =>
    obtain ⟨front, back, bytes, hfront, hback, hbytes, rfl⟩ := writeRecords_cons_eq_ok hwrite
    obtain ⟨name, rest₁, value, rest₂, hname, hvalue, hread⟩ := readRecords_succ_eq_ok.1 hread
    rw [List.append_assoc, List.append_assoc] at hname
    have hnameFits := fits_of_readFrame hfront hname
    obtain rfl := stopsAfter_readFrame hfront hname
    have hvalueFits := fits_of_readFrame hback hvalue
    obtain rfl := stopsAfter_readFrame hback hvalue
    exact List.forall_mem_cons.2 ⟨⟨hnameFits, hvalueFits⟩, ih hbytes hread⟩

/-- The same for variables, in their names and in their values. -/
theorem fits_of_load {vars vars' : Vars} {bs rest left : Bytes} (hsave : vars.save = .ok bs)
    (hload : load (bs ++ rest) = (.ok vars', left)) :
    ∀ e ∈ vars.entries, (encode e.1).length ≤ maxFrame ∧ (encode e.2).length ≤ maxFrame := by
  obtain ⟨records, hlt, hrecords, rfl⟩ := save_eq_ok hsave
  obtain ⟨count, rest', hword, hread⟩ := load_eq_ok.1 hload
  rw [List.append_assoc, readWord_encode] at hword
  cases hword
  rw [UInt32.toNat_ofNat_of_lt' hlt] at hread
  exact fits_of_readRecords hrecords hread

end Vars

/-! ## Machines -/

namespace Machine

open StepScript.Stream

variable {m m' : Machine} {bs : Bytes}

/-- **A save that can be read holds nothing that is too long.** -/
theorem fits_of_read (hsave : m.save = .ok bs) (hread : read bs = .ok m') : m.Fits := by
  obtain ⟨targets, threads, frames, commands, globals, htargets, hthreads, hframes, hcommands,
    hglobals, rfl⟩ := save_eq_ok hsave
  obtain ⟨bs₁, bs₂, bs₃, bs₄, bs₅, left, hword, hread₁, hread₂, hread₃, hread₄, hread₅⟩ :=
    read_eq_ok.1 hread
  simp only [List.append_assoc] at hword
  obtain rfl := stopsAfter_readWord _ hword
  have hfits₁ := Table.fits_of_load htargets hread₁
  obtain rfl := Table.stopsAfter_load htargets hread₁
  have hfits₂ := Table.fits_of_load hthreads hread₂
  obtain rfl := Table.stopsAfter_load hthreads hread₂
  have hfits₃ := Table.fits_of_load hframes hread₃
  obtain rfl := Table.stopsAfter_load hframes hread₃
  have hfits₄ := Table.fits_of_load hcommands hread₄
  obtain rfl := Table.stopsAfter_load hcommands hread₄
  rw [← List.append_nil bs₅] at hread₅
  exact fits_iff.2 ⟨hfits₁, hfits₂, hfits₃, hfits₄, Vars.fits_of_load hglobals hread₅⟩

/-- A save with something that is too long is refused as corrupt, whatever was there before. -/
theorem refused_of_not_fits (hsave : m.save = .ok bs) (hfits : ¬ m.Fits) (s : Setting)
    (m₀ : Machine) :
    ∃ failure, ((load s bs).run m₀).value = .error failure ∧ failure.kind = .corruptSave ∧
      ((load s bs).run m₀).state = ∅ := by
  cases hread : read bs with
  | ok m' => exact absurd (fits_of_read hsave hread) hfits
  | error refusal =>
    refine ⟨refusal.cause.failure, value_load_error hread, ?_, state_load_error hread⟩
    obtain hkind | ⟨version, left, hword, hversion⟩ := kind_of_read_error hread
    · exact hkind
    · rw [← bs.append_nil] at hsave
      exact absurd (version_of_readWord hsave hword) hversion

/-- **What is saved can be loaded, on every machine, if and only if it fits.** What does not fit is
refused as corrupt, and nothing is left. -/
theorem Reachable.accepted_iff_fits (h : Reachable m) (hsave : m.save = .ok bs) (s : Setting)
    (m₀ : Machine) :
    (((Machine.load s bs).run m₀).value = .ok () ↔ m.Fits) ∧
      (¬ m.Fits → ∃ failure, ((Machine.load s bs).run m₀).value = .error failure ∧
        failure.kind = .corruptSave ∧ ((Machine.load s bs).run m₀).state = ∅) := by
  refine ⟨⟨fun hvalue => by_contra fun hfits => ?_, fun hfits => ?_⟩, fun hfits => ?_⟩
  · obtain ⟨failure, herror, -⟩ := refused_of_not_fits hsave hfits s m₀
    rw [hvalue] at herror
    cases herror
  · exact (h.sound.load_save hfits hsave s m₀).1
  · exact refused_of_not_fits hsave hfits s m₀

/-- The save of the script that waits is accepted by that same machine. -/
theorem waiting_accepted : waiting.Reachable ∧ ∃ bs, waiting.save = .ok bs ∧ waiting.Fits ∧
    ((load {} bs).run waiting).value = .ok () := by
  obtain ⟨bs, hsave⟩ : ∃ bs, waiting.save = .ok bs :=
    ⟨waiting.save.toOption.getD [], by decide +kernel⟩
  have hfits : waiting.Fits := by decide +kernel
  exact ⟨reachable_waiting, bs, hsave, hfits,
    (reachable_waiting.accepted_iff_fits hsave {} waiting).1.2 hfits⟩

/-! ## A save that is refused -/

/-- A text of `n` letters. -/
def letters (n : Nat) : String := String.ofList (List.replicate n 'a')

/-- The text of so many letters has so many bytes. -/
theorem length_utf8_letters (n : Nat) : (utf8 (letters n)).length = n := by
  have hsize : (List.replicate n 'a').utf8Encode.size = n := by
    induction n with
    | zero => rfl
    | succ n ih =>
      rw [List.replicate_succ, List.utf8Encode_cons, ByteArray.size_append, ih]
      exact Nat.add_comm 1 n
  simpa [letters, utf8] using hsize

theorem Reachable.setGlobal (h : Reachable m) (name value : String) :
    Reachable (m.setGlobal name value) := by
  obtain ⟨-, htargets, hthreads, hframes, hcommands⟩ := h.sound_and_roomy
  have hperform :
      Reachable (((asking {}).perform (.setGlobal name value)).run ⟨m, []⟩).state.machine :=
    .perform (quiet_asking {}) h ⟨htargets, hthreads, hframes, hcommands⟩
  exact hperform

/-- The machine with one global variable. -/
def noting (value : String) : Machine := (∅ : Machine).setGlobal "x" value

theorem globals_noting (value : String) : (noting value).globals = (∅ : Vars).insert "x" value := by
  have hname : Text.lower "x" = "x" := by decide +kernel
  rw [noting, Machine.setGlobal, hname]
  rfl

/-- One global variable can be saved if its value can be counted. -/
theorem exists_save_noting (value : String) (hlt : (encode value).length < UInt32.size) :
    ∃ bs, (noting value).save = .ok bs := by
  obtain ⟨front, hfront⟩ := exists_writeFrame (a := "x") (by decide)
  have hback : writeFrame value =
      .ok (encode (UInt32.ofNat (encode value).length) ++ encode value) := by
    simp only [writeFrame, writeCount, if_pos hlt]
    rfl
  have hrecords : Vars.writeRecords ((∅ : Vars).insert "x" value).entries =
      .ok (front ++ (encode (UInt32.ofNat (encode value).length) ++ encode value) ++ []) := by
    change Vars.writeRecords [("x", value)] = _
    rw [Vars.writeRecords, hfront, hback]
    rfl
  exact ⟨_, by rw [Machine.save, globals_noting, Vars.save, hrecords]; rfl⟩

/-- The value has as many letters as a frame may have bytes; the frame also holds their number. -/
theorem noting_refused :
    (noting (letters maxFrame)).Reachable ∧ ∃ bs, (noting (letters maxFrame)).save = .ok bs ∧
      ∀ s m₀, ∃ failure, ((load s bs).run m₀).value = .error failure ∧
      failure.kind = .corruptSave := by
  have hlength : (encode (letters maxFrame)).length = 8 + maxFrame := by
    rw [length_encode_string, length_utf8_letters]
  obtain ⟨bs, hsave⟩ := exists_save_noting (letters maxFrame) (by rw [hlength]; decide)
  have hfits : ¬ (noting (letters maxFrame)).Fits := by
    intro hfits
    have hle :=
      (hfits.globals "x" (letters maxFrame)
        (by rw [globals_noting, Assoc.find?_insert, if_pos rfl])).2
    rw [hlength] at hle
    omega
  refine ⟨Reachable.new.setGlobal _ _, bs, hsave, fun s m₀ => ?_⟩
  obtain ⟨failure, hvalue, hkind, -⟩ := refused_of_not_fits hsave hfits s m₀
  exact ⟨failure, hvalue, hkind⟩

end Machine

end StepScript
