import StepScript.Proofs.Machine.Commands

/-!
# Proofs/Machine/Moves — what the operations do to a machine

The host's answer and the completion of a call change contents. Readying a frame moves its cursor to
the next command to run; an exhausted frame leaves its stack, with all exhausted frames below it,
and with the last of them goes the invocation. All of it comes to changes of `Machine.Move`.

* `Machine.edits_takeAnswer`, `Machine.edits_completeCall` — what the host hands in.
* `Machine.InOrder` — what readying needs of a stack; a sound machine has it for every invocation.
* `Line.RunsNext`, `Machine.Unwinds` — the two things that readying can find.
* `Machine.InOrder.run_prepare` — it finds one of them, and reports nothing.
-/

namespace StepScript

namespace Machine

variable {m m' : Machine}

/-! ## After a command -/

/-- A change of a frame is none if the frame is gone. -/
theorem edits_modifyFrame {f : FrameHandle} {u : Frame → Frame}
    (hu : ∀ frame, m.frames.get? f = some frame → m.FrameEdit frame (u frame)) :
    Edits m (m.modifyFrame f u) := by
  cases hf : m.frames.get? f with
  | none =>
    have hsame : m.modifyFrame f u = m := by
      refine ext_tables rfl rfl (Table.modify_eq_self fun frame hframe => ?_) rfl rfl
      rw [hf] at hframe
      cases hframe
    rw [hsame]
  | some frame => exact .single (.frame hf (hu frame hf))

/-- Following a flow is an edit: it moves the cursor. -/
theorem edits_follow (l : Line) (flow : Flow) (m : Machine) :
    Edits m ((follow l flow).run m).state :=
  edits_modifyFrame fun _ _ => .move _

/-- The machine with a value kept in a frame as the last result. -/
def resulted (m : Machine) (f : FrameHandle) (value : String) : Machine :=
  m.modifyFrame f fun frame => { frame with result := value }

/-- The machine with the frame of a line waiting past the line. -/
def parked (m : Machine) (l : Line) (call : PendingCall) : Machine :=
  m.modifyFrame l.frame fun frame =>
    { frame with cursor := l.index + 1, readiness := .unknown, pending := some call }

/-- A result is kept and assigned, and the frame goes on. -/
theorem run_takeAnswer_ready (l : Line) (call : Call) (assignTo : Option String) (value : String)
    (m : Machine) :
    ((takeAnswer l call assignTo (.ok (.ready value))).run m).value = .pending ∧
      ((takeAnswer l call assignTo (.ok (.ready value))).run m).state =
        ((m.resulted l.frame value).delivered l.vantage assignTo value).moveCursor l.frame
          (l.index + 1) := by
  cases assignTo with
  | none => exact ⟨rfl, rfl⟩
  | some token =>
    rw [← state_assignToken]
    exact ⟨rfl, rfl⟩

/-- A promise parks the frame of the line, and nothing is reported. -/
theorem run_takeAnswer_pending (l : Line) (call : Call) (assignTo : Option String) (m : Machine) :
    (takeAnswer l call assignTo (.ok .pending)).run m =
      ⟨.idle, m.parked l ⟨call.name, l.source, assignTo⟩, []⟩ := rfl

/-- After a refusal the frame goes on behind the line. -/
theorem run_takeAnswer_error (l : Line) (call : Call) (assignTo : Option String) (failure : Failure)
    (m : Machine) :
    ((takeAnswer l call assignTo (.error failure)).run m).value = .pending ∧
      ((takeAnswer l call assignTo (.error failure)).run m).state =
        m.moveCursor l.frame (l.index + 1) := ⟨rfl, rfl⟩

/-- **The host's answer to a call** changes contents only. The frame that asked may be gone by
then. -/
theorem edits_takeAnswer {l : Line} (hl : m.frames.contains l.frame = true → l.In m) (call : Call)
    (assignTo : Option String) (answer : Except Failure Completion) :
    Edits m ((takeAnswer l call assignTo answer).run m).state := by
  rcases answer with failure | value | _
  · exact edits_modifyFrame fun _ _ => .move _
  · have hresult : Edits m (m.resulted l.frame value) := edits_modifyFrame fun _ _ => .result value
    rw [(run_takeAnswer_ready l call assignTo value m).2]
    exact hresult.trans ((edits_delivered _ _ _ _).trans (edits_modifyFrame fun _ _ => .move _))
  · refine edits_modifyFrame fun frame hf => ?_
    obtain ⟨own, c, command, hown, -, hc, hcommand, -, hsource, -⟩ :=
      hl (Table.contains_iff.2 ⟨frame, hf⟩)
    rw [hf] at hown
    cases hown
    exact .park hc hcommand hsource

/-- **The host's answer** reaches no further than the line. -/
theorem within_takeAnswer (l : Line) (call : Call) (assignTo : Option String)
    (answer : Except Failure Completion) (m : Machine) :
    Within l.thread l.frame m ((takeAnswer l call assignTo answer).run m).state := by
  rcases answer with failure | value | _
  · exact Within.modifyFrame m _
  · have hresult : Within l.thread l.frame m (m.resulted l.frame value) := Within.modifyFrame m _
    rw [(run_takeAnswer_ready l call assignTo value m).2]
    exact hresult.trans ((Changes.delivered _ assignTo value).within.trans (Within.modifyFrame _ _))
  · exact Within.modifyFrame m _

/-- Taking an answer meets no broken link. -/
theorem intact_takeAnswer {l : Line} (hv : l.vantage.Backed m) (call : Call)
    (assignTo : Option String) (answer : Except Failure Completion) :
    ∀ d ∈ ((takeAnswer l call assignTo answer).run m).log, d.isIntegrity = false := by
  rcases answer with failure | value | _
  · exact List.forall_mem_singleton.2 rfl
  · have hlater : l.vantage.Backed (m.resulted l.frame value) :=
      hv.congr (SameLinks.modifyFrame fun _ _ => ⟨rfl, rfl⟩)
    cases assignTo with
    | some token =>
      change ∀ d ∈ ((assignToken l.vantage token value).run (m.resulted l.frame value)).log ++ [], _
      exact List.forall_mem_append.2 ⟨hlater.intact_assignToken token value, List.forall_mem_nil _⟩
    | none => exact List.forall_mem_nil _
  · exact List.forall_mem_nil _

/-! ## Completing a call -/

theorem edits_completeCall (f : FrameHandle) (result : String) (m : Machine) :
    Edits m ((completeCall f result).run m).state := by
  rcases completeCall_cases f result m with hsame | ⟨v, assignTo, hstate⟩
  · rw [hsame]
  · have hanswered : Edits m (m.answered f result) := edits_modifyFrame fun _ _ => .complete result
    rw [hstate]
    exact hanswered.trans (edits_delivered ..)

/-! ## Scanning -/

/-- What a frame has to run from its cursor on. -/
def scanOf (m : Machine) (frame : Frame) : Scan :=
  m.scanFrom frame.cursor (frame.commands.drop frame.cursor)

/-- The machine with the cursor of a frame at its next command to run. -/
def readied (m : Machine) (f : FrameHandle) : Machine :=
  m.modifyFrame f fun frame =>
    { frame with
      cursor := min (m.scanOf frame).index frame.commands.length
      readiness := (m.scanOf frame).readiness }

/-- The command of a frame at an index. -/
def commandAt (m : Machine) (frame : Frame) (index : Nat) : Option Command :=
  frame.commands[index]?.bind m.commands.get?

/-- **What a scan passes over** cannot run; where it stops it can, unless it came to the end. -/
theorem scanFrom_spec (m : Machine) (index : Nat) (hs : List CommandHandle) :
    (∀ i c command, i < (m.scanFrom index hs).index - index → hs[i]? = some c →
        m.commands.get? c = some command → command.isRunnable = false) ∧
      ((m.scanFrom index hs).readiness = .ready ∧
          (∃ c command, hs[(m.scanFrom index hs).index - index]? = some c ∧
            m.commands.get? c = some command ∧ command.isRunnable = true) ∨
        (m.scanFrom index hs).readiness = .exhausted ∧
          (m.scanFrom index hs).index = index + hs.length) := by
  induction hs generalizing index with
  | nil => exact ⟨fun i c command _ hc => (by cases hc), .inr ⟨rfl, rfl⟩⟩
  | cons h hs ih =>
    have hle := (index_scanFrom m (index + 1) hs).1
    have hstep : (m.scanFrom (index + 1) hs).index - index
        = (m.scanFrom (index + 1) hs).index - (index + 1) + 1 := by omega
    obtain ⟨hskip, hstop⟩ := ih (index + 1)
    -- the first command is passed over, and the rest is scanned
    have hpass : (∀ command, m.commands.get? h = some command → command.isRunnable = false) →
        (∀ i c command, i < (m.scanFrom (index + 1) hs).index - index → (h :: hs)[i]? = some c →
          m.commands.get? c = some command → command.isRunnable = false) ∧
        ((m.scanFrom (index + 1) hs).readiness = .ready ∧
            (∃ c command, (h :: hs)[(m.scanFrom (index + 1) hs).index - index]? = some c ∧
              m.commands.get? c = some command ∧ command.isRunnable = true) ∨
          (m.scanFrom (index + 1) hs).readiness = .exhausted ∧
            (m.scanFrom (index + 1) hs).index = index + (h :: hs).length) := by
      intro hfirst
      refine ⟨fun i c command hi hc hcommand => ?_, ?_⟩
      · cases i with
        | zero =>
          cases hc
          exact hfirst command hcommand
        | succ i => exact hskip i c command (by omega) hc hcommand
      · rw [hstep]
        rcases hstop with hready | ⟨hexhausted, hend⟩
        · exact .inl hready
        · exact .inr ⟨hexhausted, by rw [hend, List.length_cons]; omega⟩
    cases hget : m.commands.get? h with
    | none =>
      simp only [scanFrom, hget]
      exact hpass fun command hcommand => by rw [hget] at hcommand; cases hcommand
    | some command =>
      simp only [scanFrom, hget]
      split
      · next hrun =>
        simp only [Nat.sub_self]
        exact ⟨fun i _ _ hi => absurd hi (Nat.not_lt_zero i),
          .inl ⟨trivial, h, command, rfl, hget, hrun⟩⟩
      · next hrun =>
        refine hpass fun other hother => ?_
        rw [hget] at hother
        cases hother
        exact Bool.eq_false_iff.2 hrun

/-- A scan of commands that are there misses none. -/
theorem missing_scanFrom {hs : List CommandHandle}
    (h : ∀ c ∈ hs, ∃ command, m.commands.get? c = some command) (index : Nat) :
    (m.scanFrom index hs).missing = [] := by
  induction hs generalizing index with
  | nil => rfl
  | cons c hs ih =>
    obtain ⟨⟨command, hc⟩, hrest⟩ := List.forall_mem_cons.1 h
    simp only [scanFrom, hc]
    split
    · rfl
    · exact ih hrest (index + 1)

namespace FrameSound

variable {frame : Frame}

/-- Every command of a sound frame is there. -/
theorem command_live (h : m.FrameSound frame) {c : CommandHandle} (hc : c ∈ frame.commands) :
    ∃ command, m.commands.get? c = some command := by
  obtain ⟨commands, hcommands, -⟩ := h.declared
  have hmem : m.commands.get? c ∈ commands.map some := hcommands ▸ List.mem_map_of_mem hc
  obtain ⟨command, -, hget⟩ := List.mem_map.1 hmem
  exact ⟨command, hget.symm⟩

/-- The scan stops within the commands. -/
theorem index_scanOf (h : m.FrameSound frame) :
    frame.cursor ≤ (m.scanOf frame).index ∧ (m.scanOf frame).index ≤ frame.commands.length := by
  have hindex := index_scanFrom m frame.cursor (frame.commands.drop frame.cursor)
  rw [List.length_drop] at hindex
  have hcursor := h.cursor
  exact ⟨hindex.1, by rw [scanOf]; omega⟩

/-- **What a scan passes over** cannot run; where it stops it can, unless it came to the end. -/
theorem scanOf_spec (h : m.FrameSound frame) :
    (∀ i command, frame.cursor ≤ i → i < (m.scanOf frame).index →
      m.commandAt frame i = some command →
        command.isRunnable = false) ∧
      ((m.scanOf frame).readiness = .ready ∧ (∃ command,
          m.commandAt frame (m.scanOf frame).index = some command ∧ command.isRunnable = true) ∨
        (m.scanOf frame).readiness = .exhausted ∧
          (m.scanOf frame).index = frame.commands.length) := by
  have hindex := h.index_scanOf
  have hcursor := h.cursor
  obtain ⟨hskip, hstop⟩ := m.scanFrom_spec frame.cursor (frame.commands.drop frame.cursor)
  rw [← scanOf] at hskip hstop
  refine ⟨fun i command hi hlt hcommand => ?_, ?_⟩
  · obtain ⟨c, hc, hget⟩ := Option.bind_eq_some_iff.1 hcommand
    refine hskip (i - frame.cursor) c command (by omega) ?_ hget
    rw [List.getElem?_drop, Nat.add_sub_cancel' hi, hc]
  · rcases hstop with ⟨hready, c, command, hc, hget, hrun⟩ | ⟨hexhausted, hend⟩
    · rw [List.getElem?_drop, Nat.add_sub_cancel' hindex.1] at hc
      exact .inl ⟨hready, command, by rw [commandAt, hc]; exact hget, hrun⟩
    · exact .inr ⟨hexhausted, by rw [hend, List.length_drop]; omega⟩

/-- **Readying a frame is scanning it**, whether or not it was scanned before. -/
theorem run_ensureReady {f : FrameHandle} (h : m.FrameSound frame)
    (hf : m.frames.get? f = some frame) :
    (ensureReady f).run m = ⟨.ok (m.scanOf frame).readiness, m.readied f, []⟩ := by
  have hmissing : (m.scanOf frame).missing = [] :=
    missing_scanFrom (fun c hc => h.command_live (List.mem_of_mem_drop hc)) _
  simp only [ensureReady, Act.run_get_bind, hf]
  have hscan : m.modifyFrame f (fun old =>
      { old with
        cursor := min (m.scanOf frame).index old.commands.length
        readiness := (m.scanOf frame).readiness }) = m.readied f := by
    refine ext_tables rfl rfl (Table.ext_get? rfl fun k => ?_) rfl rfl
    rw [frames_modifyFrame, readied, frames_modifyFrame, Table.get?_modify, Table.get?_modify]
    split
    · next hk => rw [hk, hf]; rfl
    · rfl
  split
  · rw [← scanOf, Act.run_bind, Act.run_reportAll, hmissing]
    change Outcome.mk _ (m.modifyFrame f _) _ = _
    rw [hscan]
    rfl
  · next hknown =>
    have hmemo : m.scanOf frame = { readiness := frame.readiness, index := frame.cursor } :=
      h.memo hknown
    have hsame : m.readied f = m := by
      refine ext_tables rfl rfl (Table.modify_eq_self fun old hold => ?_) rfl rfl
      rw [hf] at hold
      cases hold
      rw [hmemo, Nat.min_eq_left h.cursor]
    rw [hsame, hmemo]
    rfl

end FrameSound

theorem edits_readied (m : Machine) (f : FrameHandle) : Edits m (m.readied f) :=
  edits_modifyFrame fun _ _ => .scan

/-- A frame that is readied stands where a scan from its cursor ends, and remembers what the scan
found. -/
theorem get?_frames_readied {f : FrameHandle} {frame : Frame} (h : m.FrameSound frame)
    (hf : m.frames.get? f = some frame) :
    (m.readied f).frames.get? f =
      some { frame with
        cursor := (m.scanOf frame).index, readiness := (m.scanOf frame).readiness } := by
  rw [readied, frames_modifyFrame, Table.get?_modify, if_pos rfl, hf, Option.map_some,
    Nat.min_eq_left h.index_scanOf.2]

theorem get?_frames_readied_of_ne {f k : FrameHandle} (m : Machine) (hk : k ≠ f) :
    (m.readied f).frames.get? k = m.frames.get? k := by
  rw [readied, frames_modifyFrame, Table.get?_modify, if_neg hk]

theorem edits_ensureReady (f : FrameHandle) (m : Machine) :
    Edits m ((ensureReady f).run m).state := by
  simp only [ensureReady, Act.run_get_bind]
  split
  · exact .refl
  · next frame hf =>
    split
    · exact .single (.frame hf .scan)
    · exact .refl

/-- The cursor is moved from wherever it is. -/
theorem moveCursor_readied (m : Machine) (f : FrameHandle) (index : Nat) :
    (m.readied f).moveCursor f index = m.moveCursor f index := by
  refine ext_tables rfl rfl (Table.ext_get? rfl fun k => ?_) rfl rfl
  simp only [moveCursor, readied, frames_modifyFrame, Table.get?_modify]
  split
  · rw [Option.map_map]
    rfl
  · rfl

theorem varsAt_readied (m : Machine) (f : FrameHandle) (cell : Cell) :
    (m.readied f).varsAt cell = m.varsAt cell := by
  cases cell with
  | frame k => exact Table.map_get?_modify m.frames k fun _ _ => rfl
  | _ => rfl

theorem resultAt_readied (m : Machine) (f : FrameHandle) (v : Vantage) :
    (m.readied f).resultAt v = m.resultAt v := by
  unfold resultAt
  cases v.frame with
  | none => rfl
  | some k =>
    simp only [Option.bind_some, readied, frames_modifyFrame, Table.get?_modify]
    by_cases hk : k = f
    · simp only [hk, if_true]
      cases m.frames.get? f <;> rfl
    · simp only [hk, if_false]

end Machine

/-! ## Reading a line before its frame is readied -/

namespace Line

variable {l : Line} {s : Setting} {m : Machine} {f : FrameHandle}

/-- Readying a frame changes nothing that a line reads. -/
theorem nameOf_readied (token : String) : l.nameOf s (m.readied f) token = l.nameOf s m token :=
  Machine.value_readName_congr
    (Machine.cellOf_congr (Machine.edits_readied m f).sameLinks l.vantage)
    (Machine.varsAt_readied m f) (Machine.resultAt_readied m f l.vantage) s token

theorem callOf_readied (name : String) (args : List String) :
    l.callOf s (m.readied f) name args = l.callOf s m name args := by
  have hargs := Machine.value_readTokens_congr
    (Machine.cellOf_congr (Machine.edits_readied m f).sameLinks l.vantage)
    (Machine.varsAt_readied m f)
    (Machine.resultAt_readied m f l.vantage) s args
  rw [callOf, callOf, hargs, Machine.value_entityOf, Machine.value_entityOf, Machine.value_targetOf,
    Machine.value_targetOf]
  rfl

/-- So a line asks for the same before and after. -/
theorem asks_readied {name : String} {args : List String} {assignTo : Option String} :
    l.Asks s (m.readied f) name args assignTo ↔ l.Asks s m name args assignTo := by
  constructor
  · rintro (⟨htokens, hname⟩ | ⟨htokens, hname, hmark⟩)
    · rw [nameOf_readied] at hname ⊢
      exact .function htokens hname
    · rw [nameOf_readied] at hname ⊢
      exact .result htokens hname hmark
  · rintro (⟨htokens, hname⟩ | ⟨htokens, hname, hmark⟩)
    · rw [← nameOf_readied (f := f)] at hname ⊢
      exact .function htokens hname
    · rw [← nameOf_readied (f := f)] at hname ⊢
      exact .result htokens hname hmark

theorem enters_readied {name : String} {args : List String} :
    l.Enters s (m.readied f) name args ↔ l.Enters s m name args := by
  constructor
  · rintro ⟨htokens, hname⟩
    rw [nameOf_readied] at hname ⊢
    exact .call htokens hname
  · rintro ⟨htokens, hname⟩
    rw [← nameOf_readied (f := f)] at hname ⊢
    exact .call htokens hname

end Line

namespace Machine

variable {m m' : Machine}

/-! ## Stacks in order -/

/-- **The stack of an invocation is in order**: its frames are there, know the invocation, and share
no command. -/
structure InOrder (m : Machine) (t : ThreadHandle) (fs : List FrameHandle) : Prop where
  stack : m.stackAt t = some fs
  nodup : fs.Nodup
  frame : ∀ f ∈ fs, ∃ frame, m.frames.get? f = some frame ∧ frame.thread = t ∧ m.FrameSound frame
  apart : ∀ f ∈ fs, ∀ k ∈ fs, ∀ c, m.Lists f c → m.Lists k c → f = k

/-- **In a sound machine every stack is in order.** -/
theorem Sound.inOrder {t : ThreadHandle} {thread : Thread} (h : m.Sound)
    (ht : m.threads.get? t = some thread) : m.InOrder t thread.stack where
  stack := by rw [stackAt, ht]; rfl
  nodup := h.owned.nodup_stack ht
  frame f hf := by
    obtain ⟨frame, hframe, hthread⟩ := h.owned.frame_of_stacked ht hf
    exact ⟨frame, hframe, hthread, h.frame f frame hframe⟩
  apart := by
    rintro f - k - c ⟨frame, hf, hc⟩ ⟨frame', hk, hc'⟩
    exact h.owned.frame_unique hf hk hc hc'

/-- Every invocation of a sound machine has an innermost frame. -/
theorem Sound.exists_stack {t : ThreadHandle} {thread : Thread} (h : m.Sound)
    (ht : m.threads.get? t = some thread) : ∃ f below, m.stackAt t = some (f :: below) := by
  obtain ⟨f, below, hstack⟩ := List.exists_cons_of_ne_nil (h.owned.stack_ne_nil ht)
  exact ⟨f, below, by rw [stackAt, ht, Option.map_some, hstack]⟩

theorem frameOf_eq_head? (m : Machine) (t : ThreadHandle) :
    m.frameOf t = (m.stackAt t).bind List.head? := by
  rw [frameOf, stackAt]
  cases m.threads.get? t <;> rfl

theorem stackAt_of_frameOf {t : ThreadHandle} {f : FrameHandle} (h : m.frameOf t = some f) :
    ∃ below, m.stackAt t = some (f :: below) := by
  rw [frameOf_eq_head?, Option.bind_eq_some_iff] at h
  obtain ⟨stack, hstack, hhead⟩ := h
  obtain ⟨below, rfl⟩ := List.head?_eq_some_iff.1 hhead
  exact ⟨below, hstack⟩

theorem frameOf_of_stackAt {t : ThreadHandle} {f : FrameHandle} {below : List FrameHandle}
    (h : m.stackAt t = some (f :: below)) : m.frameOf t = some f := by
  rw [frameOf_eq_head?, h]
  rfl

namespace InOrder

variable {t : ThreadHandle} {f : FrameHandle} {below : List FrameHandle}

theorem frameOf (h : m.InOrder t (f :: below)) : m.frameOf t = some f := frameOf_of_stackAt h.stack

/-- Moving the cursor of the innermost frame to its next command keeps the stack in order. -/
theorem readied (h : m.InOrder t (f :: below)) : (m.readied f).InOrder t (f :: below) where
  stack := by
    rw [(edits_readied m f).sameLinks.stackAt]
    exact h.stack
  nodup := h.nodup
  frame k hk := by
    obtain ⟨frame, hframe, hthread, hsound⟩ := h.frame k hk
    by_cases heq : k = f
    · subst heq
      refine ⟨_, get?_frames_readied hsound hframe, hthread,
        FrameSound.congr (m := m) ?_ fun _ _ => rfl⟩
      have hscan := hsound.scan
      rw [← scanOf, Nat.min_eq_left hsound.index_scanOf.2] at hscan
      exact hscan
    · exact ⟨frame, (get?_frames_readied_of_ne m heq).trans hframe, hthread,
        hsound.congr fun _ _ => rfl⟩
  apart e he k hk c hec hkc := by
    have hlists : ∀ e, (m.readied f).Lists e c → m.Lists e c := by
      rintro e ⟨frame, hframe, hc⟩
      have hcommands := (edits_readied m f).sameLinks.commandsAt e
      rw [commandsAt, hframe] at hcommands
      obtain ⟨old, hold, heq⟩ := Option.map_eq_some_iff.1 hcommands.symm
      exact ⟨old, hold, heq ▸ hc⟩
    exact h.apart e he k hk c (hlists e hec) (hlists k hkc)

/-- **Taking the innermost frame away** keeps the stack in order. -/
theorem leave (h : m.InOrder t (f :: below)) : ((m.unstack t f).removeFrame f).InOrder t below := by
  obtain ⟨hnotMem, hnodup⟩ := List.nodup_cons.1 h.nodup
  have hframe : ∀ k ∈ below, ((m.unstack t f).removeFrame f).frames.get? k = m.frames.get? k := by
    intro k hk
    have hne : k ≠ f := fun heq => hnotMem (heq ▸ hk)
    rw [frames_removeFrame, frames_unstack, Table.get?_erase, if_neg hne]
  refine ⟨?_, hnodup, fun k hk => ?_, fun e he k hk c hec hkc => ?_⟩
  · rw [stackAt_of_leave hnotMem h.stack, if_pos rfl]
  · obtain ⟨frame, hget, hthread, hsound⟩ := h.frame k (List.mem_cons_of_mem f hk)
    refine ⟨frame, (hframe k hk).trans hget, hthread,
      hsound.congr fun c hc => get?_commands_leave ?_⟩
    rintro ⟨other, hother, hmem⟩
    have heq := h.apart f List.mem_cons_self k (List.mem_cons_of_mem f hk) c ⟨other, hother, hmem⟩
      ⟨frame, hget, hc⟩
    exact hnotMem (heq ▸ hk)
  · obtain ⟨frame, hget, hc⟩ := hec
    obtain ⟨frame', hget', hc'⟩ := hkc
    rw [hframe e he] at hget
    rw [hframe k hk] at hget'
    exact h.apart e (List.mem_cons_of_mem f he) k (List.mem_cons_of_mem f hk) c ⟨frame, hget, hc⟩
      ⟨frame', hget', hc'⟩

end InOrder

/-! ## Leaving a script -/

/-- An invocation without frames is finished at once. -/
theorem settle_of_frameOf_eq_none {t : ThreadHandle} (h : m.frameOf t = none) (fuel : Nat) :
    (settle fuel t).run m = ⟨.finished, m.cleanup t, []⟩ := by
  cases fuel with
  | zero => rfl
  | succ fuel =>
    rw [settle, Act.run_get_bind]
    simp only [h]
    rfl

/-- Taking the only frame away and then the invocation is taking the invocation away. -/
theorem cleanup_leave {t : ThreadHandle} {f : FrameHandle} (h : m.stackAt t = some [f]) :
    ((m.unstack t f).removeFrame f).cleanup t = m.cleanup t := by
  obtain ⟨thread, ht, hstack⟩ := Option.map_eq_some_iff.1 h
  have hleft : ((m.unstack t f).removeFrame f).threads.get? t =
      some { thread with stack := [] } := by
    rw [threads_removeFrame, get?_threads_unstack, if_pos rfl, ht, Option.map_some, hstack]
    simp
  rw [cleanup_of_get?_eq_some hleft, cleanup_of_get?_eq_some ht, hstack]
  simp only [List.foldl_nil, List.foldl_cons]
  cases hf : m.frames.get? f <;>
    simp [removeFrame, unstack, modifyTarget, modifyThread, hf, Table.erase_modify]

/-- **How exhausted frames leave**: the innermost one goes, and the frame below is readied; if that
has nothing to run either it goes too. With the last frame goes the invocation. -/
inductive Unwinds (t : ThreadHandle) : Machine → Signal → Machine → Prop where
  | finish {m : Machine} {f : FrameHandle} (hstack : m.stackAt t = some [f]) :
    Unwinds t m .finished (m.cleanup t)
  | stop {m : Machine} {f k : FrameHandle} {frame : Frame} {below : List FrameHandle}
    (hstack : m.stackAt t = some (f :: k :: below))
    (hk : ((m.unstack t f).removeFrame f).frames.get? k = some frame)
    (hready : (((m.unstack t f).removeFrame f).scanOf frame).readiness = .ready) :
    Unwinds t m .pending (((m.unstack t f).removeFrame f).readied k)
  | next {m m' : Machine} {f k : FrameHandle} {below : List FrameHandle} {signal : Signal}
    (hstack : m.stackAt t = some (f :: k :: below))
    (hrest : Unwinds t (((m.unstack t f).removeFrame f).readied k) signal m') :
    Unwinds t m signal m'

/-- The frame on top leaves if it is exhausted, and stays else. -/
theorem FrameSound.run_settle {t : ThreadHandle} {f : FrameHandle} {frame : Frame}
    (h : m.FrameSound frame) (htop : m.frameOf t = some f) (hf : m.frames.get? f = some frame)
    (fuel : Nat) :
    (settle (fuel + 1) t).run m =
      if (m.scanOf frame).readiness = .exhausted then
        (settle fuel t).run (((m.readied f).unstack t f).removeFrame f)
      else ⟨.pending, m.readied f, []⟩ := by
  simp only [settle, Act.run_get_bind, htop]
  rw [Act.run_bind, h.run_ensureReady hf]
  cases (m.scanOf frame).readiness <;> rfl

/-- **Exhausted frames leave** without a report. The frame on top has been found exhausted. -/
theorem InOrder.run_settle {t : ThreadHandle} {f : FrameHandle} {below : List FrameHandle}
    {fuel : Nat} (h : m.InOrder t (f :: below)) (hfuel : below.length ≤ fuel) :
    ∃ signal m', (settle fuel t).run ((m.unstack t f).removeFrame f) = ⟨signal, m', []⟩ ∧
      Unwinds t m signal m' := by
  induction below generalizing m f fuel with
  | nil =>
    have hempty : ((m.unstack t f).removeFrame f).frameOf t = none := by
      rw [frameOf_eq_head?, h.leave.stack]
      rfl
    refine ⟨.finished, m.cleanup t, ?_, .finish h.stack⟩
    rw [settle_of_frameOf_eq_none hempty, cleanup_leave h.stack]
  | cons k below ih =>
    obtain ⟨fuel, rfl⟩ : ∃ n, fuel = n + 1 := ⟨fuel - 1, by rw [List.length_cons] at hfuel; omega⟩
    have hleave := h.leave
    obtain ⟨frame, hframe, -, hsound⟩ := hleave.frame k List.mem_cons_self
    rw [hsound.run_settle hleave.frameOf hframe]
    rcases hsound.scanOf_spec.2 with ⟨hready, -⟩ | ⟨hexhausted, -⟩
    · rw [if_neg (by rw [hready]; decide)]
      exact ⟨.pending, _, rfl, .stop h.stack hframe hready⟩
    · rw [if_pos hexhausted]
      obtain ⟨signal, m', hrun, hunwinds⟩ := ih hleave.readied (Nat.le_of_succ_le_succ hfuel)
      exact ⟨signal, m', hrun, .next h.stack hunwinds⟩

/-- Taking the frame on top away is settling what is left. -/
theorem run_popFrame_of_stack {t : ThreadHandle} {f : FrameHandle} {below : List FrameHandle}
    (h : m.stackAt t = some (f :: below)) :
    (popFrame t f).run m = (settle (below.length + 1) t).run ((m.unstack t f).removeFrame f) := by
  obtain ⟨thread, hthread, hstack⟩ := Option.map_eq_some_iff.1 h
  have hhead : thread.top? = some f := by rw [Thread.top?, hstack]; rfl
  simp only [popFrame, Act.run_get_bind, hthread, hhead, ne_eq, not_true_eq_false, if_false]
  rw [hstack]
  rfl

/-- **What comes of leaving a frame**: the stack unwinds, and no broken link is met. -/
theorem InOrder.run_popFrame {t : ThreadHandle} {f : FrameHandle} {below : List FrameHandle}
    (h : m.InOrder t (f :: below)) :
    ∃ signal m', (popFrame t f).run m = ⟨signal, m', []⟩ ∧ Unwinds t m signal m' := by
  rw [run_popFrame_of_stack h.stack]
  exact h.run_settle (Nat.le_succ below.length)

/-- The machine `m'` comes from `m` by a sequence of changes. -/
abbrev Moves (m m' : Machine) : Prop := Relation.ReflTransGen Move m m'

/-- Unwinding makes no object. -/
theorem Unwinds.shrinks {t : ThreadHandle} {signal : Signal} (h : Unwinds t m signal m') :
    Shrinks m m' := by
  induction h with
  | finish => exact .cleanup _ t
  | stop => exact (Shrinks.leave _ t _).trans (edits_readied _ _).shrinks
  | next _ _ ih => exact (Shrinks.leave _ t _).trans ((edits_readied _ _).shrinks.trans ih)

/-- Unwinding is made of moves. -/
theorem Unwinds.moves {t : ThreadHandle} {signal : Signal} (h : Unwinds t m signal m') :
    Moves m m' := by
  induction h with
  | finish => exact .single (.cleanup t)
  | stop hstack => exact .head (.leave hstack (List.cons_ne_nil _ _)) (edits_readied _ _).moves
  | next hstack _ ih =>
    exact .head (.leave hstack (List.cons_ne_nil _ _)) ((edits_readied _ _).moves.trans ih)

end Machine

/-! ## Before a command -/

/-- **The line runs next** in its frame: it is the first command to run from the cursor on. -/
structure Line.RunsNext (l : Line) (m : Machine) : Prop where
  stands : l.In m
  cursor : ∀ frame, m.frames.get? l.frame = some frame → frame.cursor ≤ l.index
  runnable : ∀ frame command, m.frames.get? l.frame = some frame →
    m.commandAt frame l.index = some command → command.isRunnable = true
  skipped : ∀ frame i command, m.frames.get? l.frame = some frame → frame.cursor ≤ i → i < l.index →
    m.commandAt frame i = some command → command.isRunnable = false

namespace Machine

variable {m m' : Machine}

/-- **A scan finds the line that runs next.** -/
theorem FrameSound.scanOf_of_runsNext {frame : Frame} {l : Line} (h : m.FrameSound frame)
    (hf : m.frames.get? l.frame = some frame) (hl : l.RunsNext m) :
    (m.scanOf frame).readiness = .ready ∧ (m.scanOf frame).index = l.index := by
  obtain ⟨own, c, command, hown, -, hc, hget, -⟩ := hl.stands
  rw [hf] at hown
  cases hown
  have hcommand : m.commandAt frame l.index = some command := by rw [commandAt, hc]; exact hget
  have hrunnable := hl.runnable frame command hf hcommand
  have hlength : l.index < frame.commands.length := (List.getElem?_eq_some_iff.1 hc).1
  obtain ⟨hskip, hstop⟩ := h.scanOf_spec
  have hle : (m.scanOf frame).index ≤ l.index := by
    refine Nat.le_of_not_lt fun hlt => ?_
    rw [hskip l.index command (hl.cursor frame hf) hlt hcommand] at hrunnable
    cases hrunnable
  rcases hstop with ⟨hready, found, hfound, hrun⟩ | ⟨-, hend⟩
  · refine ⟨hready, Nat.le_antisymm hle (Nat.le_of_not_lt fun hlt => ?_)⟩
    rw [hl.skipped frame _ found hf h.index_scanOf.1 hlt hfound] at hrun
    cases hrun
  · omega

/-- A frame that is gone, not innermost or waiting for the host does nothing. -/
theorem run_prepare_of_idle {f : FrameHandle}
    (h : ∀ frame, m.frames.get? f = some frame → m.threads.contains frame.thread = true ∧
      (m.frameOf frame.thread ≠ some f ∨ frame.pending.isSome = true)) :
    (prepare f).run m = ⟨.ok (.settled .idle), m, []⟩ := by
  simp only [prepare, Act.run_get_bind]
  cases hf : m.frames.get? f with
  | none => rfl
  | some frame =>
    obtain ⟨hlive, hidle⟩ := h frame hf
    have howner : (threadOf f).run m = ⟨.ok frame.thread, m, []⟩ := by
      simp only [threadOf, Act.run_get_bind, hf, hlive, if_true]
      rfl
    simp only [Act.run_bind, howner]
    by_cases htop : m.frameOf frame.thread = some f
    · rw [if_neg (not_not_intro htop), if_pos (hidle.resolve_left (not_not_intro htop))]
      rfl
    · rw [if_pos htop]
      rfl

/-- An innermost frame that waits for the host does nothing. -/
theorem InOrder.run_prepare_of_waiting {t : ThreadHandle} {f : FrameHandle}
    {below : List FrameHandle} {frame : Frame} (h : m.InOrder t (f :: below))
    (hf : m.frames.get? f = some frame) (hwaits : frame.pending.isSome = true) :
    (prepare f).run m = ⟨.ok (.settled .idle), m, []⟩ := by
  obtain ⟨own, hown, rfl, -⟩ := h.frame f List.mem_cons_self
  obtain ⟨thread, hthread, -⟩ := Option.map_eq_some_iff.1 h.stack
  refine run_prepare_of_idle fun other hother => ?_
  rw [hf] at hother hown
  cases hother
  cases hown
  exact ⟨Table.contains_iff.2 ⟨thread, hthread⟩, .inr hwaits⟩

/-- Readying the innermost frame: it leaves its stack if it is exhausted, and else its line is
loaded. -/
theorem InOrder.run_prepare_eq {t : ThreadHandle} {f : FrameHandle} {below : List FrameHandle}
    {frame : Frame} (h : m.InOrder t (f :: below)) (hf : m.frames.get? f = some frame)
    (hpending : frame.pending = none) :
    (prepare f).run m =
      (if (m.scanOf frame).readiness = .exhausted then
        popFrame t f >>= fun signal => pure (.ok (.settled signal))
      else loadLine t f).run (m.readied f) := by
  obtain ⟨own, hown, rfl, hsound⟩ := h.frame f List.mem_cons_self
  rw [hf] at hown
  cases hown
  obtain ⟨thread, hthread, -⟩ := Option.map_eq_some_iff.1 h.stack
  have howner : (threadOf f).run m = ⟨.ok frame.thread, m, []⟩ := by
    simp only [threadOf, Act.run_get_bind, hf, Table.contains_iff.2 ⟨thread, hthread⟩, if_true]
    rfl
  simp only [prepare, Act.run_get_bind, hf]
  simp only [Act.run_bind, howner, h.frameOf, ne_eq, not_true_eq_false, if_false, hpending,
    Option.isSome_none, Bool.false_eq_true, hsound.run_ensureReady hf]
  cases (m.scanOf frame).readiness <;> rfl

/-- **Readying the innermost frame** finds the line that runs next, or that there is none and the
frame leaves its stack. Nothing is reported. -/
theorem InOrder.run_prepare {t : ThreadHandle} {f : FrameHandle} {below : List FrameHandle}
    {frame : Frame} (h : m.InOrder t (f :: below)) (hf : m.frames.get? f = some frame)
    (hpending : frame.pending = none) :
    (∃ l, l.frame = f ∧ l.thread = t ∧ l.RunsNext m ∧
        (prepare f).run m = ⟨.ok (.line l), m.readied f, []⟩) ∨
      (∀ l : Line, l.frame = f → ¬ l.RunsNext m) ∧ ∃ signal m', Unwinds t (m.readied f) signal m' ∧
        (prepare f).run m = ⟨.ok (.settled signal), m', []⟩ := by
  rw [h.run_prepare_eq hf hpending]
  obtain ⟨own, hown, rfl, hsound⟩ := h.frame f List.mem_cons_self
  rw [hf] at hown
  cases hown
  rcases hsound.scanOf_spec with ⟨hskip, ⟨hready, command, hcommand, hrun⟩ | ⟨hexhausted, -⟩⟩
  · left
    obtain ⟨c, hc, hget⟩ := Option.bind_eq_some_iff.1 hcommand
    refine ⟨{ thread := frame.thread, frame := f, index := (m.scanOf frame).index,
              count := frame.commands.length, source := ⟨frame.script, command.line⟩,
              tokens := command.tokens }, rfl, rfl,
              ⟨⟨frame, c, command, hf, rfl, hc, hget, rfl, rfl, rfl⟩,
      fun k hk => ?_, fun k found hk hfound => ?_, fun k i found hk hi hlt hfound => ?_⟩, ?_⟩
    · rw [hf] at hk
      cases hk
      exact hsound.index_scanOf.1
    · rw [hf] at hk
      cases hk
      rw [hcommand] at hfound
      cases hfound
      exact hrun
    · rw [hf] at hk
      cases hk
      exact hskip i found hi hlt hfound
    · have hline : frame.commands[(m.scanOf frame).index]?.bind (m.readied f).commands.get? =
          some command :=
        hcommand
      rw [if_neg (by rw [hready]; decide)]
      simp only [loadLine, Act.run_get_bind, get?_frames_readied hsound hf, hline]
      rfl
  · right
    refine ⟨fun l hl hnext => ?_, ?_⟩
    · subst hl
      rw [(hsound.scanOf_of_runsNext hf hnext).1] at hexhausted
      cases hexhausted
    · obtain ⟨signal, m', hpop, hunwinds⟩ := h.readied.run_popFrame
      refine ⟨signal, m', hunwinds, ?_⟩
      rw [if_pos hexhausted, Act.run_bind, hpop]
      rfl

/-- **A line that readying gives** is the line that runs next. -/
theorem InOrder.line_of_prepare {t : ThreadHandle} {f : FrameHandle} {below : List FrameHandle}
    {l : Line} (h : m.InOrder t (f :: below)) (hline : ((prepare f).run m).value = .ok (.line l)) :
    l.thread = t ∧ l.frame = f ∧ l.RunsNext m ∧ ((prepare f).run m).state = m.readied f := by
  obtain ⟨frame, hf, -⟩ := h.frame f List.mem_cons_self
  cases hpending : frame.pending with
  | none =>
    rcases h.run_prepare hf hpending with ⟨l', hframe, hown, hnext, hrun⟩ | ⟨-, signal, m', -, hrun⟩
    · rw [hrun] at hline ⊢
      cases hline
      exact ⟨hown, hframe, hnext, rfl⟩
    · rw [hrun] at hline
      cases hline
  | some call =>
    rw [h.run_prepare_of_waiting hf (by rw [hpending]; rfl)] at hline
    cases hline

/-- All that a line of a sound machine sees is there. -/
theorem Sound.backed {l : Line} (h : m.Sound) (hl : l.In m) : l.vantage.Backed m := by
  obtain ⟨frame, -, -, hf, hthread, -⟩ := hl
  obtain ⟨thread, ht, -⟩ := h.owned.thread_of_frame hf
  obtain ⟨target, htarget, -⟩ := h.owned.target_of_thread ht
  exact ⟨⟨l.frame, rfl, Table.contains_iff.2 ⟨frame, hf⟩⟩,
    ⟨thread, by rw [Line.vantage, hthread, ht], Table.contains_iff.2 ⟨target, htarget⟩⟩⟩

/-- A frame of a sound machine has an invocation. -/
theorem Sound.run_threadOf {f : FrameHandle} {frame : Frame} (h : m.Sound)
    (hf : m.frames.get? f = some frame) : (threadOf f).run m = ⟨.ok frame.thread, m, []⟩ := by
  obtain ⟨thread, hthread, -⟩ := h.owned.thread_of_frame hf
  simp only [threadOf, Act.run_get_bind, hf, Table.contains_iff.2 ⟨thread, hthread⟩, if_true]
  rfl

/-- **A frame whose stack is in order does nothing**, or it is innermost and does not wait. -/
theorem idle_or_innermost {f : FrameHandle}
    (h : ∀ frame, m.frames.get? f = some frame → ∃ fs, m.InOrder frame.thread fs) :
    (prepare f).run m = ⟨.ok (.settled .idle), m, []⟩ ∨
      ∃ below frame, m.InOrder frame.thread (f :: below) ∧ m.frames.get? f = some frame ∧
        frame.pending = none := by
  cases hf : m.frames.get? f with
  | none => exact .inl (run_prepare_of_idle fun frame hframe => by rw [hf] at hframe; cases hframe)
  | some frame =>
    obtain ⟨fs, horder⟩ := h frame hf
    obtain ⟨thread, hthread, -⟩ := Option.map_eq_some_iff.1 horder.stack
    by_cases hidle : m.frameOf frame.thread ≠ some f ∨ frame.pending.isSome = true
    · refine .inl (run_prepare_of_idle fun other hother => ?_)
      rw [hf] at hother
      cases hother
      exact ⟨Table.contains_iff.2 ⟨thread, hthread⟩, hidle⟩
    · obtain ⟨htop, hpending⟩ := not_or.1 hidle
      obtain ⟨below, hstack⟩ := stackAt_of_frameOf (Decidable.not_not.1 htop)
      rw [horder.stack, Option.some.injEq] at hstack
      rw [hstack] at horder
      exact .inr ⟨below, frame, horder, rfl, Option.not_isSome_iff_eq_none.1 hpending⟩

/-- A frame of a sound machine is innermost and does not wait, or there is nothing to do for it. -/
theorem Sound.idle_or_innermost (h : m.Sound) (f : FrameHandle) :
    (prepare f).run m = ⟨.ok (.settled .idle), m, []⟩ ∨
      ∃ t below frame, m.InOrder t (f :: below) ∧ m.frames.get? f = some frame ∧
        frame.pending = none := by
  have horder : ∀ frame, m.frames.get? f = some frame → ∃ fs, m.InOrder frame.thread fs := by
    intro frame hf
    obtain ⟨thread, hthread, -⟩ := h.owned.thread_of_frame hf
    exact ⟨thread.stack, h.inOrder hthread⟩
  rcases Machine.idle_or_innermost horder with hidle | ⟨below, frame, hinner⟩
  · exact .inl hidle
  · exact .inr ⟨frame.thread, below, frame, hinner⟩

/-- **Readying a frame** comes to a sequence of changes; a line that it gives is a line of the
machine. -/
theorem moves_prepare (f : FrameHandle) (h : m.Sound) :
    Moves m ((prepare f).run m).state ∧
      ∀ l, ((prepare f).run m).value = .ok (.line l) → l.In ((prepare f).run m).state := by
  rcases h.idle_or_innermost f with hidle | ⟨t, below, frame, horder, hf, hpending⟩
  · rw [hidle]
    exact ⟨.refl, nofun⟩
  · rcases horder.run_prepare hf hpending with ⟨l, -, -, hl, hrun⟩ | ⟨-, signal, m', hunwinds, hrun⟩
    · rw [hrun]
      refine ⟨(edits_readied m f).moves, fun l' hl' => ?_⟩
      cases hl'
      exact (edits_readied m f).line hl.stands
    · rw [hrun]
      exact ⟨(edits_readied m f).moves.trans hunwinds.moves, nofun⟩

end Machine

end StepScript
