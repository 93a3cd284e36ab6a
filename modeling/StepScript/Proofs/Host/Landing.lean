import StepScript.Proofs.Host.Execution

/-!
# Proofs/Host/Landing — where a line leads, and which subroutine it opens or leaves

A line that is not a jump leads to the next command; the jumps are the few commands below. Return
addresses are touched by two commands only: `gosub` adds the line it stands on, `endsub` takes the
last one away.

* `Line.landing`, `Line.reopened` — the two things that matter of a line that was executed.
* `Machine.landing_cases` — what a line is that does not lead to the next command.
* `Machine.frame_plan` — running a line changes the frame in its return addresses and variables
  only.
* `Host.Quiet.standsAt_execute` — what the frame is after the line, however the host answers.
-/

namespace StepScript

/-- Where a flow leads from an index. -/
def Flow.landing (index : Nat) : Flow → Nat
  | .next => index + 1
  | .jump target => target

/-- Where a plan leads from an index. A frame that asks or enters a script goes on behind the
line. -/
def Plan.landing (index : Nat) : Plan → Nat
  | .go flow => flow.landing index
  | .ask _ _ => index + 1
  | .enter _ _ => index + 1

namespace Line

variable (s : Setting) (l : Line) (m : Machine)

/-- The command of the language that the line names, if it names one. -/
def keyword? : Option Keyword :=
  l.tokens.head?.bind fun first => Keyword.ofName? (l.nameOf s m first)

/-- The place of the subroutine that the line names, read as `gosub name`. -/
def subroutine? : Option Nat :=
  match l.tokens with
  | [_, name] => (m.frames.get? l.frame).bind (·.gosubs.find? (labelKey (l.nameOf s m name)))
  | _ => none

/-- The condition of the line holds, read as `if left operator right label`. -/
def holds : Bool :=
  match l.tokens with
  | [_, left, operator, right, _] =>
    compareTexts operator ((Machine.readToken s l.vantage left).run m).value
      ((Machine.readToken s l.vantage right).run m).value == some true
  | _ => false

/-- Where the frame goes on after the line. -/
def landing : Nat := ((Machine.plan s l).run m).value.landing l.index

/-- **The open subroutines after the line**: a `gosub` of a subroutine that is there opens one, and
an `endsub` leaves the one opened last. -/
def reopened (returns : List Nat) : List Nat :=
  match l.keyword? s m with
  | some .gosub => if (l.subroutine? s m).isSome then l.index :: returns else returns
  | some .endsub => returns.tail
  | _ => returns

/-- **The line is a jump that is taken**: a `gosub`, a `goto`, an `if` whose condition holds, or an
`endsub` with a subroutine to leave. -/
inductive Diverts : Prop where
  | gosub (h : l.keyword? s m = some .gosub)
  | goto (h : l.keyword? s m = some .goto)
  | cond (h : l.keyword? s m = some .cond) (hholds : l.holds s m = true)
  | endsub {frame : Frame} (h : l.keyword? s m = some .endsub)
    (hf : m.frames.get? l.frame = some frame) (hopen : frame.returns ≠ [])

end Line

namespace Machine

variable {m m' : Machine} {s : Setting} {l : Line}

/-- A literal names itself. -/
theorem nameOf_of_literal {token : String} (h : TokenRef.of token = .literal token) :
    l.nameOf s m token = token := by
  rw [Line.nameOf, readName, h]
  rfl

/-- A line with a keyword comes to what the keyword comes to. -/
theorem run_plan_of_keyword {keyword : Keyword} (h : l.keyword? s m = some keyword) :
    ((plan s l).run m).value = ((planKeyword s l keyword).run m).value ∧
      ((plan s l).run m).state = ((planKeyword s l keyword).run m).state := by
  obtain ⟨first, hfirst, hname⟩ := Option.bind_eq_some_iff.1 h
  obtain ⟨rest, htokens⟩ := List.head?_eq_some_iff.1 hfirst
  exact run_plan_keyword htokens hname

/-- A line that names no command of the language changes nothing before the host is asked. -/
theorem run_plan_of_no_keyword (h : l.keyword? s m = none) :
    (((plan s l).run m).value = .go .next ∨
      ∃ call assignTo, ((plan s l).run m).value = .ask call assignTo) ∧
      ((plan s l).run m).state = m := by
  cases htokens : l.tokens with
  | nil =>
    exact ⟨.inl (by simp only [plan, htokens, Act.run_pure]), by simp only [plan,
      htokens, Act.run_pure]⟩
  | cons first rest =>
    rw [Line.keyword?, htokens] at h
    obtain ⟨hvalue, hstate⟩ := run_plan_of_asks (.function htokens h)
    exact ⟨.inr ⟨_, _, hvalue⟩, hstate⟩

/-! ## What commands leave alone -/

/-- The computation changes no frame but in its variables. -/
def Assigns {α : Type} (x : Act Machine α) : Prop :=
  ∀ m f, ((x.run m).state.frames.get? f).map Frame.bare = (m.frames.get? f).map Frame.bare

namespace Assigns

variable {α β : Type} {x : Act Machine α} {y : α → Act Machine β}

/-- A computation that changes nothing changes no frame but in its variables. -/
theorem of_state (h : ∀ m, (x.run m).state = m) : Assigns x := fun m f => by rw [h m]

/-- Two computations that change frames in their variables only do so together. -/
theorem bind (hx : Assigns x) (hy : ∀ a, Assigns (y a)) : Assigns (x >>= y) :=
  fun m f => (hy _ _ f).trans (hx m f)

theorem map (g : α → β) (hx : Assigns x) : Assigns (g <$> x) := hx

/-- A warning changes nothing. -/
theorem warn (warning : LineWarning) : Assigns (Machine.warn l warning) := of_state fun _ => rfl

/-- Reading a token changes nothing. -/
theorem readToken (token : String) : Assigns (Machine.readToken s l.vantage token) :=
  of_state (state_readToken _ _ _)

theorem readName (token : String) : Assigns (Machine.readName s l.vantage token) :=
  of_state (state_readName _ _ _)

theorem assignToken_next (token value : String) :
    Assigns (Machine.assignToken l.vantage token value >>= fun _ => pure Flow.next) := fun m f => by
  rw [Act.run_bind, Act.run_pure, state_assignToken]
  exact bare_frames_delivered ..

/-- Of the commands, all but `gosub` and `endsub` change frames in their variables only. -/
theorem runSet : Assigns (Machine.runSet s l) := by
  unfold Machine.runSet
  split
  · exact bind (readToken _) fun _ => assignToken_next _ _
  · refine bind (readToken _) fun left => bind (readToken _) fun right => ?_
    split
    · exact assignToken_next _ _
    · exact warn _
  · exact warn _

theorem planSet : Assigns (Machine.planSet s l) := by
  unfold Machine.planSet
  split
  · split
    · split
      · exact map _ (warn _)
      · exact bind (readName _) fun _ => of_state fun m => (run_planCall s l m _ _ _).2
    · exact map _ runSet
  · exact map _ runSet

theorem addTo (name : String) (amount : Float) : Assigns (Machine.addTo s l name amount) :=
  bind (readToken _) fun _ => assignToken_next _ _

theorem runInc : Assigns (Machine.runInc s l) := by
  unfold Machine.runInc
  split
  · refine bind (readName _) fun text => ?_
    split
    · exact addTo _ _
    · exact warn _
  · exact addTo _ _
  · exact warn _

theorem runCat : Assigns (Machine.runCat s l) := by
  unfold Machine.runCat
  split
  · exact bind (readToken _) fun _ => bind (of_state (state_readTokens _ _ _)) fun _ =>
      assignToken_next _ _
  · exact warn _

theorem runCallarg : Assigns (Machine.runCallarg s l) := by
  unfold Machine.runCallarg
  split
  · refine bind (readName _) fun text => bind (of_state fun _ => rfl) fun m => ?_
    dsimp only
    split
    · exact assignToken_next _ _
    · exact warn _
  · exact warn _

/-- A jump is something that the line says, not something it does to its frame. -/
theorem jumpTo (token : String) : Assigns (Machine.jumpTo s l token) := by
  refine bind (readName _) fun name => bind (of_state fun _ => rfl) fun m => ?_
  split
  · exact of_state fun _ => rfl
  · exact warn _

theorem runIf : Assigns (Machine.runIf s l) := by
  unfold Machine.runIf
  split
  · refine bind (readToken _) fun left => bind (readToken _) fun right => ?_
    split
    · exact warn _
    · exact jumpTo _
    · exact of_state fun _ => rfl
  · exact warn _

theorem runGoto : Assigns (Machine.runGoto s l) := by
  unfold Machine.runGoto
  split
  · exact jumpTo _
  · exact warn _

theorem runBeginsub : Assigns (Machine.runBeginsub l) := by
  refine bind (of_state fun _ => rfl) fun m => ?_
  dsimp only
  split
  · exact of_state fun _ => rfl
  · exact warn _

theorem planEnter : Assigns (Machine.planEnter s l) := by
  unfold Machine.planEnter
  split
  · exact bind (readName _) fun _ => map _ (of_state (state_readTokens _ _ _))
  · exact map _ (warn _)

/-- **All commands but two** leave the return addresses alone. -/
theorem planKeyword {keyword : Keyword} (hgosub : keyword ≠ .gosub) (hendsub : keyword ≠ .endsub) :
    Assigns (Machine.planKeyword s l keyword) := by
  cases keyword with
  | set => exact planSet
  | call => exact planEnter
  | cond => exact map _ runIf
  | goto => exact map _ runGoto
  | gosub => exact absurd rfl hgosub
  | leave => exact of_state fun _ => rfl
  | inc => exact map _ runInc
  | cat => exact map _ runCat
  | endsub => exact absurd rfl hendsub
  | beginsub => exact map _ runBeginsub
  | callarg => exact map _ runCallarg

end Assigns

/-! ## Subroutines -/

/-- A `gosub` adds its own index to the return addresses, if there is such a subroutine. -/
theorem run_runGosub (s : Setting) (l : Line) (m : Machine) :
    ((runGosub s l).run m).state =
      if (l.subroutine? s m).isSome then
        m.modifyFrame l.frame fun frame => { frame with returns := l.index :: frame.returns }
      else m := by
  rcases htokens : l.tokens with _ | ⟨first, _ | ⟨name, _ | ⟨more, rest⟩⟩⟩
  · simp [runGosub, Line.subroutine?, htokens, warn]
  · simp [runGosub, Line.subroutine?, htokens, warn]
  · have hsub : l.subroutine? s m = (m.frames.get? l.frame).bind
        (·.gosubs.find? (labelKey ((readName s l.vantage name).run m).value)) := by
      simp only [Line.subroutine?, htokens, Line.nameOf]
    simp only [runGosub, htokens, Act.run_bind, state_readName, Act.run_get, ← hsub]
    cases l.subroutine? s m <;> rfl
  · simp [runGosub, Line.subroutine?, htokens, warn]

/-- An `endsub` takes the last return address and leads behind it; without one, it goes on. -/
theorem run_runEndsub {frame : Frame} (hf : m.frames.get? l.frame = some frame) :
    ((runEndsub l).run m).value = (frame.returns.head?.elim .next fun index => .jump (index + 1)) ∧
      ((runEndsub l).run m).state =
        m.modifyFrame l.frame fun frame => { frame with returns := frame.returns.tail } := by
  simp only [runEndsub, Act.run_get_bind, hf, Option.bind_some]
  cases hreturns : frame.returns with
  | cons index rest => exact ⟨rfl, rfl⟩
  | nil =>
    have hsame : m.modifyFrame l.frame
        (fun frame => { frame with returns := frame.returns.tail }) = m := by
      refine ext_tables rfl rfl (Table.modify_eq_self fun old hold => ?_) rfl rfl
      rw [hf] at hold
      cases hold
      rw [hreturns, List.tail_nil, ← hreturns]
    rw [hsame]
    exact ⟨rfl, rfl⟩

/-- **What running a line does to its frame**: besides variables, only the open subroutines
change. -/
theorem frame_plan (s : Setting) {frame : Frame} (hf : m.frames.get? l.frame = some frame) :
    (((plan s l).run m).state.frames.get? l.frame).map Frame.bare =
      some { frame.bare with returns := l.reopened s m frame.returns } := by
  have hsame : (m.frames.get? l.frame).map Frame.bare = some frame.bare := by
    rw [hf, Option.map_some]
  cases hkeyword : l.keyword? s m with
  | none =>
    rw [(run_plan_of_no_keyword hkeyword).2, hsame, Line.reopened, hkeyword]
    rfl
  | some keyword =>
    rw [(run_plan_of_keyword hkeyword).2]
    by_cases hgosub : keyword = .gosub
    · subst hgosub
      rw [planKeyword, Act.run_map, run_runGosub, Line.reopened, hkeyword]
      dsimp only
      split
      · rw [frames_modifyFrame, Table.get?_modify, if_pos rfl, hf]
        rfl
      · exact hsame
    by_cases hendsub : keyword = .endsub
    · subst hendsub
      rw [planKeyword, Act.run_map, (run_runEndsub hf).2, Line.reopened, hkeyword,
        frames_modifyFrame, Table.get?_modify, if_pos rfl, hf]
      rfl
    · have hreopened : l.reopened s m frame.returns = frame.returns := by
        rw [Line.reopened, hkeyword]
        cases keyword with
        | gosub => exact absurd rfl hgosub
        | endsub => exact absurd rfl hendsub
        | _ => rfl
      rw [Assigns.planKeyword hgosub hendsub, hsame, hreopened]
      rfl

/-- A line that changes nothing leaves open what was open. -/
theorem reopened_of_state {s : Setting} {frame : Frame} (hf : m.frames.get? l.frame = some frame)
    (hstate : ((plan s l).run m).state = m) : l.reopened s m frame.returns = frame.returns := by
  have hplan := frame_plan s hf
  rw [hstate, hf, Option.map_some, Option.some.injEq] at hplan
  exact (congrArg Frame.returns hplan).symm

/-! ## Landings -/

/-- A command that always goes on leads to the next index. -/
theorem Passes.landing {x : Act Machine Flow} (h : Passes x) (m : Machine) (index : Nat) :
    (x.run m).value.landing index = index + 1 := by
  rw [h m]
  rfl

/-- Where a line with a keyword leads is where the keyword leads. -/
theorem landing_of_keyword {keyword : Keyword} (h : l.keyword? s m = some keyword) :
    l.landing s m = ((planKeyword s l keyword).run m).value.landing l.index := by
  rw [Line.landing, (run_plan_of_keyword h).1]

/-- A line without one leads to the next index. -/
theorem landing_of_no_keyword (h : l.keyword? s m = none) : l.landing s m = l.index + 1 := by
  rw [Line.landing]
  rcases (run_plan_of_no_keyword h).1 with hvalue | ⟨call, assignTo, hvalue⟩ <;> rw [hvalue] <;> rfl

/-- An assignment leads to the next index, also one that asks the host for the value. -/
theorem landing_planSet (s : Setting) (l : Line) (m : Machine) :
    ((planSet s l).run m).value.landing l.index = l.index + 1 := by
  unfold planSet
  split
  · split
    · split
      · rfl
      · rw [Act.run_bind, (run_planCall s l _ _ _ _).1]
        rfl
    · exact Passes.runSet.landing m l.index
  · exact Passes.runSet.landing m l.index

/-- A line that enters a script leads to the next index. -/
theorem landing_planEnter (s : Setting) (l : Line) (m : Machine) :
    ((planEnter s l).run m).value.landing l.index = l.index + 1 := by
  unfold planEnter
  split <;> rfl

/-- An `if` that does not hold is passed by. -/
theorem landing_runIf (h : l.holds s m = false) :
    ((runIf s l).run m).value.landing l.index = l.index + 1 := by
  unfold runIf
  unfold Line.holds at h
  split
  · next htokens =>
    simp only [htokens] at h
    simp only [Act.run_bind, state_readToken]
    split
    · rfl
    · next hholds =>
      rw [hholds] at h
      cases h
    · rfl
  · rfl

/-- **After an `endsub`** the frame goes on behind the `gosub` that was opened last, or with the
next command. -/
theorem landing_of_endsub {frame : Frame} (h : l.keyword? s m = some .endsub)
    (hf : m.frames.get? l.frame = some frame) :
    l.landing s m = frame.returns.head?.getD l.index + 1 := by
  rw [landing_of_keyword h, planKeyword, Act.run_map, (run_runEndsub hf).1]
  cases frame.returns.head? <;> rfl

/-- The command of the frame at an index closes a subroutine. -/
def ClosesAt (m : Machine) (frame : Frame) (index : Nat) : Prop :=
  ∃ command, m.commandAt frame index = some command ∧ command.startsWith endsub = true

/-- **After a `beginsub`** the frame goes on behind the next `endsub`, if there is one. -/
theorem landing_of_beginsub {frame : Frame} (h : l.keyword? s m = some .beginsub)
    (hf : m.frames.get? l.frame = some frame) :
    (∃ k, l.index < k ∧ m.ClosesAt frame k ∧ (∀ i, l.index < i → i < k → ¬ m.ClosesAt frame i) ∧
        l.landing s m = k + 1) ∨
      (∀ i, l.index < i → ¬ m.ClosesAt frame i) ∧ l.landing s m = l.index + 1 := by
  have hcloses : ∀ i, m.ClosesAt frame (l.index + 1 + i) ↔
      ∃ c, (frame.commands.drop (l.index + 1))[i]? = some c ∧
      (m.commands.get? c).any (·.startsWith endsub) = true := by
    intro i
    simp only [ClosesAt, commandAt, List.getElem?_drop, Option.bind_eq_some_iff, Option.any_eq_true]
    constructor
    · rintro ⟨command, ⟨c, hc, hget⟩, hends⟩
      exact ⟨c, hc, command, hget, hends⟩
    · rintro ⟨c, hc, command, hget, hends⟩
      exact ⟨command, ⟨c, hc, hget⟩, hends⟩
  rw [landing_of_keyword h, planKeyword, Act.run_map]
  simp only [runBeginsub, Act.run_get_bind, hf]
  cases hfind : (frame.commands.drop (l.index + 1)).findIdx? fun c =>
      (m.commands.get? c).any (·.startsWith endsub) with
  | some offset =>
    obtain ⟨hlt, hends, hbefore⟩ := List.findIdx?_eq_some_iff_getElem.1 hfind
    refine .inl ⟨l.index + 1 + offset, by omega,
      (hcloses offset).2 ⟨_, List.getElem?_eq_getElem hlt, hends⟩,
      fun i hi hlt' hcloses' => ?_, rfl⟩
    obtain ⟨d, rfl⟩ := Nat.exists_eq_add_of_le hi
    obtain ⟨c, hc, hends'⟩ := (hcloses d).1 hcloses'
    obtain ⟨hd, rfl⟩ := List.getElem?_eq_some_iff.1 hc
    exact hbefore d (by omega) hends'
  | none =>
    refine .inr ⟨fun i hi hcloses' => ?_, rfl⟩
    obtain ⟨d, rfl⟩ := Nat.exists_eq_add_of_le hi
    obtain ⟨c, hc, hends'⟩ := (hcloses d).1 hcloses'
    have hfalse := List.findIdx?_eq_none_iff.1 hfind c (List.mem_of_getElem? hc)
    rw [hends'] at hfalse
    cases hfalse

/-- **Where a line leads** that is no jump that is taken: to the next command, past the last one, or
from a `beginsub` to behind its `endsub`. -/
theorem landing_cases {frame : Frame} (hf : m.frames.get? l.frame = some frame)
    (h : ¬ l.Diverts s m) :
    l.landing s m = l.index + 1 ∨ l.landing s m = l.count ∨ l.keyword? s m = some .beginsub := by
  cases hkeyword : l.keyword? s m with
  | none => exact .inl (landing_of_no_keyword hkeyword)
  | some keyword =>
    have hlanding := landing_of_keyword hkeyword
    cases keyword with
    | set => exact .inl (hlanding.trans (landing_planSet s l m))
    | call => exact .inl (hlanding.trans (landing_planEnter s l m))
    | cond =>
      have hholds : l.holds s m = false :=
        Bool.eq_false_iff.2 fun hholds => h (.cond hkeyword hholds)
      exact .inl (hlanding.trans (landing_runIf hholds))
    | goto => exact absurd (.goto hkeyword) h
    | gosub => exact absurd (.gosub hkeyword) h
    | leave => exact .inr (.inl hlanding)
    | inc => exact .inl (hlanding.trans (Passes.runInc.landing m l.index))
    | cat => exact .inl (hlanding.trans (Passes.runCat.landing m l.index))
    | endsub =>
      have hreturns : frame.returns = [] :=
        Decidable.not_not.1 fun hopen => h (.endsub hkeyword hf hopen)
      rw [landing_of_endsub hkeyword hf, hreturns]
      exact .inl rfl
    | beginsub => exact .inr (.inr rfl)
    | callarg => exact .inl (hlanding.trans (Passes.runCallarg.landing m l.index))

/-! ## After the line -/

/-- The frame is there, with these commands, this cursor and these open subroutines. -/
def StandsAt (m : Machine) (f : FrameHandle) (commands : List CommandHandle) (cursor : Nat)
    (returns : List Nat) : Prop :=
  ∃ frame, m.frames.get? f = some frame ∧ frame.commands = commands ∧ frame.cursor = cursor ∧
    frame.returns = returns

/-- A frame whose cursor is moved stands there. -/
theorem standsAt_moveCursor {f : FrameHandle} {b : Frame} {index : Nat}
    (hf : (m.frames.get? f).map Frame.bare = some b) (hindex : index ≤ b.commands.length) :
    (m.moveCursor f index).StandsAt f b.commands index b.returns := by
  obtain ⟨frame, hget, rfl⟩ := Option.map_eq_some_iff.1 hf
  refine ⟨frame.moveTo index, ?_, rfl, Nat.min_eq_left hindex, rfl⟩
  rw [moveCursor, frames_modifyFrame, Table.get?_modify, if_pos rfl, hget]
  rfl

/-- Following a flow moves the cursor to where the flow leads. -/
theorem state_follow (l : Line) (flow : Flow) (m : Machine) :
    ((follow l flow).run m).state = m.moveCursor l.frame (flow.landing l.index) := by
  cases flow <;> rfl

/-- **However the host answers**, the frame goes on behind the line. -/
theorem standsAt_takeAnswer {frame : Frame} (hf : m.frames.get? l.frame = some frame)
    (hindex : l.index < frame.commands.length) (call : Call) (assignTo : Option String)
    (answer : Except Failure Completion) :
    ((takeAnswer l call assignTo answer).run m).state.StandsAt l.frame frame.commands (l.index + 1)
      frame.returns := by
  rcases answer with failure | value | _
  · rw [(run_takeAnswer_error l call assignTo failure m).2]
    exact standsAt_moveCursor (b := frame.bare) (by rw [hf, Option.map_some]) hindex
  · have hresulted : (m.resulted l.frame value).frames.get? l.frame =
        some { frame with result := value } := by
      rw [resulted, frames_modifyFrame, Table.get?_modify, if_pos rfl, hf]
      rfl
    rw [(run_takeAnswer_ready l call assignTo value m).2]
    refine standsAt_moveCursor (b := Frame.bare { frame with result := value }) ?_ hindex
    rw [bare_frames_delivered, hresulted, Option.map_some]
  · have hparked := Table.get?_modify m.frames l.frame l.frame fun frame =>
      { frame with
        cursor := l.index + 1, readiness := .unknown,
        pending := some ⟨call.name, l.source, assignTo⟩ }
    rw [if_pos rfl, hf, Option.map_some] at hparked
    exact ⟨_, hparked, rfl, rfl, rfl⟩

/-- A frame stands where it stood when a script is put on top of it. -/
theorem standsAt_pushed {f : FrameHandle} {t : ThreadHandle} {script : Script} {args : List String}
    {commands : List CommandHandle} {cursor : Nat} {returns : List Nat} (hproper : m.Proper)
    (hroom : (m.pushed t script args).Roomy) (h : m.StandsAt f commands cursor returns) :
    (m.pushed t script args).StandsAt f commands cursor returns := by
  obtain ⟨frame, hf, hrest⟩ := h
  have hfresh : m.frames.get? m.frames.fresh = none :=
    Table.get?_fresh hproper.frames.next fun hfull => hroom.frames (hfull.create _)
  refine ⟨frame, ?_, hrest⟩
  rw [get?_frames_pushed, if_neg, hf]
  rintro rfl
  rw [hfresh] at hf
  cases hf

end Machine

namespace Host

variable {η : Type} {h : Host η} {w : World η} {l : Line}

open Machine

/-- Entering a script leaves the frame that enters it behind its line. -/
theorem Quiet.standsAt_enter (hq : h.Quiet) {frame : Frame} {name : String} {args : List String}
    (hsound : w.machine.Sound) (hf : w.machine.frames.get? l.frame = some frame)
    (hindex : l.index < frame.commands.length)
    (hthread : w.machine.threads.contains l.thread = true)
    (hroom : ((h.enter l name args).run
      { w with machine := w.machine.readied l.frame }).state.machine.Roomy) :
    ((h.enter l name args).run
      { w with machine := w.machine.readied l.frame }).state.machine.StandsAt l.frame frame.commands
      (l.index + 1) frame.returns := by
  have hmoved : (w.machine.moveCursor l.frame (l.index + 1)).StandsAt l.frame frame.commands
      (l.index + 1) frame.returns :=
      standsAt_moveCursor (b := frame.bare) (by rw [hf, Option.map_some]) hindex
  have hproper : (w.machine.moveCursor l.frame (l.index + 1)).Proper :=
    (hsound.moves (Edits.moves (edits_modifyFrame fun _ _ => .move _))).proper
  rw [hq.run_enter (w := { w with machine := w.machine.readied l.frame }) name _ hthread] at hroom ⊢
  simp only [moveCursor_readied] at hroom ⊢
  cases hscript :
      h.script name { w with machine := w.machine.moveCursor l.frame (l.index + 1) } with
  | error reason =>
    simp only [hq.load]
    exact hmoved
  | ok result =>
    simp only [hscript] at hroom
    exact standsAt_pushed hproper hroom hmoved

/-- **What executing a line does to its frame**: it goes on where the line leads, with the
subroutines open that the line leaves open. -/
theorem Quiet.standsAt_execute (hq : h.Quiet) {frame : Frame} (hsound : w.machine.Sound)
    (hl : l.RunsNext w.machine) (hf : w.machine.frames.get? l.frame = some frame)
    (hroom : ((h.execute l).run
      { w with machine := w.machine.readied l.frame }).state.machine.Roomy) :
    ((h.execute l).run { w with machine := w.machine.readied l.frame }).state.machine.StandsAt
      l.frame frame.commands (l.landing h.toSetting (w.machine.readied l.frame))
      (l.reopened h.toSetting (w.machine.readied l.frame) frame.returns) := by
  have hready := edits_readied w.machine l.frame
  have hsound' := hsound.moves hready.moves
  have hin : l.In (w.machine.readied l.frame) := hready.line hl.stands
  have hown := get?_frames_readied (hsound.frame _ _ hf) hf
  obtain ⟨thread, hthread, -⟩ := (hsound'.backed hin).thread
  obtain ⟨own, c, -, hown', -, hc, -, hcount, -⟩ := hl.stands
  rw [hf] at hown'
  cases hown'
  have hindex : l.index < frame.commands.length := (List.getElem?_eq_some_iff.1 hc).1
  have hplan := frame_plan h.toSetting hown
  unfold execute at hroom ⊢
  rw [Act.run_bind, World.run_liftM] at hroom ⊢
  rw [Line.landing]
  rcases plan_cases h.toSetting l (w.machine.readied l.frame) with
    ⟨flow, hvalue⟩ | ⟨name, args, assignTo, hasks⟩ | ⟨name, args, henters⟩
  · have hlands := (hsound'.frame _ _ hown).lands_plan hown hcount hvalue
    have hlanding : flow.landing l.index ≤ frame.commands.length := by
      cases flow with
      | next => exact hindex
      | jump index => exact hlands
    simp only [hvalue, Act.run_bind, World.run_liftM, Act.run_pure, state_follow]
    exact standsAt_moveCursor hplan hlanding
  · obtain ⟨hvalue, hstate⟩ := run_plan_of_asks hasks
    rw [reopened_of_state hown hstate]
    simp only [hvalue, hstate, Act.run_bind, World.run_liftM, Act.run_pure, hq.dispatch]
    exact standsAt_takeAnswer hown hindex _ _ _
  · obtain ⟨hvalue, hstate⟩ := run_plan_of_enters henters
    rw [reopened_of_state hown hstate]
    simp only [hvalue, hstate] at hroom ⊢
    exact hq.standsAt_enter hsound hf hindex (Table.contains_iff.2 ⟨thread, hthread⟩) hroom

end Host

end StepScript
