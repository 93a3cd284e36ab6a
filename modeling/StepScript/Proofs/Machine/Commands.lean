import StepScript.Proofs.Machine.Cell
import StepScript.Proofs.Machine.Sound

/-!
# Proofs/Machine/Commands — what a line can change

A line assigns variables that its tokens can name, and opens or closes a subroutine of its frame
(`Line.Change`); nothing else happens before the host is asked. Every command of the language is
made of a few things (`Line.Program`), and nobody has to look at the commands again.

* `Line.Program.plan` — so is finding out what a line comes to.
* `Machine.Runs.plan` — it makes no other change, and meets no broken link.
* `Machine.plan_cases` — a line that asks the host or enters a script has changed nothing by then.
* `Machine.Changes.edits`, `Machine.Changes.within` — what follows for the links and for all that is
  out of the line's reach.
-/

namespace StepScript

/-- **The line is a command of its frame**, which is live. -/
def Line.In (l : Line) (m : Machine) : Prop :=
  ∃ frame c command, m.frames.get? l.frame = some frame ∧ l.thread = frame.thread ∧
    frame.commands[l.index]? = some c ∧ m.commands.get? c = some command ∧
    l.count = frame.commands.length ∧ l.source = ⟨frame.script, command.line⟩ ∧
    l.tokens = command.tokens

namespace Machine

variable {m m' : Machine}

/-! ## Contents -/

/-- The machine `m'` comes from `m` by changes of contents. -/
abbrev Edits (m m' : Machine) : Prop := Relation.ReflTransGen Edit m m'

/-- Setting a variable of a cell that is there. -/
theorem Edit.assign {cell : Cell} (hcell : (m.varsAt cell).isSome = true) (name value : String) :
    Edit m (m.assign cell name value) := by
  cases cell with
  | frame f =>
    obtain ⟨vars, hvars⟩ := Option.isSome_iff_exists.1 hcell
    obtain ⟨frame, hf, -⟩ := Option.map_eq_some_iff.1 hvars
    exact .frame hf (.assign name value)
  | thread t => exact .threadVariable t name value
  | target g => exact .targetVariable g name value
  | global => exact .globalVariable name value

/-- No edit changes whose script a frame plays. -/
theorem FrameEdit.script {frame frame' : Frame} (h : m.FrameEdit frame frame') :
    frame'.script = frame.script := by
  cases h <;> rfl

/-- No edit changes a command. -/
theorem Edit.commands (h : Edit m m') : m'.commands = m.commands := by
  cases h <;> rfl

/-- An edit keeps every frame, with its links and its script. -/
theorem Edit.frame_kept {f : FrameHandle} {frame : Frame} (h : Edit m m')
    (hf : m.frames.get? f = some frame) :
    ∃ frame', m'.frames.get? f = some frame' ∧ frame'.thread = frame.thread ∧
      frame'.commands = frame.commands ∧ frame'.script = frame.script := by
  cases h with
  | @frame e old u hold hu =>
    rw [frames_modifyFrame, Table.get?_modify]
    split
    · next heq =>
      rw [heq, hold] at hf
      cases hf
      exact ⟨u frame, by rw [heq, hold]; rfl, hu.links.1, hu.links.2, hu.script⟩
    · exact ⟨frame, hf, rfl, rfl, rfl⟩
  | threadVariable => exact ⟨frame, hf, rfl, rfl, rfl⟩
  | targetVariable => exact ⟨frame, hf, rfl, rfl, rfl⟩
  | globalVariable => exact ⟨frame, hf, rfl, rfl, rfl⟩

/-- A frame is still there after edits, with its invocation, its commands and its script. -/
theorem Edits.frame_kept {f : FrameHandle} {frame : Frame} (h : Edits m m')
    (hf : m.frames.get? f = some frame) :
    ∃ frame', m'.frames.get? f = some frame' ∧ frame'.thread = frame.thread ∧
      frame'.commands = frame.commands ∧ frame'.script = frame.script := by
  induction h with
  | refl => exact ⟨frame, hf, rfl, rfl, rfl⟩
  | tail _ hedit ih =>
    obtain ⟨mid, hmid, hthread, hcommands, hscript⟩ := ih
    obtain ⟨last, hlast, hthread', hcommands', hscript'⟩ := hedit.frame_kept hmid
    exact ⟨last, hlast, hthread'.trans hthread, hcommands'.trans hcommands, hscript'.trans hscript⟩

theorem Edits.commands (h : Edits m m') : m'.commands = m.commands := by
  induction h with
  | refl => rfl
  | tail _ hedit ih => rw [hedit.commands, ih]

/-- A line of a frame stays one. -/
theorem Edits.line {l : Line} (h : Edits m m') (hl : l.In m) : l.In m' := by
  obtain ⟨frame, c, command, hf, hthread, hc, hcommand, hcount, hsource, htokens⟩ := hl
  obtain ⟨frame', hf', hthread', hcommands', hscript'⟩ := h.frame_kept hf
  exact ⟨frame', c, command, hf', by rw [hthread', hthread], by rw [hcommands', hc],
    by rw [h.commands, hcommand], by rw [hcommands', hcount], by rw [hscript', hsource], htokens⟩

theorem Edits.moves (h : Edits m m') : Relation.ReflTransGen Move m m' :=
  Relation.ReflTransGen.mono (fun _ _ => Move.edit) _ _ h

/-- No edit changes a link. -/
theorem Edit.sameLinks (h : Edit m m') : SameLinks m m' := by
  cases h with
  | frame hf hu =>
    refine SameLinks.modifyFrame fun frame' hf' => ?_
    rw [hf] at hf'
    cases hf'
    exact hu.links
  | threadVariable => exact SameLinks.modifyThread fun _ _ => ⟨rfl, rfl⟩
  | targetVariable => exact SameLinks.modifyTarget fun _ _ => rfl
  | globalVariable => exact ⟨fun _ => rfl, fun _ => rfl, fun _ => rfl, fun _ => rfl, fun _ => rfl,
      fun _ => rfl⟩

theorem Edits.sameLinks (h : Edits m m') : SameLinks m m' := by
  induction h with
  | refl => exact SameLinks.refl m
  | tail _ hedit ih => exact ih.trans hedit.sameLinks

/-- No edit makes an object. -/
theorem Edit.shrinks (h : Edit m m') : Shrinks m m' := by
  cases h with
  | frame => exact { Shrinks.refl _ with frames := .modify _ _ _ }
  | threadVariable => exact { Shrinks.refl _ with threads := .modify _ _ _ }
  | targetVariable => exact { Shrinks.refl _ with targets := .modify _ _ _ }
  | globalVariable => exact { Shrinks.refl _ with }

theorem Edits.shrinks (h : Edits m m') : Shrinks m m' := by
  induction h with
  | refl => exact .refl m
  | tail _ hedit ih => exact ih.trans hedit.shrinks

/-- Delivering a value is an edit. -/
theorem edits_delivered (m : Machine) (v : Vantage) (assignTo : Option String) (value : String) :
    Edits m (m.delivered v assignTo value) := by
  rcases m.delivered_cases v assignTo value with hsame | ⟨scope, cell, name, hcell, hassign⟩
  · rw [hsame]
  · rw [hassign]
    exact .single (.assign (isSome_varsAt_of_cellOf hcell) name value)

/-- So is assigning to a token. -/
theorem edits_assignToken (v : Vantage) (token value : String) (m : Machine) :
    Edits m ((assignToken v token value).run m).state := by
  rw [state_assignToken]
  exact edits_delivered ..

theorem edits_setVariable (t : ThreadHandle) (token value : String) (m : Machine) :
    Edits m ((setVariable t token value).run m).state := by
  simp only [setVariable, Act.run_bind, state_vantageOf]
  split
  · exact .refl
  · exact edits_assignToken ..

/-! ## What is out of reach -/

/-- **The second machine differs within reach of a frame only**: in the frame, and in the variables
of its invocation, of the invocation's target and of the machine. -/
structure Within (t : ThreadHandle) (f : FrameHandle) (m m' : Machine) : Prop where
  frame : ∀ k, k ≠ f → m'.frames.get? k = m.frames.get? k
  thread : ∀ k, k ≠ t → m'.threads.get? k = m.threads.get? k
  own : ∀ k, (m'.threads.get? k).map Thread.bare = (m.threads.get? k).map Thread.bare
  target : ∀ g, m.targetAt t ≠ some g → m'.targets.get? g = m.targets.get? g
  home : ∀ g, (m'.targets.get? g).map Target.bare = (m.targets.get? g).map Target.bare
  commands : m'.commands = m.commands

namespace Within

variable {t : ThreadHandle} {f : FrameHandle}

theorem refl (m : Machine) : Within t f m m :=
  ⟨fun _ _ => rfl, fun _ _ => rfl, fun _ => rfl, fun _ _ => rfl, fun _ => rfl, rfl⟩

/-- A change of the frame itself is within reach of its line. -/
theorem modifyFrame (m : Machine) (u : Frame → Frame) : Within t f m (m.modifyFrame f u) where
  frame k hk := by rw [frames_modifyFrame, Table.get?_modify, if_neg hk]
  thread _ _ := rfl
  own _ := rfl
  target _ _ := rfl
  home _ := rfl
  commands := rfl

/-- What is within reach of a line leaves every invocation on its target. -/
theorem targetAt (h : Within t f m m') (k : ThreadHandle) : m'.targetAt k = m.targetAt k := by
  have hbare := congrArg (Option.map Thread.target) (h.own k)
  simpa [Machine.targetAt, Function.comp_def, Thread.bare] using hbare

/-- What a line does in two steps is within its reach if each of them is. -/
theorem trans {m₁ m₂ m₃ : Machine} (h : Within t f m₁ m₂) (h' : Within t f m₂ m₃) :
    Within t f m₁ m₃ where
  frame k hk := (h'.frame k hk).trans (h.frame k hk)
  thread k hk := (h'.thread k hk).trans (h.thread k hk)
  own k := (h'.own k).trans (h.own k)
  target g hg := (h'.target g (h.targetAt t ▸ hg)).trans (h.target g hg)
  home g := (h'.home g).trans (h.home g)
  commands := h'.commands.trans h.commands

/-- Setting a variable within reach. -/
theorem assign {v : Vantage} {cell : Cell} (hv : v.frame = some f) (hcell : v.Reaches m cell)
    (name value : String) : Within v.thread f m (m.assign cell name value) where
  frame k hk := by
    have hne : cell ≠ .frame k := by
      rintro rfl
      exact hk (Option.some.inj (hcell.symm.trans hv))
    rw [get?_frames_assign]
    simp [hne]
  thread k hk := by
    have hne : cell ≠ .thread k := by
      rintro rfl
      exact hk hcell
    rw [get?_threads_assign]
    simp [hne]
  own k := bare_threads_assign m cell name value k
  target g hg := by
    have hne : cell ≠ .target g := by
      rintro rfl
      exact hg hcell
    rw [get?_targets_assign]
    simp [hne]
  home g := bare_targets_assign m cell name value g
  commands := commands_assign m cell name value

end Within

end Machine

/-! ## The changes of a line -/

/-- **The changes that a line makes while it runs**: it sets a variable that one of its tokens can
name, or opens or closes a subroutine of its frame. -/
inductive Line.Change (l : Line) : Machine → Machine → Prop where
  | assign {m : Machine} {scope : Scope} {cell : Cell}
    (hcell : m.cellOf l.vantage scope = some cell) (name value : String) :
    Change l m (m.assign cell name value)
  | enterSub {m : Machine} {frame : Frame} (hf : m.frames.get? l.frame = some frame)
    (hindex : l.index < frame.commands.length) :
    Change l m (m.modifyFrame l.frame fun frame =>
      { frame with returns := l.index :: frame.returns })
  | leaveSub {m : Machine} {frame : Frame} (hf : m.frames.get? l.frame = some frame) :
    Change l m (m.modifyFrame l.frame fun frame => { frame with returns := frame.returns.tail })

namespace Line.Change

variable {l : Line} {m m' : Machine}

/-- What a line changes at once is an edit. -/
theorem edit (h : l.Change m m') : Machine.Edit m m' := by
  cases h with
  | assign hcell name value => exact .assign (Machine.isSome_varsAt_of_cellOf hcell) name value
  | enterSub hf hindex => exact .frame hf (.enterSub hindex)
  | leaveSub hf => exact .frame hf .leaveSub

/-- It is within reach of the line. -/
theorem within (h : l.Change m m') : Machine.Within l.thread l.frame m m' := by
  cases h with
  | assign hcell name value =>
    exact Machine.Within.assign (v := l.vantage) rfl (Machine.reaches_of_cellOf hcell) name value
  | enterSub => exact Machine.Within.modifyFrame _ _
  | leaveSub => exact Machine.Within.modifyFrame _ _

/-- A line neither opens nor ends a call while it runs. -/
theorem pending (h : l.Change m m') (f : FrameHandle) :
    (m'.frames.get? f).map Frame.pending = (m.frames.get? f).map Frame.pending := by
  cases h with
  | @assign _ cell hcell name value =>
    have hbare :=
      congrArg (Option.map Frame.pending) (Machine.bare_frames_assign m cell name value f)
    simpa [Function.comp_def, Frame.bare] using hbare
  | enterSub => exact Table.map_get?_modify m.frames f fun _ _ => rfl
  | leaveSub => exact Table.map_get?_modify m.frames f fun _ _ => rfl

end Line.Change

namespace Machine

variable {m m' : Machine} {l : Line}

/-- The machine `m'` comes from `m` by changes that a line can make. -/
abbrev Changes (l : Line) (m m' : Machine) : Prop := Relation.ReflTransGen l.Change m m'

theorem Changes.edits (h : Changes l m m') : Edits m m' :=
  Relation.ReflTransGen.mono (fun _ _ => Line.Change.edit) _ _ h

theorem Changes.within (h : Changes l m m') : Within l.thread l.frame m m' := by
  induction h with
  | refl => exact Within.refl m
  | tail _ hchange ih => exact ih.trans hchange.within

/-- No change that a line makes by itself starts or ends a wait. -/
theorem Changes.pending (h : Changes l m m') (f : FrameHandle) :
    (m'.frames.get? f).map Frame.pending = (m.frames.get? f).map Frame.pending := by
  induction h with
  | refl => rfl
  | tail _ hchange ih => rw [hchange.pending, ih]

/-- A value that is delivered for a line changes what the line can change. -/
theorem Changes.delivered (m : Machine) (assignTo : Option String) (value : String) :
    Changes l m (m.delivered l.vantage assignTo value) := by
  rcases m.delivered_cases l.vantage assignTo value with hsame | ⟨scope, cell, name, hcell, hassign⟩
  · rw [hsame]
  · rw [hassign]
    exact .single (.assign hcell name value)

end Machine

/-! ## The commands of the language -/

/-- The frame of the line and its commands are the same in both machines. -/
structure Line.SameFrame (l : Line) (m m' : Machine) : Prop where
  frame : m'.frames.get? l.frame = m.frames.get? l.frame
  command : ∀ frame, m.frames.get? l.frame = some frame →
    ∀ c ∈ frame.commands, m'.commands.get? c = m.commands.get? c

/-- **A program of a line**: a computation made of the few things that a line can do. Every command
of the language is one, so what these things have in common holds of every line. -/
inductive Line.Program (s : Setting) (l : Line) : {α : Type} → Act Machine α → Prop where
  | pure {α : Type} (a : α) : Program s l (Pure.pure a)
  | bind {α β : Type} {x : Act Machine α} {y : α → Act Machine β} (hx : Program s l x)
    (hy : ∀ a, Program s l (y a)) : Program s l (x >>= y)
  /-- How to go on depends on the frame of the line only. -/
  | look {α : Type} {y : Machine → Act Machine α} (hy : ∀ m, Program s l (y m))
    (hown : ∀ m m', l.SameFrame m m' → y m' = y m) : Program s l (get >>= y)
  | warn (warning : LineWarning) : Program s l (Machine.warn l warning)
  | readToken {token : String} (h : token ∈ l.tokens) :
    Program s l (Machine.readToken s l.vantage token)
  | entityOf : Program s l (Machine.entityOf l.thread)
  | assignToken {token : String} (h : token ∈ l.tokens) (value : String) :
    Program s l (Machine.assignToken l.vantage token value)
  | enterSub : Program s l (modify fun m =>
      m.modifyFrame l.frame fun frame => { frame with returns := l.index :: frame.returns })
  | leaveSub : Program s l (modify fun m =>
      m.modifyFrame l.frame fun frame => { frame with returns := frame.returns.tail })

namespace Line.Program

variable {s : Setting} {l : Line} {α β : Type}

theorem map {x : Act Machine α} (f : α → β) (h : l.Program s x) : l.Program s (f <$> x) := by
  rw [map_eq_pure_bind]
  exact h.bind fun a => pure (f a)

theorem readName {token : String} (h : token ∈ l.tokens) :
    l.Program s (Machine.readName s l.vantage token) := by
  unfold Machine.readName
  split
  · exact pure _
  · exact readToken h

theorem readTokens {tokens : List String} (h : ∀ token ∈ tokens, token ∈ l.tokens) :
    l.Program s (Machine.readTokens s l.vantage tokens) := by
  unfold Machine.readTokens
  induction tokens with
  | nil => exact pure []
  | cons token tokens ih =>
    obtain ⟨hfirst, hrest⟩ := List.forall_mem_cons.1 h
    exact (readToken hfirst).bind fun _ => (ih hrest).bind fun _ => pure _

/-- Planning a call reads its arguments, which are tokens of the line. -/
theorem planCall (name : String) {args : List String} (hargs : ∀ arg ∈ args, arg ∈ l.tokens)
    (assignTo : Option String) : l.Program s (Machine.planCall s l name args assignTo) :=
  entityOf.bind fun _ => (readTokens hargs).bind fun _ => pure _

theorem planEnter : l.Program s (Machine.planEnter s l) := by
  unfold Machine.planEnter
  split
  · next first script args htokens =>
    refine (readName (by simp [htokens])).bind fun _ =>
      (readTokens fun arg harg => ?_).bind fun _ => pure _
    simp [htokens, harg]
  · exact (warn _).bind fun _ => pure _

/-- Each command is a program of its line: it reads and assigns the tokens of the line and changes
the frame in a few ways, and nothing else. -/
theorem runSet : l.Program s (Machine.runSet s l) := by
  unfold Machine.runSet
  split
  · next first name value htokens =>
    exact (readToken (by simp [htokens])).bind fun _ =>
      (assignToken (by simp [htokens]) _).bind fun _ => pure _
  · next first name left operator right htokens =>
    refine (readToken (by simp [htokens])).bind fun x =>
      (readToken (by simp [htokens])).bind fun y => ?_
    split
    · exact (assignToken (by simp [htokens]) _).bind fun _ => pure _
    · exact warn _
  · exact warn _

theorem planSet : l.Program s (Machine.planSet s l) := by
  unfold Machine.planSet
  split
  · next first name mark rest htokens =>
    split
    · split
      · exact (warn _).bind fun _ => pure _
      · next function args =>
        refine (readName (by simp [htokens])).bind fun _ => planCall _ (fun arg harg => ?_) _
        simp [htokens, harg]
    · exact runSet.bind fun _ => pure _
  · exact runSet.bind fun _ => pure _

theorem addTo {name : String} (h : name ∈ l.tokens) (amount : Float) :
    l.Program s (Machine.addTo s l name amount) :=
  (readToken h).bind fun _ => (assignToken h _).bind fun _ => pure _

theorem runInc : l.Program s (Machine.runInc s l) := by
  unfold Machine.runInc
  split
  · next first name amount rest htokens =>
    refine (readName (by simp [htokens])).bind fun text => ?_
    split
    · exact addTo (by simp [htokens]) _
    · exact warn _
  · next first name htokens => exact addTo (by simp [htokens]) _
  · exact warn _

theorem runCat : l.Program s (Machine.runCat s l) := by
  unfold Machine.runCat
  split
  · next first name piece pieces htokens =>
    refine (readToken (by simp [htokens])).bind fun _ =>
        (readTokens fun token htoken => ?_).bind fun _ =>
      (assignToken (by simp [htokens]) _).bind fun _ => pure _
    rw [htokens]
    exact List.mem_cons_of_mem _ (List.mem_cons_of_mem _ htoken)
  · exact warn _

theorem runCallarg : l.Program s (Machine.runCallarg s l) := by
  unfold Machine.runCallarg
  split
  · next first index name htokens =>
    refine (readName (by simp [htokens])).bind fun text => look (fun m => ?_) fun m m' hown => ?_
    · dsimp only
      generalize ((toNumber? text).bind Number.toNat?).bind _ = value
      cases value with
      | some value => exact (assignToken (by simp [htokens]) _).bind fun _ => pure _
      | none => exact warn _
    · have hargs : m'.argsAt l.frame = m.argsAt l.frame := by
        rw [Machine.argsAt, Machine.argsAt, hown.frame]
      simp only [hargs]
  · exact warn _

theorem jumpTo {token : String} (h : token ∈ l.tokens) :
    l.Program s (Machine.jumpTo s l token) := by
  refine (readName h).bind fun name => look (fun m => ?_) fun m m' hown => ?_
  · split
    · exact pure _
    · exact warn _
  · simp only [hown.frame]

theorem runIf : l.Program s (Machine.runIf s l) := by
  unfold Machine.runIf
  split
  · next first left operator right label htokens =>
    refine (readToken (by simp [htokens])).bind fun x =>
      (readToken (by simp [htokens])).bind fun y => ?_
    split
    · exact warn _
    · exact jumpTo (by simp [htokens])
    · exact pure _
  · exact warn _

theorem runGoto : l.Program s (Machine.runGoto s l) := by
  unfold Machine.runGoto
  split
  · next first label htokens => exact jumpTo (by simp [htokens])
  · exact warn _

/-- A look at the frame, and then a change of it and a jump, or a warning. -/
theorem reroute {x : Machine → Act Machine Flow} {v : Machine → Option Nat} {u : Machine → Machine}
    (warning : LineWarning) (hv : ∀ m m', l.SameFrame m m' → v m' = v m)
    (hu : l.Program s (modify u))
    (hx : ∀ m, (x m).run m = ((v m).elim (Machine.warn l warning) fun index =>
      (modify u : Act Machine Unit) >>= fun _ => Pure.pure (Flow.jump (index + 1))).run m) :
    l.Program s (get >>= x) := by
  have hsame : (get >>= x) = (get >>= fun m => (v m).elim (Machine.warn l warning) fun index =>
      (modify u : Act Machine Unit) >>= fun _ => Pure.pure (Flow.jump (index + 1))) := funext hx
  rw [hsame]
  refine look (fun m => ?_) fun m m' hown => by rw [hv m m' hown]
  cases v m with
  | none => exact warn _
  | some index => exact hu.bind fun _ => pure _

theorem runGosub : l.Program s (Machine.runGosub s l) := by
  unfold Machine.runGosub
  split
  · next first name htokens =>
    refine (readName (by simp [htokens])).bind fun name => ?_
    refine reroute (v := fun m => (m.frames.get? l.frame).bind (·.gosubs.find? (labelKey name)))
      (.subroutineMissing (labelKey name)) (fun m m' hown => by rw [hown.frame])
        enterSub fun m => ?_
    cases (m.frames.get? l.frame).bind (·.gosubs.find? (labelKey name)) <;> rfl
  · exact warn _

theorem runEndsub : l.Program s (Machine.runEndsub l) := by
  refine reroute (v := fun m => (m.frames.get? l.frame).bind (·.returns.head?))
    .endsubUnmatched (fun m m' hown => by rw [hown.frame]) leaveSub fun m => ?_
  cases (m.frames.get? l.frame).bind (·.returns.head?) <;> rfl

theorem runBeginsub : l.Program s (Machine.runBeginsub l) := by
  refine look (fun m => ?_) fun m m' hown => ?_
  · dsimp only
    split
    · exact pure _
    · exact warn _
  · dsimp only
    rw [hown.frame]
    cases hf : m.frames.get? l.frame with
    | none => rfl
    | some frame =>
      have hsame : (frame.commands.drop (l.index + 1)).map m'.commands.get? =
          (frame.commands.drop (l.index + 1)).map m.commands.get? :=
        List.map_congr_left fun c hc => hown.command frame hf c (List.mem_of_mem_drop hc)
      have hfound := congrArg (List.findIdx? fun command => command.any (·.startsWith endsub)) hsame
      rw [List.findIdx?_map, List.findIdx?_map] at hfound
      simp only [Function.comp_def] at hfound
      simp only [hfound]

/-- **Every keyword is a program of its line.** -/
theorem planKeyword (keyword : Keyword) : l.Program s (Machine.planKeyword s l keyword) := by
  cases keyword with
  | set => exact planSet
  | call => exact planEnter
  | cond => exact runIf.map _
  | goto => exact runGoto.map _
  | gosub => exact runGosub.map _
  | leave => exact pure _
  | inc => exact runInc.map _
  | cat => exact runCat.map _
  | endsub => exact runEndsub.map _
  | beginsub => exact runBeginsub.map _
  | callarg => exact runCallarg.map _

/-- **Finding out what a line comes to** is a program of the line. -/
theorem plan (s : Setting) (l : Line) : l.Program s (Machine.plan s l) := by
  unfold Machine.plan
  split
  · exact pure _
  · next first rest htokens =>
    refine (readName (by simp [htokens])).bind fun name => ?_
    split
    · exact planKeyword _
    · exact planCall _ (fun arg harg => by simp [htokens, harg]) none

end Line.Program

namespace Machine

variable {m m' : Machine} {l : Line}

/-- **As long as the line stands, the computation makes changes of the line only**; as long as its
vantage is backed, it meets no broken link. -/
structure Runs (l : Line) {α : Type} (x : Act Machine α) : Prop where
  changes : ∀ m, l.In m → Changes l m (x.run m).state
  intact : ∀ m, l.In m → l.vantage.Backed m → ∀ d ∈ (x.run m).log, d.isIntegrity = false

/-- A computation that changes nothing runs for a line if it reports no broken link. -/
theorem Runs.of_state {α : Type} {x : Act Machine α} (h : ∀ m, (x.run m).state = m)
    (hintact : ∀ m, l.vantage.Backed m → ∀ d ∈ (x.run m).log, d.isIntegrity = false) : Runs l x :=
  ⟨fun m _ => (h m).symm ▸ .refl, fun m _ => hintact m⟩

/-- What runs for a line can be chained. -/
theorem Runs.bind {α β : Type} {x : Act Machine α} {y : α → Act Machine β} (hx : Runs l x)
    (hy : ∀ a, Runs l (y a)) : Runs l (x >>= y) where
  changes m hl := (hx.changes m hl).trans ((hy _).changes _ ((hx.changes m hl).edits.line hl))
  intact m hl hv := by
    have hedits := (hx.changes m hl).edits
    exact List.forall_mem_append.2
      ⟨hx.intact m hl hv, (hy _).intact _ (hedits.line hl) (hv.congr hedits.sameLinks)⟩

end Machine

/-- **A program of a line makes changes of the line only.** -/
theorem Line.Program.runs {s : Setting} {l : Line} {α : Type} {x : Act Machine α}
    (h : l.Program s x) :
    Machine.Runs l x := by
  induction h with
  | pure a => exact .of_state (fun _ => rfl) fun _ _ => List.forall_mem_nil _
  | bind _ _ hx hy => exact hx.bind hy
  | look _ _ hy => exact ⟨fun m hl => (hy m).changes m hl, fun m hl hv => (hy m).intact m hl hv⟩
  | warn warning => exact .of_state (fun _ => rfl) fun _ _ => List.forall_mem_singleton.2 rfl
  | readToken h => exact .of_state (Machine.state_readToken _ _ _) fun _ hv =>
    hv.intact_readToken _ _
  | entityOf =>
    refine .of_state (Machine.state_entityOf _) fun m hv => ?_
    have hlog : ((Machine.entityOf l.thread).run m).log = [] := hv.log_entityOf
    rw [hlog]
    exact List.forall_mem_nil _
  | @assignToken token h value =>
    refine ⟨fun m _ => ?_, fun m _ hv => hv.intact_assignToken token value⟩
    rw [Machine.state_assignToken]
    exact Machine.Changes.delivered m (some token) value
  | enterSub =>
    -- the return address is the line itself, so it lies within the frame
    refine ⟨fun m hl => ?_, fun _ _ _ => List.forall_mem_nil _⟩
    obtain ⟨frame, c, -, hf, -, hc, -⟩ := hl
    exact .single (.enterSub hf (List.getElem?_eq_some_iff.1 hc).1)
  | leaveSub =>
    refine ⟨fun m hl => ?_, fun _ _ _ => List.forall_mem_nil _⟩
    obtain ⟨frame, -, -, hf, -⟩ := hl
    exact .single (.leaveSub hf)

/-- **Planning a line runs for it**, whatever the line says. -/
theorem Machine.Runs.plan {l : Line} (s : Setting) : Runs l (plan s l) :=
  (Line.Program.plan s l).runs

/-! ## Questions to the host -/

/-- What a name, a label or a number of a line stands for. -/
def Line.nameOf (s : Setting) (l : Line) (m : Machine) (token : String) : String :=
  ((Machine.readName s l.vantage token).run m).value

/-- The call of a function with argument tokens. -/
def Line.callOf (s : Setting) (l : Line) (m : Machine) (name : String) (args : List String) :
    Call where
  thread := l.thread
  frame := l.frame
  entity := ((Machine.entityOf l.thread).run m).value
  name
  args := ((Machine.readTokens s l.vantage args).run m).value

/-- **The line asks the host for a function** with argument tokens: its first token is no command of
the language, or it is `set $x resultfrom function args…`, and then a token receives the result. -/
inductive Line.Asks (s : Setting) (l : Line) (m : Machine) :
    String → List String → Option String → Prop where
  | function {first : String} {args : List String} (htokens : l.tokens = first :: args)
    (hname : Keyword.ofName? (l.nameOf s m first) = none) :
    Asks s l m (l.nameOf s m first) args none
  | result {first token mark function : String} {args : List String}
    (htokens : l.tokens = first :: token :: mark :: function :: args)
    (hname : Keyword.ofName? (l.nameOf s m first) = some .set)
    (hmark : Text.sameKeyword mark resultFrom = true) :
    Asks s l m (l.nameOf s m function) args (some token)

/-- **The line enters a script**: it is `call script args…`. -/
inductive Line.Enters (s : Setting) (l : Line) (m : Machine) : String → List String → Prop where
  | call {first script : String} {args : List String} (htokens : l.tokens = first :: script :: args)
    (hname : Keyword.ofName? (l.nameOf s m first) = some .call) :
    Enters s l m (l.nameOf s m script) args

namespace Machine

variable {m : Machine} {l : Line} {s : Setting}

/-- A call is planned as the call that the line means, and nothing is changed. -/
theorem run_planCall (s : Setting) (l : Line) (m : Machine) (name : String) (args : List String)
    (assignTo : Option String) :
    ((planCall s l name args assignTo).run m).value = .ask (l.callOf s m name args) assignTo ∧
      ((planCall s l name args assignTo).run m).state = m := by
  simp only [planCall, Act.run_bind, state_entityOf, state_readTokens, Act.run_pure, and_true]
  rfl

/-- A line that names a command of the language does what the command does. -/
theorem run_plan_keyword {first : String} {rest : List String} {keyword : Keyword}
    (htokens : l.tokens = first :: rest)
    (hname : Keyword.ofName? (l.nameOf s m first) = some keyword) :
    ((plan s l).run m).value = ((planKeyword s l keyword).run m).value ∧
      ((plan s l).run m).state = ((planKeyword s l keyword).run m).state := by
  rw [Line.nameOf] at hname
  simp only [plan, htokens, Act.run_bind, state_readName, hname, and_self]

/-- **A line that asks** has changed nothing by then. -/
theorem run_plan_of_asks {name : String} {args : List String} {assignTo : Option String}
    (h : l.Asks s m name args assignTo) :
    ((plan s l).run m).value = .ask (l.callOf s m name args) assignTo ∧
      ((plan s l).run m).state = m := by
  cases h with
  | @function first _ htokens hname =>
    rw [Line.nameOf] at hname
    simp only [plan, htokens, Act.run_bind, state_readName, hname]
    exact run_planCall s l m _ args none
  | @result first token mark function _ htokens hname hmark =>
    obtain ⟨hvalue, hstate⟩ := run_plan_keyword htokens hname
    rw [hvalue, hstate]
    simp only [planKeyword, planSet, htokens, hmark, if_true, Act.run_bind, state_readName]
    exact run_planCall s l m _ args (some token)

/-- **A line that enters a script** has changed nothing by then. -/
theorem run_plan_of_enters {name : String} {args : List String} (h : l.Enters s m name args) :
    ((plan s l).run m).value = .enter name ((readTokens s l.vantage args).run m).value ∧
      ((plan s l).run m).state = m := by
  cases h with
  | @call first script _ htokens hname =>
    obtain ⟨hvalue, hstate⟩ := run_plan_keyword htokens hname
    rw [hvalue, hstate]
    simp only [planKeyword, planEnter, htokens, Act.run_bind, state_readName, state_readTokens,
      Act.run_pure, and_true]
    rfl

/-- **Every other line** says where to go on. -/
theorem plan_cases (s : Setting) (l : Line) (m : Machine) :
    (∃ flow, ((plan s l).run m).value = .go flow) ∨
      (∃ name args assignTo, l.Asks s m name args assignTo) ∨
      ∃ name args, l.Enters s m name args := by
  cases htokens : l.tokens with
  | nil => exact .inl ⟨.next, by simp only [plan, htokens, Act.run_pure]⟩
  | cons first rest =>
    cases hname : Keyword.ofName? (l.nameOf s m first) with
    | none => exact .inr (.inl ⟨_, _, _, .function htokens hname⟩)
    | some keyword =>
      obtain ⟨hvalue, -⟩ := run_plan_keyword htokens hname
      cases keyword with
      | set =>
        simp only [planKeyword, planSet, htokens] at hvalue
        split at hvalue
        · next token mark more heq =>
          cases heq
          split at hvalue
          · next hmark =>
            split at hvalue
            · rw [Act.run_bind, Act.run_pure] at hvalue
              exact .inl ⟨_, hvalue⟩
            · exact .inr (.inl ⟨_, _, _, .result htokens hname hmark⟩)
          · rw [Act.run_bind, Act.run_pure] at hvalue
            exact .inl ⟨_, hvalue⟩
        · rw [Act.run_bind, Act.run_pure] at hvalue
          exact .inl ⟨_, hvalue⟩
      | call =>
        simp only [planKeyword, planEnter, htokens] at hvalue
        split at hvalue
        · next script args heq =>
          cases heq
          exact .inr (.inr ⟨_, _, .call htokens hname⟩)
        · rw [Act.run_bind, Act.run_pure] at hvalue
          exact .inl ⟨_, hvalue⟩
      | leave => exact .inl ⟨_, hvalue⟩
      | _ =>
        simp only [planKeyword, Act.run_map] at hvalue
        exact .inl ⟨_, hvalue⟩

end Machine

end StepScript
