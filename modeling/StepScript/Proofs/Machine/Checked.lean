import StepScript.Proofs.Machine.Bounded

/-!
# Proofs/Machine/Checked — the computations of a machine with every index checked

The tokens of a line are taken apart by pattern, and numbers have no end. Here the same computations
are written with indices into the list of tokens, with slices of it, and with numbers that must fit
a machine word; and the loops have a number of rounds. Each of these can fail, and then the
computation stops with a fault. On a machine within bounds none does: the checked computation is
*safe* for the plain one.

* `Checked`, `Checked.check` — computations that stop at the first fault.
* `Checked.Safe` — the checked computation meets no fault, and does what the plain one does.
* `Machine.scan?_eq`, `Checked.safe_settle`, `Table.search_eq` — the three loops end by themselves.
* `Checked.safe_plan`, `Checked.safe_prepare` — finding out what a line comes to, and readying a
  frame.
-/

namespace StepScript

/-! ## Computations that can fail -/

/-- **A checked computation** stops at the first fault: an index or a slice that is out of range, a
number that no machine word holds, or a loop that has used up its rounds. -/
structure Checked (σ α : Type) where
  run : Act σ (Option α)

/-- The elements from an index on; the index may be just past the last one. -/
def slice? {α : Type} (as : List α) (i : Nat) : Option (List α) :=
  if i ≤ as.length then some (as.drop i) else none

/-- A number, if a machine word holds it. -/
def word? (n : Nat) : Option Nat := if n < UInt64.size then some n else none

/-- A number that fits a machine word is had. -/
theorem word?_eq {n : Nat} (h : n < UInt64.size) : word? n = some n := if_pos h

namespace Checked

section Faults

variable {σ α β : Type} {s : σ}

instance : Monad (Checked σ) where
  pure a := ⟨pure (some a)⟩
  bind x f := ⟨x.run >>= fun o => o.elim (pure none) fun a => (f a).run⟩

/-- A computation without checks. -/
def plain (x : Act σ α) : Checked σ α :=
  ⟨fun s => ⟨some (x.run s).value, (x.run s).state, (x.run s).log⟩⟩

instance : MonadLift (Act σ) (Checked σ) := ⟨plain⟩

/-- Goes on with what a check gives, if it gives something. -/
def check (o : Option α) : Checked σ α := ⟨pure o⟩

/-- **The checked computation meets no fault** from the state `s`, and does what the plain one
does. -/
def Safe (x : Checked σ α) (y : Act σ α) (s : σ) : Prop :=
  x.run.run s = ⟨some (y.run s).value, (y.run s).state, (y.run s).log⟩

namespace Safe

/-- **Safe computations can be chained**: the second has to be safe where the first leads. -/
theorem bind {x : Checked σ α} {y : Act σ α} {f : α → Checked σ β} {g : α → Act σ β}
    (hx : Safe x y s) (hf : Safe (f (y.run s).value) (g (y.run s).value) (y.run s).state) :
    Safe (x >>= f) (y >>= g) s := by
  rw [Safe] at hx hf
  change (x.run >>= fun o => o.elim (Pure.pure none) fun a => (f a).run).run s = _
  rw [Act.run_bind, hx]
  dsimp only [Option.elim_some]
  rw [hf]
  rfl

theorem pure (a : α) : Safe (Pure.pure a) (Pure.pure a) s := rfl

/-- A computation that uses no index and no count is safe. -/
theorem lift (y : Act σ α) : Safe (liftM y) y s := rfl

theorem lift_bind {y : Act σ α} {f : α → Checked σ β} {g : α → Act σ β}
    (hf : Safe (f (y.run s).value) (g (y.run s).value) (y.run s).state) :
    Safe (liftM y >>= f) (y >>= g) s :=
  (lift y).bind hf

theorem plain_bind {y : Act σ α} {f : α → Checked σ β} {g : α → Act σ β}
    (hf : Safe (f (y.run s).value) (g (y.run s).value) (y.run s).state) :
    Safe (plain y >>= f) (y >>= g) s :=
  lift_bind hf

theorem get_bind {f : σ → Checked σ β} {g : σ → Act σ β} (hf : Safe (f s) (g s) s) :
    Safe (get >>= f) (get >>= g) s :=
  bind (lift get) hf

/-- Reading the state leaves no trace. -/
theorem peek_bind {f : σ → Checked σ β} {y : Act σ β} (hf : Safe (f s) y s) :
    Safe (get >>= f) y s := hf

theorem set_bind {s' : σ} {f : PUnit → Checked σ β} {g : PUnit → Act σ β}
    (hf : Safe (f ⟨⟩) (g ⟨⟩) s') :
    Safe (set s' >>= f) (set s' >>= g) s :=
  bind (lift (set s')) hf

theorem map {x : Checked σ α} {y : Act σ α} (f : α → β) (h : Safe x y s) :
    Safe (f <$> x) (f <$> y) s := by
  rw [map_eq_pure_bind f y]
  exact h.bind (pure _)

theorem ite {c : Prop} [Decidable c] {x x' : Checked σ α} {y y' : Act σ α} (h : Safe x y s)
    (h' : Safe x' y' s) :
    Safe (if c then x else x') (if c then y else y') s := by
  split
  · exact h
  · exact h'

/-- A check that succeeds leaves no trace. -/
theorem check_bind {o : Option α} {a : α} {f : α → Checked σ β} {y : Act σ β} (ho : o = some a)
    (hf : Safe (f a) y s) : Safe (check o >>= f) y s := by
  subst ho
  exact hf

end Safe

end Faults

end Checked

/-! ## New handles -/

namespace Table

variable {kind : String} {α : Type}

/-- The first handle from `h` on that is not in use, if it is met in so many rounds. -/
def search (t : Table kind α) : Nat → Handle kind → Option (Handle kind)
  | 0, _ => none
  | rounds + 1, h => if t.contains h then t.search rounds h.next else some h

/-- The search for a free handle comes to the one that is given out, within one step more than there
are objects. -/
theorem search_of_free {t : Table kind α} {es : List (Handle kind × α)} {h : Handle kind}
    (hfree : t.get? (t.freeFrom es h) = none) :
    t.search (es.length + 1) h = some (t.freeFrom es h) := by
  induction es generalizing h with
  | nil =>
    rw [freeFrom] at hfree ⊢
    rw [search, if_neg (by rw [contains_eq, hfree]; simp)]
  | cons e es ih =>
    rw [freeFrom] at hfree ⊢
    rw [List.length_cons, search]
    by_cases hc : t.contains h = true
    · rw [if_pos hc] at hfree
      rw [if_pos hc, if_pos hc]
      exact ih hfree
    · rw [if_neg hc, if_neg hc]

/-- **The search for a new handle ends** unless every handle is in use: it passes no handle
twice. -/
theorem search_eq {t : Table kind α} (hproper : t.Proper) (hroom : ¬ t.Full) :
    t.search (t.objects.entries.length + 1) t.next = some t.fresh :=
  search_of_free (get?_fresh hproper.next hroom)

/-- Adds an object, if the search for a handle ends. -/
def create? (t : Table kind α) (a : α) : Option (Handle kind × Table kind α) := do
  let h ← t.search (t.objects.entries.length + 1) t.next
  return (h, { next := h.next, objects := t.objects.insert h a })

/-- A table that is not full finds a handle for a new object. -/
theorem create?_eq {t : Table kind α} (hproper : t.Proper) (hroom : ¬ t.Full) (a : α) :
    t.create? a = some (t.create a) := by
  rw [create?, search_eq hproper hroom]
  rfl

/-- Adds objects, in order. -/
def createAll? (t : Table kind α) : List α → Option (List (Handle kind) × Table kind α)
  | [] => some ([], t)
  | a :: as => do
    let (h, t) ← t.create? a
    let (hs, t) ← t.createAll? as
    return (h :: hs, t)

/-- It does so for one object after the other, if there is room at the end. -/
theorem createAll?_eq {t : Table kind α} {as : List α} (hproper : t.Proper)
    (hroom : ¬ (t.createAll as).2.Full) : t.createAll? as = some (t.createAll as) := by
  induction as generalizing t with
  | nil => rfl
  | cons a as ih =>
    have hfirst : ¬ t.Full := fun hfull => hroom (hfull.createAll (a :: as))
    rw [createAll_cons] at hroom ⊢
    rw [createAll?, create?_eq hproper hfirst, Option.bind_eq_bind, Option.bind_some]
    dsimp only
    rw [ih (hproper.create a) hroom]
    rfl

/-- Finds an object, or adds one. -/
def findOrCreate? (t : Table kind α) (p : α → Bool) (a : α) :
    Option ((Handle kind × Bool) × Table kind α) :=
  match t.findHandle? p with
  | some h => some ((h, false), t)
  | none => (t.create? a).map fun r => ((r.1, true), r.2)

theorem findOrCreate?_eq {t : Table kind α} (hproper : t.Proper) (hroom : ¬ t.Full) (p : α → Bool)
    (a : α) :
    t.findOrCreate? p a = some (t.findOrCreate p a) := by
  rw [findOrCreate?, findOrCreate, create?_eq hproper hroom]
  cases t.findHandle? p <;> rfl

end Table

/-! ## Commands -/

namespace Checked

section Commands

variable (s : Setting) (l : Line)

/-- Enters a script; the arguments are the tokens from the third on. -/
def planEnter : Checked Machine Plan := do
  if l.tokens.length < 2 then return .go (← Machine.warn l .callNeedsName)
  else
    let name ← Machine.readName s l.vantage (l.tokens.getD 1 "")
    let args ← Machine.readTokens s l.vantage (← check (slice? l.tokens 2))
    return .enter name args

/-- Sets a variable, its tokens looked up one by one. -/
def runSet : Checked Machine Flow := do
  if l.tokens.length = 3 then
    let value ← Machine.readToken s l.vantage (← check l.tokens[2]?)
    let _ ← Machine.assignToken l.vantage (← check l.tokens[1]?) value
    return .next
  else if l.tokens.length = 5 then
    let left ← Machine.readToken s l.vantage (← check l.tokens[2]?)
    let right ← Machine.readToken s l.vantage (← check l.tokens[4]?)
    match applyOperator (← check l.tokens[3]?) left right with
    | .ok value =>
      let _ ← Machine.assignToken l.vantage (← check l.tokens[1]?) value
      return .next
    | .error fault => Machine.warn l (.setFailed (← check l.tokens[1]?) fault)
  else Machine.warn l (.setTokens l.tokens.length)

/-- Sets a variable, also to the result of a call, whose arguments are the tokens from the fifth
on. -/
def planSet : Checked Machine Plan := do
  if l.tokens.length < 3 then return .go (← runSet s l)
  else if Text.sameKeyword (← check l.tokens[2]?) resultFrom then
    match l.tokens[3]? with
    | none => return .go (← Machine.warn l .resultNeedsFunction)
    | some function =>
      let function ← Machine.readName s l.vantage function
      let args ← check (slice? l.tokens 4)
      let name ← check l.tokens[1]?
      Machine.planCall s l function args (some name)
  else return .go (← runSet s l)

/-- Appends to a variable the tokens from the third on. -/
def runCat : Checked Machine Flow := do
  if l.tokens.length < 3 then Machine.warn l .catNeedsValue
  else
    let name := l.tokens.getD 1 ""
    let value ← Machine.readToken s l.vantage name
    let pieces ← Machine.readTokens s l.vantage (← check (slice? l.tokens 2))
    let _ ← Machine.assignToken l.vantage name (pieces.foldl (· ++ ·) value)
    return .next

/-- Enters a subroutine, at a command that must be countable. -/
def runGosub : Checked Machine Flow := do
  if l.tokens.length ≠ 2 then Machine.warn l (.gosubTokens l.tokens.length)
  else
    let name ← Machine.readName s l.vantage (l.tokens.getD 1 "")
    let key := labelKey name
    let m ← get
    match (m.frames.get? l.frame).bind (·.gosubs.find? key) with
    | some index =>
      set (m.modifyFrame l.frame fun frame => { frame with returns := l.index :: frame.returns })
      return .jump (← check (word? (index + 1)))
    | none => Machine.warn l (.subroutineMissing key)

/-- Leaves a subroutine, to a command that must be countable. -/
def runEndsub : Checked Machine Flow := do
  let m ← get
  match (m.frames.get? l.frame).bind (·.returns.head?) with
  | some index =>
    set (m.modifyFrame l.frame fun frame => { frame with returns := frame.returns.tail })
    return .jump (← check (word? (index + 1)))
  | none => Machine.warn l .endsubUnmatched

/-- Skips a subroutine; the commands are counted up from the line. -/
def runBeginsub : Checked Machine Flow := do
  let m ← get
  let start ← check (word? (l.index + 1))
  let following := match m.frames.get? l.frame with
    | some frame => frame.commands.drop start
    | none => []
  let closes (h : CommandHandle) : Bool := (m.commands.get? h).any (·.startsWith endsub)
  match following.findIdx? closes with
  | some offset => return .jump (← check (word? (start + offset + 1)))
  | none => Machine.warn l .beginsubUnmatched

/-- A command of the language. The others look nothing up that need be there. -/
def planKeyword : Keyword → Checked Machine Plan
  | .set => planSet s l
  | .call => planEnter s l
  | .gosub => .go <$> runGosub s l
  | .cat => .go <$> runCat s l
  | .endsub => .go <$> runEndsub l
  | .beginsub => .go <$> runBeginsub l
  | keyword => Machine.planKeyword s l keyword

/-- What a line comes to. -/
def plan : Checked Machine Plan := do
  match l.tokens.head? with
  | none => return .go .next
  | some first =>
    let name ← Machine.readName s l.vantage first
    match Keyword.ofName? name with
    | some keyword => planKeyword s l keyword
    | none => Machine.planCall s l name (← check (slice? l.tokens 1)) none

end Commands

variable {s : Setting} {l : Line} {m : Machine} {f : FrameHandle} {t : ThreadHandle}

theorem safe_planEnter : Safe (planEnter s l) (Machine.planEnter s l) m := by
  unfold planEnter Machine.planEnter
  rcases l.tokens with _ | ⟨first, _ | ⟨script, args⟩⟩
  · exact .lift_bind (.pure _)
  · exact .lift_bind (.pure _)
  · exact .lift_bind (.check_bind rfl (.lift_bind (.pure _)))

theorem safe_runSet : Safe (runSet s l) (Machine.runSet s l) m := by
  unfold runSet Machine.runSet
  rcases l.tokens with _ | ⟨a, _ | ⟨b, _ | ⟨c, _ | ⟨d, _ | ⟨e, _ | ⟨x, rest⟩⟩⟩⟩⟩⟩
  · exact .lift _
  · exact .lift _
  · exact .lift _
  · refine .check_bind rfl (.lift_bind (.check_bind rfl (.lift_bind ?_)))
    exact .pure _
  · exact .lift _
  · refine .check_bind rfl (.lift_bind (.check_bind rfl (.lift_bind (.check_bind rfl ?_))))
    cases applyOperator d _ _ with
    | ok value =>
      refine .check_bind rfl (.lift_bind ?_)
      exact .pure _
    | error fault => exact .check_bind rfl (.lift _)
  · rw [if_neg (by simp), if_neg (by simp)]
    exact .lift _

theorem safe_planSet : Safe (planSet s l) (Machine.planSet s l) m := by
  have hset :
      Safe (do return Plan.go (← runSet s l)) (do return Plan.go (← Machine.runSet s l)) m :=
    safe_runSet.bind (.pure _)
  unfold planSet Machine.planSet
  rcases l.tokens with _ | ⟨a, _ | ⟨b, _ | ⟨c, rest⟩⟩⟩
  · exact hset
  · exact hset
  · exact hset
  · rw [if_neg (by simp)]
    refine .check_bind rfl ?_
    dsimp only
    by_cases hmark : Text.sameKeyword c resultFrom = true
    · rw [if_pos hmark, if_pos hmark]
      rcases rest with _ | ⟨function, args⟩
      · exact .lift_bind (.pure _)
      · exact .lift_bind (.check_bind rfl (.check_bind rfl (.lift _)))
    · rw [if_neg hmark, if_neg hmark]
      exact hset

theorem safe_runCat : Safe (runCat s l) (Machine.runCat s l) m := by
  unfold runCat Machine.runCat
  rcases l.tokens with _ | ⟨a, _ | ⟨b, _ | ⟨c, rest⟩⟩⟩
  · exact .lift _
  · exact .lift _
  · exact .lift _
  · rw [if_neg (by simp)]
    refine .lift_bind (.check_bind rfl (.lift_bind (.lift_bind ?_)))
    exact .pure _

/-- A `gosub` keeps its index, which fits a word as its frame has no more commands than that. -/
theorem safe_runGosub (hm : m.Bounded) : Safe (runGosub s l) (Machine.runGosub s l) m := by
  unfold runGosub Machine.runGosub
  rcases l.tokens with _ | ⟨a, _ | ⟨b, _ | ⟨c, rest⟩⟩⟩
  · exact .lift _
  · exact .lift _
  · refine .lift_bind (.get_bind ?_)
    rw [Machine.state_readName]
    simp only [List.getD_cons_succ, List.getD_cons_zero]
    cases hgosub : (m.frames.get? l.frame).bind
        (·.gosubs.find? (labelKey ((Machine.readName s l.vantage b).run m).value)) with
    | none => exact .lift _
    | some index =>
      obtain ⟨frame, hframe, hindex⟩ := Option.bind_eq_some_iff.1 hgosub
      exact .set_bind (.check_bind (word?_eq ((hm.frame _ _ hframe).gosub _ _ hindex)) (.pure _))
  · exact .lift _

/-- An `endsub` adds one to an index that can be counted up. -/
theorem safe_runEndsub (hm : m.Bounded) : Safe (runEndsub l) (Machine.runEndsub l) m := by
  unfold runEndsub Machine.runEndsub
  refine .get_bind ?_
  cases hreturn : (m.frames.get? l.frame).bind (·.returns.head?) with
  | none => exact .lift _
  | some index =>
    obtain ⟨frame, hframe, hindex⟩ := Option.bind_eq_some_iff.1 hreturn
    exact .set_bind (.check_bind
      (word?_eq ((hm.frame _ _ hframe).returns _ (List.mem_of_mem_head? hindex))) (.pure _))

/-- A return address that cannot be counted up is a fault. -/
example :
    ((runEndsub ⟨⟨1⟩, ⟨1⟩, 0, 1, ⟨"main", 1⟩, ["endsub"]⟩).run.run
      { frames := Table.ofObjects ((∅ : Assoc _ _ _).insert ⟨1⟩
          { thread := ⟨1⟩, script := "main", dialect := .line, commands := [⟨1⟩], gotos := ∅,
            gosubs := ∅, returns := [18446744073709551615] }) }).value = none := by
  decide +kernel

/-- A `beginsub` looks for its end among the commands behind it, which there are. -/
theorem safe_runBeginsub (hm : m.Bounded) (hl : l.In m) :
    Safe (runBeginsub l) (Machine.runBeginsub l) m := by
  obtain ⟨frame, c, -, hframe, -, hc, -⟩ := hl
  have hcount := (hm.frame _ _ hframe).count
  have hindex := (List.getElem?_eq_some_iff.1 hc).1
  unfold runBeginsub Machine.runBeginsub
  refine .get_bind (.check_bind (word?_eq (by omega)) ?_)
  rw [hframe]
  dsimp only
  -- the `endsub` is one of the commands, and what follows it is at most past the last of them
  cases hoffset : (frame.commands.drop (l.index + 1)).findIdx? fun h =>
      (m.commands.get? h).any (·.startsWith endsub) with
  | none => exact .lift _
  | some offset =>
    have hlt := (List.findIdx?_eq_some_iff_getElem.1 hoffset).1
    rw [List.length_drop] at hlt
    exact .check_bind (word?_eq (by omega)) (.pure _)

/-- **Every command is safe** in a machine within bounds. -/
theorem safe_planKeyword (hm : m.Bounded) (hl : l.In m) (keyword : Keyword) :
    Safe (planKeyword s l keyword) (Machine.planKeyword s l keyword) m := by
  cases keyword with
  | set => exact safe_planSet
  | call => exact safe_planEnter
  | gosub => exact (safe_runGosub hm).map _
  | cat => exact safe_runCat.map _
  | endsub => exact (safe_runEndsub hm).map _
  | beginsub => exact (safe_runBeginsub hm hl).map _
  | _ => exact .lift _

/-- **Finding out what a line comes to meets no fault.** -/
theorem safe_plan (hm : m.Bounded) (hl : l.In m) : Safe (plan s l) (Machine.plan s l) m := by
  unfold plan Machine.plan
  rcases l.tokens with _ | ⟨first, rest⟩
  · exact .pure _
  · refine .lift_bind ?_
    rw [Machine.state_readName]
    cases Keyword.ofName? ((Machine.readName s l.vantage first).run m).value with
    | none => exact .check_bind rfl (.lift _)
    | some keyword => exact safe_planKeyword hm hl keyword

end Checked

/-! ## Scanning -/

/-- Whether a command can run, its first token being looked up by index. -/
def Command.runnable? (c : Command) : Option Bool :=
  if c.tokens.isEmpty || c.isLabel then some false
  else c.tokens[0]?.map fun first => first.toList.head? != some ';'

/-- Whether a command can run is found out without reading past its tokens. -/
theorem Command.runnable?_eq (c : Command) : c.runnable? = some c.isRunnable := by
  unfold runnable? isRunnable
  rcases c with ⟨number, _ | ⟨first, rest⟩⟩
  · rfl
  · cases Command.isLabel ⟨number, first :: rest⟩ <;> simp

/-- The scan as a loop over indices, of at most so many rounds. -/
def Machine.scan? (m : Machine) (commands : List CommandHandle) : Nat → Nat → Option Scan
  | 0, _ => none
  | rounds + 1, index =>
    match commands[index]? with
    | none => some { readiness := .exhausted, index }
    | some h =>
      match m.commands.get? h with
      | none => do
        let rest ← m.scan? commands rounds (← word? (index + 1))
        return { rest with missing := h :: rest.missing }
      | some c => do
        if ← c.runnable? then some { readiness := .ready, index }
        else m.scan? commands rounds (← word? (index + 1))

/-- **The scan ends** after at most one round for each command and one more, and no index in it
overflows. -/
theorem Machine.scan?_eq (m : Machine) {commands : List CommandHandle}
    (hcount : commands.length < UInt64.size) {rounds index : Nat}
    (h : commands.length ≤ index + rounds) :
    m.scan? commands (rounds + 1) index = some (m.scanFrom index (commands.drop index)) := by
  induction rounds generalizing index with
  | zero =>
    rw [Nat.add_zero] at h
    rw [scan?, List.getElem?_eq_none h, List.drop_eq_nil_of_le h]
    rfl
  | succ rounds ih =>
    rw [scan?]
    cases hget : commands[index]? with
    | none =>
      rw [List.drop_eq_nil_of_le (List.getElem?_eq_none_iff.1 hget)]
      rfl
    | some c =>
      obtain ⟨hlt, heq⟩ := List.getElem?_eq_some_iff.1 hget
      have hnext := @ih (index + 1) (by omega)
      rw [List.drop_eq_getElem_cons hlt, heq, scanFrom]
      dsimp only
      rw [word?_eq (by omega)]
      cases m.commands.get? c with
      | none => simp [hnext]
      | some command =>
        dsimp only
        rw [command.runnable?_eq]
        cases command.isRunnable <;> simp [hnext]

/-! ## Readying a frame -/

namespace Machine

variable {m : Machine} {f : FrameHandle} {t : ThreadHandle}

/-- The number of entries on the stack of an invocation. -/
def depth (m : Machine) (t : ThreadHandle) : Nat := ((m.stackAt t).getD []).length

/-- A stack is as deep as what is left of it when a frame leaves. -/
theorem depth_unstack (m : Machine) (t : ThreadHandle) (f : FrameHandle) :
    (m.unstack t f).depth t = (((m.stackAt t).getD []).filter (· ≠ f)).length := by
  rw [depth, stackAt, get?_threads_unstack, if_pos rfl, stackAt]
  cases m.threads.get? t <;> rfl

/-- Without its innermost frame a stack is shorter, also if the frame is on it several times. -/
theorem depth_unstack_lt (h : m.frameOf t = some f) : (m.unstack t f).depth t < m.depth t := by
  obtain ⟨below, hstack⟩ := stackAt_of_frameOf h
  rw [depth_unstack, depth, hstack, Option.getD_some, List.filter_cons_of_neg (by simp),
    List.length_cons]
  exact Nat.lt_succ_of_le (List.length_filter_le _ _)

@[simp] theorem depth_removeFrame (m : Machine) (f : FrameHandle) (t : ThreadHandle) :
    (m.removeFrame f).depth t = m.depth t := by
  rw [depth, stackAt, threads_removeFrame]
  rfl

end Machine

namespace Checked

variable {m : Machine} {f : FrameHandle} {t : ThreadHandle}

/-- Moves a frame's cursor. A scan has one round for each command, and one to find the end. -/
def ensureReady (f : FrameHandle) : Checked Machine (Except Failure Readiness) := do
  let m ← get
  match m.frames.get? f with
  | none => return .error (Cause.staleFrame f).failure
  | some frame =>
    match frame.readiness with
    | .unknown =>
      let found ← check (m.scan? frame.commands (frame.commands.length + 1) frame.cursor)
      plain (Act.reportAll (found.missing.map (.missingCommand f)))
      set (m.modifyFrame f fun frame =>
        { frame with
          cursor := min found.index frame.commands.length
          readiness := found.readiness })
      return .ok found.readiness
    | known => return .ok known

/-- Drops exhausted frames from the top of a stack. A loop that has used up its rounds is a
fault. -/
def settle : Nat → ThreadHandle → Checked Machine Signal
  | 0, _ => check none
  | rounds + 1, t => do
    match (← get).frameOf t with
    | none =>
      modify (·.cleanup t)
      return .finished
    | some top =>
      match ← ensureReady top with
      | .ok .exhausted =>
        modify fun m => (m.unstack t top).removeFrame top
        settle rounds t
      | .ok _ => return .pending
      | .error failure =>
        plain (Act.report (.unusableFrame top failure))
        modify (·.unstack t top)
        settle rounds t

/-- Takes an exhausted frame off its stack. There is one round for each frame on it, and one to find
it empty. -/
def popFrame (t : ThreadHandle) (f : FrameHandle) : Checked Machine Signal := do
  let m ← get
  match m.threads.get? t with
  | none =>
    set (m.removeFrame f)
    return .idle
  | some thread =>
    if thread.top? ≠ some f then plain (Act.report (.notOnTop f t))
    set ((m.unstack t f).removeFrame f)
    settle (thread.stack.length + 1) t

/-- The command at a frame's cursor; past one that is gone the cursor is counted up. -/
def loadLine (t : ThreadHandle) (f : FrameHandle) :
    Checked Machine (Except Failure Machine.Readied) := do
  let m ← get
  match m.frames.get? f with
  | none => return .error (Cause.staleFrame f).failure
  | some frame =>
    match frame.commands[frame.cursor]?.bind m.commands.get? with
    | none =>
      plain (Act.report (.lostCommand frame.script f frame.cursor))
      set (m.moveCursor f (← check (word? (frame.cursor + 1))))
      return .ok (.settled .pending)
    | some c =>
      return .ok (.line {
        thread := t, frame := f, index := frame.cursor, count := frame.commands.length,
        source := ⟨frame.script, c.line⟩, tokens := c.tokens })

/-- Readies a frame for a step. -/
def prepare (f : FrameHandle) : Checked Machine (Except Failure Machine.Readied) := do
  let m ← get
  match m.frames.get? f with
  | none => return .ok (.settled .idle)
  | some frame =>
    match ← Machine.threadOf f with
    | .error failure => return .error failure
    | .ok t =>
      if m.frameOf t ≠ some f then return .ok (.settled .idle)
      else if frame.pending.isSome then return .ok (.settled .idle)
      else
        match ← ensureReady f with
        | .error failure => return .error failure
        | .ok .exhausted => return .ok (.settled (← popFrame t f))
        | .ok _ => loadLine t f

/-- A scan starts at the cursor, which is no further than the end. -/
theorem safe_ensureReady (hm : m.Bounded) (f : FrameHandle) :
    Safe (ensureReady f) (Machine.ensureReady f) m := by
  unfold ensureReady Machine.ensureReady
  refine .get_bind ?_
  cases hf : m.frames.get? f with
  | none => exact .pure _
  | some frame =>
    dsimp only
    rcases frame.readiness
    · refine .check_bind (m.scan?_eq (hm.frame f frame hf).count (by omega)) ?_
      exact .lift_bind (.set_bind (.pure _))
    · exact .pure _
    · exact .pure _

/-- **Taking exhausted frames off a stack ends**: every round takes the innermost frame off. -/
theorem safe_settle {n : Nat} (hm : m.Bounded) (hdepth : m.depth t ≤ n) :
    Safe (settle (n + 1) t) (Machine.settle n t) m := by
  induction n generalizing m with
  | zero =>
    have hnone : m.frameOf t = none := by
      rw [Machine.frameOf_eq_head?]
      have hnil := List.eq_nil_of_length_eq_zero (Nat.le_zero.1 hdepth)
      cases hstack : m.stackAt t with
      | none => rfl
      | some stack =>
        rw [hstack] at hnil
        cases hnil
        rfl
    -- the last round finds the stack empty
    unfold settle
    refine .peek_bind ?_
    rw [hnone]
    exact .lift_bind (.pure _)
  | succ n ih =>
    unfold settle Machine.settle
    refine .get_bind ?_
    cases htop : m.frameOf t with
    | none => exact .lift_bind (.pure _)
    | some top =>
      have hready := hm.ensureReady top
      have hlower : (((Machine.ensureReady top).run m).state.unstack t top).depth t ≤ n := by
        have hlt := Machine.depth_unstack_lt htop
        rw [Machine.depth_unstack] at hlt ⊢
        rw [(Machine.edits_ensureReady top m).sameLinks.stackAt]
        omega
      refine (safe_ensureReady hm top).bind ?_
      rcases ((Machine.ensureReady top).run m).value with failure | _ | _ | _
      · exact .lift_bind (.lift_bind (ih (hready.unstack t top) hlower))
      · exact .pure _
      · exact .pure _
      · exact .lift_bind (ih (hready.leave t top)
          (Nat.le_trans (Nat.le_of_eq (Machine.depth_removeFrame _ top t)) hlower))

/-- Unwinding takes one round for each frame on the stack and one to find it empty. -/
theorem safe_popFrame (hm : m.Bounded) (t : ThreadHandle) (f : FrameHandle) :
    Safe (popFrame t f) (Machine.popFrame t f) m := by
  unfold popFrame Machine.popFrame
  refine .get_bind ?_
  cases ht : m.threads.get? t with
  | none => exact .set_bind (.pure _)
  | some thread =>
    have hdepth : ((m.unstack t f).removeFrame f).depth t ≤ thread.stack.length := by
      rw [Machine.depth_removeFrame, Machine.depth_unstack, Machine.stackAt, ht]
      exact List.length_filter_le _ _
    have hrest : Safe (do set ((m.unstack t f).removeFrame f); settle (thread.stack.length + 1) t)
        (do set ((m.unstack t f).removeFrame f); Machine.settle thread.stack.length t) m :=
      .set_bind (safe_settle (hm.leave t f) hdepth)
    dsimp only
    split
    · exact .lift_bind hrest
    · exact hrest

/-- The line that a scan found is there to be loaded. -/
theorem safe_loadLine (hm : m.Bounded) (t : ThreadHandle) {frame : Frame}
    (hf : m.frames.get? f = some frame) (hready : frame.readiness = .ready) :
    Safe (loadLine t f) (Machine.loadLine t f) m := by
  unfold loadLine Machine.loadLine
  refine .get_bind ?_
  rw [hf]
  dsimp only
  cases frame.commands[frame.cursor]?.bind m.commands.get? with
  | some c => exact .pure _
  | none =>
    have hbounded := hm.frame f frame hf
    have hcursor := hbounded.ready hready
    have hcount := hbounded.count
    exact .lift_bind (.check_bind (word?_eq (by omega)) (.set_bind (.pure _)))

/-- **Readying a frame meets no fault.** -/
theorem safe_prepare (hm : m.Bounded) (f : FrameHandle) :
    Safe (prepare f) (Machine.prepare f) m := by
  unfold prepare Machine.prepare
  refine .get_bind ?_
  cases hf : m.frames.get? f with
  | none => exact .pure _
  | some frame =>
    refine .lift_bind ?_
    rw [Machine.state_threadOf]
    rcases ((Machine.threadOf f).run m).value with failure | t
    · exact .pure _
    · dsimp only
      split
      · exact .pure _
      · split
        · exact .pure _
        · obtain ⟨ready, hready, hvalue, hknown⟩ := Machine.readiness_ensureReady hf
          have hbounded := hm.ensureReady f
          refine (safe_ensureReady hm f).bind ?_
          rw [hvalue]
          -- only a frame that is ready has its line loaded, so its cursor is at one of its commands
          cases hcases : ready.readiness with
          | unknown => exact absurd hcases hknown
          | ready => exact safe_loadLine hbounded t hready hcases
          | exhausted => exact (safe_popFrame hbounded t f).bind (.pure _)

/-! ## After a command -/

/-- Goes on where a flow says; past the line the index is counted up. -/
def follow (l : Line) (flow : Flow) : Checked Machine Unit := do
  let index ← match flow with
    | .next => check (word? (l.index + 1))
    | .jump index => pure index
  modify (·.moveCursor l.frame index)

/-- Takes the host's answer to a call; a frame that waits does so past the line. -/
def takeAnswer (l : Line) (call : Call) (assignTo : Option String)
    (answer : Except Failure Completion) : Checked Machine Signal := do
  match answer with
  | .ok (.ready value) =>
    modify (·.modifyFrame l.frame fun frame => { frame with result := value })
    match assignTo with
    | some token => let _ ← Machine.assignToken l.vantage token value
    | none => pure ()
    follow l .next
    return .pending
  | .ok .pending =>
    let index ← check (word? (l.index + 1))
    modify (·.modifyFrame l.frame fun frame =>
      { frame with
        cursor := index
        readiness := .unknown
        pending := some { function := call.name, source := l.source, assignTo } })
    return .idle
  | .error failure =>
    follow l (← Machine.warn l (.commandFailed call.name failure))
    return .pending

/-- Following a flow counts one past an index that can be counted up. -/
theorem safe_follow {l : Line} (hl : l.index + 1 < UInt64.size) (flow : Flow) :
    Safe (follow l flow) (Machine.follow l flow) m := by
  cases flow with
  | next => exact .check_bind (word?_eq hl) (.lift _)
  | jump index => exact .lift _

theorem safe_takeAnswer {l : Line} (hl : l.index + 1 < UInt64.size) (call : Call)
    (assignTo : Option String) (answer : Except Failure Completion) :
    Safe (takeAnswer l call assignTo answer) (Machine.takeAnswer l call assignTo answer) m := by
  rcases answer with failure | value | _
  · exact .lift_bind ((safe_follow hl _).bind (.pure _))
  · refine .lift_bind ?_
    cases assignTo with
    | none => exact (safe_follow hl .next).bind (.pure _)
    | some token =>
      refine .lift_bind ?_
      exact (safe_follow hl .next).bind (.pure _)
  · exact .check_bind (word?_eq hl) (.lift_bind (.pure _))

/-! ## Entering a script -/

/-- Puts a script on top of an invocation's stack. -/
def pushScript (t : ThreadHandle) (script : Script) (args : List String) :
    Checked Machine (Except Failure FrameHandle) := do
  let m ← get
  let (commandHandles, commands) ← check (m.commands.createAll? script.commands)
  let (f, frames) ← check (m.frames.create? (Machine.newFrame t script commandHandles args))
  let m := { m with commands, frames }
  if m.threads.contains t then
    set (m.modifyThread t fun thread => { thread with stack := f :: thread.stack })
    return .ok f
  else
    set (m.removeFrame f)
    return .error (Cause.staleThread t).failure

/-- **Entering a script meets no fault** as long as there are handles left. -/
theorem safe_pushScript {script : Script} (hm : m.Proper)
    (hcommands : ¬ (m.commands.createAll script.commands).2.Full) (hframes : ¬ m.frames.Full)
    (t : ThreadHandle) (args : List String) :
    Safe (pushScript t script args) (Machine.pushScript t script args) m := by
  unfold pushScript Machine.pushScript
  refine .get_bind (.check_bind (Table.createAll?_eq hm.commands hcommands) ?_)
  refine .check_bind (Table.create?_eq hm.frames hframes _) ?_
  dsimp only
  split
  · exact .set_bind (.pure _)
  · exact .set_bind (.pure _)

end Checked

end StepScript
