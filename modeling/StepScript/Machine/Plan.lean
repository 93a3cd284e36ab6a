import StepScript.Machine.Stack
import StepScript.Machine.Variable

/-!
# Machine/Plan — what a command does

A command that needs nothing from the host runs to its end and says where to go on. The others end
in a question: a function to call, or a script to enter. `plan` is that first part; what happens
with the host's answer is said in `StepScript.Host.Step`.
-/

namespace StepScript

/-- A command about to run. -/
structure Line where
  thread : ThreadHandle
  frame : FrameHandle
  /-- The index of the command in its frame. -/
  index : Nat
  /-- The number of commands of the frame. -/
  count : Nat
  source : SourceLine
  tokens : List String
deriving DecidableEq

/-- From where a line reads its tokens. -/
def Line.vantage (l : Line) : Vantage := ⟨l.thread, some l.frame, .source l.source⟩

/-- A function that the host is asked to call. -/
structure Call where
  thread : ThreadHandle
  frame : FrameHandle
  entity : Option EntityId
  name : String
  args : List String
deriving DecidableEq

/-- Where a frame goes on: at the next command, or at an index. -/
inductive Flow where
  | next
  | jump (index : Nat)
deriving DecidableEq

/-- **What a command comes to**: a place to go on, a call whose result a variable may receive, or a
script to enter with arguments. -/
inductive Plan where
  | go (flow : Flow)
  | ask (call : Call) (assignTo : Option String)
  | enter (script : String) (args : List String)
deriving DecidableEq

/-- The commands of the language; every other name is a function of the host. -/
inductive Keyword where
  | set
  | cond
  | goto
  | gosub
  | call
  | leave
  | inc
  | cat
  | endsub
  | beginsub
  | callarg
deriving DecidableEq

/-- The command with the given name, in any case. -/
def Keyword.ofName? (name : String) : Option Keyword :=
  match Text.asciiLower name with
  | "set" => some .set
  | "if" => some .cond
  | "goto" => some .goto
  | "gosub" => some .gosub
  | "call" => some .call
  | "return" => some .leave
  | "inc" => some .inc
  | "cat" => some .cat
  | "endsub" => some .endsub
  | "beginsub" => some .beginsub
  | "callarg" => some .callarg
  | _ => none

/-- The mark of `set $x resultfrom function …`. -/
def resultFrom : String := "resultfrom"

namespace Machine

variable (s : Setting) (l : Line)

/-- Warns about a line and goes on. -/
def warn (warning : LineWarning) : Act Machine Flow := do
  Act.report (.line l.source warning)
  return .next

/-! ## Calls -/

/-- The call of a function with argument tokens. -/
def planCall (name : String) (args : List String) (assignTo : Option String) :
    Act Machine Plan := do
  let entity ← entityOf l.thread
  let args ← readTokens s l.vantage args
  return .ask { thread := l.thread, frame := l.frame, entity, name, args } assignTo

/-- Enters a script: `call script args…`. -/
def planEnter : Act Machine Plan := do
  match l.tokens with
  | _ :: script :: args =>
    let name ← readName s l.vantage script
    let args ← readTokens s l.vantage args
    return .enter name args
  | _ => return .go (← warn l .callNeedsName)

/-! ## Variables -/

/-- Sets a variable to a value: `set $x value` or `set $x left operator right`. -/
def runSet : Act Machine Flow := do
  match l.tokens with
  | [_, name, value] =>
    let value ← readToken s l.vantage value
    let _ ← assignToken l.vantage name value
    return .next
  | [_, name, left, operator, right] =>
    let left ← readToken s l.vantage left
    let right ← readToken s l.vantage right
    match applyOperator operator left right with
    | .ok value =>
      let _ ← assignToken l.vantage name value
      return .next
    | .error fault => warn l (.setFailed name fault)
  | tokens => warn l (.setTokens tokens.length)

/-- Sets a variable, also to the result of a call: `set $x resultfrom function args…`. -/
def planSet : Act Machine Plan := do
  match l.tokens with
  | _ :: name :: mark :: rest =>
    if Text.sameKeyword mark resultFrom then
      match rest with
      | [] => return .go (← warn l .resultNeedsFunction)
      | function :: args =>
        let function ← readName s l.vantage function
        planCall s l function args (some name)
    else return .go (← runSet s l)
  | _ => return .go (← runSet s l)

/-- Adds an amount to a variable. -/
def addTo (name : String) (amount : Float) : Act Machine Flow := do
  let current ← readToken s l.vantage name
  let _ ← assignToken l.vantage name (Value.formatFloat (toNumber current + amount))
  return .next

/-- Adds to a variable: `inc $x` or `inc $x amount`. -/
def runInc : Act Machine Flow := do
  match l.tokens with
  | _ :: name :: amount :: _ =>
    let text ← readName s l.vantage amount
    match toNumber? text with
    | some amount => addTo s l name amount
    | none => warn l (.incAmount text)
  | [_, name] => addTo s l name 1.0
  | _ => warn l .incNeedsVariable

/-- Appends to a variable: `cat $x pieces…`. -/
def runCat : Act Machine Flow := do
  match l.tokens with
  | _ :: name :: piece :: pieces =>
    let value ← readToken s l.vantage name
    let pieces ← readTokens s l.vantage (piece :: pieces)
    let _ ← assignToken l.vantage name (pieces.foldl (· ++ ·) value)
    return .next
  | _ => warn l .catNeedsValue

/-- The arguments that the script of a frame was called with. -/
def argsAt (m : Machine) (f : FrameHandle) : List String :=
  match m.frames.get? f with
  | some frame => frame.args
  | none => []

/-- Fetches an argument of the script: `callarg index $x`. -/
def runCallarg : Act Machine Flow := do
  match l.tokens with
  | [_, index, name] =>
    let text ← readName s l.vantage index
    let args := (← get).argsAt l.frame
    match ((toNumber? text).bind Number.toNat?).bind (args[·]?) with
    | some value =>
      let _ ← assignToken l.vantage name value
      return .next
    | none => warn l (.argumentMissing text)
  | tokens => warn l (.callargTokens tokens.length)

/-! ## Jumps -/

/-- A jump to the label that a token names. It lands on the label itself. -/
def jumpTo (token : String) : Act Machine Flow := do
  let name ← readName s l.vantage token
  let key := labelKey name
  match ((← get).frames.get? l.frame).bind (·.gotos.find? key) with
  | some index => return .jump index
  | none => warn l (.labelMissing key)

/-- Jumps on a condition: `if left operator right label`. -/
def runIf : Act Machine Flow := do
  match l.tokens with
  | [_, left, operator, right, label] =>
    let left ← readToken s l.vantage left
    let right ← readToken s l.vantage right
    match compareTexts operator left right with
    | none => warn l (.unknownComparison operator)
    | some true => jumpTo s l label
    | some false => return .next
  | tokens => warn l (.ifTokens tokens.length)

/-- Jumps: `goto label`. -/
def runGoto : Act Machine Flow := do
  match l.tokens with
  | [_, label] => jumpTo s l label
  | tokens => warn l (.gotoTokens tokens.length)

/-- Enters a subroutine: `gosub name` remembers this line and goes on after the declaration. -/
def runGosub : Act Machine Flow := do
  match l.tokens with
  | [_, name] =>
    let name ← readName s l.vantage name
    let key := labelKey name
    let m ← get
    match (m.frames.get? l.frame).bind (·.gosubs.find? key) with
    | some index =>
      set (m.modifyFrame l.frame fun frame => { frame with returns := l.index :: frame.returns })
      return .jump (index + 1)
    | none => warn l (.subroutineMissing key)
  | tokens => warn l (.gosubTokens tokens.length)

/-- Leaves a subroutine: `endsub` goes on after the most recent open `gosub`. -/
def runEndsub : Act Machine Flow := do
  let m ← get
  match (m.frames.get? l.frame).bind (·.returns.head?) with
  | some index =>
    set (m.modifyFrame l.frame fun frame => { frame with returns := frame.returns.tail })
    return .jump (index + 1)
  | none => warn l .endsubUnmatched

/-- Skips a subroutine: `beginsub` goes on after the next `endsub`, so a subroutine is never entered
by falling into it. -/
def runBeginsub : Act Machine Flow := do
  let m ← get
  let following := match m.frames.get? l.frame with
    | some frame => frame.commands.drop (l.index + 1)
    | none => []
  let closes (h : CommandHandle) : Bool := (m.commands.get? h).any (·.startsWith endsub)
  match following.findIdx? closes with
  | some offset => return .jump (l.index + 1 + offset + 1)
  | none => warn l .beginsubUnmatched

/-! ## All commands -/

/-- A command of the language. -/
def planKeyword : Keyword → Act Machine Plan
  | .set => planSet s l
  | .call => planEnter s l
  | .cond => .go <$> runIf s l
  | .goto => .go <$> runGoto s l
  | .gosub => .go <$> runGosub s l
  | .leave => return .go (.jump l.count)
  | .inc => .go <$> runInc s l
  | .cat => .go <$> runCat s l
  | .endsub => .go <$> runEndsub l
  | .beginsub => .go <$> runBeginsub l
  | .callarg => .go <$> runCallarg s l

/-- **What a line comes to.** Its first token names a command of the language or a function of the
host. -/
def plan : Act Machine Plan := do
  match l.tokens with
  | [] => return .go .next
  | first :: rest =>
    let name ← readName s l.vantage first
    match Keyword.ofName? name with
    | some keyword => planKeyword s l keyword
    | none => planCall s l name rest none

end Machine

end StepScript
