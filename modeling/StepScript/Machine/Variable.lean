import StepScript.Machine.Basic
import StepScript.Setting

/-!
# Machine/Variable — tokens and variables

A token is a literal, a variable or `$$`, the result of the last external call. A variable lives in
one of four scopes: the frame (`$x` or `$local#x`), the invocation (`$thread#x`), the entity
(`$target#x`) or the whole machine (`$global#x`). Names do not distinguish case. An unset variable
reads as the empty text.

* `TokenRef.of` — what a token refers to.
* `readToken`, `assignToken` — its value, and giving it one.
-/

namespace StepScript

/-! ## Tokens -/

/-- Where a variable lives. -/
inductive Scope where
  | frame
  | thread
  | target
  | global
deriving DecidableEq

/-- The scope with the given name, in any case. -/
def Scope.ofName? (name : String) : Option Scope :=
  if Text.sameKeyword name "local" then some .frame
  else if Text.sameKeyword name "thread" then some .thread
  else if Text.sameKeyword name "target" then some .target
  else if Text.sameKeyword name "global" then some .global
  else none

/-- What a token refers to. -/
inductive TokenRef where
  | literal (text : String)
  | var (scope : Scope) (name : String)
  | result
  | unknownScope (text : String)
deriving DecidableEq

/-- The token for the result of the last external call. -/
def resultToken : String := "$$"

/-- The token for the entity that an invocation runs on. -/
def selfToken : String := "$self"

/-- **What a token refers to.** A variable is `$name` or `$scope#name`; its name comes in lower
case. A token that lacks the name is a literal. -/
def TokenRef.of (token : String) : TokenRef :=
  if token = resultToken then .result
  else
    match token.toList with
    | '$' :: body =>
      match body.span (· != '#') with
      | ([], []) => .literal token
      | (name, []) => .var .frame (Text.lower (String.ofList name))
      | (_, [_]) => .literal token
      | (scope, _ :: name) =>
        match Scope.ofName? (String.ofList scope) with
        | some scope => .var scope (Text.lower (String.ofList name))
        | none => .unknownScope token
    | _ => .literal token

/-- From where a token is read: an invocation, its frame if there is one, and the place that
diagnostics name. -/
structure Vantage where
  thread : ThreadHandle
  frame : Option FrameHandle
  origin : Origin
deriving DecidableEq

namespace Machine

/-! ## Variables -/

/-- The target of an invocation, if both are live. -/
def targetOf (t : ThreadHandle) : Act Machine (Option TargetHandle) := do
  let m ← get
  match m.threads.get? t with
  | none => return none
  | some thread =>
    if m.targets.contains thread.target then return some thread.target
    else
      Act.report (.deadTarget t thread.target)
      return none

/-- The variables of a scope, if their owner is live. -/
def varsOf (v : Vantage) (scope : Scope) : Act Machine (Option Vars) := do
  let m ← get
  match scope with
  | .frame => return (v.frame.bind m.frames.get?).map Frame.vars
  | .thread => return (m.threads.get? v.thread).map Thread.vars
  | .target =>
    let target ← targetOf v.thread
    return (target.bind m.targets.get?).map Target.vars
  | .global => return some m.globals

/-- The value of a variable, if it is set. -/
def getVar (v : Vantage) (scope : Scope) (name : String) : Act Machine (Option String) := do
  let vars ← varsOf v scope
  return vars.bind (·.find? name)

/-- Whether a variable is set. -/
def hasVar (v : Vantage) (scope : Scope) (name : String) : Act Machine Bool := do
  let m ← get
  match scope with
  | .frame => return (v.frame.bind m.frames.get?).any (·.vars.contains name)
  | .thread => return (m.threads.get? v.thread).any (·.vars.contains name)
  | .target =>
    let target ← targetOf v.thread
    return (target.bind m.targets.get?).any (·.vars.contains name)
  | .global => return m.globals.contains name

/-- **Sets a variable** and gives the value back, or nothing if its owner is gone. -/
def setVar (v : Vantage) (scope : Scope) (name value : String) : Act Machine (Option String) := do
  let m ← get
  match scope with
  | .frame =>
    match v.frame with
    | none => return none
    | some f =>
      if m.frames.contains f then
        set (m.modifyFrame f fun frame => { frame with vars := frame.vars.insert name value })
        return some value
      else
        Act.report (.noOwner v.origin name)
        return none
  | .thread =>
    if m.threads.contains v.thread then
      set (m.modifyThread v.thread fun t => { t with vars := t.vars.insert name value })
      return some value
    else
      Act.report (.noOwner v.origin name)
      return none
  | .target =>
    match ← targetOf v.thread with
    | none => return none
    | some g =>
      set (m.modifyTarget g fun target => { target with vars := target.vars.insert name value })
      return some value
  | .global =>
    set { m with globals := m.globals.insert name value }
    return some value

/-! ## Tokens in a machine -/

/-- The result of the last external call of the frame. -/
def resultAt (m : Machine) (v : Vantage) : String :=
  match v.frame.bind m.frames.get? with
  | some frame => frame.result
  | none => ""

/-- **The value of a token.** The host says what text stands for a literal. -/
def readToken (s : Setting) (v : Vantage) (token : String) : Act Machine String := do
  match TokenRef.of token with
  | .literal text => return s.localize text
  | .var scope name => return (← getVar v scope name).getD ""
  | .result => return (← get).resultAt v
  | .unknownScope text =>
    Act.report (.unknownScope v.origin text)
    return text

/-- The value of a token whose literals stand for themselves: names, labels and numbers. -/
def readName (s : Setting) (v : Vantage) (token : String) : Act Machine String :=
  match TokenRef.of token with
  | .literal text => return text
  | _ => readToken s v token

/-- The values of tokens, in order. -/
def readTokens (s : Setting) (v : Vantage) (tokens : List String) : Act Machine (List String) :=
  Act.collect (readToken s v) tokens

/-- **Gives a variable token a value**; only variables can be assigned. -/
def assignToken (v : Vantage) (token value : String) : Act Machine (Option String) := do
  match TokenRef.of token with
  | .var scope name => setVar v scope name value
  | .result =>
    Act.report (.readOnly v.origin)
    return none
  | .literal text =>
    Act.report (.notVariable v.origin text)
    return none
  | .unknownScope text =>
    Act.report (.unknownScope v.origin text)
    return none

/-! ## The host's view -/

/-- The vantage of an invocation's innermost frame, if the invocation is live. -/
def vantageOf (t : ThreadHandle) : Act Machine (Option Vantage) := do
  let m ← get
  if m.isLive t then return some ⟨t, m.frameOf t, .invocation t⟩
  else
    Act.report (.notLive t)
    return none

/-- The value of a token as an invocation's innermost frame sees it. -/
def resolveValue (s : Setting) (t : ThreadHandle) (token : String) : Act Machine String := do
  match ← vantageOf t with
  | none => return ""
  | some v => readToken s v token

/-- The entity of an invocation. -/
def entityOf (t : ThreadHandle) : Act Machine (Option EntityId) := do
  let target ← targetOf t
  return (target.bind (← get).targets.get?).bind Target.entity

/-- The entity a token names: `$self` is the invocation's own, any other token is read as a value
that the host looks up. -/
def resolveReference (s : Setting) (t : ThreadHandle) (token : String) :
    Act Machine (Option EntityId) := do
  if Text.sameKeyword token selfToken then entityOf t
  else
    let text ← resolveValue s t token
    return if text = "" then none else s.lookup text

/-- Whether a token names a variable that is set. -/
def hasVariable (t : ThreadHandle) (token : String) : Act Machine Bool := do
  match ← vantageOf t with
  | none => return false
  | some v =>
    match TokenRef.of token with
    | .var scope name => hasVar v scope name
    | _ => return false

/-- **Sets the variable a token names**, on behalf of an invocation. -/
def setVariable (t : ThreadHandle) (token value : String) : Act Machine (Option String) := do
  match ← vantageOf t with
  | none => return none
  | some v => assignToken v token value

end Machine

end StepScript
