import StepScript.Number.Literal

/-!
# CommandLine/Arguments — what the command line asks for

A command line names one of three modes and gives its options, each at most once, as `--name value`
or `--name=value`. Anything else is refused, and the refusal does not say more than whether help was
asked for.

* `readArguments` — the request of a command line.
-/

namespace StepScript

/-- The number of steps a run takes at most, unless told otherwise. -/
def defaultMaxSteps : Nat := 10000

/-- Run a script on an entity. -/
structure RunRequest where
  root : String
  script : String
  entity : String
  maxSteps : Nat
  stateOut : Option String
deriving DecidableEq

/-- Resume a saved state. -/
structure ResumeRequest where
  root : String
  stateIn : String
  maxSteps : Nat
  stateOut : Option String
deriving DecidableEq

/-- **What a command line asks for.** -/
inductive Request where
  | run (r : RunRequest)
  | resume (r : ResumeRequest)
  | check (root : String)
deriving DecidableEq

/-- Why a command line is not carried out. -/
inductive Usage where
  /-- Help was asked for. -/
  | help
  /-- The command line cannot be understood. -/
  | wrong
deriving DecidableEq

namespace Arguments

/-- The modes. -/
inductive Mode where
  | run
  | resume
  | check
deriving DecidableEq

/-- The mode of a word. -/
def Mode.ofWord? : String → Option Mode
  | "run" => some .run
  | "resume" => some .resume
  | "check" => some .check
  | _ => none

/-- The options of a mode. -/
def Mode.options : Mode → List String
  | .run => ["root", "script", "entity", "max-steps", "state-out"]
  | .resume => ["root", "state-in", "max-steps", "state-out"]
  | .check => ["root"]

/-- A number of steps, as it is written. -/
def stepCount? (text : String) : Option Nat :=
  (Number.readUnsigned? 10 text.toList).map UInt64.toNat

/-- One argument, seen by itself. -/
inductive Argument where
  /-- A word that is no option. -/
  | word (text : String)
  /-- Ends the options. -/
  | separator
  /-- A named option, with the value attached to it. -/
  | named (name : String) (value : Option String)
  /-- Letters after a single dash. -/
  | letters (first : Char)
deriving DecidableEq

/-- The kind of an argument. A dash alone is a word. -/
def Argument.of (text : String) : Argument :=
  match text.toList with
  | ['-', '-'] => .separator
  | '-' :: '-' :: cs =>
    match cs.span (· != '=') with
    | (name, '=' :: value) => .named (String.ofList name) (some (String.ofList value))
    | (name, _) => .named (String.ofList name) none
  | '-' :: c :: _ => .letters c
  | _ => .word text

/-- Options given so far, latest first, and whether details are asked for. -/
structure Given where
  options : List (String × String) := []
  verbose : Bool := false

/-- Notes the value of an option. A second value is refused, and so is a number of steps that is no
number. -/
def Given.add (g : Given) (name value : String) : Except Usage Given :=
  if (g.options.lookup name).isSome then .error .wrong
  else if name = "max-steps" && (stepCount? value).isNone then .error .wrong
  else .ok { g with options := (name, value) :: g.options }

/-- Notes that details are asked for; twice is refused. -/
def Given.noteVerbose (g : Given) : Except Usage Given :=
  if g.verbose then .error .wrong else .ok { g with verbose := true }

/-- **The options of a mode**, read in order. -/
def readOptions (known : List String) : Given → List String → Except Usage Given
  | g, [] => .ok g
  | g, text :: rest =>
    match Argument.of text with
    | .word _ => .error .wrong
    | .separator => if rest.isEmpty then .ok g else .error .wrong
    | .letters first => .error (if first = 'h' then .help else .wrong)
    | .named "help" none => .error .help
    | .named "verbose" none =>
      match g.noteVerbose with
      | .ok g => readOptions known g rest
      | .error usage => .error usage
    | .named name (some value) =>
      if name ∈ known then
        match g.add name value with
        | .ok g => readOptions known g rest
        | .error usage => .error usage
      else .error .wrong
    | .named name none =>
      if name ∈ known then
        match rest with
        | [] => .error .wrong
        | value :: rest =>
          match Argument.of value with
          | .word _ =>
            match g.add name value with
            | .ok g => readOptions known g rest
            | .error usage => .error usage
          | _ => .error .wrong
      else .error .wrong

/-- A required option. -/
def Given.required (g : Given) (name : String) : Except Usage String :=
  match g.options.lookup name with
  | some value => .ok value
  | none => .error .wrong

/-- The number of steps asked for. -/
def Given.maxSteps (g : Given) : Nat :=
  ((g.options.lookup "max-steps").bind stepCount?).getD defaultMaxSteps

/-- The request of a mode with its options. -/
def Given.request (g : Given) : Mode → Except Usage Request
  | .run => do
    let root ← g.required "root"
    return .run
      { root
        script := (g.options.lookup "script").getD "main"
        entity := (g.options.lookup "entity").getD "1"
        maxSteps := g.maxSteps
        stateOut := g.options.lookup "state-out" }
  | .resume => do
    let root ← g.required "root"
    let stateIn ← g.required "state-in"
    return .resume
      { root, stateIn, maxSteps := g.maxSteps, stateOut := g.options.lookup "state-out" }
  | .check => do
    let root ← g.required "root"
    return .check root

/-- What follows the word `help`: nothing, or something that there is help for. -/
def readHelp : List String → Usage
  | [] => .help
  | [word] => if word = "help" || (Mode.ofWord? word).isSome then .help else .wrong
  | _ => .wrong

/-- Reads up to the mode, then its options. -/
def readFrom : Given → List String → Except Usage Request
  | _, [] => .error .wrong
  | g, text :: rest =>
    match Argument.of text with
    | .named "help" none => .error .help
    | .named "verbose" none =>
      match g.noteVerbose with
      | .ok g => readFrom g rest
      | .error usage => .error usage
    | .letters first => .error (if first = 'h' then .help else .wrong)
    | .word "help" => .error (readHelp rest)
    | .word word =>
      match Mode.ofWord? word with
      | none => .error .wrong
      | some mode =>
        match readOptions mode.options {} rest with
        | .ok g => g.request mode
        | .error usage => .error usage
    | _ => .error .wrong

end Arguments

/-- **The request of a command line.** -/
def readArguments (arguments : List String) : Except Usage Request :=
  Arguments.readFrom {} arguments

end StepScript
