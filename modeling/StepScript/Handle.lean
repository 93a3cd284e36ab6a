/-!
# Handle — names of live objects

A handle is a 32-bit number that names an object of one table. The kind of the table is part of the
type, so a thread is never looked up among the frames. Zero names nothing.
-/

namespace StepScript

/-- The name of an object in the table of the given kind. -/
structure Handle (kind : String) where
  raw : UInt32
deriving DecidableEq, Inhabited

namespace Handle

variable {kind : String}

/-- The decimal text of a handle. -/
def text (h : Handle kind) : String := toString h.raw.toNat

instance : ToString (Handle kind) := ⟨text⟩

/-- Zero names no object. -/
def isValid (h : Handle kind) : Bool := h.raw != 0

/-- The handle tried after this one: the next number, going round past zero. -/
def next (h : Handle kind) : Handle kind :=
  if h.raw = 0xFFFFFFFF then ⟨1⟩ else ⟨h.raw + 1⟩

/-- The order of a table's entries: the larger handle first. -/
def newestFirst (a b : Handle kind) : Ordering := compare b.raw a.raw

instance : Std.TransCmp (@newestFirst kind) where
  eq_swap {a b} := @Std.OrientedCmp.eq_swap UInt32 compare _ b.raw a.raw
  isLE_trans h₁ h₂ := @Std.TransCmp.isLE_trans UInt32 compare _ _ _ _ h₂ h₁

instance : Std.LawfulEqCmp (@newestFirst kind) where
  compare_self {a} := @Std.ReflCmp.compare_self UInt32 compare _ a.raw
  eq_of_compare {a b} h := by
    have : b.raw = a.raw := Std.LawfulEqCmp.eq_of_compare h
    cases a; cases b
    simp_all

end Handle

/-- Names an entity's context. -/
abbrev TargetHandle := Handle "target"

/-- Names an invocation: one run of a script on an entity. -/
abbrev ThreadHandle := Handle "thread"

/-- Names a frame: one script on an invocation's call stack. -/
abbrev FrameHandle := Handle "frame"

/-- Names a command of a frame. -/
abbrev CommandHandle := Handle "command"

end StepScript
