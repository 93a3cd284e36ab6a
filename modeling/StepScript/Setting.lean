import StepScript.Entity

/-!
# Setting — what the host knows about texts and entities

Three questions that scripts leave to the host. Their answers depend on nothing but the question.
-/

namespace StepScript

/-- The host's knowledge of texts and entities. -/
structure Setting where
  /-- The text shown for a literal token. -/
  localize : String → String := id
  /-- The entity that a text names. -/
  lookup : String → Option EntityId := EntityId.read?
  /-- The entity that stands for a saved one, if it still exists. -/
  remap : EntityId → Option EntityId := some

end StepScript
