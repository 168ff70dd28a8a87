import Gherkin.Registry
import Gherkin.Run.Outcome

/-!
Contract: where the definitions of a run come from.

Owns: step libraries, the library of a fixed list, two libraries after each other,
and why definitions cannot be set up.
Main statement: `both_assoc`, of three libraries after each other any two may be
taken as one.
-/

set_option autoImplicit false

namespace Gherkin

inductive SetupError where
  | pattern (error : PatternError)
  | library (message : String)
deriving DecidableEq, Repr

namespace SetupError

def message : SetupError → String
  | .pattern error => "invalid step definition: " ++ error.message
  | .library message => "step source failed: " ++ message

def runMessage (error : SetupError) : String :=
  "setup failed: " ++ error.message

end SetupError

/-- A definition that has yet to be registered. -/
structure Entry (α : Type) where
  kind : StepKind
  pattern : String
  action : α

/-- A library adds its definitions to a registry, or fails. -/
abbrev StepLibrary (α : Type) :=
  Registry α → Except SetupError (Registry α)

namespace StepLibrary

variable {α : Type}

def none : StepLibrary α :=
  .ok

def failing (message : String) : StepLibrary α :=
  fun _ => .error (.library message)

/-- The library that registers entries in order. -/
def ofList : List (Entry α) → StepLibrary α
  | [], registry => .ok registry
  | entry :: entries, registry =>
      match registry.register entry.kind entry.pattern entry.action with
      | .error e => .error (.pattern e)
      | .ok registry => ofList entries registry

/-- Both libraries, the first one first; its definitions win where both have one for
a step. If it fails, the second one is not asked. -/
def both (first second : StepLibrary α) : StepLibrary α :=
  fun registry =>
    match first registry with
    | .error e => .error e
    | .ok registry => second registry

/-- All libraries of a list, from left to right. -/
def all (libraries : List (StepLibrary α)) : StepLibrary α :=
  libraries.foldl both none

theorem both_assoc (first second third : StepLibrary α) :
    both (both first second) third = both first (both second third) := by
  funext registry
  simp only [both]
  cases first registry <;> rfl

end StepLibrary

end Gherkin
