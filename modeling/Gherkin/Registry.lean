import Gherkin.Feature.Keyword
import Gherkin.Pattern.Captures

/-!
Contract: registries of step definitions.

Owns: how patterns are compiled, registration, and finding the definition for a step.
Does not own: what a definition does; a registry is generic in that.

The order of registration is the order of priority: among the definitions of the
step's kind the first one counts whose pattern captures from the step's text.
-/

set_option autoImplicit false

namespace Gherkin

structure Definition (α : Type) where
  kind : StepKind
  pattern : Pattern
  action : α

/-- The definition on one line, without what it does. -/
def Definition.render {α : Type} (definition : Definition α) : String :=
  "StepDefinition \x7b kind: " ++ definition.kind.word ++
    ", pattern: " ++ Text.quoted definition.pattern.text ++ " \x7d"

/-- How the patterns of a registry are compiled: the way in which their string placeholders
match, and which patterns are refused. -/
structure Compiler where
  mode : StringMode := .lenient
  refuses : Pattern → Bool := Pattern.isHuge

def Compiler.compile (compiler : Compiler) (text : String) : Except PatternError Pattern :=
  Pattern.ofText text compiler.mode compiler.refuses

/-- Definitions in the order of their registration, and how patterns are compiled. -/
structure Registry (α : Type) extends Compiler where
  definitions : List (Definition α) := []

/-- A definition that was found for a step, its position in the registry, and the
arguments captured from the step's text. -/
structure Found (α : Type) where
  definition : Definition α
  index : Nat
  arguments : List Argument

namespace Registry

variable {α : Type}

def fresh (compiler : Compiler) : Registry α :=
  { toCompiler := compiler }

def empty (mode : StringMode) : Registry α :=
  fresh { mode }

def register (registry : Registry α) (kind : StepKind) (pattern : String) (action : α) :
    Except PatternError (Registry α) :=
  match registry.compile pattern with
  | .error e => .error e
  | .ok pattern =>
      .ok { registry with definitions := registry.definitions ++ [⟨kind, pattern, action⟩] }

/-- The first of some definitions that fits a step; positions count from `index`. -/
def findFrom (kind : StepKind) (text : String) : Nat → List (Definition α) → Option (Found α)
  | _, [] => none
  | index, definition :: definitions =>
      if definition.kind = kind then
        match definition.pattern.captures? text with
        | some arguments => some ⟨definition, index, arguments⟩
        | none => findFrom kind text (index + 1) definitions
      else findFrom kind text (index + 1) definitions

def find? (registry : Registry α) (kind : StepKind) (text : String) : Option (Found α) :=
  findFrom kind text 0 registry.definitions

def size (registry : Registry α) : Nat :=
  registry.definitions.length

def isEmpty (registry : Registry α) : Bool :=
  registry.definitions.isEmpty

end Registry

end Gherkin
