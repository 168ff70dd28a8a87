/-!
Contract: step kinds and step keywords.

Owns: the three kinds by which definitions are looked up, the five keywords of
the feature text, their words, and how a keyword gets its kind from the step
before it.
-/

set_option autoImplicit false

namespace Gherkin

/-- What a step is for: a context is given, an action is done, an outcome is
checked. -/
inductive StepKind where
  | context
  | action
  | outcome
deriving DecidableEq, Repr

def StepKind.word : StepKind → String
  | .context => "Given"
  | .action => "When"
  | .outcome => "Then"

def StepKind.all : List StepKind :=
  [.context, .action, .outcome]

/-- A keyword of the feature text either names a kind or goes on with the kind
of the step before. -/
inductive Keyword where
  | names (kind : StepKind)
  | and
  | but
deriving DecidableEq, Repr

namespace Keyword

def word : Keyword → String
  | .names kind => kind.word
  | .and => "And"
  | .but => "But"

/-- All keywords, in the order in which a line is tried against them. -/
def all : List Keyword :=
  [.names .context, .names .action, .names .outcome, .and, .but]

/-- The kind of a step with this keyword after a step of the kind `previous`.
A scenario that opens with `And` or `But` opens with a context. -/
def resolve (previous : Option StepKind) : Keyword → StepKind
  | .names kind => kind
  | .and | .but => previous.getD .context

theorem mem_all (keyword : Keyword) : keyword ∈ all := by
  rcases keyword with kind | _ | _
  · cases kind <;> decide
  · decide
  · decide

end Keyword

end Gherkin
