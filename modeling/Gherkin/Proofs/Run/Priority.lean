import Gherkin.Proofs.Pattern.Decomposition
import Gherkin.Proofs.Run.Registered

/-!
Contract: the order of registration is the priority of definitions, and nothing else is.

Owns: the registry behind a row of calls, which of the calls serves a step, libraries that
make the same calls in every registry, and what further calls and libraries change.
Does not own: which texts a pattern matches (`Gherkin.Proofs.Pattern.Decomposition`).
Main statement: `find?_by_priority`.

A call whose pattern does not compile adds nothing, so the registry that is left has the
definitions of the other calls in the order of these. What is found is read off that list.
-/

set_option autoImplicit false

namespace Gherkin

variable {α : Type}

/-! ## Calls -/

/-- The definition that a call registers, if its pattern compiles. -/
def Entry.definition? (compiler : Compiler) (entry : Entry α) : Option (Definition α) :=
  match compiler.compile entry.pattern with
  | .ok pattern => some ⟨entry.kind, pattern, entry.action⟩
  | .error _ => none

namespace Registry

/-- The registry behind a call. If the call fails, it is the one before. -/
def afterCall (registry : Registry α) (entry : Entry α) : Registry α :=
  match registry.register entry.kind entry.pattern entry.action with
  | .ok registered => registered
  | .error _ => registry

def afterCalls (registry : Registry α) (calls : List (Entry α)) : Registry α :=
  calls.foldl afterCall registry

theorem afterCall_eq (registry : Registry α) (entry : Entry α) :
    registry.afterCall entry =
      { registry with
        definitions :=
          registry.definitions ++ (entry.definition? registry.toCompiler).toList } := by
  unfold afterCall register Entry.definition?
  cases registry.compile entry.pattern with
  | ok pattern => rfl
  | error e => simp

theorem afterCalls_eq (registry : Registry α) (calls : List (Entry α)) :
    registry.afterCalls calls =
      { registry with
        definitions :=
          registry.definitions ++ calls.filterMap (Entry.definition? registry.toCompiler) } := by
  induction calls generalizing registry with
  | nil => simp [afterCalls]
  | cons entry calls inductionHypothesis =>
      show (registry.afterCall entry).afterCalls calls = _
      rw [inductionHypothesis, afterCall_eq]
      cases registered : entry.definition? registry.toCompiler <;> simp [registered]

end Registry

/-- The call registers this definition, and the definition captures these arguments from
the text of a step of its kind. -/
structure Entry.Serves (compiler : Compiler) (kind : StepKind) (text : String)
    (entry : Entry α) (definition : Definition α) (arguments : List Argument) : Prop where
  compiles : compiler.compile entry.pattern = .ok definition.pattern
  registers : definition = ⟨entry.kind, definition.pattern, entry.action⟩
  sameKind : entry.kind = kind
  captures : definition.pattern.captures? text = some arguments

theorem Entry.serves_iff
    {compiler : Compiler} {kind : StepKind} {text : String} {entry : Entry α}
    {definition : Definition α} {arguments : List Argument} :
    entry.Serves compiler kind text definition arguments ↔
      entry.definition? compiler = some definition ∧
        definition.captures? kind text = some arguments := by
  unfold Entry.definition? Definition.captures?
  constructor
  · intro serves
    obtain ⟨compiles, registers, sameKind, captures⟩ := serves
    rw [compiles]
    refine ⟨congrArg some registers.symm, ?_⟩
    rw [if_pos (by rw [registers]; exact sameKind)]
    exact captures
  · intro offered
    obtain ⟨registered, captured⟩ := offered
    cases compiled : compiler.compile entry.pattern with
    | error e => simp [compiled] at registered
    | ok pattern =>
        rw [compiled] at registered
        obtain rfl := Option.some.inj registered
        by_cases sameKind : entry.kind = kind
        · rw [if_pos sameKind] at captured
          exact ⟨compiled, rfl, sameKind, captured⟩
        · rw [if_neg sameKind] at captured
          contradiction

/-! ## The earliest call -/

namespace Registry

theorem findFrom_cons
    (kind : StepKind) (text : String) (index : Nat) (definition : Definition α)
    (definitions : List (Definition α)) :
    findFrom kind text index (definition :: definitions) =
      ((definition.captures? kind text).map (Found.mk definition index)).or
        (findFrom kind text (index + 1) definitions) := by
  unfold Definition.captures?
  by_cases sameKind : definition.kind = kind
  · cases captured : definition.pattern.captures? text with
    | none => simp [findFrom, sameKind, captured]
    | some arguments => simp [findFrom, sameKind, captured]
  · simp [findFrom, sameKind]

/-- Definitions that capture nothing are passed over. -/
theorem findFrom_append_of_missed
    {kind : StepKind} {text : String} {before : List (Definition α)}
    (missed : ∀ earlier ∈ before, earlier.captures? kind text = none) (index : Nat)
    (definitions : List (Definition α)) :
    findFrom kind text index (before ++ definitions) =
      findFrom kind text (index + before.length) definitions := by
  induction before generalizing index with
  | nil => rfl
  | cons first before inductionHypothesis =>
      obtain ⟨missedFirst, missedLater⟩ := List.forall_mem_cons.mp missed
      have position : index + 1 + before.length = index + (first :: before).length := by
        rw [List.length_cons]
        omega
      rw [List.cons_append, findFrom_cons, missedFirst, Option.map_none, Option.none_or,
        inductionHypothesis missedLater, position]

theorem findFrom_eq_some_iff
    {kind : StepKind} {text : String} {index : Nat} {definitions : List (Definition α)}
    {found : Found α} :
    findFrom kind text index definitions = some found ↔
      ∃ before after, definitions = before ++ found.definition :: after ∧
        found.definition.captures? kind text = some found.arguments ∧
        (∀ earlier ∈ before, earlier.captures? kind text = none) ∧
        found.index = index + before.length := by
  constructor
  · intro isFound
    induction definitions generalizing index with
    | nil => contradiction
    | cons definition definitions inductionHypothesis =>
        rw [findFrom_cons] at isFound
        cases captured : definition.captures? kind text with
        | some arguments =>
            rw [captured, Option.map_some, Option.some_or] at isFound
            obtain rfl := Option.some.inj isFound
            exact ⟨[], definitions, rfl, captured, by simp, rfl⟩
        | none =>
            rw [captured, Option.map_none, Option.none_or] at isFound
            obtain ⟨before, after, rfl, captures, missed, position⟩ :=
              inductionHypothesis isFound
            refine ⟨definition :: before, after, rfl, captures,
              List.forall_mem_cons.mpr ⟨captured, missed⟩, ?_⟩
            rw [position, List.length_cons]
            omega
  · intro isFirst
    obtain ⟨before, after, rfl, captures, missed, position⟩ := isFirst
    rw [findFrom_append_of_missed missed, findFrom_cons, captures, Option.map_some,
      Option.some_or, ← position]

/-- The definition of the earliest call that serves a step. Its position counts the calls
before it whose patterns compile. -/
def IsEarliest (compiler : Compiler) (kind : StepKind) (text : String) (calls : List (Entry α))
    (found : Found α) : Prop :=
  ∃ before entry after, calls = before ++ entry :: after ∧
    entry.Serves compiler kind text found.definition found.arguments ∧
    (∀ earlier ∈ before, ∀ definition arguments,
      ¬ earlier.Serves compiler kind text definition arguments) ∧
    found.index = (before.filterMap (Entry.definition? compiler)).length

theorem find?_afterCalls_iff
    {compiler : Compiler} {kind : StepKind} {text : String} {calls : List (Entry α)}
    {found : Found α} :
    ((fresh compiler).afterCalls calls).find? kind text = some found ↔
      IsEarliest compiler kind text calls found := by
  rw [find?, afterCalls_eq]
  show findFrom kind text 0 ([] ++ calls.filterMap (Entry.definition? compiler)) = _ ↔ _
  rw [List.nil_append, findFrom_eq_some_iff]
  constructor
  · intro isFirst
    obtain ⟨front, back, split, captures, missed, position⟩ := isFirst
    obtain ⟨first, second, rfl, rfl, isSecond⟩ := List.filterMap_eq_append_iff.mp split
    obtain ⟨failed, entry, after, rfl, fail, registered, -⟩ :=
      List.filterMap_eq_cons_iff.mp isSecond
    refine ⟨first ++ failed, entry, after, by simp,
      Entry.serves_iff.mpr ⟨registered, captures⟩, ?_, ?_⟩
    · intro earlier member definition arguments serves
      obtain ⟨registers, captured⟩ := Entry.serves_iff.mp serves
      rcases List.mem_append.mp member with inFirst | inFailed
      · have isEarlier := missed definition (List.mem_filterMap.mpr ⟨_, inFirst, registers⟩)
        rw [isEarlier] at captured
        contradiction
      · rw [fail earlier inFailed] at registers
        contradiction
    · rw [position, List.filterMap_append, List.filterMap_eq_nil_iff.mpr fail, List.append_nil,
        Nat.zero_add]
  · intro isEarliest
    obtain ⟨before, entry, after, rfl, serves, missed, position⟩ := isEarliest
    obtain ⟨registered, captures⟩ := Entry.serves_iff.mp serves
    refine ⟨before.filterMap (Entry.definition? compiler),
      after.filterMap (Entry.definition? compiler), ?_, captures, ?_,
      by rw [position, Nat.zero_add]⟩
    · rw [List.filterMap_append, List.filterMap_cons_some registered]
    · intro definition member
      obtain ⟨earlier, inBefore, registers⟩ := List.mem_filterMap.mp member
      cases captured : definition.captures? kind text with
      | none => rfl
      | some arguments =>
          have earlierServes := Entry.serves_iff.mpr ⟨registers, captured⟩
          exact absurd earlierServes (missed earlier inBefore definition arguments)

end Registry

/-! ## What a call changes -/

/-- The definition of a call and the arguments that it captures, if it serves a step. -/
def Entry.serve? (compiler : Compiler) (kind : StepKind) (text : String) (entry : Entry α) :
    Option (Definition α × List Argument) :=
  (entry.definition? compiler).bind fun definition =>
    (definition.captures? kind text).map (definition, ·)

theorem Entry.serve?_eq_none_iff
    {compiler : Compiler} {kind : StepKind} {text : String} {entry : Entry α} :
    entry.serve? compiler kind text = none ↔
      ∀ definition arguments, ¬ entry.Serves compiler kind text definition arguments := by
  constructor
  · intro nothing definition arguments serves
    obtain ⟨registers, captured⟩ := Entry.serves_iff.mp serves
    rw [serve?, registers, Option.bind_some, captured] at nothing
    contradiction
  · intro never
    cases registers : entry.definition? compiler with
    | none => rw [serve?, registers, Option.bind_none]
    | some definition =>
        cases captured : definition.captures? kind text with
        | none => rw [serve?, registers, Option.bind_some, captured, Option.map_none]
        | some arguments =>
            exact absurd (Entry.serves_iff.mpr ⟨registers, captured⟩) (never _ _)

theorem Entry.serve?_of_other_kind
    {compiler : Compiler} {kind : StepKind} {entry : Entry α} (otherKind : entry.kind ≠ kind)
    (text : String) : entry.serve? compiler kind text = none :=
  serve?_eq_none_iff.mpr fun _ _ serves => otherKind serves.sameKind

/-- A call whose pattern prefers a reading with a number that is too great serves nothing. -/
theorem Entry.serve?_of_overflow
    {compiler : Compiler} {entry : Entry α} {cut : Cut} (isOf : cut.IsOf entry.pattern.toList)
    {text : String} {parts : List Part}
    (preferred : cut.IsPreferred compiler.mode parts text.toList) {digits : List Char}
    (isPart : (Placeholder.int, Part.run digits) ∈ cut.placeholders.zip parts)
    (overflows : ¬ IsNumeral digits) (kind : StepKind) :
    entry.serve? compiler kind text = none := by
  apply serve?_eq_none_iff.mpr
  intro definition arguments serves
  obtain ⟨sameText, sameMode⟩ := Pattern.text_of_ofText serves.compiles
  rw [← sameText] at isOf
  rw [← sameMode] at preferred
  have nothing := ((definition.pattern.captures isOf text).none_iff parts preferred).mpr
    ⟨digits, isPart, overflows⟩
  rw [serves.captures] at nothing
  contradiction

namespace Registry

/-- What is found is what the first call that serves the step offers. -/
theorem call_find?_afterCalls
    (compiler : Compiler) (calls : List (Entry α)) (kind : StepKind) (text : String) :
    (((fresh compiler).afterCalls calls).find? kind text).map Found.call =
      calls.findSome? (Entry.serve? compiler kind text) := by
  rw [find?, call_findFrom, afterCalls_eq]
  show ([] ++ calls.filterMap (Entry.definition? compiler)).findSome? _ = _
  rw [List.nil_append, ← List.head?_filterMap, List.filterMap_filterMap, List.head?_filterMap]
  rfl

theorem find?_afterCalls_eq_none_iff
    {compiler : Compiler} {calls : List (Entry α)} {kind : StepKind} {text : String} :
    ((fresh compiler).afterCalls calls).find? kind text = none ↔
      ∀ entry ∈ calls, ∀ definition arguments,
        ¬ entry.Serves compiler kind text definition arguments := by
  rw [← Option.map_eq_none_iff, call_find?_afterCalls, List.findSome?_eq_none_iff]
  simp only [Entry.serve?_eq_none_iff]

/-- Further calls do not change what is found, once something is. -/
theorem find?_afterCalls_of_find?
    {registry : Registry α} {kind : StepKind} {text : String} {found : Found α}
    (find : registry.find? kind text = some found) (more : List (Entry α)) :
    (registry.afterCalls more).find? kind text = some found := by
  obtain ⟨before, after, split, captures, missed, position⟩ := findFrom_eq_some_iff.mp find
  rw [find?, afterCalls_eq, findFrom_eq_some_iff]
  refine ⟨before, after ++ more.filterMap (Entry.definition? registry.toCompiler), ?_, captures,
    missed, position⟩
  show registry.definitions ++ _ = _
  rw [split, List.append_assoc, List.cons_append]

/-- A call that serves nothing may be left out. -/
theorem call_find?_without
    {compiler : Compiler} {kind : StepKind} {text : String} {entry : Entry α}
    (nothing : entry.serve? compiler kind text = none) (before after : List (Entry α)) :
    (((fresh compiler).afterCalls (before ++ entry :: after)).find? kind text).map Found.call =
      (((fresh compiler).afterCalls (before ++ after)).find? kind text).map Found.call := by
  rw [call_find?_afterCalls, call_find?_afterCalls, List.findSome?_append,
    List.findSome?_append, List.findSome?_cons, nothing]

/-- Only the calls of the step's kind count. -/
theorem call_find?_of_same_kind
    (compiler : Compiler) {kind : StepKind} (text : String) {calls others : List (Entry α)}
    (same : calls.filter (fun entry => entry.kind = kind) =
      others.filter fun entry => entry.kind = kind) :
    (((fresh compiler).afterCalls calls).find? kind text).map Found.call =
      (((fresh compiler).afterCalls others).find? kind text).map Found.call := by
  have onlyKind : ∀ calls : List (Entry α),
      calls.findSome? (Entry.serve? compiler kind text) =
        (calls.filter fun entry => entry.kind = kind).findSome?
          (Entry.serve? compiler kind text) := by
    intro calls
    rw [← List.head?_filterMap, ← List.head?_filterMap, List.filterMap_filter]
    congr 2
    funext entry
    by_cases sameKind : entry.kind = kind
    · simp [sameKind]
    · simp [sameKind, Entry.serve?_of_other_kind sameKind text]
  rw [call_find?_afterCalls, call_find?_afterCalls, onlyKind calls, onlyKind others, same]

end Registry

/-! ## Libraries -/

namespace StepLibrary

/-- The library makes these calls in a registry, whatever stands there before. -/
def Registers (library : StepLibrary α) (compiler : Compiler) (calls : List (Entry α)) : Prop :=
  ∀ registry : Registry α, registry.toCompiler = compiler →
    library registry = .ok (registry.afterCalls calls)

theorem registers_ofList
    {compiler : Compiler} {entries : List (Entry α)}
    (compile : ∀ entry ∈ entries, ∃ pattern, compiler.compile entry.pattern = .ok pattern) :
    (ofList entries).Registers compiler entries := by
  induction entries with
  | nil => exact fun _ _ => rfl
  | cons entry entries inductionHypothesis =>
      obtain ⟨⟨pattern, compiles⟩, later⟩ := List.forall_mem_cons.mp compile
      intro registry same
      have registered : registry.register entry.kind entry.pattern entry.action =
          .ok (registry.afterCall entry) := by
        unfold Registry.afterCall Registry.register
        rw [same, compiles]
      have sameAfter : (registry.afterCall entry).toCompiler = compiler := by
        rw [Registry.afterCall_eq]
        exact same
      rw [ofList, registered]
      exact inductionHypothesis later _ sameAfter

theorem Registers.both
    {first second : StepLibrary α} {compiler : Compiler} {calls more : List (Entry α)}
    (registers : first.Registers compiler calls) (registersMore : second.Registers compiler more) :
    (both first second).Registers compiler (calls ++ more) := by
  intro registry same
  have sameAfter : (registry.afterCalls calls).toCompiler = compiler := by
    rw [Registry.afterCalls_eq]
    exact same
  rw [StepLibrary.both, registers registry same]
  show second (registry.afterCalls calls) = .ok (registry.afterCalls (calls ++ more))
  rw [registersMore _ sameAfter, Registry.afterCalls, Registry.afterCalls,
    Registry.afterCalls, List.foldl_append]

/-- The first library's answer counts, and where it has none, the second one's. -/
theorem call_find?_both
    {first second : StepLibrary α} {compiler : Compiler} {calls more : List (Entry α)}
    (registers : first.Registers compiler calls) (registersMore : second.Registers compiler more)
    (kind : StepKind) (text : String) :
    ∃ ofFirst ofSecond ofBoth,
      first (.fresh compiler) = .ok ofFirst ∧ second (.fresh compiler) = .ok ofSecond ∧
        StepLibrary.both first second (.fresh compiler) = .ok ofBoth ∧
        (ofBoth.find? kind text).map Found.call =
          ((ofFirst.find? kind text).map Found.call).or
            ((ofSecond.find? kind text).map Found.call) := by
  refine ⟨_, _, _, registers (.fresh compiler) rfl, registersMore (.fresh compiler) rfl,
    registers.both registersMore (.fresh compiler) rfl, ?_⟩
  rw [Registry.call_find?_afterCalls, Registry.call_find?_afterCalls,
    Registry.call_find?_afterCalls, List.findSome?_append]

end StepLibrary

/-! ## Priority -/

/-- What finding the definition for a step depends on. -/
structure ByPriority (α : Type) (compiler : Compiler) (kind : StepKind) (text : String) : Prop where
  /-- What is found belongs to the earliest call that serves the step. -/
  earliest : ∀ (calls : List (Entry α)) (found : Found α),
    ((Registry.fresh compiler).afterCalls calls).find? kind text = some found ↔
      Registry.IsEarliest compiler kind text calls found
  nothing : ∀ calls : List (Entry α),
    ((Registry.fresh compiler).afterCalls calls).find? kind text = none ↔
      ∀ entry ∈ calls, ∀ definition arguments,
        ¬ entry.Serves compiler kind text definition arguments
  /-- A definition that would have to capture a number that is too great is passed over. -/
  overflow : ∀ (before after : List (Entry α)) (entry : Entry α) (cut : Cut) (parts : List Part)
      (digits : List Char), cut.IsOf entry.pattern.toList →
      cut.IsPreferred compiler.mode parts text.toList →
      (Placeholder.int, Part.run digits) ∈ cut.placeholders.zip parts → ¬ IsNumeral digits →
    (((Registry.fresh compiler).afterCalls (before ++ entry :: after)).find? kind text).map
        Found.call =
      (((Registry.fresh compiler).afterCalls (before ++ after)).find? kind text).map Found.call
  appended : ∀ (registry : Registry α) (found : Found α) (more : List (Entry α)),
    registry.find? kind text = some found →
      (registry.afterCalls more).find? kind text = some found
  otherKinds : ∀ calls others : List (Entry α),
    calls.filter (fun entry => entry.kind = kind) =
        others.filter (fun entry => entry.kind = kind) →
      (((Registry.fresh compiler).afterCalls calls).find? kind text).map Found.call =
        (((Registry.fresh compiler).afterCalls others).find? kind text).map Found.call
  /-- A call that fails leaves the registry as it is. -/
  refused : ∀ (before after : List (Entry α)) (entry : Entry α) (error : PatternError),
    compiler.compile entry.pattern = .error error →
      (Registry.fresh compiler).afterCalls (before ++ entry :: after) =
        (Registry.fresh compiler).afterCalls (before ++ after)
  ofList : ∀ entries : List (Entry α),
    (∀ entry ∈ entries, ∃ pattern, compiler.compile entry.pattern = .ok pattern) →
      (StepLibrary.ofList entries).Registers compiler entries
  /-- Of two libraries the answer of the first one counts, if it has one alone. -/
  both : ∀ (first second : StepLibrary α) (calls more : List (Entry α)),
    first.Registers compiler calls → second.Registers compiler more →
      (StepLibrary.both first second).Registers compiler (calls ++ more) ∧
        ∃ ofFirst ofSecond ofBoth,
          first (.fresh compiler) = .ok ofFirst ∧ second (.fresh compiler) = .ok ofSecond ∧
            StepLibrary.both first second (.fresh compiler) = .ok ofBoth ∧
            (ofBoth.find? kind text).map Found.call =
              ((ofFirst.find? kind text).map Found.call).or
                ((ofSecond.find? kind text).map Found.call)
  nested : ∀ first second third : StepLibrary α,
    StepLibrary.both (StepLibrary.both first second) third =
      StepLibrary.both first (StepLibrary.both second third)
  /-- Where the first library fails, the second one is not asked. -/
  failing : ∀ (first second : StepLibrary α) (registry : Registry α) (error : SetupError),
    first registry = .error error → StepLibrary.both first second registry = .error error

theorem Registry.afterCalls_of_refused
    {compiler : Compiler} {entry : Entry α} {error : PatternError}
    (refused : compiler.compile entry.pattern = .error error)
    (before after : List (Entry α)) :
    (fresh compiler).afterCalls (before ++ entry :: after) =
      (fresh compiler).afterCalls (before ++ after) := by
  have nothing : entry.definition? compiler = none := by
    rw [Entry.definition?, refused]
  have same : (fresh compiler : Registry α).toCompiler = compiler := rfl
  rw [afterCalls_eq, afterCalls_eq, same, List.filterMap_append, List.filterMap_append,
    List.filterMap_cons_none nothing]

/-- The definition that is found is the earliest that serves the step. So further calls,
calls of other kinds and the grouping of libraries change nothing, and neither do calls
and libraries that fail. -/
theorem find?_by_priority (compiler : Compiler) (kind : StepKind) (text : String) :
    ByPriority α compiler kind text where
  earliest _ _ := Registry.find?_afterCalls_iff
  nothing _ := Registry.find?_afterCalls_eq_none_iff
  overflow before after entry cut parts digits isOf preferred isPart overflows :=
    Registry.call_find?_without
      (Entry.serve?_of_overflow isOf preferred isPart overflows kind) before after
  appended _ _ more find := Registry.find?_afterCalls_of_find? find more
  otherKinds _ _ same := Registry.call_find?_of_same_kind compiler text same
  refused before after _ _ refused := Registry.afterCalls_of_refused refused before after
  ofList _ compile := StepLibrary.registers_ofList compile
  both _ _ _ _ registers registersMore :=
    ⟨registers.both registersMore,
      StepLibrary.call_find?_both registers registersMore kind text⟩
  nested := StepLibrary.both_assoc
  failing first second registry error failed := by
    rw [StepLibrary.both, failed]

end Gherkin
