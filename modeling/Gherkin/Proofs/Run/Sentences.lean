import Gherkin.Proofs.Pattern.Sentence
import Gherkin.Proofs.Run.Overlap
import Gherkin.Run.Session

/-!
Contract: which definition a built-in sentence runs, whatever values are written into it.

Owns: the definition found for each of the twelve sentences, and the sentences that go to
another one.
Does not own: the overlaps of the patterns (`Gherkin.Proofs.Run.Overlap`).
Main statement: `find?_of_sentence`.

A sentence is captured by its own pattern, so only a pattern that overlaps with it and was
registered before can take it away.
-/

set_option autoImplicit false

namespace Gherkin.HttpSteps

/-- The sentences that another definition takes, with the arguments that it is called
with: those for any method that name one with a definition of its own, and those about a
field whose name reads as a field with a value. -/
inductive Rerouted : String → List Argument → String → List Argument → Prop where
  | method {method : String × String} (member : method ∈ withoutBody) (path : String) :
      Rerouted "I send a {word} request to {string}" [.text method.1, .text path]
        method.2 [.text path]
  | value {a b : String} (bare : IsBare a.toList) (bare' : IsBare b.toList) :
      Rerouted "the response should contain {string}" [.text (a ++ " with value " ++ b)]
        "the response should contain {string} with value {string}" [.text a, .text b]

theorem separated_patterns :
    ∀ pattern ∈ entries.map Entry.pattern,
      Cut.Separated (Cut.ofPieces (Piece.ofText pattern.toList)).holes := by
  decide +kernel

/-- A sentence is captured by the pattern that it was written along. -/
theorem captures?_own_sentence
    {entry : Entry (Action World)} (isEntry : entry ∈ entries) {values : List Argument}
    (take : List.Forall₂ Placeholder.Takes (Pattern.lenient entry.pattern).placeholders values) :
    (Pattern.lenient entry.pattern).captures? ((Pattern.lenient entry.pattern).sentence values) =
      some values :=
  Pattern.captures?_sentence (separated_patterns entry.pattern (List.mem_map_of_mem isEntry)) take

/-- The definition that captures a text is found, if none that overlaps with it and stands
before it does, too. -/
theorem find?_of_captures?
    {entry : Entry (Action World)} (isEntry : entry ∈ entries) {text : String}
    {arguments : List Argument}
    (captured : (Pattern.lenient entry.pattern).captures? text = some arguments)
    (first : ∀ pattern, (pattern, entry.pattern) ∈ overlapping →
      (Pattern.lenient pattern).isMatch text ≠ true) :
    ((Registry.ofEntries entries).find? entry.kind text).map Found.call =
      some (entry.definition, arguments) := by
  let hit := fun other : Entry (Action World) =>
    (other.definition.captures? entry.kind text).map (other, ·)
  have hits : hit entry = some (entry, arguments) := by
    simp [hit, Definition.captures?, Entry.definition, captured]
  have isMatch : (Pattern.lenient entry.pattern).isMatch text = true := by
    simp [Pattern.isMatch, captured]
  have isChosen : chosen? entries entry.kind text = some (entry, arguments) := by
    obtain ⟨before, behind, split⟩ := List.append_of_mem isEntry
    apply List.findSome?_eq_some_iff.mpr
    refine ⟨before, entry, behind, split, hits, ?_⟩
    intro other isBefore
    by_contra isHit
    have someHit : (hit other).isSome = true := Option.isSome_iff_ne_none.mpr isHit
    rw [Option.isSome_map] at someHit
    obtain ⟨sameKind, isMatch'⟩ := Definition.isSome_captures?_iff.mp someHit
    have inOrder : [other, entry].Sublist entries := by
      rw [split]
      exact (List.singleton_sublist.mpr isBefore).append
        (List.singleton_sublist.mpr List.mem_cons_self)
    have overlap := List.pairwise_iff_forall_sublist.mp pairwise_overlapping inOrder
      sameKind text isMatch' isMatch
    exact first other.pattern overlap isMatch'
  rw [call_find?_ofEntries, isChosen]
  rfl

/-! ## The sentence for any method -/

theorem sentence_anyMethod (word path : String) :
    (anyMethodPattern.sentence [.text word, .text path]).toList =
      sendFront ++ (word.toList ++ (requestTo ++ (Part.quoted path.toList).text)) := by
  have cut : anyMethodCut = .ofPieces (Piece.ofText anyMethodPattern.text.toList) :=
    anyMethodCut_isOf.eq_ofPieces
  rw [Pattern.sentence, String.toList_ofList, ← cut]
  simp [anyMethodCut, Cut.sentence, Cut.fill, Cut.placeholders, Placeholder.part, Part.text]

theorem sentence_method {method : String × String} (member : method ∈ withoutBody)
    (path : String) :
    ((Pattern.lenient method.2).sentence [.text path]).toList =
      sendFront ++ (method.1.toList ++ (requestTo ++ (Part.quoted path.toList).text)) := by
  have cut := (cut_of_withoutBody method member).1
  have text : (Pattern.lenient method.2).text = method.2 := rfl
  rw [Pattern.sentence, String.toList_ofList, text, cut]
  simp [methodCut, Cut.sentence, Cut.fill, Cut.placeholders, Placeholder.part, Part.text]

/-- Only the sentence that names a method is taken by the definition for it. -/
theorem word_of_method_isMatch
    {method : String × String} (member : method ∈ withoutBody) {word path : String}
    (blankFree : ∀ c ∈ word.toList, Text.isBlank c = false)
    (isMatch : (Pattern.lenient method.2).isMatch
      (anyMethodPattern.sentence [.text word, .text path]) = true) : word = method.1 := by
  obtain ⟨cut, -, blankFree'⟩ := cut_of_withoutBody method member
  obtain ⟨parts, decomposition⟩ :=
    (Pattern.lenient method.2).exists_decomposition (Cut.ofPieces_isOf method.2.toList) isMatch
  rw [cut, sentence_anyMethod] at decomposition
  obtain ⟨part, rfl, fits, whole⟩ := isDecomposition_method_iff.mp decomposition
  obtain ⟨later, starts⟩ := requestTo_starts_blank
  have same := List.append_cancel_left whole
  rw [starts] at same
  obtain ⟨sameWord, _⟩ := Text.append_separator_inj (space_not_mem_of_blankFree blankFree)
    (space_not_mem_of_blankFree blankFree') same
  exact String.toList_injective sameWord

/-! ## The sentence about a field -/

theorem sentence_field (name : String) :
    (fieldPattern.sentence [.text name]).toList =
      fieldFront ++ (Part.quoted name.toList).text := by
  have cut : fieldCut = .ofPieces (Piece.ofText fieldPattern.text.toList) :=
    fieldCut_isOf.eq_ofPieces
  rw [Pattern.sentence, String.toList_ofList, ← cut]
  simp [fieldCut, Cut.sentence, Cut.fill, Cut.placeholders, Placeholder.part, Part.text]

theorem withValue_toList (a b : String) :
    (a ++ " with value " ++ b).toList = a.toList ++ (withValue ++ b.toList) := by
  have between : " with value ".toList = withValue := by decide +kernel
  simp only [String.toList_append, between, List.append_assoc]

theorem sentence_field_nested (a b : String) :
    fieldPattern.sentence [.text (a ++ " with value " ++ b)] = nestedSentence a b := by
  apply String.toList_injective
  rw [sentence_field, nestedSentence_toList, withValue_toList]

/-- Only a name that reads as a field with a value is taken as one. -/
theorem name_of_value_isMatch
    {name : String} (quoteFree : '"' ∉ name.toList)
    (isMatch : valuePattern.isMatch (fieldPattern.sentence [.text name]) = true) :
    ∃ a b : String, IsBare a.toList ∧ IsBare b.toList ∧ name = a ++ " with value " ++ b := by
  have isMatch' := field_isMatch quoteFree (sentence_field name)
  obtain ⟨a, b, bare, bare', same⟩ := (field_overlap_iff _).mp ⟨isMatch, isMatch'⟩
  refine ⟨a, b, bare, bare', String.toList_injective ?_⟩
  have sameList := congrArg String.toList same
  rw [sentence_field, nestedSentence_toList] at sameList
  have inQuotes := (List.cons.inj (List.append_cancel_left sameList)).2
  rw [List.append_cancel_right inQuotes, withValue_toList]

/-! ## All sentences -/

theorem overlapping_pairs :
    ∀ pair ∈ overlapping,
      (∃ method ∈ withoutBody, pair = (method.2, "I send a {word} request to {string}")) ∨
        pair = ("the response should contain {string} with value {string}",
          "the response should contain {string}") := by
  decide +kernel

/-- A pattern that takes a sentence away from another one reroutes it. -/
theorem rerouted_of_isMatch
    {first second : String} (overlap : (first, second) ∈ overlapping) {values : List Argument}
    (take : List.Forall₂ Placeholder.Takes (Pattern.lenient second).placeholders values)
    (isMatch : (Pattern.lenient first).isMatch ((Pattern.lenient second).sentence values) = true) :
    ∃ arguments, Rerouted second values first arguments := by
  rcases overlapping_pairs _ overlap with ⟨method, member, same⟩ | same
  · obtain ⟨rfl, rfl⟩ := Prod.mk.inj same
    change List.Forall₂ Placeholder.Takes anyMethodPattern.placeholders _ at take
    rw [anyMethod_holes] at take
    obtain ⟨_, _, takesWord, takeLater, rfl⟩ := List.forall₂_cons_left_iff.mp take
    obtain ⟨_, _, takesPath, takeNone, rfl⟩ := List.forall₂_cons_left_iff.mp takeLater
    obtain rfl := List.forall₂_nil_left_iff.mp takeNone
    cases takesWord with
    | @word word nonempty blankFree =>
        cases takesPath with
        | @string path quoteFree =>
            obtain rfl := word_of_method_isMatch member blankFree isMatch
            exact ⟨_, .method member path⟩
  · obtain ⟨rfl, rfl⟩ := Prod.mk.inj same
    rw [show Pattern.lenient _ = fieldPattern from rfl, field_holes] at take
    obtain ⟨_, _, takesName, takeNone, rfl⟩ := List.forall₂_cons_left_iff.mp take
    obtain rfl := List.forall₂_nil_left_iff.mp takeNone
    cases takesName with
    | @string name quoteFree =>
        obtain ⟨a, b, bare, bare', rfl⟩ := name_of_value_isMatch quoteFree isMatch
        exact ⟨_, .value bare bare'⟩

theorem patterns_of_withoutBody :
    ∀ method ∈ withoutBody, method.2 ∈ entries.map Entry.pattern := by
  decide +kernel

/-- The pattern that a sentence is rerouted to captures the arguments that it is called
with. -/
theorem Rerouted.captures?
    {second first : String} {values arguments : List Argument}
    (rerouted : Rerouted second values first arguments)
    (take : List.Forall₂ Placeholder.Takes (Pattern.lenient second).placeholders values) :
    (Pattern.lenient first).captures? ((Pattern.lenient second).sentence values) =
      some arguments := by
  cases rerouted with
  | @method method member path =>
      change List.Forall₂ Placeholder.Takes anyMethodPattern.placeholders _ at take
      rw [anyMethod_holes] at take
      have takePath := (List.forall₂_cons.mp take).2
      rw [← withoutBody_holes method member] at takePath
      have sameSentence : (Pattern.lenient method.2).sentence [.text path] =
          anyMethodPattern.sentence [.text method.1, .text path] := by
        apply String.toList_injective
        rw [sentence_method member, sentence_anyMethod]
      have captured : (Pattern.lenient method.2).captures?
          ((Pattern.lenient method.2).sentence [.text path]) = some [.text path] :=
        Pattern.captures?_sentence
          (separated_patterns method.2 (patterns_of_withoutBody method member)) takePath
      rw [sameSentence] at captured
      exact captured
  | @value a b bare bare' =>
      have nested := captures?_nested bare bare'
      rw [← sentence_field_nested] at nested
      exact nested

theorem Rerouted.overlap
    {second first : String} {values arguments : List Argument}
    (rerouted : Rerouted second values first arguments) : (first, second) ∈ overlapping := by
  have methods : ∀ method ∈ withoutBody,
      (method.2, "I send a {word} request to {string}") ∈ overlapping := by
    decide +kernel
  cases rerouted with
  | method member path => exact methods _ member
  | value bare bare' => decide

/-- Nothing takes a sentence away from a definition that takes some itself. -/
theorem overlapping_first :
    ∀ pair ∈ overlapping, ∀ other ∈ overlapping, other.2 ≠ pair.1 := by
  decide +kernel

theorem kind_of_overlapping :
    ∀ first ∈ entries, ∀ second ∈ entries,
      (first.pattern, second.pattern) ∈ overlapping → first.kind = second.kind := by
  decide +kernel

theorem find?_own_sentence
    {entry : Entry (Action World)} (isEntry : entry ∈ entries) {values : List Argument}
    (take : List.Forall₂ Placeholder.Takes (Pattern.lenient entry.pattern).placeholders values)
    (notRerouted : ∀ first arguments, ¬ Rerouted entry.pattern values first arguments) :
    ((Registry.ofEntries entries).find? entry.kind
        ((Pattern.lenient entry.pattern).sentence values)).map Found.call =
      some (entry.definition, values) := by
  apply find?_of_captures? isEntry (captures?_own_sentence isEntry take)
  intro pattern overlap isMatch
  obtain ⟨arguments, rerouted⟩ := rerouted_of_isMatch overlap take isMatch
  exact notRerouted pattern arguments rerouted

theorem find?_rerouted_sentence
    {entry target : Entry (Action World)} (isEntry : entry ∈ entries) (isTarget : target ∈ entries)
    {values arguments : List Argument}
    (take : List.Forall₂ Placeholder.Takes (Pattern.lenient entry.pattern).placeholders values)
    (rerouted : Rerouted entry.pattern values target.pattern arguments) :
    ((Registry.ofEntries entries).find? entry.kind
        ((Pattern.lenient entry.pattern).sentence values)).map Found.call =
      some (target.definition, arguments) := by
  rw [← kind_of_overlapping target isTarget entry isEntry rerouted.overlap]
  apply find?_of_captures? isTarget (rerouted.captures? take)
  intro pattern overlap
  exact absurd rfl (overlapping_first _ rerouted.overlap _ overlap)

/-! ## The presence of a field -/

theorem presence_of_text (world : World) (name : String) (arguments : Arguments) :
    checkPresence world (.text name :: arguments) = .ok () ↔
      ∃ response, world.response = some response ∧ (response.field? name).isSome = true := by
  have asksName : asked (Arguments.text (.text name :: arguments) 0) = .ok name := rfl
  unfold checkPresence World.lastResponse
  rw [asksName]
  cases isReceived : world.response with
  | none => simp [bind, Except.bind]
  | some response =>
      cases isField : response.field? name <;>
        simp [bind, Except.bind, isField, pure, Except.pure, throw, throwThe,
          MonadExceptOf.throw]

theorem Rerouted.values_of_field
    {second first : String} {values arguments : List Argument}
    (rerouted : Rerouted second values first arguments)
    (isField : second = "the response should contain {string}") :
    ∃ a b : String, IsBare a.toList ∧ IsBare b.toList ∧
      values = [.text (a ++ " with value " ++ b)] := by
  cases rerouted with
  | method member path => exact absurd isField (by decide)
  | @value a b bare bare' => exact ⟨a, b, bare, bare', rfl⟩

/-- A sentence about a field checks that the field is there, unless its name reads as a
field with a value. -/
theorem run_presence
    {name : String} (quoteFree : '"' ∉ name.toList)
    (notNested : ∀ a b : String, IsBare a.toList → IsBare b.toList →
      name ≠ a ++ " with value " ++ b) {step : Step} (isOutcome : step.kind = .outcome)
    (isSentence : step.text = fieldPattern.sentence [.text name]) (world : World) :
    (step.run (.ofEntries entries) world).2 = world ∧
      ((step.run (.ofEntries entries) world).1 = none ↔
        ∃ response, world.response = some response ∧ (response.field? name).isSome = true) := by
  let entry : Entry (Action World) :=
    ⟨.outcome, "the response should contain {string}", check checkPresence⟩
  have isEntry : entry ∈ entries := by simp [entries, entry]
  have holes : (Pattern.lenient entry.pattern).placeholders = [.string] := field_holes
  have take : List.Forall₂ Placeholder.Takes (Pattern.lenient entry.pattern).placeholders
      [.text name] := by
    rw [holes]
    exact .cons (.string quoteFree) .nil
  have notRerouted : ∀ first arguments, ¬ Rerouted entry.pattern [.text name] first arguments := by
    intro first arguments rerouted
    obtain ⟨a, b, bare, bare', same⟩ := rerouted.values_of_field rfl
    exact notNested a b bare bare' (Argument.text.inj (List.singleton_inj.mp same))
  have isFound := find?_own_sentence isEntry take notRerouted
  obtain ⟨found, find, call⟩ := Option.map_eq_some_iff.mp isFound
  obtain ⟨isDefinition, isArguments⟩ := Prod.mk.inj call
  have find' : (Registry.ofEntries entries).find? step.kind step.text = some found := by
    rw [isOutcome, isSentence]
    exact find
  have ran : step.run (.ofEntries entries) world =
      ((Outcome.ofExcept (checkPresence world (step.arguments [.text name]))).error?, world) := by
    rw [Step.run, find']
    simp only [isDefinition, isArguments]
    rfl
  have calls : step.arguments [.text name] = .text name :: step.arguments [] := by
    simp [Step.arguments]
  rw [ran, calls]
  refine ⟨rfl, ?_⟩
  rw [← presence_of_text world name (step.arguments [])]
  cases checkPresence world (.text name :: step.arguments []) <;>
    simp [Outcome.ofExcept, Outcome.error?]

theorem sentence_field_text (name : String) :
    fieldPattern.sentence [.text name] = "the response should contain \"" ++ name ++ "\"" := by
  have starts : "the response should contain \"".toList = fieldFront ++ ['"'] := by decide +kernel
  have ends : "\"".toList = ['"'] := by decide +kernel
  apply String.toList_injective
  rw [sentence_field]
  simp only [String.toList_append, starts, ends, Part.text, List.append_assoc, List.nil_append,
    List.cons_append]

/-! ## The result -/

/-- Each sentence runs the definition that it is written for, with the values that were
written; only the sentences that are rerouted run another one. -/
theorem find?_of_sentence :
    library {} = .ok (.ofEntries entries) ∧
      (∀ entry ∈ entries, ∀ values : List Argument,
        List.Forall₂ Placeholder.Takes (Pattern.lenient entry.pattern).placeholders values →
          (∀ first arguments, ¬ Rerouted entry.pattern values first arguments) →
            ((Registry.ofEntries entries).find? entry.kind
                ((Pattern.lenient entry.pattern).sentence values)).map Found.call =
              some (entry.definition, values)) ∧
      (∀ entry ∈ entries, ∀ target ∈ entries, ∀ values arguments : List Argument,
        List.Forall₂ Placeholder.Takes (Pattern.lenient entry.pattern).placeholders values →
          Rerouted entry.pattern values target.pattern arguments →
            ((Registry.ofEntries entries).find? entry.kind
                ((Pattern.lenient entry.pattern).sentence values)).map Found.call =
              some (target.definition, arguments)) ∧
      ∀ name : String, '"' ∉ name.toList →
        (∀ a b : String, IsBare a.toList → IsBare b.toList → name ≠ a ++ " with value " ++ b) →
          ∀ (step : Step) (world : World), step.kind = .outcome →
            step.text = "the response should contain \"" ++ name ++ "\"" →
              (step.run (.ofEntries entries) world).2 = world ∧
                ((step.run (.ofEntries entries) world).1 = none ↔
                  ∃ response, world.response = some response ∧
                    (response.field? name).isSome = true) := by
  refine ⟨StepLibrary.ofList_empty entries_compile, ?_, ?_, ?_⟩
  · intro entry isEntry values take notRerouted
    exact find?_own_sentence isEntry take notRerouted
  · intro entry isEntry target isTarget values arguments take rerouted
    exact find?_rerouted_sentence isEntry isTarget take rerouted
  · intro name quoteFree notNested step world isOutcome isSentence
    rw [← sentence_field_text] at isSentence
    exact run_presence quoteFree notNested isOutcome isSentence world

/-- A quoted name with the words `with value` in it does not run the definition about a
field. -/
theorem find?_of_nested_name :
    Placeholder.Takes .string (.text "a with value b") ∧
      fieldPattern.sentence [.text "a with value b"] =
        "the response should contain \"a with value b\"" ∧
      ((Registry.ofEntries entries).find? .outcome
          "the response should contain \"a with value b\"").map
          (fun found => (found.definition.pattern.text, found.arguments)) =
        some ("the response should contain {string} with value {string}",
          [.text "a", .text "b"]) := by
  refine ⟨.string (by decide), ?_, ?_⟩
  · decide +kernel
  · decide +kernel

end Gherkin.HttpSteps
