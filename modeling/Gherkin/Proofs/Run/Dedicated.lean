import Mathlib
import Gherkin.Proofs.Run.Event
import Gherkin.Proofs.Run.Sentences

/-!
Contract: the sentences that name a method, next to the one for any method.

Owns: that a text which both match gives both the same path, that the sentences for one
method sent without a body could be left out, and that the letter case of the word for the
method plays no part.
Does not own: which sentences overlap (`Gherkin.Proofs.Run.Overlap`).
Main statement: `dedicated_sentences_agree`.

Behind the literal that follows the method both patterns have a string at the end of the
text, so they prefer the same part of it.
-/

set_option autoImplicit false

namespace Gherkin

open Http

namespace HttpSteps

/-! ## The string at the end of a sentence -/

/-- The part that a string placeholder at the end of a pattern takes. -/
structure IsPathPart (rest : List Char) (part : Part) : Prop where
  fits : part.Fits .lenient .string
  text_eq : part.text = rest
  first : ∀ other : Part, other.Fits .lenient .string → other.text = rest →
    other = part ∨ part.Before other

/-- The value that it has. -/
def IsPath (rest : List Char) (path : String) : Prop :=
  ∃ part, IsPathPart rest part ∧ part.Denotes .string (.text path)

theorem text_of_denotes
    {part : Part} {argument : Argument} (denotes : part.Denotes .string argument) :
    ∃ path, argument = .text path := by
  cases denotes with
  | quoted inside => exact ⟨_, rfl⟩
  | bare unquoted => exact ⟨_, rfl⟩

theorem isPreferred_method_iff
    {method rest : List Char} {parts : List Part} :
    (methodCut method []).IsPreferred .lenient parts
        (sendFront ++ (method ++ (requestTo ++ rest))) ↔
      ∃ part, parts = [part] ∧ IsPathPart rest part := by
  have decomposition {others : List Part} :
      (methodCut method []).IsDecomposition .lenient others
          (sendFront ++ (method ++ (requestTo ++ rest))) ↔
        ∃ part, others = [part] ∧ part.Fits .lenient .string ∧ part.text = rest := by
    rw [isDecomposition_method_iff]
    simp [eq_comm]
  constructor
  · intro preferred
    obtain ⟨part, rfl, fits, text⟩ := decomposition.mp preferred.isDecomposition
    refine ⟨part, rfl, fits, text, fun other fits' text' => ?_⟩
    rcases preferred.first [other] (decomposition.mpr ⟨other, rfl, fits', text'⟩) with same | later
    · exact .inl (List.singleton_inj.mp same)
    · cases later with
      | rel before => exact .inr before
      | cons before => cases before
  · rintro ⟨part, rfl, isPathPart⟩
    refine ⟨decomposition.mpr ⟨part, rfl, isPathPart.fits, isPathPart.text_eq⟩, ?_⟩
    intro others isOther
    obtain ⟨other, rfl, fits, text⟩ := decomposition.mp isOther
    rcases isPathPart.first other fits text with rfl | before
    · exact .inl rfl
    · exact .inr (.rel before)

theorem not_before_self (part : Part) : ¬ part.Before part := by
  intro before
  cases before with
  | longerFirst longer => exact absurd longer (Nat.lt_irrefl _)

theorem isPreferred_anyMethod_iff
    {word rest : List Char} (nonempty : word ≠ [])
    (blankFree : ∀ c ∈ word, Text.isBlank c = false) {parts : List Part} :
    anyMethodCut.IsPreferred .lenient parts (sendFront ++ (word ++ (requestTo ++ rest))) ↔
      ∃ part, parts = [.run word, part] ∧ IsPathPart rest part := by
  have decomposition {others : List Part} :
      anyMethodCut.IsDecomposition .lenient others
          (sendFront ++ (word ++ (requestTo ++ rest))) ↔
        ∃ part, others = [.run word, part] ∧ part.Fits .lenient .string ∧ part.text = rest := by
    constructor
    · exact parts_of_method (space_not_mem_of_blankFree blankFree)
    · rintro ⟨part, rfl, fits, rfl⟩
      exact Cut.isDecomposition_two_iff.mpr
        ⟨_, _, rfl, .word nonempty blankFree, fits, by simp [Part.text]⟩
  constructor
  · intro preferred
    obtain ⟨part, rfl, fits, text⟩ := decomposition.mp preferred.isDecomposition
    refine ⟨part, rfl, fits, text, fun other fits' text' => ?_⟩
    rcases preferred.first _ (decomposition.mpr ⟨other, rfl, fits', text'⟩) with same | later
    · exact .inl (List.cons.inj (List.cons.inj same).2).1
    · cases later with
      | rel before => exact absurd before (not_before_self (.run word))
      | cons later =>
          cases later with
          | rel before => exact .inr before
          | cons before => cases before
  · rintro ⟨part, rfl, isPathPart⟩
    refine ⟨decomposition.mpr ⟨part, rfl, isPathPart.fits, isPathPart.text_eq⟩, ?_⟩
    intro others isOther
    obtain ⟨other, rfl, fits, text⟩ := decomposition.mp isOther
    rcases isPathPart.first other fits text with rfl | before
    · exact .inl rfl
    · exact .inr (.cons (.rel before))

/-- The sentence for one method captures a path. -/
theorem exists_path_of_method
    {method : String × String} (member : method ∈ withoutBody) {text : String}
    {arguments : List Argument}
    (captured : (Pattern.lenient method.2).captures? text = some arguments) :
    ∃ rest path, text.toList = sendFront ++ (method.1.toList ++ (requestTo ++ rest)) ∧
      IsPath rest path ∧ arguments = [.text path] := by
  have isOf : (methodCut method.1.toList []).IsOf method.2.toList :=
    Cut.isOf_of_eq (cut_of_withoutBody method member).1.symm
  have isMatch : (Pattern.lenient method.2).isMatch text = true := by
    simp [Pattern.isMatch, captured]
  have captures := (Pattern.lenient method.2).captures isOf text
  obtain ⟨parts, decomposition⟩ := (Pattern.lenient method.2).exists_decomposition isOf isMatch
  obtain ⟨chosen, preferred, -⟩ := captures.preferred ⟨parts, decomposition⟩
  obtain ⟨string, -, -, whole⟩ := isDecomposition_method_iff.mp decomposition
  rw [List.append_nil] at whole
  have denote := (captures.some_iff chosen preferred arguments).mp captured
  rw [whole] at preferred
  obtain ⟨part, rfl, isPathPart⟩ := isPreferred_method_iff.mp preferred
  obtain ⟨path, behind, denotes, none, rfl⟩ := List.forall₂_cons_left_iff.mp denote
  obtain rfl := List.forall₂_nil_left_iff.mp none
  obtain ⟨path, rfl⟩ := text_of_denotes denotes
  exact ⟨string.text, path, whole, ⟨part, isPathPart, denotes⟩, rfl⟩

/-- The sentence for any method captures the word and the same path. -/
theorem captures?_anyMethod_iff
    {word rest : List Char} (nonempty : word ≠ [])
    (blankFree : ∀ c ∈ word, Text.isBlank c = false) {text : String}
    (whole : text.toList = sendFront ++ (word ++ (requestTo ++ rest)))
    (arguments : List Argument) :
    anyMethodPattern.captures? text = some arguments ↔
      ∃ path, IsPath rest path ∧ arguments = [.text (String.ofList word), .text path] := by
  have captures := anyMethodPattern.captures anyMethodCut_isOf text
  rw [whole] at captures
  constructor
  · intro captured
    have isMatch : anyMethodPattern.isMatch text = true := by simp [Pattern.isMatch, captured]
    have decomposed := anyMethodPattern.exists_decomposition anyMethodCut_isOf isMatch
    rw [whole] at decomposed
    obtain ⟨chosen, preferred, -⟩ := captures.preferred decomposed
    have denote := (captures.some_iff chosen preferred arguments).mp captured
    obtain ⟨part, rfl, isPathPart⟩ := (isPreferred_anyMethod_iff nonempty blankFree).mp preferred
    obtain ⟨_, _, denotesWord, behind, rfl⟩ := List.forall₂_cons_left_iff.mp denote
    obtain ⟨_, _, denotes, none, rfl⟩ := List.forall₂_cons_left_iff.mp behind
    obtain rfl := List.forall₂_nil_left_iff.mp none
    obtain ⟨path, rfl⟩ := text_of_denotes denotes
    cases denotesWord
    exact ⟨path, ⟨part, isPathPart, denotes⟩, rfl⟩
  · rintro ⟨path, ⟨part, isPathPart, denotes⟩, rfl⟩
    have preferred := (isPreferred_anyMethod_iff nonempty blankFree).mpr ⟨part, rfl, isPathPart⟩
    exact (captures.some_iff _ preferred _).mpr (.cons (.word word) (.cons denotes .nil))

/-- Where the sentence for one method matches, the one for any method captures that method
and the same path. -/
theorem captures?_anyMethod_of_method
    {method : String × String} (member : method ∈ withoutBody) {text : String}
    {arguments : List Argument}
    (captured : (Pattern.lenient method.2).captures? text = some arguments) :
    ∃ path, arguments = [.text path] ∧
      anyMethodPattern.captures? text = some [.text method.1, .text path] := by
  obtain ⟨rest, path, whole, isPath, rfl⟩ := exists_path_of_method member captured
  obtain ⟨-, nonempty, blankFree⟩ := cut_of_withoutBody method member
  refine ⟨path, rfl, ?_⟩
  have captured' := (captures?_anyMethod_iff nonempty blankFree whole _).mpr ⟨path, isPath, rfl⟩
  rw [captured', String.ofList_toList]

/-! ## Without the sentences for one method -/

/-- The sentences without those for one method that is sent without a body. -/
def generic : List (Entry (Action World)) :=
  entries.filter fun entry => entry.pattern ∉ withoutBody.map Prod.snd

def anyMethodEntry : Entry (Action World) :=
  ⟨.action, "I send a {word} request to {string}", sendAny⟩

theorem anyMethodEntry_mem_generic : anyMethodEntry ∈ generic := by
  refine List.mem_filter.mpr ⟨by simp [entries, anyMethodEntry], ?_⟩
  decide +kernel

section Calls

variable {W : Type} {step : Step} {registry registry' : Registry (Action W)}

theorem run_of_call
    {definition : Definition (Action W)} {arguments : List Argument}
    (isCall : (registry.find? step.kind step.text).map Found.call = some (definition, arguments))
    (world : W) :
    step.run registry world =
      let called := definition.action world (step.arguments arguments)
      (called.1.error?, called.2) := by
  obtain ⟨found, find, call⟩ := Option.map_eq_some_iff.mp isCall
  obtain ⟨rfl, rfl⟩ := Prod.mk.inj call
  exact Step.run_of_found find world

/-- A step runs the same where the same definition is found for it. -/
theorem run_of_same_call
    (same : (registry.find? step.kind step.text).map Found.call =
      (registry'.find? step.kind step.text).map Found.call) (world : W) :
    step.run registry world = step.run registry' world := by
  cases find : registry'.find? step.kind step.text with
  | none =>
      have find' : registry.find? step.kind step.text = none := by simpa [find] using same
      simp [Step.run, find, find']
  | some found =>
      rw [run_of_call (same.trans (congrArg (·.map Found.call) find)) world,
        Step.run_of_found find]

end Calls

/-- Leaving out items does not matter if the first one with a value stays. -/
theorem findSome?_filter_of_kept
    {β γ : Type} {f : β → Option γ} {keep : β → Bool} {items : List β}
    (kept : ∀ item ∈ items, ∀ value, f item = some value → items.findSome? f = some value →
      keep item = true) :
    (items.filter keep).findSome? f = items.findSome? f := by
  induction items with
  | nil => rfl
  | cons item items inductionHypothesis =>
      rw [List.findSome?_cons, List.filter_cons]
      cases hit : f item with
      | none =>
          have later := inductionHypothesis fun other member value hits found =>
            kept other (List.mem_cons_of_mem item member) value hits
              (by rw [List.findSome?_cons, hit]; exact found)
          by_cases isKept : keep item = true <;> simp [isKept, hit, later]
      | some value =>
          have isKept := kept item List.mem_cons_self value hit
            (by rw [List.findSome?_cons, hit])
          simp [isKept, hit]

/-- The only item with a value gives the first one. -/
theorem findSome?_of_only
    {β γ : Type} {f : β → Option γ} {items : List β} {item : β} {value : γ}
    (member : item ∈ items) (hit : f item = some value)
    (only : ∀ other ∈ items, (f other).isSome = true → other = item) :
    items.findSome? f = some value := by
  cases found : items.findSome? f with
  | none =>
      rw [List.findSome?_eq_none_iff.mp found item member] at hit
      cases hit
  | some first =>
      obtain ⟨other, isOther, hits⟩ := List.exists_of_findSome?_eq_some found
      rw [only other isOther (Option.isSome_of_eq_some hits), hit] at hits
      exact hits.symm

/-- If both match a text, they are an overlapping pair, in one order or the other. -/
def Overlap (first second : Entry (Action World)) : Prop :=
  first.kind = second.kind → ∀ text : String,
    (Pattern.lenient first.pattern).isMatch text = true →
    (Pattern.lenient second.pattern).isMatch text = true →
      (first.pattern, second.pattern) ∈ overlapping ∨
        (second.pattern, first.pattern) ∈ overlapping

instance : Std.Symm Overlap :=
  ⟨fun _ _ overlap sameKind text isMatch isMatch' =>
    (overlap sameKind.symm text isMatch' isMatch).symm⟩

theorem overlap_of_ne
    {first second : Entry (Action World)} (isEntry : first ∈ entries)
    (isEntry' : second ∈ entries) (different : first ≠ second) : Overlap first second := by
  have pairwise : entries.Pairwise Overlap :=
    pairwise_overlapping.imp fun overlap sameKind text isMatch isMatch' =>
      .inl (overlap sameKind text isMatch isMatch')
  exact pairwise.forall isEntry isEntry' different

theorem overlapping_anyMethod :
    ∀ pair ∈ overlapping, pair.1 ≠ anyMethodEntry.pattern ∧
      (pair.2 = anyMethodEntry.pattern → pair.1 ∈ withoutBody.map Prod.snd) ∧
        pair.2 ∉ withoutBody.map Prod.snd := by
  decide +kernel

/-- Without the sentences for one method nothing competes with the one for any method. -/
theorem call_generic
    {text : String} {arguments : List Argument}
    (captured : anyMethodPattern.captures? text = some arguments) :
    ((Registry.ofEntries generic).find? .action text).map Found.call =
      some (anyMethodEntry.definition, arguments) := by
  have isMatch : (Pattern.lenient anyMethodEntry.pattern).isMatch text = true :=
    Option.isSome_of_eq_some captured
  have isChosen : chosen? generic .action text = some (anyMethodEntry, arguments) := by
    refine findSome?_of_only anyMethodEntry_mem_generic ?_ ?_
    · have captures : anyMethodEntry.definition.captures? .action text = some arguments := captured
      rw [captures]
      rfl
    · intro other member isHit
      obtain ⟨isOther, isKept⟩ := List.mem_filter.mp member
      have notMethod : other.pattern ∉ withoutBody.map Prod.snd := of_decide_eq_true isKept
      rw [Option.isSome_map] at isHit
      obtain ⟨isKind, isMatch'⟩ := Definition.isSome_captures?_iff.mp isHit
      by_contra different
      rcases overlap_of_ne isOther (List.mem_filter.mp anyMethodEntry_mem_generic).1 different
        isKind text isMatch' isMatch with overlap | overlap
      · exact notMethod ((overlapping_anyMethod _ overlap).2.1 rfl)
      · exact absurd rfl (overlapping_anyMethod _ overlap).1
  rw [call_find?_ofEntries, isChosen]
  rfl

theorem eq_of_pattern
    {first second : Entry (Action World)} (isEntry : first ∈ entries)
    (isEntry' : second ∈ entries) (same : first.pattern = second.pattern) : first = second :=
  List.inj_on_of_nodup_map nodup_patterns isEntry isEntry' same

def methodEntry (method : Method) (pattern : String) : Entry (Action World) :=
  ⟨.action, pattern, sendWithoutBody method⟩

theorem entry_of_withoutBody :
    ∀ method ∈ withoutBody, ∃ named : Method,
      named.name = method.1 ∧ methodEntry named method.2 ∈ entries := by
  unfold withoutBody entries
  simp only [List.forall_mem_cons]
  exact ⟨⟨.get, rfl, by simp [methodEntry]⟩, ⟨.delete, rfl, by simp [methodEntry]⟩, nofun⟩

theorem upperCase_withoutBody : ∀ method ∈ withoutBody, upperCase method.1 = method.1 := by
  decide +kernel

/-- The word for a method, sent as any method, is sent as that method. -/
theorem sendAny_of_method
    {method : String × String} (isMethod : method ∈ withoutBody) {named : Method}
    (isName : named.name = method.1) (path : String) (more : Arguments) (world : World) :
    sendAny world (.text method.1 :: .text path :: more) =
      sendWithoutBody named world (.text path :: more) := by
  have isMethodOf : methodOf method.1 = .ok named := by
    have read : Method.ofText? method.1 = some named := by
      rw [Method.ofText?, dif_pos (isName ▸ named.wellFormed)]
      exact congrArg some (Method.eq_of_name isName.symm)
    rw [methodOf, upperCase_withoutBody method isMethod, read]
  have asksWord : (asked (Arguments.text (.text method.1 :: .text path :: more) 0)).bind methodOf =
      .ok named := isMethodOf
  have asksPath : asked (Arguments.text (.text method.1 :: .text path :: more) 1) = .ok path := rfl
  have asksPath' : asked (Arguments.text (.text path :: more) 0) = .ok path := rfl
  simp only [sendAny, sendWithoutBody, asksWord, asksPath, asksPath']

/-- A step runs the same without the sentences for one method. -/
theorem run_generic (step : Step) (world : World) :
    step.run (.ofEntries entries) world = step.run (.ofEntries generic) world := by
  by_cases isRerouted : ∃ method ∈ withoutBody, step.kind = .action ∧
      (Pattern.lenient method.2).isMatch step.text = true
  · obtain ⟨method, isMethod, isAction, isMatch⟩ := isRerouted
    obtain ⟨named, isName, isEntry⟩ := entry_of_withoutBody method isMethod
    obtain ⟨arguments, captured⟩ := Option.isSome_iff_exists.mp isMatch
    obtain ⟨path, rfl, captured'⟩ := captures?_anyMethod_of_method isMethod captured
    have isCall : ((Registry.ofEntries entries).find? step.kind step.text).map Found.call =
        some ((methodEntry named method.2).definition, [.text path]) := by
      rw [isAction]
      refine find?_of_captures? isEntry captured fun pattern overlap => ?_
      exact absurd (List.mem_map_of_mem isMethod) (overlapping_anyMethod _ overlap).2.2
    have isCall' : ((Registry.ofEntries generic).find? step.kind step.text).map Found.call =
        some (anyMethodEntry.definition, [.text method.1, .text path]) := by
      rw [isAction]
      exact call_generic captured'
    have sends := sendAny_of_method isMethod isName path (step.arguments []) world
    rw [run_of_call isCall, run_of_call isCall']
    exact congrArg (fun called => (called.1.error?, called.2)) sends.symm
  · have same : chosen? generic step.kind step.text = chosen? entries step.kind step.text := by
      refine findSome?_filter_of_kept fun entry isEntry found isHit _ => ?_
      obtain ⟨arguments, captured, -⟩ := Option.map_eq_some_iff.mp isHit
      obtain ⟨isKind, isMatch⟩ :=
        Definition.isSome_captures?_iff.mp (Option.isSome_of_eq_some captured)
      refine decide_eq_true fun isNamed => isRerouted ?_
      obtain ⟨method, isMethod, isPattern⟩ := List.mem_map.mp isNamed
      obtain ⟨named, -, isEntry'⟩ := entry_of_withoutBody method isMethod
      obtain rfl : entry = methodEntry named method.2 :=
        eq_of_pattern isEntry isEntry' isPattern.symm
      exact ⟨method, isMethod, isKind.symm, isMatch⟩
    apply run_of_same_call
    rw [call_find?_ofEntries, call_find?_ofEntries, same]

/-! ## The letter case of the word -/

theorem upperCase_lowerCase (s : String) : upperCase (lowerCase s) = upperCase s := by
  simp only [upperCase, lowerCase, String.toList_ofList, List.map_map]
  congr 2
  exact funext Char.toUpper_toLower_eq_toUpper

/-- A When-step that sends a request to a path, with a word for the method. -/
def sendStep (step : Step) (word path : String) : Step :=
  { step with kind := .action, text := "I send a " ++ word ++ " request to " ++ path }

theorem text_sendStep (step : Step) (word path : String) :
    (sendStep step word path).text.toList =
      sendFront ++ (word.toList ++ (requestTo ++ path.toList)) := by
  have starts : "I send a ".toList = sendFront := by decide +kernel
  have between : " request to ".toList = requestTo := by decide +kernel
  simp only [sendStep, String.toList_append, starts, between, List.append_assoc]

/-- What fits a string placeholder has a path for its value: a sentence in which it stands
captures one. -/
theorem exists_isPath {part : Part} (fits : part.Fits .lenient .string) :
    ∃ path, IsPath part.text path := by
  let text := String.ofList (sendFront ++ (['X'] ++ (requestTo ++ part.text)))
  have whole : text.toList = sendFront ++ (['X'] ++ (requestTo ++ part.text)) :=
    String.toList_ofList
  have blankFree : ∀ c ∈ ['X'], Text.isBlank c = false :=
    List.forall_mem_singleton.mpr (by decide)
  have isMatch : anyMethodPattern.isMatch text = true := by
    apply anyMethodPattern.isMatch_of_decomposition anyMethodCut_isOf
      (by simp [anyMethodCut, Cut.placeholders])
    rw [whole]
    exact Cut.isDecomposition_two_iff.mpr
      ⟨_, part, rfl, .word (by simp) blankFree, fits, by simp [Part.text]⟩
  obtain ⟨arguments, captured⟩ := Option.isSome_iff_exists.mp isMatch
  obtain ⟨path, isPath, -⟩ :=
    (captures?_anyMethod_iff (by simp) blankFree whole arguments).mp captured
  exact ⟨path, isPath⟩

/-- What such a step runs: the path does not depend on the word. -/
theorem run_sendStep
    (step : Step) {part : Part} {path : String} (isPath : IsPath part.text path) {word : String}
    (nonempty : word.toList ≠ []) (blankFree : ∀ c ∈ word.toList, Text.isBlank c = false)
    (world : World) :
    (sendStep step word (String.ofList part.text)).run (.ofEntries entries) world =
      let called := sendAny world (.text word :: .text path :: step.arguments [])
      (called.1.error?, called.2) := by
  have whole := text_sendStep step word (String.ofList part.text)
  rw [String.toList_ofList] at whole
  have captured := (captures?_anyMethod_iff nonempty blankFree whole _).mpr ⟨path, isPath, rfl⟩
  rw [String.ofList_toList] at captured
  have isCall := call_generic captured
  have ran := fun step' : Step => @run_of_call World step' (.ofEntries generic)
  rw [run_generic]
  exact ran (sendStep step word (String.ofList part.text)) isCall world

theorem methodOf_of_sameCase
    {word word' : String} (sameCase : lowerCase word = lowerCase word') :
    methodOf word = methodOf word' ∨
      methodOf word = .error (.invalidMethod word) ∧
        methodOf word' = .error (.invalidMethod word') := by
  have same : upperCase word = upperCase word' := by
    rw [← upperCase_lowerCase word, sameCase, upperCase_lowerCase]
  unfold methodOf
  rw [same]
  cases Method.ofText? (upperCase word') with
  | none => exact .inr ⟨rfl, rfl⟩
  | some method => exact .inl rfl

/-- The sentences for one method sent without a body could be left out: every step runs the
same without them, with the same error, request and world. The word for a method has no
letter case: only the error for a word that is no method quotes it as it is written. -/
theorem dedicated_sentences_agree :
    library {} = .ok (.ofEntries entries) ∧
      StepLibrary.ofList generic {} = .ok (.ofEntries generic) ∧
      (∀ (step : Step) (world : World),
        step.run (.ofEntries entries) world = step.run (.ofEntries generic) world) ∧
      ∀ (step : Step) (part : Part) (word word' : String) (world : World),
        part.Fits .lenient .string → word ≠ "" → word' ≠ "" →
        (∀ c ∈ word.toList, Text.isBlank c = false) →
        (∀ c ∈ word'.toList, Text.isBlank c = false) → lowerCase word = lowerCase word' →
          let ran := (sendStep step word (String.ofList part.text)).run (.ofEntries entries) world
          let ran' := (sendStep step word' (String.ofList part.text)).run (.ofEntries entries) world
          ran.2 = ran'.2 ∧
            (ran.1 = ran'.1 ∨
              ran.1 = some (.invalidMethod word) ∧ ran'.1 = some (.invalidMethod word')) := by
  have compile : ∀ entry ∈ generic, entry.Compiles Pattern.isHuge :=
    fun entry member => entries_compile entry (List.mem_filter.mp member).1
  refine ⟨StepLibrary.ofList_empty entries_compile, StepLibrary.ofList_empty compile,
    run_generic, ?_⟩
  intro step part word word' world fits nonempty nonempty' blankFree blankFree' sameCase ran ran'
  obtain ⟨path, isPath⟩ := exists_isPath fits
  have isRun : ran = _ := run_sendStep step isPath (by simpa using nonempty) blankFree world
  have isRun' : ran' = _ := run_sendStep step isPath (by simpa using nonempty') blankFree' world
  rw [isRun, isRun']
  have asks (word : String) :
      asked (Arguments.text (.text word :: .text path :: step.arguments []) 0) = .ok word ∧
        asked (Arguments.text (.text word :: .text path :: step.arguments []) 1) = .ok path :=
    ⟨rfl, rfl⟩
  unfold sendAny
  simp only [asks, Except.bind]
  rcases methodOf_of_sameCase sameCase with same | ⟨invalid, invalid'⟩
  · rw [same]
    exact ⟨rfl, .inl rfl⟩
  · rw [invalid, invalid']
    exact ⟨rfl, .inr ⟨rfl, rfl⟩⟩

end HttpSteps

end Gherkin
