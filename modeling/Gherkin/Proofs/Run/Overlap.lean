import Gherkin.Proofs.Pattern.Decomposition
import Gherkin.Proofs.Run.Registered
import Gherkin.Proofs.Text.Splitting
import Gherkin.Run.HttpSteps

/-!
Contract: which of the built-in sentences match the same text.

Owns: the overlaps among the twelve patterns, the texts on which two of them overlap, and
what a reordering of the sentences may do.
Does not own: how a pattern matches (`Gherkin.Proofs.Pattern.Decomposition`).
Main statement: `library_overlaps`.

Two patterns can only match the same text if one of their first literals starts the other.
-/

set_option autoImplicit false

namespace Gherkin

/-! ## Cuts with one or two placeholders -/

namespace Cut

theorem isDecomposition_one_iff
    {mode : StringMode} {front ending text : List Char} {placeholder : Placeholder}
    {parts : List Part} :
    IsDecomposition mode ⟨front, [(placeholder, ending)]⟩ parts text ↔
      ∃ part, parts = [part] ∧ part.Fits mode placeholder ∧
        text = front ++ (part.text ++ ending) := by
  rw [isDecomposition_cons_iff]
  constructor
  · intro split
    obtain ⟨part, later, rest, rfl, fits, whole, behind⟩ := split
    obtain ⟨rfl, rfl⟩ := isDecomposition_nil_iff.mp behind
    exact ⟨part, rfl, fits, whole⟩
  · intro single
    obtain ⟨part, rfl, fits, whole⟩ := single
    exact ⟨part, [], ending, rfl, fits, whole, isDecomposition_nil_iff.mpr ⟨rfl, rfl⟩⟩

theorem isDecomposition_two_iff
    {mode : StringMode} {front between ending text : List Char}
    {placeholder placeholder' : Placeholder} {parts : List Part} :
    IsDecomposition mode ⟨front, [(placeholder, between), (placeholder', ending)]⟩ parts text ↔
      ∃ first second, parts = [first, second] ∧ first.Fits mode placeholder ∧
        second.Fits mode placeholder' ∧
          text = front ++ (first.text ++ (between ++ (second.text ++ ending))) := by
  rw [isDecomposition_cons_iff]
  constructor
  · intro split
    obtain ⟨first, later, rest, rfl, fits, whole, behind⟩ := split
    obtain ⟨second, rfl, fits', rfl⟩ := isDecomposition_one_iff.mp behind
    exact ⟨first, second, rfl, fits, fits', whole⟩
  · intro double
    obtain ⟨first, second, rfl, fits, fits', whole⟩ := double
    exact ⟨first, [second], _, rfl, fits, whole,
      isDecomposition_one_iff.mpr ⟨second, rfl, fits', rfl⟩⟩

theorem IsDecomposition.front_prefix
    {mode : StringMode} {cut : Cut} {parts : List Part} {text : List Char}
    (decomposition : cut.IsDecomposition mode parts text) : cut.front <+: text :=
  ⟨_, decomposition.fill_eq⟩

end Cut

/-! ## Matching by decompositions -/

namespace Pattern

theorem exists_decomposition
    (pattern : Pattern) {cut : Cut} (isOf : cut.IsOf pattern.text.toList) {subject : String}
    (isMatch : pattern.isMatch subject = true) :
    ∃ parts, cut.IsDecomposition pattern.mode parts subject.toList := by
  by_contra noDecomposition
  have captured := (pattern.captures isOf subject).none_of_no_decomposition noDecomposition
  rw [Pattern.isMatch, captured] at isMatch
  contradiction

/-- Without numbers, a decomposition is all that a match needs. -/
theorem isMatch_of_decomposition
    (pattern : Pattern) {cut : Cut} (isOf : cut.IsOf pattern.text.toList)
    (noNumber : Placeholder.int ∉ cut.placeholders) {subject : String} {parts : List Part}
    (decomposition : cut.IsDecomposition pattern.mode parts subject.toList) :
    pattern.isMatch subject = true := by
  have captures := pattern.captures isOf subject
  obtain ⟨chosen, preferred, -⟩ := captures.preferred ⟨parts, decomposition⟩
  apply Option.isSome_iff_ne_none.mpr
  intro missed
  obtain ⟨digits, inHoles, -⟩ := (captures.none_iff chosen preferred).mp missed
  exact noNumber (List.of_mem_zip inHoles).1

/-- The only decomposition decides what is captured. -/
theorem captures?_of_only_decomposition
    (pattern : Pattern) {cut : Cut} (isOf : cut.IsOf pattern.text.toList) {subject : String}
    {parts : List Part} (decomposition : cut.IsDecomposition pattern.mode parts subject.toList)
    (only : ∀ other, cut.IsDecomposition pattern.mode other subject.toList → other = parts)
    {arguments : List Argument}
    (denote : List.Forall₂ (fun (hole : Placeholder × Part) argument =>
      Part.Denotes hole.1 hole.2 argument) (cut.placeholders.zip parts) arguments) :
    pattern.captures? subject = some arguments := by
  have captures := pattern.captures isOf subject
  obtain ⟨chosen, preferred, -⟩ := captures.preferred ⟨parts, decomposition⟩
  have isParts := only chosen preferred.isDecomposition
  subst isParts
  exact (captures.some_iff chosen preferred arguments).mpr denote

end Pattern

/-! ## Parts that hold blanks or quotes -/

/-- A string that holds a blank stands in quotes. -/
theorem Part.Fits.quoted_of_blank
    {mode : StringMode} {part : Part} (fits : part.Fits mode .string)
    {c : Char} (inside : c ∈ part.text) (isBlank : Text.isBlank c = true) :
    ∃ chars, part = .quoted chars ∧ '"' ∉ chars := by
  cases fits with
  | @quoted chars quoteFree => exact ⟨chars, rfl, quoteFree⟩
  | bare _ _ blankFree =>
      have notBlank := blankFree c inside
      rw [isBlank] at notBlank
      contradiction

theorem space_not_mem_of_blankFree {cs : List Char}
    (blankFree : ∀ c ∈ cs, Text.isBlank c = false) : ' ' ∉ cs := by
  intro member
  have notBlank := blankFree ' ' member
  contradiction

/-- A text that stands between quotes without its quotes, and without blanks. -/
structure IsBare (s : List Char) : Prop where
  quoteFree : '"' ∉ s
  blankFree : ∀ c ∈ s, Text.isBlank c = false

namespace HttpSteps

/-! The literals of the sentences that compete. They are not to be taken apart but by the
facts below. -/

@[irreducible] def sendFront : List Char :=
  "I send a ".toList

@[irreducible] def requestTo : List Char :=
  " request to ".toList

@[irreducible] def withEnding : List Char :=
  " with:".toList

@[irreducible] def fieldFront : List Char :=
  "the response should contain ".toList

@[irreducible] def withValue : List Char :=
  " with value ".toList

theorem requestTo_starts_blank : ∃ later, requestTo = ' ' :: later :=
  ⟨"request to ".toList, by decide +kernel⟩

theorem withValue_starts_blank : ∃ later, withValue = ' ' :: later :=
  ⟨"with value ".toList, by decide +kernel⟩

theorem quote_not_mem_withValue : '"' ∉ withValue := by
  decide +kernel

theorem withEnding_blank : ' ' ∈ withEnding := by
  decide +kernel

theorem withEnding_last : withEnding.getLast? = some ':' := by
  decide +kernel

/-- The first of two strings that make one quoted string opens its quotes. -/
theorem opening_of_quoted_value
    {first : Part} {rest inside : List Char} (fits : first.Fits .lenient .string)
    (quoteFree : '"' ∉ inside)
    (whole : first.text ++ (withValue ++ rest) = (Part.quoted inside).text) :
    ∃ a, first = .run ('"' :: a) ∧ (∀ c ∈ a, Text.isBlank c = false) ∧
      a ++ (withValue ++ rest) = inside ++ ['"'] := by
  cases fits with
  | @quoted chars free =>
      have closed : chars ++ '"' :: (withValue ++ rest) = inside ++ '"' :: [] := by
        simpa [Part.text] using whole
      obtain ⟨_, behind⟩ := Text.append_separator_inj free quoteFree closed
      obtain ⟨later, starts⟩ := withValue_starts_blank
      rw [starts] at behind
      contradiction
  | @bare token _ nonempty blankFree =>
      obtain ⟨c, a, rfl⟩ := List.exists_cons_of_ne_nil nonempty
      obtain ⟨rfl, behind⟩ := List.cons.inj whole
      exact ⟨a, rfl, fun d member => blankFree d (List.mem_cons_of_mem _ member), behind⟩

/-- The second closes them. -/
theorem closing_of_quoted_value
    {second : Part} {front inside : List Char} (fits : second.Fits .lenient .string)
    (quoteFree : '"' ∉ inside) (whole : front ++ second.text = inside ++ ['"']) :
    ∃ b, second = .run (b ++ ['"']) ∧ (∀ c ∈ b, Text.isBlank c = false) ∧
      inside = front ++ b := by
  cases fits with
  | @quoted chars free =>
      have closed : (front ++ '"' :: chars) ++ ['"'] = inside ++ ['"'] := by
        simpa [Part.text] using whole
      have opened : '"' ∈ inside := by
        rw [← List.append_cancel_right closed]
        simp
      contradiction
  | @bare token _ nonempty blankFree =>
      obtain ⟨b, c, rfl⟩ : ∃ b c, token = b ++ [c] :=
        ⟨_, _, (List.dropLast_append_getLast nonempty).symm⟩
      have closed : (front ++ b) ++ [c] = inside ++ ['"'] := by
        simpa [Part.text] using whole
      obtain ⟨same, last⟩ := List.append_inj' closed rfl
      obtain rfl : c = '"' := List.singleton_inj.mp last
      exact ⟨b, rfl, fun d member => blankFree d (List.mem_append_left _ member), same.symm⟩

/-- A quoted string that is cut in two at the words `with value` is cut inside its quotes,
into two bare strings. -/
theorem parts_of_quoted_value
    {first second : Part} (fits : first.Fits .lenient .string)
    (fits' : second.Fits .lenient .string) {inside : List Char} (quoteFree : '"' ∉ inside)
    (whole : first.text ++ (withValue ++ second.text) = (Part.quoted inside).text) :
    ∃ a b, IsBare a ∧ IsBare b ∧ inside = a ++ (withValue ++ b) ∧
      first = .run ('"' :: a) ∧ second = .run (b ++ ['"']) := by
  obtain ⟨a, isFirst, blankFree, opened⟩ := opening_of_quoted_value fits quoteFree whole
  rw [← List.append_assoc] at opened
  obtain ⟨b, isSecond, blankFree', closed⟩ := closing_of_quoted_value fits' quoteFree opened
  have quoteFreeA : '"' ∉ a := fun member => quoteFree (by simp [closed, member])
  have quoteFreeB : '"' ∉ b := fun member => quoteFree (by simp [closed, member])
  exact ⟨a, b, ⟨quoteFreeA, blankFree⟩, ⟨quoteFreeB, blankFree'⟩,
    by rw [closed, List.append_assoc], isFirst, isSecond⟩

/-! ## The cuts of the sentences that compete -/

/-- The sentence for one method, up to what stands behind its string. -/
def methodCut (method ending : List Char) : Cut :=
  ⟨sendFront ++ (method ++ requestTo), [(.string, ending)]⟩

def anyMethodCut : Cut :=
  ⟨sendFront, [(.word, requestTo), (.string, [])]⟩

def valueCut : Cut :=
  ⟨fieldFront, [(.string, withValue), (.string, [])]⟩

def fieldCut : Cut :=
  ⟨fieldFront, [(.string, [])]⟩

theorem anyMethodCut_isOf : anyMethodCut.IsOf "I send a {word} request to {string}".toList :=
  Cut.isOf_of_eq (by decide +kernel)

theorem valueCut_isOf :
    valueCut.IsOf "the response should contain {string} with value {string}".toList :=
  Cut.isOf_of_eq (by decide +kernel)

theorem fieldCut_isOf : fieldCut.IsOf "the response should contain {string}".toList :=
  Cut.isOf_of_eq (by decide +kernel)

/-- The pairs of sentences that match a common text, the one registered first in front. -/
def overlapping : List (String × String) :=
  [
    ("I send a GET request to {string}", "I send a {word} request to {string}"),
    ("I send a DELETE request to {string}", "I send a {word} request to {string}"),
    ("the response should contain {string} with value {string}",
      "the response should contain {string}")
  ]

/-- The methods that are sent without a body, each with its sentence. -/
def withoutBody : List (String × String) :=
  [
    ("GET", "I send a GET request to {string}"),
    ("DELETE", "I send a DELETE request to {string}")
  ]

/-- The methods that are sent with a body, each with its sentence. -/
def withBody : List (String × String) :=
  [
    ("POST", "I send a POST request to {string} with:"),
    ("PUT", "I send a PUT request to {string} with:"),
    ("PATCH", "I send a PATCH request to {string} with:")
  ]

/-- The first literal of a pattern. -/
def front (pattern : String) : List Char :=
  (Cut.ofPieces (Piece.ofText pattern.toList)).front

/-- Whether two entries of a kind may match the same text, as far as their first literals
go. -/
def MayMeet (first second : Entry (Action World)) : Prop :=
  first.kind = second.kind ∧
    (front first.pattern <+: front second.pattern ∨ front second.pattern <+: front first.pattern)

instance (first second : Entry (Action World)) : Decidable (MayMeet first second) :=
  inferInstanceAs (Decidable (_ ∧ _))

theorem pairwise_mayMeet :
    entries.Pairwise fun earlier later => MayMeet earlier later →
      (earlier.pattern, later.pattern) ∈ overlapping ∨
        ∃ method ∈ withBody, (method.2, "I send a {word} request to {string}") =
          (earlier.pattern, later.pattern) := by
  decide +kernel

/-! ## Sentences about a method -/

def anyMethodPattern : Pattern :=
  .lenient "I send a {word} request to {string}"

theorem isDecomposition_method_iff
    {method ending text : List Char} {parts : List Part} :
    (methodCut method ending).IsDecomposition .lenient parts text ↔
      ∃ part, parts = [part] ∧ part.Fits .lenient .string ∧
        text = sendFront ++ (method ++ (requestTo ++ (part.text ++ ending))) := by
  rw [methodCut, Cut.isDecomposition_one_iff]
  simp only [List.append_assoc]

/-- Where a method is named, the word of the sentence for any method is that method. -/
theorem parts_of_method
    {method rest : List Char} (spaceFree : ' ' ∉ method) {parts : List Part}
    (decomposition : anyMethodCut.IsDecomposition .lenient parts
      (sendFront ++ (method ++ (requestTo ++ rest)))) :
    ∃ part, parts = [.run method, part] ∧ part.Fits .lenient .string ∧ part.text = rest := by
  obtain ⟨word, part, rfl, fitsWord, fits, whole⟩ :=
    Cut.isDecomposition_two_iff.mp decomposition
  obtain ⟨later, starts⟩ := requestTo_starts_blank
  cases fitsWord with
  | @word token nonempty blankFree =>
      have same := List.append_cancel_left whole
      rw [starts, List.append_nil] at same
      obtain ⟨isMethod, behind⟩ := Text.append_separator_inj spaceFree
        (space_not_mem_of_blankFree blankFree) same
      have isRest := List.append_cancel_left behind
      exact ⟨part, by rw [isMethod], fits, isRest.symm⟩

theorem not_withBody_of_anyMethod
    {method text : List Char} (spaceFree : ' ' ∉ method) {parts parts' : List Part}
    (decomposition : (methodCut method withEnding).IsDecomposition .lenient parts text) :
    ¬ anyMethodCut.IsDecomposition .lenient parts' text := by
  intro anyMethod
  obtain ⟨string, rfl, fits, rfl⟩ := isDecomposition_method_iff.mp decomposition
  obtain ⟨part, rfl, fits', ends⟩ := parts_of_method spaceFree anyMethod
  have holdsBlank : ' ' ∈ part.text := by
    rw [ends]
    exact List.mem_append_right _ withEnding_blank
  obtain ⟨inside, rfl, quoteFree⟩ := fits'.quoted_of_blank holdsBlank (by decide)
  have lastIsQuote : (Part.quoted inside).text.getLast? = some '"' := by
    rw [Part.text, ← List.cons_append, List.getLast?_concat]
  have lastIsColon : (Part.quoted inside).text.getLast? = some ':' := by
    rw [ends, List.getLast?_append, withEnding_last]
    rfl
  rw [lastIsQuote] at lastIsColon
  contradiction

theorem cut_of_withoutBody :
    ∀ method ∈ withoutBody,
      Cut.ofPieces (Piece.ofText method.2.toList) = methodCut method.1.toList [] ∧
        method.1.toList ≠ [] ∧ ∀ c ∈ method.1.toList, Text.isBlank c = false := by
  have decided : ∀ method ∈ withoutBody,
      Cut.ofPieces (Piece.ofText method.2.toList) = methodCut method.1.toList [] ∧
        method.1.toList ≠ [] ∧ method.1.toList.all (!Text.isBlank ·) = true := by
    decide +kernel
  intro method member
  obtain ⟨cut, nonempty, blankFree⟩ := decided method member
  refine ⟨cut, nonempty, fun c isIn => ?_⟩
  simpa using List.all_eq_true.mp blankFree c isIn

theorem cut_of_withBody :
    ∀ method ∈ withBody,
      Cut.ofPieces (Piece.ofText method.2.toList) = methodCut method.1.toList withEnding ∧
        ' ' ∉ method.1.toList := by
  decide +kernel

/-! ## The placeholders of the sentences -/

theorem withoutBody_holes :
    ∀ method ∈ withoutBody, (Pattern.lenient method.2).placeholders = [.string] := by
  intro method member
  have isCut := Cut.isOf_of_eq (cut_of_withoutBody method member).1.symm
  exact (Pattern.lenient method.2).placeholders_eq isCut

theorem withBody_holes :
    ∀ method ∈ withBody, (Pattern.lenient method.2).placeholders = [.string] := by
  intro method member
  have isCut := Cut.isOf_of_eq (cut_of_withBody method member).1.symm
  exact (Pattern.lenient method.2).placeholders_eq isCut

/-- The sentences that are not about one method, with their placeholders. -/
def otherHoles : List (String × List Placeholder) :=
  [
    ("I set header {string} to {string}", [.string, .string]),
    ("I send a {word} request to {string}", [.word, .string]),
    ("the response status code should be {int}", [.int]),
    ("the response should have the following data:", []),
    ("the response should contain {string} with value {string}", [.string, .string]),
    ("the response should contain {string}", [.string]),
    ("the response header {string} should be {string}", [.string, .string])
  ]

theorem other_holes :
    ∀ sentence ∈ otherHoles, (Pattern.lenient sentence.1).placeholders = sentence.2 := by
  decide +kernel

theorem anyMethod_holes : anyMethodPattern.placeholders = [.word, .string] :=
  other_holes (_, _) (by simp [otherHoles])

theorem setHeader_holes :
    (Pattern.lenient "I set header {string} to {string}").placeholders = [.string, .string] :=
  other_holes (_, _) (by simp [otherHoles])

/-- No sentence has more than two placeholders. -/
theorem holes_le_two :
    ∀ entry ∈ entries, (Pattern.lenient entry.pattern).placeholders.length ≤ 2 := by
  have known : ∀ entry ∈ entries, entry.pattern ∈ withoutBody.map Prod.snd ∨
      entry.pattern ∈ withBody.map Prod.snd ∨ entry.pattern ∈ otherHoles.map Prod.fst := by
    simp [entries, withoutBody, withBody, otherHoles]
  have few : ∀ sentence ∈ otherHoles, sentence.2.length ≤ 2 := by simp [otherHoles]
  intro entry member
  rcases known entry member with ofMethod | ofMethod | other
  · obtain ⟨method, isMethod, same⟩ := List.mem_map.mp ofMethod
    rw [← same, withoutBody_holes method isMethod]
    decide
  · obtain ⟨method, isMethod, same⟩ := List.mem_map.mp ofMethod
    rw [← same, withBody_holes method isMethod]
    decide
  · obtain ⟨sentence, isSentence, same⟩ := List.mem_map.mp other
    rw [← same, other_holes sentence isSentence]
    exact few sentence isSentence

/-! ## Texts that two sentences match -/

/-- The sentence for any method matches where the sentence for one without a body does. -/
theorem anyMethod_of_withoutBody
    {method : String × String} (member : method ∈ withoutBody) {text : String}
    (isMatch : (Pattern.lenient method.2).isMatch text = true) :
    anyMethodPattern.isMatch text = true := by
  obtain ⟨cut, nonempty, blankFree⟩ := cut_of_withoutBody method member
  obtain ⟨parts, decomposition⟩ :=
    (Pattern.lenient method.2).exists_decomposition (Cut.ofPieces_isOf method.2.toList) isMatch
  rw [cut] at decomposition
  obtain ⟨string, rfl, fits, whole⟩ := isDecomposition_method_iff.mp decomposition
  apply anyMethodPattern.isMatch_of_decomposition anyMethodCut_isOf
    (by simp [anyMethodCut, Cut.placeholders])
  exact Cut.isDecomposition_two_iff.mpr
    ⟨_, _, rfl, .word nonempty blankFree, fits, whole⟩

/-- Sentences of a kind that match the same text are one of the overlapping pairs. -/
theorem pairwise_overlapping :
    entries.Pairwise fun earlier later =>
      earlier.kind = later.kind → ∀ text : String,
        (Pattern.lenient earlier.pattern).isMatch text = true →
        (Pattern.lenient later.pattern).isMatch text = true →
          (earlier.pattern, later.pattern) ∈ overlapping := by
  refine List.Pairwise.imp ?_ pairwise_mayMeet
  intro earlier later mayMeet sameKind text isMatch isMatch'
  obtain ⟨parts, decomposition⟩ :=
    (Pattern.lenient earlier.pattern).exists_decomposition
      (Cut.ofPieces_isOf earlier.pattern.toList) isMatch
  obtain ⟨parts', decomposition'⟩ :=
    (Pattern.lenient later.pattern).exists_decomposition
      (Cut.ofPieces_isOf later.pattern.toList) isMatch'
  have fronts := List.prefix_or_prefix_of_prefix decomposition.front_prefix
    decomposition'.front_prefix
  rcases mayMeet ⟨sameKind, fronts⟩ with overlap | ⟨method, isMethod, same⟩
  · exact overlap
  · obtain ⟨isFirst, isSecond⟩ := Prod.mk.inj same
    rw [← isFirst, (cut_of_withBody method isMethod).1] at decomposition
    rw [← isSecond, ← anyMethodCut_isOf.eq_ofPieces] at decomposition'
    exact absurd decomposition'
      (not_withBody_of_anyMethod (cut_of_withBody method isMethod).2 decomposition)

/-! ## Sentences about a field -/

def valuePattern : Pattern :=
  .lenient "the response should contain {string} with value {string}"

def fieldPattern : Pattern :=
  .lenient "the response should contain {string}"

theorem field_holes : fieldPattern.placeholders = [.string] :=
  other_holes (_, _) (by simp [otherHoles])

/-- The sentence about a field whose name reads as a field with a value. -/
def nestedSentence (a b : String) : String :=
  "the response should contain \"" ++ a ++ " with value " ++ b ++ "\""

theorem nestedSentence_toList (a b : String) :
    (nestedSentence a b).toList =
      fieldFront ++ (Part.quoted (a.toList ++ (withValue ++ b.toList))).text := by
  have starts : "the response should contain \"".toList = fieldFront ++ ['"'] := by decide +kernel
  have between : " with value ".toList = withValue := by decide +kernel
  have ends : "\"".toList = ['"'] := by decide +kernel
  unfold nestedSentence
  simp only [String.toList_append, starts, between, ends, Part.text, List.append_assoc,
    List.nil_append, List.cons_append]

theorem isUnquoted_of_opened {a : List Char} (quoteFree : '"' ∉ a) : IsUnquoted ('"' :: a) a := by
  have open' : a.getLast? ≠ some '"' := fun last => quoteFree (List.mem_of_getLast? last)
  exact ⟨a, .inl rfl, .inr ⟨open', rfl⟩⟩

theorem isUnquoted_of_closed {b : List Char} (quoteFree : '"' ∉ b) :
    IsUnquoted (b ++ ['"']) b := by
  cases b with
  | nil => exact isUnquoted_of_opened List.not_mem_nil
  | cons c cs =>
      have different : c ≠ '"' := fun same => quoteFree (same ▸ List.mem_cons_self)
      exact ⟨c :: cs ++ ['"'], .inr ⟨by simpa using different, rfl⟩, .inl rfl⟩

theorem isDecomposition_nested
    {a b : List Char} (bare : IsBare a) (bare' : IsBare b) :
    valueCut.IsDecomposition .lenient [.run ('"' :: a), .run (b ++ ['"'])]
      (fieldFront ++ (Part.quoted (a ++ (withValue ++ b))).text) := by
  have blankFree : ∀ c ∈ '"' :: a, Text.isBlank c = false :=
    List.forall_mem_cons.mpr ⟨by decide, bare.blankFree⟩
  have blankFree' : ∀ c ∈ b ++ ['"'], Text.isBlank c = false :=
    List.forall_mem_append.mpr ⟨bare'.blankFree, List.forall_mem_singleton.mpr (by decide)⟩
  refine Cut.isDecomposition_two_iff.mpr
    ⟨_, _, rfl, .bare rfl (by simp) blankFree, .bare rfl (by simp) blankFree', ?_⟩
  simp [Part.text]

theorem eq_of_isDecomposition_nested
    {a b : List Char} (bare : IsBare a) (bare' : IsBare b) {parts : List Part}
    (decomposition : valueCut.IsDecomposition .lenient parts
      (fieldFront ++ (Part.quoted (a ++ (withValue ++ b))).text)) :
    parts = [.run ('"' :: a), .run (b ++ ['"'])] := by
  obtain ⟨first, second, rfl, fits, fits', whole⟩ :=
    Cut.isDecomposition_two_iff.mp decomposition
  rw [List.append_nil] at whole
  have quoteFree : '"' ∉ a ++ (withValue ++ b) := by
    simp [bare.quoteFree, bare'.quoteFree, quote_not_mem_withValue]
  obtain ⟨c, d, bareC, -, same, rfl, rfl⟩ :=
    parts_of_quoted_value fits fits' quoteFree (List.append_cancel_left whole).symm
  obtain ⟨later, starts⟩ := withValue_starts_blank
  rw [starts] at same
  obtain ⟨rfl, behind⟩ := Text.append_separator_inj (space_not_mem_of_blankFree bare.blankFree)
    (space_not_mem_of_blankFree bareC.blankFree) same
  rw [List.append_cancel_left behind]

/-- There the sentence about a field with a value takes the two bare strings. -/
theorem captures?_nested
    {a b : String} (bare : IsBare a.toList) (bare' : IsBare b.toList) :
    valuePattern.captures? (nestedSentence a b) = some [.text a, .text b] := by
  apply valuePattern.captures?_of_only_decomposition valueCut_isOf
  · rw [nestedSentence_toList]
    exact isDecomposition_nested bare bare'
  · intro other decomposition
    rw [nestedSentence_toList] at decomposition
    exact eq_of_isDecomposition_nested bare bare' decomposition
  · have first := Part.Denotes.bare (isUnquoted_of_opened bare.quoteFree)
    have second := Part.Denotes.bare (isUnquoted_of_closed bare'.quoteFree)
    rw [String.ofList_toList] at first second
    exact .cons first (.cons second .nil)

theorem field_isMatch
    {name : List Char} (quoteFree : '"' ∉ name) {text : String}
    (whole : text.toList = fieldFront ++ (Part.quoted name).text) :
    fieldPattern.isMatch text = true := by
  apply fieldPattern.isMatch_of_decomposition fieldCut_isOf
    (by simp [fieldCut, Cut.placeholders])
  rw [whole]
  exact Cut.isDecomposition_one_iff.mpr ⟨_, rfl, .quoted quoteFree, by rw [List.append_nil]⟩

/-- Both sentences about a field match exactly where a quoted name reads as two bare
strings. -/
theorem field_overlap_iff (text : String) :
    valuePattern.isMatch text = true ∧ fieldPattern.isMatch text = true ↔
      ∃ a b : String, IsBare a.toList ∧ IsBare b.toList ∧ text = nestedSentence a b := by
  constructor
  · intro both
    obtain ⟨parts, decomposition⟩ := valuePattern.exists_decomposition valueCut_isOf both.1
    obtain ⟨parts', decomposition'⟩ := fieldPattern.exists_decomposition fieldCut_isOf both.2
    obtain ⟨first, second, rfl, fits, fits', whole⟩ :=
      Cut.isDecomposition_two_iff.mp decomposition
    obtain ⟨part, rfl, fitsField, whole'⟩ := Cut.isDecomposition_one_iff.mp decomposition'
    rw [List.append_nil] at whole whole'
    have same : part.text = first.text ++ (withValue ++ second.text) := by
      rw [whole] at whole'
      exact (List.append_cancel_left whole').symm
    have holdsBlank : ' ' ∈ part.text := by
      obtain ⟨later, starts⟩ := withValue_starts_blank
      rw [same, starts]
      simp
    obtain ⟨inside, rfl, quoteFree⟩ := fitsField.quoted_of_blank holdsBlank (by decide)
    obtain ⟨a, b, bare, bare', rfl, -⟩ := parts_of_quoted_value fits fits' quoteFree same.symm
    refine ⟨String.ofList a, String.ofList b, by simpa using bare, by simpa using bare', ?_⟩
    apply String.toList_injective
    rw [nestedSentence_toList, whole', String.toList_ofList, String.toList_ofList]
  · intro nested
    obtain ⟨a, b, bare, bare', rfl⟩ := nested
    refine ⟨by simp [Pattern.isMatch, captures?_nested bare bare'], ?_⟩
    have quoteFree : '"' ∉ a.toList ++ (withValue ++ b.toList) := by
      simp [bare.quoteFree, bare'.quoteFree, quote_not_mem_withValue]
    exact field_isMatch quoteFree (nestedSentence_toList a b)

/-! ## Reordering the sentences -/

theorem entries_compile : ∀ entry ∈ entries, entry.Compiles Pattern.isHuge := by
  intro entry member
  have few := holes_le_two entry member
  exact decide_eq_false (by omega)

theorem nodup_patterns : (entries.map Entry.pattern).Nodup := by
  decide +kernel

theorem find?_reordered
    {reordered : List (Entry (Action World))} (perm : reordered.Perm entries)
    (keepsOrder : ∀ pair ∈ overlapping,
      [pair.1, pair.2].Sublist (reordered.map Entry.pattern))
    (kind : StepKind) (text : String) :
    ((Registry.ofEntries reordered).find? kind text).map Found.call =
      ((Registry.ofEntries entries).find? kind text).map Found.call := by
  have same : chosen? reordered kind text = chosen? entries kind text := by
    apply findSome?_of_reordered perm (.of_map Entry.pattern nodup_patterns)
    intro first second isHit isHit' inOrder
    have isEntry : first ∈ entries := inOrder.subset (by simp)
    have isEntry' : second ∈ entries := inOrder.subset (by simp)
    rw [Option.isSome_map] at isHit isHit'
    obtain ⟨isKind, isMatch⟩ := Definition.isSome_captures?_iff.mp isHit
    obtain ⟨isKind', isMatch'⟩ := Definition.isSome_captures?_iff.mp isHit'
    have sameKind : first.kind = second.kind := isKind.trans isKind'.symm
    have overlap := List.pairwise_iff_forall_sublist.mp pairwise_overlapping inOrder
      sameKind text isMatch isMatch'
    have nodup : (reordered.map Entry.pattern).Nodup :=
      (perm.map Entry.pattern).nodup_iff.mpr nodup_patterns
    exact sublist_of_keys nodup (perm.mem_iff.mpr isEntry) (perm.mem_iff.mpr isEntry')
      (keepsOrder _ overlap)
  rw [call_find?_ofEntries, call_find?_ofEntries, same]

/-- The overlaps among the built-in sentences are known exactly, and a reordering that keeps
the order of the overlapping pairs changes nothing. -/
theorem library_overlaps :
    library {} = .ok (.ofEntries entries) ∧
      ((Registry.ofEntries entries).definitions.Pairwise fun earlier later =>
        earlier.kind = later.kind → ∀ text : String,
          earlier.pattern.isMatch text = true → later.pattern.isMatch text = true →
            (earlier.pattern.text, later.pattern.text) ∈ overlapping) ∧
      (∀ method ∈ withoutBody, ∀ text : String,
        (Pattern.lenient method.2).isMatch text = true → anyMethodPattern.isMatch text = true) ∧
      (∀ text : String, valuePattern.isMatch text = true ∧ fieldPattern.isMatch text = true ↔
        ∃ a b : String, IsBare a.toList ∧ IsBare b.toList ∧ text = nestedSentence a b) ∧
      (∀ a b : String, IsBare a.toList → IsBare b.toList →
        valuePattern.captures? (nestedSentence a b) = some [.text a, .text b]) ∧
      ∀ reordered : List (Entry (Action World)), reordered.Perm entries →
        (∀ pair ∈ overlapping, [pair.1, pair.2].Sublist (reordered.map Entry.pattern)) →
          StepLibrary.ofList reordered {} = .ok (.ofEntries reordered) ∧
            ∀ (kind : StepKind) (text : String),
              ((Registry.ofEntries reordered).find? kind text).map Found.call =
                ((Registry.ofEntries entries).find? kind text).map Found.call := by
  refine ⟨StepLibrary.ofList_empty entries_compile, List.pairwise_map.mpr pairwise_overlapping,
    fun _ member _ => anyMethod_of_withoutBody member, field_overlap_iff,
    fun _ _ => captures?_nested, ?_⟩
  intro reordered perm keepsOrder
  have compile : ∀ entry ∈ reordered, entry.Compiles Pattern.isHuge :=
    fun entry member => entries_compile entry (perm.subset member)
  exact ⟨StepLibrary.ofList_empty compile, find?_reordered perm keepsOrder⟩

end HttpSteps

end Gherkin
