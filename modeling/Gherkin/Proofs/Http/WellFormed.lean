import Mathlib
import Gherkin.Proofs.Http.Outgoing

/-!
Contract: the headers that go out are well-formed.

Owns: the characters of text in sixty-four digits, headers with their names in lower case,
the header of credentials, and the headers of a request.
Does not own: which headers go out (`Gherkin.Proofs.Http.Outgoing`).
Main statement: `IsFor.isHeader_of_mem`.

Headers that are set are checked before a request is built. Those of credentials are not,
and need no check: their characters are digits.
-/

set_option autoImplicit false

namespace Gherkin

namespace Text

theorem digit64_visible : ∀ bits < 64, ' ' ≤ digit64 bits ∧ digit64 bits ≠ '\x7f' := by
  decide

/-- Besides equals signs there are only digits. -/
theorem forall_mem_digitsOf
    {P : Char → Prop} (equalsSign : P '=') (digit : ∀ bits < 64, P (digit64 bits))
    (bytes : List UInt8) : ∀ c ∈ digitsOf bytes, P c := by
  fun_induction digitsOf bytes with
  | case1 => exact List.forall_mem_nil _
  | case2 a =>
      have := a.toNat_lt
      simp only [List.forall_mem_cons]
      exact ⟨digit _ (by omega), digit _ (by omega), equalsSign, equalsSign,
        List.forall_mem_nil _⟩
  | case3 a b =>
      have := a.toNat_lt
      have := b.toNat_lt
      simp only [List.forall_mem_cons]
      exact ⟨digit _ (by omega), digit _ (by omega), digit _ (by omega), equalsSign,
        List.forall_mem_nil _⟩
  | case4 a b c bytes inductionHypothesis =>
      have := a.toNat_lt
      have := b.toNat_lt
      have := c.toNat_lt
      simp only [List.forall_mem_cons]
      exact ⟨digit _ (by omega), digit _ (by omega), digit _ (by omega), digit _ (by omega),
        inductionHypothesis⟩

end Text

namespace Http

theorem isNameChar_toLower {c : Char} (isChar : isNameChar c = true) :
    isNameChar c.toLower = true := by
  by_cases upper : c.isUpper
  · have isLetter : c.toLower.isAlpha = true := by
      rw [Char.isAlpha_toLower_eq_isAlpha, Char.isAlpha, upper, Bool.true_or]
    simp [isNameChar, Char.isAlphanum, isLetter]
  · rwa [Char.toLower_eq_of_not_isUpper upper]

theorem isHeaderValue_append (first second : List Char) :
    isHeaderValue (first ++ second) = (isHeaderValue first && isHeaderValue second) :=
  List.all_append

namespace Request

theorem isHeader_iff {header : String × String} :
    isHeader header = true ↔ isName header.1.toList = true ∧
      header.1.length < 0x10000 ∧ isHeaderValue header.2.toList = true := by
  rw [isHeader, Bool.and_eq_true, Bool.and_eq_true, decide_eq_true_iff, and_assoc]

/-- A header stays well-formed with its name in lower case. -/
theorem isHeader_lowerCase {header : String × String} (wellFormed : isHeader header = true) :
    isHeader (lowerCase header.1, header.2) = true := by
  obtain ⟨name, short, value⟩ := isHeader_iff.mp wellFormed
  have lower : (lowerCase header.1).toList = header.1.toList.map Char.toLower := by
    rw [lowerCase, String.toList_ofList]
  have sameLength : (lowerCase header.1).length = header.1.length := by
    rw [← String.length_toList, lower, List.length_map, String.length_toList]
  rw [isName, Bool.and_eq_true, List.all_eq_true] at name
  have lowerName : isName (lowerCase header.1).toList = true := by
    rw [lower, isName, List.isEmpty_map, List.all_map, Bool.and_eq_true, List.all_eq_true]
    exact ⟨name.1, fun c member => isNameChar_toLower (name.2 c member)⟩
  have short : (lowerCase header.1).length < 0x10000 := by
    rw [sameLength]
    exact short
  exact isHeader_iff.mpr ⟨lowerName, short, value⟩

/-- Credentials of any characters go out as a well-formed header. -/
theorem isHeader_credentials (credentials : Credentials) :
    isHeader credentials.header = true := by
  have digits (bytes : List UInt8) : isHeaderValue (Text.digitsOf bytes) = true := by
    rw [isHeaderValue, List.all_eq_true]
    apply Text.forall_mem_digitsOf
    · rfl
    · intro bits small
      obtain ⟨low, high⟩ := Text.digit64_visible bits small
      simp [low, high]
  have scheme : isHeaderValue "Basic ".toList = true := by decide
  have value : isHeaderValue credentials.header.2.toList = true := by
    rw [Credentials.header, String.toList_append, isHeaderValue_append, scheme,
      Text.base64, String.toList_ofList, digits, Bool.and_true]
  have name : credentials.header.1 = "authorization" := rfl
  rw [isHeader_iff, name]
  exact ⟨by decide, by decide, value⟩

theorem mem_under_iff {name value : String} {headers : List (String × String)} :
    value ∈ under name headers ↔ (name, value) ∈ headers := by
  simp [under]

/-- All headers that go out are well-formed, whatever the credentials consist of. -/
theorem IsFor.isHeader_of_mem
    {request : Request} {client : Client} {method : Method} {address : String}
    {headers : Dictionary String} {body : Option Json.Value}
    (isFor : request.IsFor client method address headers body) :
    ∀ header ∈ request.headers, isHeader header = true := by
  intro header member
  have sent : header.2 ∈ under header.1 request.headers := mem_under_iff.mpr member
  by_cases unset : under header.1 (given (client.credentials? address) headers) = []
  · have isDefault : ∀ header ∈ defaults body.isSome, isHeader header = true := by
      cases body.isSome <;> decide
    rw [isFor.carries.unset _ unset] at sent
    exact isDefault header (mem_under_iff.mp sent)
  · rw [isFor.carries.set _ unset] at sent
    rcases List.mem_append.mp (mem_under_iff.mp sent) with added | set
    · obtain ⟨credentials, -, isAdded⟩ := Option.map_eq_some_iff.mp (Option.mem_toList.mp added)
      have isAdded : credentials.header = header := isAdded
      rw [← isAdded]
      exact isHeader_credentials credentials
    · obtain ⟨original, isSet, isLower⟩ := List.mem_map.mp set
      have isLower : (lowerCase original.1, original.2) = header := isLower
      rw [← isLower]
      exact isHeader_lowerCase (isFor.wellFormed original isSet)

end Request
end Http
end Gherkin
