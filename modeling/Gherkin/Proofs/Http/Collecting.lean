import Mathlib
import Gherkin.Proofs.Dictionary
import Gherkin.Http.Message
import Gherkin.Text.Pieces

/-!
Contract: what is kept of the headers of a response.

Owns: the values that arrive under a name and can be read, the one entry in which they are
kept, and their look-up; and that a response is kept as it arrived.
Does not own: the headers of requests (`Gherkin.Proofs.Http.Outgoing`).
Main statement: `Response.headers_ofRaw`.

Letter case plays no part in names, and names play no part in each other's values.
-/

set_option autoImplicit false

namespace Gherkin.Http

/-! ## Values under a name -/

/-- The value consists of visible ASCII characters, spaces and tabs. -/
def Readable (value : String) : Prop :=
  ∀ c ∈ value.toList, c = '\t' ∨ (' ' ≤ c ∧ c ≤ '~')

instance (value : String) : Decidable (Readable value) := by
  unfold Readable
  infer_instance

/-- The values under a name in any letter case, in order of arrival. -/
def arrived (headers : List (String × String)) (name : String) : List String :=
  (headers.filter fun header => lowerCase header.1 = lowerCase name).map Prod.snd

/-- Those of the values under a name that can be read. -/
def valuesOf (headers : List (String × String)) (name : String) : List String :=
  (arrived headers name).filter (Readable ·)

/-- Values as one: none if there are none. -/
def joined? : List String → Option String
  | [] => none
  | value :: values => some (Text.join ", " (value :: values))

theorem lowerCase_lowerCase (s : String) : lowerCase (lowerCase s) = lowerCase s := by
  simp only [lowerCase, String.toList_ofList, List.map_map]
  congr 2
  exact funext Char.toLower_toLower_eq_toLower

theorem isReadable_iff {value : String} : Response.isReadable value = true ↔ Readable value := by
  simp [Response.isReadable, Readable]

theorem join_eq_intercalate (separator : String) (parts : List String) :
    Text.join separator parts = separator.intercalate parts := by
  apply String.toList_inj.mp
  rw [Text.join, String.toList_ofList, String.toList_intercalate]

theorem joined?_append (values : List String) (value : String) :
    joined? (values ++ [value]) =
      some (match joined? values with
        | none => value
        | some before => before ++ ", " ++ value) := by
  cases values with
  | nil => simp [joined?, join_eq_intercalate]
  | cons first values =>
      have joined : ", ".intercalate (first :: values ++ [value]) =
          ", ".intercalate (first :: values) ++ ", " ++ value := by
        rw [String.intercalate_append_of_ne_nil (List.cons_ne_nil _ _) (List.cons_ne_nil _ _),
          String.intercalate_singleton]
      rw [List.cons_append] at joined ⊢
      simp only [joined?, join_eq_intercalate, joined]

/-- One more header adds its value to those under its name, if it can be read. -/
theorem valuesOf_append (headers : List (String × String)) (header : String × String)
    (name : String) :
    valuesOf (headers ++ [header]) name =
      if lowerCase header.1 = lowerCase name ∧ Readable header.2 then
        valuesOf headers name ++ [header.2]
      else valuesOf headers name := by
  have added : arrived (headers ++ [header]) name =
      arrived headers name ++
        if lowerCase header.1 = lowerCase name then [header.2] else [] := by
    rw [arrived, List.filter_append, List.map_append]
    by_cases own : lowerCase header.1 = lowerCase name
    · simp [arrived, own]
    · simp [arrived, own]
  rw [valuesOf, added, List.filter_append]
  by_cases own : lowerCase header.1 = lowerCase name
  · by_cases readable : Readable header.2
    · simp [valuesOf, own, readable]
    · simp [valuesOf, own, readable]
  · simp [valuesOf, own]

namespace Response

/-! ## Headers that are kept -/

theorem get?_collect (kept : Dictionary String) (header : String × String) (key : String) :
    (collect kept header).get? key =
      if lowerCase header.1 = key ∧ Readable header.2 then
        some (match kept.get? key with
          | none => header.2
          | some values => values ++ ", " ++ header.2)
      else kept.get? key := by
  unfold collect
  by_cases readable : Readable header.2
  · rw [if_pos (isReadable_iff.mpr readable)]
    by_cases own : lowerCase header.1 = key
    · subst own
      simp only [readable, and_self, ↓reduceIte]
      cases kept.get? (lowerCase header.1) <;> simp
    · simp only [own, false_and, ↓reduceIte]
      cases kept.get? (lowerCase header.1) <;> simp [Ne.symm own]
  · rw [if_neg (mt isReadable_iff.mp readable), if_neg fun counts => readable counts.2]

/-- Under a name in lower case all of its readable values are kept as one. -/
theorem get?_collected (headers : List (String × String)) (name : String) :
    (headers.foldl collect ∅).get? (lowerCase name) = joined? (valuesOf headers name) := by
  induction headers using List.reverseRecOn with
  | nil => rfl
  | append_singleton headers header inductionHypothesis =>
      rw [List.foldl_append, List.foldl_cons, List.foldl_nil, get?_collect, valuesOf_append,
        inductionHypothesis]
      split
      · rw [joined?_append]
      · rfl

/-- Only names in lower case are kept. -/
theorem lowerCase_of_get?_collected
    {headers : List (String × String)} {key value : String}
    (found : (headers.foldl collect ∅).get? key = some value) : lowerCase key = key := by
  induction headers using List.reverseRecOn generalizing value with
  | nil => cases found
  | append_singleton headers header inductionHypothesis =>
      rw [List.foldl_append, List.foldl_cons, List.foldl_nil, get?_collect] at found
      split at found
      · next counts => rw [← counts.1, lowerCase_lowerCase]
      · exact inductionHypothesis found

theorem lowerCase_of_mem_collected
    {headers : List (String × String)} {entry : String × String}
    (member : entry ∈ (headers.foldl collect ∅).entries) : lowerCase entry.1 = entry.1 :=
  lowerCase_of_get?_collected (Dictionary.get?_eq_some_iff.mpr member)

/-- What a response has of the one that arrived: its status, its body as data, and under each
name, which is kept in lower case, all readable values as one. -/
structure Keeps (response : Response) (raw : RawResponse) : Prop where
  status_eq : response.status = raw.status
  data_eq : response.data = dataOf (Text.decodeBytes raw.body)
  header?_eq : ∀ name, response.header? name = joined? (valuesOf raw.headers name)
  lowerCase_eq : ∀ entry ∈ response.headers.toList, lowerCase entry.1 = entry.1

theorem keeps_ofRaw (raw : RawResponse) : (ofRaw raw).Keeps raw where
  status_eq := rfl
  data_eq := rfl
  header?_eq := get?_collected raw.headers
  lowerCase_eq := fun _ => lowerCase_of_mem_collected

end Response

end Gherkin.Http
