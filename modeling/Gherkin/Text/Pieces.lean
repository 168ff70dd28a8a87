/-!
Contract: cutting a text into pieces at a character, and joining pieces.

Owns: `split` and `join`, which are inverse to each other as long as no piece
holds the separator, `cutAt?` for the first separator alone, and `after?` for a
text that follows a known beginning.
-/

set_option autoImplicit false

namespace Gherkin.Text

/-- The pieces between the separators, empty ones included: always one more
than there are separators. -/
def split (separator : Char) (s : String) : List String :=
  (s.toList.splitOn separator).map String.ofList

/-- The parts in order with the separator between each two. -/
def join (separator : String) (parts : List String) : String :=
  String.ofList (separator.toList.intercalate (parts.map String.toList))

/-- What stands before and after the first separator, if there is one. -/
def cutAt? (separator : Char) : List Char → Option (List Char × List Char)
  | [] => none
  | c :: cs =>
      if c = separator then some ([], cs)
      else (cutAt? separator cs).map fun (before, rest) => (c :: before, rest)

/-- What follows `beginning` in a text that starts with it. -/
def after? (beginning : String) (cs : List Char) : Option (List Char) :=
  beginning.toList.isPrefixOf? cs

/-- Splitting at a character and joining with it gives the text back. -/
theorem join_split (separator : Char) (s : String) :
    join (String.singleton separator) (split separator s) = s := by
  have undo : String.toList ∘ String.ofList = id := by
    funext cs
    simp
  simp [join, split, undo, List.intercalate_splitOn]

/-- A cut loses nothing but the one separator, and the first part has none. -/
theorem cutAt?_eq_some
    {separator : Char} {cs before rest : List Char}
    (cut : cutAt? separator cs = some (before, rest)) :
    cs = before ++ separator :: rest ∧ separator ∉ before := by
  induction cs generalizing before rest with
  | nil => simp [cutAt?] at cut
  | cons c cs inductionHypothesis =>
      by_cases same : c = separator
      · simp_all [cutAt?]
      · simp only [cutAt?, same, ↓reduceIte, Option.map_eq_some_iff, Prod.mk.injEq,
          Prod.exists] at cut
        obtain ⟨front, back, found, rfl, rfl⟩ := cut
        have ⟨whole, absent⟩ := inductionHypothesis found
        refine ⟨by simp [whole], ?_⟩
        simp only [List.mem_cons, not_or]
        exact ⟨fun h => same h.symm, absent⟩

theorem cutAt?_append
    {separator : Char} {before : List Char} (absent : separator ∉ before) (rest : List Char) :
    cutAt? separator (before ++ separator :: rest) = some (before, rest) := by
  induction before with
  | nil => simp [cutAt?]
  | cons c cs inductionHypothesis =>
      simp only [List.mem_cons, not_or] at absent
      have different : c ≠ separator := Ne.symm absent.1
      simp [cutAt?, different, inductionHypothesis absent.2]

end Gherkin.Text
