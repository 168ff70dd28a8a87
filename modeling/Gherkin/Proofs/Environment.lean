import Gherkin.Environment
import Gherkin.Proofs.Dictionary
import Gherkin.Proofs.Feature.Writing

/-!
Contract: the texts that variables are written in.

Owns: what can be the name and the value of a variable, the lines and texts that set
variables, and that reading such a text gives the variables that it sets.
Does not own: what blank space and phrases are (`Gherkin.Proofs.Text.Trimming`,
`Gherkin.Proofs.Feature.Writing`).
Main statement: `ofText_of_variables`.

Carriage returns need no rule of their own: they are blank, so one that stands before a line
feed is trimmed with the line.
-/

set_option autoImplicit false

namespace Gherkin.Environment

/-! ## Variables as they are written -/

/-- What can be written as a variable: two phrases, of which the first is not empty, holds no
`=` and starts with no `#`. -/
structure IsVariable (key value : String) : Prop where
  keyPhrase : IsPhrase key
  nonempty : key ≠ ""
  signless : '=' ∉ key.toList
  noComment : key.toList.head? ≠ some '#'
  valuePhrase : IsPhrase value

/-- Blank space within a line. -/
def IsSpace (cs : List Char) : Prop :=
  ∀ c ∈ cs, Text.isBlank c = true ∧ c ≠ '\n'

/-- A line, without its end, and the variable that it is written for. -/
inductive Writes : List Char → Option (String × String) → Prop where
  | binding {indent behindKey beforeValue back : List Char} (key value : String)
      (indented : IsSpace indent) (keySpaced : IsSpace behindKey)
      (valueSpaced : IsSpace beforeValue) (backSpaced : IsSpace back) :
      Writes
        (indent ++ key.toList ++ behindKey ++ '=' :: (beforeValue ++ value.toList ++ back))
        (some (key, value))
  | blank {line : List Char} (space : IsSpace line) : Writes line none
  | comment {indent text : List Char} (indented : IsSpace indent) (oneLine : '\n' ∉ text) :
      Writes (indent ++ '#' :: text) none

/-- Lines with their ends, and the variables that they are written for, in order. The last
line may do without an end. -/
inductive WritesAll : List Char → List (String × String) → Prop where
  | last {line : List Char} {written : Option (String × String)}
      (writes : Writes line written) : WritesAll line written.toList
  | line {line ending rest : List Char} {written : Option (String × String)}
      {later : List (String × String)} (writes : Writes line written)
      (ends : ending = ['\n'] ∨ ending = ['\r', '\n']) (writesLater : WritesAll rest later) :
      WritesAll (line ++ ending ++ rest) (written.toList ++ later)

theorem IsSpace.blank {cs : List Char} (space : IsSpace cs) :
    ∀ c ∈ cs, Text.isBlank c = true :=
  fun c member => (space c member).1

theorem IsSpace.oneLine {cs : List Char} (space : IsSpace cs) : '\n' ∉ cs :=
  fun member => (space '\n' member).2 rfl

theorem IsSpace.append_return {cs : List Char} (space : IsSpace cs) : IsSpace (cs ++ ['\r']) := by
  intro c member
  rcases List.mem_append.mp member with inside | last
  · exact space c inside
  · rw [List.mem_singleton.mp last]
    decide

/-! ## Lines -/

/-- A line with a sign sets the trimmed parts around the first one. -/
theorem binding?_sign {front : List Char} (signless : '=' ∉ front) (rest : List Char) :
    binding? (front ++ '=' :: rest) =
      if (Text.trim front).head? = some '#' ∨ Text.trim front = [] then none
      else some (String.ofList (Text.trim front), String.ofList (Text.trim rest)) := by
  have line : Text.trim (front ++ '=' :: rest) =
      Text.trimStart front ++ '=' :: Text.trimEnd rest :=
    Text.trim_append_cons (by decide) front rest
  have noSign : '=' ∉ Text.trimStart front :=
    fun member => signless ((List.dropWhile_subset Text.isBlank) member)
  have value : Text.trim (Text.trimEnd rest) = Text.trim rest :=
    Text.trim_dropEndWhile (fun _ blank => blank) rest
  unfold binding?
  simp only [line, Text.cutAt?_append noSign, Text.trim_trimStart, value, List.isEmpty_iff]
  by_cases empty : Text.trim front = []
  · simp [empty]
  · have sameHead := Text.head?_trim_of_ne_nil empty
    have nonempty : Text.trimStart front ≠ [] := by
      intro gone
      rw [← Text.trim_trimStart, gone] at empty
      exact empty rfl
    rw [List.head?_append_of_ne_nil _ nonempty, ← sameHead]
    simp [empty]

/-- What is read from a line can be written as a variable. -/
theorem isVariable_of_binding?
    {line : List Char} (oneLine : '\n' ∉ line) {key value : String}
    (set : binding? line = some (key, value)) : IsVariable key value := by
  have oneLineTrimmed : '\n' ∉ Text.trim line :=
    fun feed => oneLine ((Text.trim_infix line).subset feed)
  have starts := Text.head?_trim line
  unfold binding? at set
  dsimp only at set
  generalize Text.trim line = cs at set oneLineTrimmed starts
  split at set
  · cases set
  next noComment =>
    split at set
    · cases set
    next front rest cut =>
      obtain ⟨rfl, signless⟩ := Text.cutAt?_eq_some cut
      split at set
      · cases set
      next nonempty =>
        obtain ⟨rfl, rfl⟩ := Prod.mk.inj (Option.some.inj set)
        rw [List.isEmpty_iff] at nonempty
        obtain ⟨oneLineFront, oneLineRest⟩ : '\n' ∉ front ∧ '\n' ∉ rest := by
          simpa using oneLineTrimmed
        refine ⟨isPhrase_trim oneLineFront, ?_, ?_, ?_, isPhrase_trim oneLineRest⟩
        · intro empty
          have gone := congrArg String.toList empty
          rw [String.toList_ofList] at gone
          exact nonempty gone
        · rw [String.toList_ofList]
          exact fun sign => signless ((Text.trim_infix front).subset sign)
        · -- The line is trimmed, so the key starts where the line does.
          cases front with
          | nil => exact absurd rfl nonempty
          | cons c front =>
              have notBlank : Text.isBlank c = false := starts c rfl
              have kept : Text.trimStart (c :: front) = c :: front :=
                List.dropWhile_cons_of_neg (by simp [notBlank])
              rw [String.toList_ofList, Text.head?_trim_of_ne_nil nonempty, kept]
              exact noComment

/-- A line that is written for a variable sets just that. -/
theorem Writes.binding?_eq
    {line : List Char} {written : Option (String × String)} (writes : Writes line written)
    (proper : ∀ pair ∈ written, IsVariable pair.1 pair.2) : binding? line = written := by
  cases writes with
  | @binding indent behindKey beforeValue back key value indented keySpaced valueSpaced
      backSpaced =>
      have isVariable : IsVariable key value := proper (key, value) rfl
      have front : Text.trim (indent ++ key.toList ++ behindKey) = key.toList := by
        rw [Text.trim_append_blank _ keySpaced.blank, Text.trim_blank_append indented.blank,
          isVariable.keyPhrase.trim_toList]
      have rest : Text.trim (beforeValue ++ value.toList ++ back) = value.toList := by
        rw [Text.trim_append_blank _ backSpaced.blank, Text.trim_blank_append valueSpaced.blank,
          isVariable.valuePhrase.trim_toList]
      have signless : '=' ∉ indent ++ key.toList ++ behindKey := by
        have notBlank {cs : List Char} (space : IsSpace cs) : '=' ∉ cs :=
          fun member => absurd (space.blank '=' member) (by decide)
        simp [notBlank indented, notBlank keySpaced, isVariable.signless]
      rw [binding?_sign signless, front, rest, String.ofList_toList, String.ofList_toList,
        if_neg]
      rintro (comment | empty)
      · exact isVariable.noComment comment
      · exact isVariable.nonempty (String.toList_eq_nil_iff.mp empty)
  | blank space =>
      have nothing : Text.trim line = [] := Text.trim_eq_nil_iff.mpr space.blank
      unfold binding?
      rw [nothing]
      rfl
  | @comment indent text indented oneLine =>
      have line : Text.trim (indent ++ '#' :: text) = '#' :: Text.trimEnd text := by
        have gone : Text.trimStart indent = [] := List.dropWhile_eq_nil_iff.mpr indented.blank
        rw [Text.trim_append_cons (by decide), gone, List.nil_append]
      unfold binding?
      rw [line]
      rfl

theorem Writes.oneLine
    {line : List Char} {written : Option (String × String)} (writes : Writes line written)
    (proper : ∀ pair ∈ written, IsVariable pair.1 pair.2) : '\n' ∉ line := by
  cases writes with
  | @binding indent behindKey beforeValue back key value indented keySpaced valueSpaced
      backSpaced =>
      have isVariable : IsVariable key value := proper (key, value) rfl
      simp [indented.oneLine, keySpaced.oneLine, valueSpaced.oneLine, backSpaced.oneLine,
        isVariable.keyPhrase.oneLine, isVariable.valuePhrase.oneLine]
  | blank space => exact space.oneLine
  | comment indented oneLine => simp [indented.oneLine, oneLine]

/-- A carriage return behind a line belongs to its blank space or to its comment. -/
theorem Writes.append_return
    {line : List Char} {written : Option (String × String)} (writes : Writes line written) :
    Writes (line ++ ['\r']) written := by
  cases writes with
  | binding key value indented keySpaced valueSpaced backSpaced =>
      have longer := Writes.binding key value indented keySpaced valueSpaced
        backSpaced.append_return
      simpa using longer
  | blank space => exact .blank space.append_return
  | @comment indent text indented oneLine =>
      have longer : Writes (indent ++ '#' :: (text ++ ['\r'])) none :=
        .comment indented (by simp [oneLine])
      simpa using longer

/-! ## Texts -/

/-- The variables that lines set are those that they are written for, in order. -/
theorem WritesAll.filterMap_eq
    {text : List Char} {written : List (String × String)} (writes : WritesAll text written)
    (proper : ∀ pair ∈ written, IsVariable pair.1 pair.2) :
    (text.splitOn '\n').filterMap binding? = written := by
  induction writes with
  | @last line written writes =>
      have properLine : ∀ pair ∈ written, IsVariable pair.1 pair.2 := by simpa using proper
      rw [List.splitOn_eq_singleton (writes.oneLine properLine)]
      cases written <;> simp [writes.binding?_eq properLine]
  | @line line ending rest written later writes ends writesLater inductionHypothesis =>
      obtain ⟨properLine, properLater⟩ := List.forall_mem_append.mp proper
      replace properLine : ∀ pair ∈ written, IsVariable pair.1 pair.2 := by simpa using properLine
      obtain ⟨whole, writesWhole, text⟩ : ∃ whole, Writes whole written ∧
          line ++ ending ++ rest = whole ++ '\n' :: rest := by
        rcases ends with rfl | rfl
        · exact ⟨line, writes, by simp⟩
        · exact ⟨line ++ ['\r'], writes.append_return, by simp⟩
      rw [text, List.splitOn_append_cons_self,
        List.splitOn_eq_singleton (writesWhole.oneLine properLine), List.filterMap_append,
        inductionHypothesis properLater]
      cases written <;> simp [writesWhole.binding?_eq properLine]

theorem isVariable_of_ofText
    {text key value : String} (set : (ofText text).get? key = some value) :
    IsVariable key value := by
  have isEntry : (key, value) ∈ (ofText text).values.entries :=
    Dictionary.get?_eq_some_iff.mp set
  obtain ⟨line, isLine, isSet⟩ := List.mem_filterMap.mp (Dictionary.mem_of_mem_ofList isEntry)
  exact isVariable_of_binding? (Text.not_mem_of_mem_splitOn isLine) isSet

theorem get?_ofText_feed (first second key : String) :
    (ofText (first ++ "\n" ++ second)).get? key =
      ((ofText second).get? key).or ((ofText first).get? key) := by
  unfold ofText get?
  rw [Text.splitOn_feed, List.filterMap_append, Dictionary.ofList, Dictionary.insertAll_append,
    Dictionary.get?_insertAll, ← Dictionary.get?_ofList]
  rfl

/-- Of two texts behind each other the variables of the second override those of the first.
Variables are read back from any text that is written for them, whatever their order, and
what is read from any text can be written. -/
theorem ofText_of_variables :
    (∀ first second key : String,
      (ofText (first ++ "\n" ++ second)).get? key =
        ((ofText second).get? key).or ((ofText first).get? key)) ∧
      (∀ (environment : Environment) (order : List (String × String)) (text : String),
        (∀ key value, environment.get? key = some value → IsVariable key value) →
          order.Perm environment.toList → WritesAll text.toList order →
            ofText text = environment) ∧
      ∀ text key value, (ofText text).get? key = some value → IsVariable key value := by
  refine ⟨get?_ofText_feed, ?_, fun text key value => isVariable_of_ofText⟩
  intro environment order text proper permuted writes
  have properOrder : ∀ pair ∈ order, IsVariable pair.1 pair.2 := by
    intro pair member
    have isEntry : pair ∈ environment.values.entries := permuted.mem_iff.mp member
    exact proper pair.1 pair.2 (Dictionary.get?_eq_some_iff.mpr isEntry)
  unfold ofText
  rw [writes.filterMap_eq properOrder, Dictionary.ofList_of_perm permuted]

/-- Only the first sign of a line counts, and only a line that starts with `#` is a comment. -/
example :
    (ofText "# A=0\r\n\tB = #2 \r\n\nA=x=y\n=z").toList = [("A", "x=y"), ("B", "#2")] := by
  decide +kernel

end Gherkin.Environment
