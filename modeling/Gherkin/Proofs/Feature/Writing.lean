import Gherkin.Proofs.Feature.Rows

/-!
Contract: lines as they are read and as they are written.

Owns: what the parts of a line consist of, the line in which a kind is written, and that
reading a line gives such parts and finds what was written.
Does not own: which tests a line passes (`Gherkin.Proofs.Feature.Kinds`), and lines behind
each other (`Gherkin.Proofs.Feature.Printing`).
Main statements: `ofText_wellFormed`, `ofText_written` and `ofText_render`.
-/

set_option autoImplicit false

namespace Gherkin

/-! ## The parts of a line -/

/-- A text on one line that is not blank at either end. -/
structure IsPhrase (s : String) : Prop where
  trimmed : Text.trimmed s = s
  oneLine : '\n' ∉ s.toList

structure IsCell (s : String) : Prop extends IsPhrase s where
  pipeless : '|' ∉ s.toList

/-- What a piece of a line leaves when it is trimmed is a phrase. -/
theorem isPhrase_trim {cs : List Char} (oneLine : '\n' ∉ cs) :
    IsPhrase (String.ofList (Text.trim cs)) where
  trimmed := Text.trimmed_ofList_trim cs
  oneLine := by
    rw [String.toList_ofList]
    exact fun member => oneLine ((Text.trim_infix cs).subset member)

theorem IsPhrase.trim_toList {s : String} (phrase : IsPhrase s) :
    Text.trim s.toList = s.toList :=
  Text.trim_toList_of_trimmed phrase.trimmed

theorem IsCell.isEntry {s : String} (cell : IsCell s) : IsEntry s :=
  ⟨cell.trimmed, cell.pipeless⟩

namespace LineKind

/-- The texts that a kind of line carries. -/
def parts : LineKind → List String
  | .header name => [name]
  | .step _ text => [text]
  | .row cells => cells
  | .fence | .other => []

/-- The parts of a line are trimmed. A step has a text, and no cell holds a pipe. -/
def Proper : LineKind → Prop
  | .header name => Text.trimmed name = name
  | .step _ text => Text.trimmed text = text ∧ text ≠ ""
  | .row cells => ∀ cell ∈ cells, IsEntry cell
  | .fence | .other => True

/-- The parts of a line are phrases. A step has a text, and no cell holds a pipe. -/
def WellFormed : LineKind → Prop
  | .header name => IsPhrase name
  | .step _ text => IsPhrase text ∧ text ≠ ""
  | .row cells => ∀ cell ∈ cells, IsCell cell
  | .fence | .other => True

/-- Proper parts without line feeds are well-formed. -/
theorem Proper.wellFormed
    {kind : LineKind} (proper : kind.Proper) (oneLine : ∀ part ∈ kind.parts, '\n' ∉ part.toList) :
    kind.WellFormed := by
  cases kind with
  | header name => exact ⟨proper, oneLine name List.mem_cons_self⟩
  | step keyword text => exact ⟨⟨proper.1, oneLine text List.mem_cons_self⟩, proper.2⟩
  | fence => trivial
  | row cells =>
      intro cell member
      have entry := proper cell member
      exact ⟨⟨entry.trimmed, oneLine cell member⟩, entry.pipeless⟩
  | other => trivial

/-- The line that stands for a kind. A row without cells is a single pipe. -/
def written : LineKind → String
  | .row [] => "|"
  | kind => kind.render

/-! ## What is read -/

/-- Behind the keyword of a trimmed line stands a text that is not blank. -/
theorem trim_step_ne_nil
    {keyword : Keyword} {text : List Char}
    (trimmed : Text.trim ((keyword.word ++ " ").toList ++ text) =
      (keyword.word ++ " ").toList ++ text) :
    Text.trim text ≠ [] := by
  intro gone
  have blank : ∀ c ∈ ' ' :: text, Text.isBlank c = true := by
    intro c member
    rcases List.mem_cons.mp member with rfl | later
    · decide
    · exact Text.trim_eq_nil_iff.mp gone c later
  have space : " ".toList = [' '] := rfl
  rw [String.toList_append, space, List.append_assoc, List.singleton_append,
    Text.trim_append_blank _ blank] at trimmed
  have shorter := (Text.trim_infix keyword.word.toList).length_le
  rw [trimmed, List.length_append, List.length_cons] at shorter
  omega

/-- What a trimmed line is read as has proper parts, and these stand in the line. -/
theorem Test.proper_of_kind?
    {test : Test} {line : List Char} {kind : LineKind} (trimmed : Text.trim line = line)
    (passes : test.kind? line = some kind) :
    kind.Proper ∧ ∀ part ∈ kind.parts, part.toList ⊆ line := by
  -- A part is what is left of a stretch of the line.
  have inLine {stretch : List Char} (inside : stretch ⊆ line) :
      (String.ofList (Text.trim stretch)).toList ⊆ line := by
    rw [String.toList_ofList]
    exact List.Subset.trans (Text.trim_infix stretch).subset inside
  cases test with
  | header =>
      obtain ⟨name, after, rfl⟩ := Option.map_eq_some_iff.mp passes
      rw [Text.after?_eq_some_iff] at after
      subst after
      refine ⟨Text.trimmed_ofList_trim name, List.forall_mem_singleton.mpr (inLine ?_)⟩
      exact List.subset_append_right _ name
  | step keyword =>
      obtain ⟨text, after, rfl⟩ := Option.map_eq_some_iff.mp passes
      rw [Text.after?_eq_some_iff] at after
      subst after
      refine ⟨⟨Text.trimmed_ofList_trim text, ?_⟩,
        List.forall_mem_singleton.mpr (inLine (List.subset_append_right _ text))⟩
      intro empty
      have gone := congrArg String.toList empty
      rw [String.toList_ofList] at gone
      exact trim_step_ne_nil trimmed gone
  | fence =>
      obtain ⟨-, isFence⟩ := Option.ite_none_right_eq_some.mp passes
      obtain rfl := Option.some.inj isFence
      exact ⟨trivial, fun part member => absurd member List.not_mem_nil⟩
  | row =>
      obtain ⟨-, isRow⟩ := Option.ite_none_right_eq_some.mp passes
      obtain rfl := Option.some.inj isRow
      refine ⟨fun cell member => isEntry_of_mem_cellsOf member, ?_⟩
      intro cell member
      obtain ⟨piece, isPiece, rfl⟩ := exists_piece_of_mem_cellsOf member
      exact inLine (Text.infix_of_mem_splitOn isPiece).subset

theorem ofText_parts (line : String) :
    (ofText line).Proper ∧ ∀ part ∈ (ofText line).parts, part.toList ⊆ line.toList := by
  cases isFor : Test.for? (ofText line) with
  | none =>
      rw [Test.for?_eq_none_iff.mp isFor]
      exact ⟨trivial, fun part member => absurd member List.not_mem_nil⟩
  | some test =>
      have passes := kind?_of_ofTrimmed rfl isFor
      obtain ⟨proper, inLine⟩ := Test.proper_of_kind? (Text.trim_trim line.toList) passes
      exact ⟨proper, fun part member =>
        List.Subset.trans (inLine part member) (Text.trim_infix line.toList).subset⟩

/-- The parts that are read from a line are phrases. -/
theorem ofText_wellFormed {line : String} (oneLine : '\n' ∉ line.toList) :
    (ofText line).WellFormed := by
  obtain ⟨proper, inLine⟩ := ofText_parts line
  exact proper.wellFormed fun part member feed => oneLine (inLine part member feed)

/-- A fence is whatever is one when it is trimmed. -/
theorem ofText_eq_fence_iff {line : String} :
    ofText line = .fence ↔ Text.trimmed line = fenceText := by
  unfold ofText Text.trimmed
  generalize Text.trim line.toList = cs
  constructor
  · intro fence
    have passes : Test.fence.kind? cs = some .fence := kind?_of_ofTrimmed fence rfl
    rw [(Option.ite_none_right_eq_some.mp passes).1, String.ofList_toList]
  · intro same
    have fenceLine : cs = fenceText.toList := by rw [← same, String.toList_ofList]
    rw [fenceLine]
    rfl

/-! ## What is written -/

theorem trim_append
    {front back : List Char} (starts : ∃ c ∈ front.head?, Text.isBlank c = false)
    (trimmed : Text.trim back = back) (nonempty : back ≠ []) :
    Text.trim (front ++ back) = front ++ back := by
  obtain ⟨first, isFirst, notBlank⟩ := starts
  have ends := (Text.trim_eq_self_iff.mp trimmed).2
  apply Text.trim_eq_self_iff.mpr
  constructor
  · intro c member
    rw [List.head?_append, Option.mem_def.mp isFirst] at member
    rw [← Option.some.inj member]
    exact notBlank
  · intro c member
    rw [List.getLast?_append_of_ne_nil front nonempty] at member
    exact ends c member

theorem ofText_header {name : String} (trimmed : Text.trimmed name = name) :
    ofText (header name).written = .header name := by
  by_cases empty : name = ""
  · subst empty
    rfl
  · have nonempty : name.toList ≠ [] := fun none => empty (String.toList_eq_nil_iff.mp none)
    have starts : ∃ c ∈ (headerWord ++ " ").toList.head?, Text.isBlank c = false :=
      ⟨'S', rfl, Test.header.first_not_blank⟩
    have line : Text.trim (header name).written.toList =
        headerWord.toList ++ ' ' :: name.toList := by
      show Text.trim (headerWord ++ " " ++ name).toList = _
      rw [String.toList_append, trim_append starts (Text.trim_toList_of_trimmed trimmed) nonempty]
      rfl
    have space : ∀ c ∈ [' '], Text.isBlank c = true := List.forall_mem_singleton.mpr rfl
    have inner : Text.trim (' ' :: name.toList) = name.toList :=
      (Text.trim_blank_append space name.toList).trans (Text.trim_toList_of_trimmed trimmed)
    have passes : Test.header.kind? (headerWord.toList ++ ' ' :: name.toList) =
        some (.header name) := by
      have after : Text.after? headerWord (headerWord.toList ++ ' ' :: name.toList) =
          some (' ' :: name.toList) := Text.after?_eq_some_iff.mpr rfl
      rw [Test.kind?, after, Option.map_some, inner, String.ofList_toList]
    rw [ofText, line, ofTrimmed_of_kind? passes]

theorem kind?_step (keyword : Keyword) (text : List Char) :
    (Test.step keyword).kind? ((keyword.word ++ " ").toList ++ text) =
      some (.step keyword (String.ofList (Text.trim text))) := by
  rw [Test.kind?, Text.after?_eq_some_iff.mpr rfl, Option.map_some]

theorem ofText_step
    {text : String} (trimmed : Text.trimmed text = text) (nonempty : text ≠ "")
    (keyword : Keyword) : ofText (step keyword text).written = .step keyword text := by
  have nonemptyText : text.toList ≠ [] := fun none => nonempty (String.toList_eq_nil_iff.mp none)
  have starts : ∃ c ∈ (keyword.word ++ " ").toList.head?, Text.isBlank c = false := by
    have passes := kind?_step keyword []
    rw [List.append_nil] at passes
    exact ⟨_, Test.head?_of_kind? passes, Test.first_not_blank _⟩
  have line : Text.trim (step keyword text).written.toList =
      (keyword.word ++ " ").toList ++ text.toList := by
    show Text.trim (keyword.word ++ " " ++ text).toList = _
    rw [String.toList_append,
      trim_append starts (Text.trim_toList_of_trimmed trimmed) nonemptyText]
  rw [ofText, line, ofTrimmed_of_kind? (kind?_step keyword text.toList),
    Text.trim_toList_of_trimmed trimmed, String.ofList_toList]

/-- A cell between two pipes, with a space at either side. -/
def padded (cell : String) : List Char :=
  ' ' :: (cell.toList ++ [' '])

theorem pads_padded (cell : String) : Pads cell (padded cell) := by
  have space : ∀ c ∈ [' '], Text.isBlank c = true := List.forall_mem_singleton.mpr rfl
  exact ⟨[' '], [' '], space, space, rfl⟩

theorem pad_join (cell : String) (cells : List String) :
    ' ' :: ((Text.join " | " (cell :: cells)).toList ++ [' ']) =
      ['|'].intercalate ((cell :: cells).map padded) := by
  have between : " | ".toList = [' ', '|', ' '] := rfl
  rw [Text.join, String.toList_ofList, between]
  induction cells generalizing cell with
  | nil => simp [padded]
  | cons next cells inductionHypothesis =>
      have behind := inductionHypothesis next
      have nonempty (f : String → List Char) : (next :: cells).map f ≠ [] := by simp
      show ' ' :: ([' ', '|', ' '].intercalate (cell.toList :: (next :: cells).map String.toList) ++
        [' ']) = ['|'].intercalate (padded cell :: (next :: cells).map padded)
      rw [List.intercalate_cons_of_ne_nil (nonempty _),
        List.intercalate_cons_of_ne_nil (nonempty _), ← behind]
      simp [padded]

theorem written_row (cell : String) (cells : List String) :
    (row (cell :: cells)).written.toList =
      '|' :: (['|'].intercalate ((cell :: cells).map padded) ++ ['|']) := by
  show ("| " ++ Text.join " | " (cell :: cells) ++ " |").toList = _
  rw [← pad_join]
  simp

theorem ofText_row
    {cells : List String} (entries : ∀ cell ∈ cells, IsEntry cell) :
    ofText (row cells).written = .row cells := by
  cases cells with
  | nil => rfl
  | cons cell cells =>
      have pads : List.Forall₂ Pads (cell :: cells) ((cell :: cells).map padded) := by
        rw [List.forall₂_map_right_iff]
        exact List.forall₂_same.mpr fun other _ => pads_padded other
      have none : ∀ c ∈ ([] : List Char), Text.isBlank c = true :=
        fun c member => absurd member List.not_mem_nil
      have closed := ofText_closed_row (List.cons_ne_nil cell cells) entries pads none none
      rw [List.nil_append, ← written_row, String.ofList_toList] at closed
      exact closed

/-- Reading a line finds what was written. -/
theorem ofText_written {kind : LineKind} (proper : kind.Proper) (known : kind ≠ .other) :
    ofText kind.written = kind := by
  cases kind with
  | header name => exact ofText_header proper
  | step keyword text => exact ofText_step proper.1 proper.2 keyword
  | fence => rfl
  | row cells => exact ofText_row proper
  | other => exact absurd rfl known

/-! ## What is shown -/

theorem written_eq_render {kind : LineKind} (hasCells : kind ≠ .row []) :
    kind.written = kind.render := by
  unfold written
  split
  · exact absurd rfl hasCells
  · rfl

/-- The kind of a line is read off its own written form, but for a row without cells, which
shows as one with an empty cell. No line passes two of the tests for its kind, so it is the
same in whatever order they are tried. -/
theorem ofText_render (line : String) :
    (ofText (ofText line).render =
        if ofText line = .row [] then .row [""] else ofText line) ∧
      (∀ test other : Test, (test.kind? (Text.trim line.toList)).isSome = true →
        (other.kind? (Text.trim line.toList)).isSome = true → test = other) ∧
      ∀ order : List Test, order.Perm Test.all →
        (order.findSome? (·.kind? (Text.trim line.toList))).getD .other = ofText line := by
  refine ⟨?_, fun test other => Test.unique, ?_⟩
  · split
    · next noCells =>
        rw [noCells]
        rfl
    · next hasCells =>
        by_cases other : ofText line = .other
        · rw [other]
          rfl
        · rw [← written_eq_render hasCells]
          exact ofText_written (ofText_parts line).1 other
  · intro order perm
    exact ofTrimmed_in_order (fun test => perm.mem_iff.mpr test.mem_all) _

/-- A fence passes the test for fences alone, and is found by it in the last place too. -/
theorem ofText_render_of_fence :
    (∀ test : Test, (test.kind? fenceText.toList).isSome = true → test = .fence) ∧
      (Test.all.reverse.findSome? (·.kind? fenceText.toList)).getD .other = .fence := by
  obtain ⟨-, unique, inOrder⟩ := ofText_render fenceText
  exact ⟨fun test passes => unique test .fence passes rfl,
    inOrder Test.all.reverse (List.reverse_perm Test.all)⟩

end LineKind

end Gherkin
