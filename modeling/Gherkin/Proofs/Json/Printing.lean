import Mathlib.Data.List.Forall2
import Gherkin.Proofs.Json.Plain
import Gherkin.Proofs.Text.Trimming

/-!
Contract: the text of a value spells it.

Owns: that a value without floats is read back from its text, that the text of a record
spells it in whatever order its fields stand, and that a document may be trimmed.
Does not own: the text of a float.
Main statements: `readDocument_render` and `spells_recordText`.
-/

set_option autoImplicit false

namespace Gherkin.Json

/-! ## Strings -/

/-- The escapes of the controls have the digits of their code points. -/
theorem isUnit_control {c : Char} (control : c < ' ') :
    IsUnit ['0', '0', hexDigit (c.toNat / 16), hexDigit c.toNat] c.toNat := by
  have digits : ∀ n < 32, Text.numberIn? 16 ['0', '0', hexDigit (n / 16), hexDigit n] = some n := by
    decide
  exact ⟨rfl, digits c.toNat control⟩

theorem spellsChar_escapeChar (c : Char) : SpellsChar (escapeChar c) c := by
  have letter {letter d : Char} (same : c = d) (escape : (letter, d) ∈ escapes) :
      SpellsChar ['\\', letter] c :=
    same ▸ .letter escape
  unfold escapeChar
  split
  · next same => exact letter same (by decide)
  · next notQuote =>
      split
      · next same => exact letter same (by decide)
      · next notBackslash =>
          iterate 5
            split
            · next same => exact letter same (by decide)
          split
          · next control => exact .unit (isUnit_control control)
          · next notControl => exact .plain notQuote notBackslash notControl

theorem spellsChars_flatMap (cs : List Char) : SpellsChars (cs.flatMap escapeChar) cs := by
  induction cs with
  | nil => exact .nil
  | cons c cs inductionHypothesis =>
      rw [List.flatMap_cons]
      exact .cons (spellsChar_escapeChar c) inductionHypothesis

theorem spellsString_stringText (s : String) : SpellsString (stringText s) s :=
  ⟨_, rfl, spellsChars_flatMap s.toList⟩

/-! ## Lists in brackets -/

theorem spellsItems_intercalate
    {α : Type} {spells : List Char → α → Prop} {parts : List (List Char)} {items : List α}
    (spelled : List.Forall₂ spells parts items) (nonempty : items ≠ []) :
    SpellsItems spells ([','].intercalate parts) items := by
  induction spelled with
  | nil => exact absurd rfl nonempty
  | @cons part item parts items first later inductionHypothesis =>
      cases later with
      | nil =>
          rw [List.intercalate_singleton]
          exact .one first
      | @cons next nextItem parts items second rest =>
          have behind := inductionHypothesis (List.cons_ne_nil _ _)
          rw [List.intercalate_cons_of_ne_nil (List.cons_ne_nil _ _), List.append_assoc]
          exact .cons first isSpace_nil isSpace_nil behind

theorem spellsList_bracketed
    {α : Type} {spells : List Char → α → Prop} {parts : List (List Char)} {items : List α}
    (opening closing : Char) (spelled : List.Forall₂ spells parts items) :
    SpellsList spells opening closing (bracketed opening closing parts) items := by
  by_cases empty : items = []
  · subst empty
    cases spelled
    exact .empty isSpace_nil
  · exact .items isSpace_nil (spellsItems_intercalate spelled empty) isSpace_nil

theorem spells_listText
    {nesting : Nat} {texts : List (List Char)} {items : List Value}
    (spelled : List.Forall₂ (Spells nesting) texts items) :
    Spells (nesting + 1) (listText texts) (.array items) :=
  .inr (.inl ⟨items, rfl, spellsList_bracketed '[' ']' spelled⟩)

theorem spells_of_scalar
    {nesting : Nat} {t : List Char} {value : Value} (spelled : SpellsScalar t value) :
    Spells nesting t value := by
  cases nesting with
  | zero => exact spelled
  | succ nesting => exact .inl spelled

/-! ## Records -/

/-- The text of a field: that of its content, if it is there, under the same name. -/
inductive SpellsField (nesting : Nat) :
    String × Option (List Char) → String × Option Value → Prop where
  | absent {name : String} : SpellsField nesting (name, none) (name, none)
  | present {name : String} {t : List Char} {value : Value} (holds : Spells nesting t value) :
      SpellsField nesting (name, some t) (name, some value)

theorem inRange_uInt64 (n : UInt64) : InRange n.toNat := by
  have less := n.toNat_lt
  unfold InRange
  omega

section

variable {nesting : Nat} {name : String}

theorem SpellsField.string (s : String) :
    SpellsField nesting (name, some (stringText s)) (name, some (.string s)) :=
  .present (spells_of_scalar (.string (spellsString_stringText s)))

theorem SpellsField.uInt64 (n : UInt64) :
    SpellsField nesting (name, some (Text.numeral n.toNat).toList)
      (name, some (.int n.toNat)) :=
  .present (spells_of_scalar (.int (inRange_uInt64 n)))

theorem SpellsField.string? (s? : Option String) :
    SpellsField nesting (name, s?.map stringText) (name, s?.map .string) := by
  cases s? with
  | none => exact .absent
  | some s => exact .string s

end

theorem spellsMembers_present
    {nesting : Nat} {texts : List (String × Option (List Char))}
    {fields : List (String × Option Value)}
    (spelled : List.Forall₂ (SpellsField nesting) texts fields) :
    List.Forall₂ (SpellsMember (Spells nesting))
      (texts.filterMap fun (name, content?) =>
        content?.map fun content => stringText name ++ ':' :: content)
      (fields.filterMap fun (name, value?) => value?.map (name, ·)) := by
  induction spelled with
  | nil => exact .nil
  | cons first _ inductionHypothesis =>
      cases first with
      | absent => exact inductionHypothesis
      | present holds =>
          refine .cons ?_ inductionHypothesis
          exact .mk (spellsString_stringText _) isSpace_nil isSpace_nil holds

/-- The text of a record spells the object with its fields, in whatever order they stand. -/
theorem spells_recordText
    {nesting : Nat} {texts : List (String × Option (List Char))}
    {fields : List (String × Option Value)}
    (spelled : List.Forall₂ (SpellsField nesting) texts fields) :
    Spells (nesting + 1) (recordText texts) (.ofPresent fields) :=
  .inr (.inr ⟨_, rfl, spellsList_bracketed '{' '}' (spellsMembers_present spelled)⟩)

/-! ## Values -/

theorem itemChars_eq (first : Value) (items : List Value) :
    first.chars ++ itemChars items =
      [','].intercalate ((first :: items).map Value.chars) ++ [']'] := by
  induction items generalizing first with
  | nil => simp [itemChars]
  | cons next items inductionHypothesis =>
      rw [itemChars, inductionHypothesis, List.map_cons (l := next :: items),
        List.intercalate_cons_of_ne_nil (by simp)]
      simp

theorem chars_array (items : List Value) :
    (Value.array items).chars = listText (items.map Value.chars) := by
  cases items with
  | nil => rfl
  | cons first items =>
      rw [Value.chars, itemChars_eq]
      rfl

theorem memberChars_eq (name : String) (value : Value) (members : List (String × Value)) :
    stringText name ++ ':' :: (value.chars ++ memberChars members) =
      [','].intercalate (((name, value) :: members).map fun member =>
        stringText member.1 ++ ':' :: member.2.chars) ++ ['}'] := by
  induction members generalizing name value with
  | nil => simp [memberChars]
  | cons next members inductionHypothesis =>
      rw [memberChars, inductionHypothesis, List.map_cons (l := next :: members),
        List.intercalate_cons_of_ne_nil (by simp)]
      simp

theorem chars_object (members : List (String × Value)) :
    (Value.object members).chars =
      recordText (members.map fun member => (member.1, some member.2.chars)) := by
  have present : (members.map fun member => (member.1, some member.2.chars)).filterMap
      (fun (name, content?) => content?.map fun content => stringText name ++ ':' :: content) =
        members.map fun member => stringText member.1 ++ ':' :: member.2.chars := by
    rw [List.filterMap_map, ← List.filterMap_eq_map]
    rfl
  rw [recordText, present]
  cases members with
  | nil => rfl
  | cons member members =>
      rw [Value.chars, memberChars_eq]
      rfl

/-- The text of a value spells it. -/
theorem IsPlain.spells {nesting : Nat} {value : Value} (plain : IsPlain nesting value) :
    Spells nesting value.chars value := by
  induction plain with
  | null => exact spells_of_scalar .null
  | bool b =>
      cases b with
      | true => exact spells_of_scalar .true
      | false => exact spells_of_scalar .false
  | int inRange => exact spells_of_scalar (.int inRange)
  | string s => exact spells_of_scalar (.string (spellsString_stringText s))
  | @array nesting items _ inductionHypothesis =>
      rw [chars_array]
      apply spells_listText
      rw [List.forall₂_map_left_iff]
      exact List.forall₂_same.mpr inductionHypothesis
  | @object nesting members increase _ inductionHypothesis =>
      have same : .object members =
          Value.ofPresent (members.map fun member => (member.1, some member.2)) := by
        have present : (members.map fun member => (member.1, some member.2)).filterMap
            (fun (name, value?) => value?.map (name, ·)) = members := by
          rw [List.filterMap_map]
          exact List.filterMap_some
        rw [Value.ofPresent, present, ofMembers_eq_entries,
          Dictionary.ofList_entries ⟨members, increase⟩]
      rw [chars_object, same]
      apply spells_recordText
      rw [List.forall₂_map_left_iff, List.forall₂_map_right_iff]
      exact List.forall₂_same.mpr fun member isMember =>
        .present (inductionHypothesis member isMember)

theorem IsPlain.isDocument {value : Value} (plain : IsPlain nestingBound value) :
    IsDocument value.render value :=
  .mk isSpace_nil plain.spells isSpace_nil (by simp [Value.render])

/-- A value is read back from its text. -/
theorem readDocument_render {value : Value} (plain : IsPlain nestingBound value) :
    readDocument value.render = .ok value :=
  readDocument_of_isDocument plain.isDocument

/-! ## Trimmed documents -/

theorem isBlank_of_isSpace {c : Char} (space : isSpace c = true) : Text.isBlank c = true := by
  simp only [isSpace, Bool.or_eq_true, beq_iff_eq] at space
  rcases space with ((rfl | rfl) | rfl) | rfl <;> decide

theorem not_isBlank_of_isDigit {c : Char} (isDigit : c.isDigit = true) :
    Text.isBlank c = false := by
  have all : ∀ n < 58, 48 ≤ n → Text.isBlank (Char.ofNat n) = false := by decide
  simp only [Char.isDigit, Bool.and_eq_true, decide_eq_true_eq] at isDigit
  have notBlank := all c.toNat (Nat.lt_succ_of_le isDigit.2) isDigit.1
  rwa [Char.ofNat_toNat] at notBlank

/-- A numeral is made of digits, and a sign if it has one. -/
theorem not_isBlank_of_mem_signedNumeral {n : Int} {c : Char}
    (member : c ∈ (Text.signedNumeral n).toList) : Text.isBlank c = false := by
  have digit {n : Nat} (member : c ∈ (Text.numeral n).toList) : Text.isBlank c = false := by
    rw [numeral_toList] at member
    exact not_isBlank_of_isDigit (Nat.isDigit_of_mem_toDigits (by decide) (by decide) member)
  cases n with
  | ofNat n => exact digit member
  | negSucc n =>
      rw [Text.signedNumeral, String.toList_append, List.mem_append] at member
      rcases member with sign | member
      · obtain rfl : c = '-' := by simpa using sign
        decide
      · exact digit member

/-- The text has no blank space at its ends. -/
def NoBlankEnds (t : List Char) : Prop :=
  (∀ c ∈ t.head?, Text.isBlank c = false) ∧ ∀ c ∈ t.getLast?, Text.isBlank c = false

theorem noBlankEnds_between
    {opening closing : Char} (notBlank : Text.isBlank opening = false)
    (notBlank' : Text.isBlank closing = false) (inside : List Char) :
    NoBlankEnds (opening :: (inside ++ [closing])) := by
  constructor
  · intro c first
    obtain rfl := Option.some.inj first
    exact notBlank
  · intro c last
    rw [← List.cons_append, List.getLast?_concat] at last
    obtain rfl := Option.some.inj last
    exact notBlank'

theorem SpellsList.noBlankEnds
    {α : Type} {spells : List Char → α → Prop} {opening closing : Char} {t : List Char}
    {as : List α} (spelled : SpellsList spells opening closing t as)
    (notBlank : Text.isBlank opening = false) (notBlank' : Text.isBlank closing = false) :
    NoBlankEnds t := by
  cases spelled with
  | empty _ => exact noBlankEnds_between notBlank notBlank' _
  | @items space ts space' _ _ _ _ =>
      rw [← List.append_assoc, ← List.append_assoc]
      exact noBlankEnds_between notBlank notBlank' _

theorem SpellsScalar.noBlankEnds
    {t : List Char} {value : Value} (spelled : SpellsScalar t value) : NoBlankEnds t := by
  cases spelled with
  | null => simp [NoBlankEnds]; decide
  | true => simp [NoBlankEnds]; decide
  | false => simp [NoBlankEnds]; decide
  | string isString =>
      obtain ⟨inside, rfl, -⟩ := isString
      exact noBlankEnds_between (by decide) (by decide) inside
  | @int n _ =>
      exact ⟨fun c first => not_isBlank_of_mem_signedNumeral (List.mem_of_head? first),
        fun c last => not_isBlank_of_mem_signedNumeral (List.mem_of_getLast? last)⟩

theorem Spells.noBlankEnds
    {nesting : Nat} {t : List Char} {value : Value} (spelled : Spells nesting t value) :
    NoBlankEnds t := by
  cases nesting with
  | zero => exact SpellsScalar.noBlankEnds spelled
  | succ nesting =>
      rcases spelled with spelled | ⟨items, -, spelled⟩ | ⟨members, -, spelled⟩
      · exact spelled.noBlankEnds
      · exact spelled.noBlankEnds (by decide) (by decide)
      · exact spelled.noBlankEnds (by decide) (by decide)

/-- Blank space around a document goes without changing it. -/
theorem IsDocument.trimmed {text : String} {value : Value} (isDocument : IsDocument text value) :
    IsDocument (Text.trimmed text) value := by
  cases isDocument with
  | @mk front t back _ isSpace holds isSpace' whole =>
      have kept : Text.trim t = t := Text.trim_eq_self_iff.mpr holds.noBlankEnds
      have trimmed : Text.trim text.toList = t := by
        rw [whole, Text.trim_blank_append fun c member => isBlank_of_isSpace (isSpace c member),
          Text.trim_append_blank t fun c member => isBlank_of_isSpace (isSpace' c member), kept]
      exact .mk isSpace_nil holds isSpace_nil (by simp [Text.trimmed, trimmed])

end Gherkin.Json
