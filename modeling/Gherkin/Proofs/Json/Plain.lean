import Gherkin.Proofs.Json.Reading

/-!
Contract: which values documents hold.

Owns: values without floats, values with one, and that whatever is read from a document is
of one kind or the other, in the order and within the bounds of a document.
Does not own: the text of a value (`Gherkin.Proofs.Json.Printing`).
Main statements: `isPlain_or_hasFloat_of_readDocument`, `IsDocument.isPlain`.
-/

set_option autoImplicit false

namespace Gherkin.Json

/-- A value without floats as documents hold it: whole numbers that sixty-four bits hold,
members in the order of their names, and brackets that nest no deeper than the bound. -/
inductive IsPlain : Nat → Value → Prop where
  | null {nesting : Nat} : IsPlain nesting .null
  | bool {nesting : Nat} (b : Bool) : IsPlain nesting (.bool b)
  | int {nesting : Nat} {n : Int} (inRange : InRange n) : IsPlain nesting (.int n)
  | string {nesting : Nat} (s : String) : IsPlain nesting (.string s)
  | array {nesting : Nat} {items : List Value} (plain : ∀ item ∈ items, IsPlain nesting item) :
      IsPlain (nesting + 1) (.array items)
  | object {nesting : Nat} {members : List (String × Value)} (increase : KeysIncrease members)
      (plain : ∀ member ∈ members, IsPlain nesting member.2) :
      IsPlain (nesting + 1) (.object members)

/-- A value that is a float or holds one. -/
inductive HasFloat : Value → Prop where
  | float (x : Float) : HasFloat (.float x)
  | item {items : List Value} {item : Value} (isItem : item ∈ items) (has : HasFloat item) :
      HasFloat (.array items)
  | member {members : List (String × Value)} {member : String × Value}
      (isMember : member ∈ members) (has : HasFloat member.2) : HasFloat (.object members)

theorem IsPlain.not_hasFloat {nesting : Nat} {value : Value} (plain : IsPlain nesting value) :
    ¬ HasFloat value := by
  induction plain with
  | null | bool | int | string => exact nofun
  | array _ inductionHypothesis =>
      rintro (_ | ⟨isItem, has⟩)
      exact inductionHypothesis _ isItem has
  | object _ _ inductionHypothesis =>
      rintro (_ | _ | ⟨isMember, has⟩)
      exact inductionHypothesis _ isMember has

/-! ## Values that are spelled -/

section Lists

variable {α : Type} {spells : List Char → α → Prop} {P : α → Prop}

theorem SpellsItems.forall_mem
    (each : ∀ t a, spells t a → P a) {ts : List Char} {as : List α}
    (spelled : SpellsItems spells ts as) : ∀ a ∈ as, P a := by
  induction spelled with
  | one only => exact List.forall_mem_singleton.mpr (each _ _ only)
  | cons first _ _ _ inductionHypothesis =>
      exact List.forall_mem_cons.mpr ⟨each _ _ first, inductionHypothesis⟩

theorem SpellsList.forall_mem
    (each : ∀ t a, spells t a → P a) {opening closing : Char} {t : List Char} {as : List α}
    (spelled : SpellsList spells opening closing t as) : ∀ a ∈ as, P a := by
  cases spelled with
  | empty _ => exact nofun
  | items _ items _ => exact items.forall_mem each

end Lists

theorem SpellsScalar.isPlain
    {nesting : Nat} {t : List Char} {value : Value} (spelled : SpellsScalar t value) :
    IsPlain nesting value := by
  cases spelled with
  | null => exact .null
  | true => exact .bool Bool.true
  | false => exact .bool Bool.false
  | int inRange => exact .int inRange
  | string _ => exact .string _

theorem isPlain_ofMembers
    {nesting : Nat} {members : List (String × Value)}
    (plain : ∀ member ∈ members, IsPlain nesting member.2) :
    IsPlain (nesting + 1) (.ofMembers members) := by
  rw [ofMembers_eq_entries]
  exact .object (Dictionary.keysIncrease _) fun member isMember =>
    plain member (Dictionary.mem_of_mem_ofList isMember)

theorem Spells.isPlain
    {nesting : Nat} {t : List Char} {value : Value} (spelled : Spells nesting t value) :
    IsPlain nesting value := by
  induction nesting generalizing t value with
  | zero => exact SpellsScalar.isPlain spelled
  | succ nesting inductionHypothesis =>
      rcases spelled with spelled | ⟨items, rfl, spelled⟩ | ⟨members, rfl, spelled⟩
      · exact spelled.isPlain
      · exact .array (spelled.forall_mem fun t item holds => inductionHypothesis holds)
      · refine isPlain_ofMembers (spelled.forall_mem fun t member holds => ?_)
        cases holds with
        | mk _ _ _ holds => exact inductionHypothesis holds

theorem IsDocument.isPlain {text : String} {value : Value} (isDocument : IsDocument text value) :
    IsPlain nestingBound value := by
  cases isDocument with
  | mk _ holds _ _ => exact holds.isPlain

/-! ## Values that are read -/

/-- What is read has the property. -/
def Yields {α : Type} (reader : List Char → Reading α) (P : α → Prop) : Prop :=
  ∀ cs a rest, reader cs = .ok (a, rest) → P a

/-- A number that is kept: a whole one in range, or a float. -/
inductive IsNumber : Value → Prop where
  | int {n : Int} (inRange : InRange n) : IsNumber (.int n)
  | float (x : Float) : IsNumber (.float x)

theorem absorb_lt
    (digits : List Nat) {n : Nat} (fits : n < Decimal.significandBound) :
    (Decimal.absorb n digits).1 < Decimal.significandBound := by
  induction digits generalizing n with
  | nil => exact fits
  | cons d digits inductionHypothesis =>
      rw [Decimal.absorb]
      split
      · next still => exact inductionHypothesis still
      · exact fits

theorem Numeral.isNumber_of_value?
    {numeral : Numeral} {value : Value} (isValue : numeral.value? = some value) :
    IsNumber value := by
  have fits := absorb_lt numeral.whole (n := 0) (by decide)
  unfold Decimal.significandBound at fits
  unfold value? at isValue
  generalize Decimal.absorb 0 numeral.whole = absorbed at isValue fits
  obtain ⟨significand, left⟩ := absorbed
  simp only at isValue fits
  split at isValue
  · split at isValue
    · obtain rfl := Option.some.inj isValue
      exact .int (by unfold InRange; omega)
    · split at isValue
      · obtain rfl := Option.some.inj isValue
        exact .int (by unfold InRange; omega)
      · obtain rfl := Option.some.inj isValue
        exact .float _
  · obtain ⟨x, -, rfl⟩ := Option.map_eq_some_iff.mp isValue
    exact .float _

theorem Numeral.finish_yields (numeral : Numeral) : Yields numeral.finish IsNumber := by
  intro cs value rest read
  unfold finish at read
  split at read
  · next isValue =>
      obtain ⟨rfl, rfl⟩ := Prod.mk.inj (Except.ok.inj read)
      exact isNumber_of_value? isValue
  · cases read

theorem readExponent_yields (numeral : Numeral) : Yields (readExponent numeral) IsNumber := by
  intro cs value rest read
  unfold readExponent at read
  simp only at read
  split at read
  · cases read
  · split at read
    · cases read
    · split at read
      · exact Numeral.finish_yields _ _ _ _ read
      · rcases ite_eq_iff.mp read with ⟨-, tooGreat⟩ | ⟨-, read⟩
        · cases tooGreat
        · exact Numeral.finish_yields _ _ _ _ read

theorem readScale_yields (numeral : Numeral) : Yields (readScale numeral) IsNumber := by
  intro cs value rest read
  unfold readScale at read
  split at read
  · exact readExponent_yields _ _ _ _ read
  · exact readExponent_yields _ _ _ _ read
  · exact Numeral.finish_yields _ _ _ _ read

theorem readFraction_yields (numeral : Numeral) : Yields (readFraction numeral) IsNumber := by
  intro cs value rest read
  unfold readFraction at read
  split at read
  · simp only at read
    split at read
    · split at read <;> cases read
    · exact readScale_yields _ _ _ _ read
  · exact readScale_yields _ _ _ _ read

theorem readNumber_yields (negative : Bool) : Yields (readNumber negative) IsNumber := by
  intro cs value rest read
  unfold readNumber at read
  split at read
  · cases read
  · split at read
    · split at read
      · split at read
        · cases read
        · exact readFraction_yields _ _ _ _ read
      · exact readFraction_yields _ _ _ _ read
    · split at read
      · exact readFraction_yields _ _ _ _ read
      · cases read

/-- A value that is read within the bound: plain, or with a float. -/
def IsRead (nesting : Nat) (value : Value) : Prop :=
  IsPlain nesting value ∨ HasFloat value

theorem IsNumber.isRead {value : Value} (isNumber : IsNumber value) (nesting : Nat) :
    IsRead nesting value := by
  cases isNumber with
  | int inRange => exact .inl (.int inRange)
  | float x => exact .inr (.float x)

theorem eq_of_readWord
    {value read : Value} {word cs rest : List Char}
    (isRead : readWord value word cs = .ok (read, rest)) : read = value := by
  induction word generalizing cs with
  | nil => exact (Prod.mk.inj (Except.ok.inj isRead)).1.symm
  | cons w word inductionHypothesis =>
      cases cs with
      | nil => cases isRead
      | cons c cs =>
          rw [readWord] at isRead
          split at isRead
          · exact inductionHypothesis isRead
          · cases isRead

theorem isRead_of_readScalar?
    {nesting : Nat} {cs rest : List Char} {value : Value}
    (read : readScalar? cs = some (.ok (value, rest))) : IsRead nesting value := by
  unfold readScalar? at read
  split at read
  · exact eq_of_readWord (Option.some.inj read) ▸ .inl .null
  · exact eq_of_readWord (Option.some.inj read) ▸ .inl (.bool true)
  · exact eq_of_readWord (Option.some.inj read) ▸ .inl (.bool false)
  · exact (readNumber_yields _ _ _ _ (Option.some.inj read)).isRead nesting
  · next cs =>
      obtain ⟨result, -, same⟩ := exists_of_map_eq_ok (Option.some.inj read)
      obtain ⟨rfl, -⟩ := Prod.mk.inj same
      exact .inl (.string _)
  · split at read
    · exact (readNumber_yields _ _ _ _ (Option.some.inj read)).isRead nesting
    · cases read
  · cases read

section Brackets

variable {α : Type} {P : α → Prop}

theorem readItems_yields
    {item : List Char → Reading Value} {P : Value → Prop} (yields : Yields item P) {bound : Nat}
    {itemsRev : List Value} (before : ∀ value ∈ itemsRev, P value) :
    Yields (readItems item bound itemsRev) fun value =>
      ∃ items, value = .array items ∧ ∀ value ∈ items, P value := by
  intro cs value rest read
  induction bound generalizing itemsRev cs with
  | zero => cases read
  | succ bound inductionHypothesis =>
      unfold readItems at read
      split at read
      · cases read
      · obtain ⟨rfl, -⟩ := Prod.mk.inj (Except.ok.inj read)
        exact ⟨_, rfl, fun value member => before value (List.mem_reverse.mp member)⟩
      · split at read
        · cases read
        · cases read
        · split at read
          · cases read
          · next next after readNext =>
              refine inductionHypothesis ?_ _ read
              exact List.forall_mem_cons.mpr ⟨yields _ next after readNext, before⟩
      · cases read

theorem readArray_yields
    {item : List Char → Reading Value} {P : Value → Prop} (yields : Yields item P) :
    Yields (readArray item) fun value =>
      ∃ items, value = .array items ∧ ∀ value ∈ items, P value := by
  intro cs value rest read
  unfold readArray at read
  split at read
  · cases read
  · obtain ⟨rfl, -⟩ := Prod.mk.inj (Except.ok.inj read)
    exact ⟨[], rfl, nofun⟩
  · split at read
    · cases read
    · next first after readFirst =>
        refine readItems_yields yields ?_ _ _ _ read
        exact List.forall_mem_singleton.mpr (yields _ first after readFirst)

theorem readMember_yields {item : List Char → Reading α} (yields : Yields item P) :
    Yields (readMember item) fun member => P member.2 := by
  intro cs member rest read
  unfold readMember at read
  split at read
  · cases read
  · split at read
    · cases read
    · split at read
      · cases read
      · next value after readValue =>
          obtain ⟨rfl, -⟩ := Prod.mk.inj (Except.ok.inj read)
          exact yields _ value after readValue
    · cases read

theorem readMembers_yields
    {item : List Char → Reading α} (yields : Yields item P) {bound : Nat}
    {members : List (String × α)} (increase : KeysIncrease members)
    (before : ∀ member ∈ members, P member.2) :
    Yields (readMembers item bound members) fun members =>
      KeysIncrease members ∧ ∀ member ∈ members, P member.2 := by
  intro cs read rest isRead
  induction bound generalizing members cs with
  | zero => cases isRead
  | succ bound inductionHypothesis =>
      unfold readMembers at isRead
      split at isRead
      · cases isRead
      · obtain ⟨rfl, -⟩ := Prod.mk.inj (Except.ok.inj isRead)
        exact ⟨increase, before⟩
      · split at isRead
        · cases isRead
        · split at isRead
          · cases isRead
          · next name value after readNext =>
              refine inductionHypothesis (increase.insertEntry name value) ?_ _ isRead
              intro member inserted
              rcases mem_insertEntry inserted with rfl | isBefore
              · exact readMember_yields yields _ _ after readNext
              · exact before member isBefore
        · cases isRead
        · cases isRead
      · cases isRead

theorem readObject_yields {item : List Char → Reading α} (yields : Yields item P) :
    Yields (readObject item) fun members =>
      KeysIncrease members ∧ ∀ member ∈ members, P member.2 := by
  intro cs members rest read
  unfold readObject at read
  split at read
  · cases read
  · obtain ⟨rfl, -⟩ := Prod.mk.inj (Except.ok.inj read)
    exact ⟨.nil, nofun⟩
  · split at read
    · cases read
    · next first after readFirst =>
        refine readMembers_yields yields (List.pairwise_singleton ..) ?_ _ _ _ read
        exact List.forall_mem_singleton.mpr (readMember_yields yields _ first after readFirst)
  · cases read

end Brackets

theorem isRead_array
    {nesting : Nat} {items : List Value} (each : ∀ item ∈ items, IsRead nesting item) :
    IsRead (nesting + 1) (.array items) := by
  by_cases float : ∃ item ∈ items, HasFloat item
  · obtain ⟨item, isItem, has⟩ := float
    exact .inr (.item isItem has)
  · refine .inl (.array fun item isItem => ?_)
    exact (each item isItem).resolve_right fun has => float ⟨item, isItem, has⟩

theorem isRead_object
    {nesting : Nat} {members : List (String × Value)} (increase : KeysIncrease members)
    (each : ∀ member ∈ members, IsRead nesting member.2) :
    IsRead (nesting + 1) (.object members) := by
  by_cases float : ∃ member ∈ members, HasFloat member.2
  · obtain ⟨member, isMember, has⟩ := float
    exact .inr (.member isMember has)
  · refine .inl (.object increase fun member isMember => ?_)
    exact (each member isMember).resolve_right fun has => float ⟨member, isMember, has⟩

/-- One level of brackets, if what is read inside them is within the bound. -/
theorem readValue_yields_of_inner
    {nesting : Nat} (inner : ∀ n, nesting = n + 1 → Yields (readValue n) (IsRead n)) :
    Yields (readValue nesting) (IsRead nesting) := by
  intro cs value rest read
  unfold readValue at read
  split at read
  · next isScalar => exact isRead_of_readScalar? (isScalar.trans (congrArg some read))
  · split at read
    · cases read
    · cases read
    · cases read
    · obtain ⟨items, rfl, each⟩ := readArray_yields (inner _ rfl) _ _ _ read
      exact isRead_array each
    · next n cs _ =>
        obtain ⟨result, readAll, same⟩ := exists_of_map_eq_ok read
        obtain ⟨rfl, -⟩ := Prod.mk.inj same
        obtain ⟨increase, each⟩ := readObject_yields (inner n rfl) cs _ _ readAll
        exact isRead_object increase each
    · cases read

theorem readValue_yields (nesting : Nat) : Yields (readValue nesting) (IsRead nesting) := by
  induction nesting with
  | zero => exact readValue_yields_of_inner nofun
  | succ nesting inductionHypothesis =>
      exact readValue_yields_of_inner fun n same => Nat.succ.inj same ▸ inductionHypothesis

/-- What is read from a document is plain, unless there is a float in it. -/
theorem isPlain_or_hasFloat_of_readDocument
    {text : String} {value : Value} (read : readDocument text = .ok value) :
    IsPlain nestingBound value ∨ HasFloat value := by
  unfold readDocument finishDocument at read
  split at read
  · cases read
  · next result rest readResult =>
      split at read
      · obtain rfl := Except.ok.inj read
        exact readValue_yields nestingBound _ result rest readResult
      · cases read

end Gherkin.Json
