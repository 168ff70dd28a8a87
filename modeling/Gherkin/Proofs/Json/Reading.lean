import Mathlib.Data.List.TakeWhile
import Gherkin.Json.Texts
import Gherkin.Proofs.Json.Records
import Gherkin.Proofs.Json.Spelling

/-!
Contract: the readers read every text of the grammar.

Owns: that a string, a whole number, a list in brackets and a value are read as what they
spell, whatever follows them, and that a document is.
Does not own: which texts the readers accept besides (`Gherkin.Proofs.Json.Accepting`).
Main statement: `readDocument_of_isDocument`.

Each statement keeps the unread text general, so that it can be used inside any other. All
but numbers end by themselves; behind a number nothing may follow that would go on with it.
-/

set_option autoImplicit false

namespace Gherkin.Json

/-- What may follow a value: nothing that could go on with a number. -/
def Stops (rest : List Char) : Prop :=
  ∀ c ∈ rest.head?, c.isDigit = false ∧ c ≠ '.' ∧ c ≠ 'e' ∧ c ≠ 'E'

/-- The text is read as what it stands for, and what follows is left. -/
def ReadsAs {α : Type} (reader : List Char → Reading α) (t : List Char) (a : α) : Prop :=
  ∀ rest, Stops rest → reader (t ++ rest) = .ok (a, rest)

/-- What a mapped result is made of. -/
theorem exists_of_map_eq_ok
    {ε α β : Type} {result : Except ε α} {f : α → β} {b : β} (mapped : result.map f = .ok b) :
    ∃ a, result = .ok a ∧ f a = b := by
  cases result with
  | error e => cases mapped
  | ok a => exact ⟨a, rfl, Except.ok.inj mapped⟩

/-! ## Strings -/

theorem length_le_byteCount (cs : List Char) : cs.length ≤ byteCount cs := by
  induction cs with
  | nil => exact Nat.le_refl 0
  | cons c cs inductionHypothesis =>
      have positive := c.utf8Size_pos
      rw [byteCount, List.length_cons]
      omega

theorem IsUnit.readUnit
    {digits : List Char} {unit : Nat} (isUnit : IsUnit digits unit) (rest : List Char) :
    readUnit (digits ++ rest) = .ok (unit, rest) := by
  have taken : (digits ++ rest).take 4 = digits := by
    rw [← isUnit.length_eq, List.take_left]
  have behind : (digits ++ rest).drop 4 = rest := by
    rw [← isUnit.length_eq, List.drop_left]
  have enough : ¬ byteCount digits < 4 := by
    have := length_le_byteCount digits
    have := isUnit.length_eq
    omega
  simp only [Json.readUnit, taken, behind, if_neg enough, isUnit.denotes]

theorem readEscape_letter
    {letter c : Char} (escape : (letter, c) ∈ escapes) (rest : List Char) :
    readEscape (letter :: rest) = .ok (c, rest) := by
  simp only [escapes, List.mem_cons, Prod.mk.injEq, List.not_mem_nil, or_false] at escape
  rcases escape with ⟨rfl, rfl⟩ | ⟨rfl, rfl⟩ | ⟨rfl, rfl⟩ | ⟨rfl, rfl⟩ | ⟨rfl, rfl⟩ |
    ⟨rfl, rfl⟩ | ⟨rfl, rfl⟩ | ⟨rfl, rfl⟩ <;> rfl

/-- A character is no surrogate. -/
theorem not_surrogate (c : Char) : ¬ (0xd800 ≤ c.toNat ∧ c.toNat ≤ 0xdfff) := by
  have valid := c.valid
  simp only [UInt32.isValidChar, Nat.isValidChar] at valid
  have same : c.toNat = c.val.toNat := rfl
  omega

theorem readUnicode_unit
    {digits : List Char} {c : Char} (isUnit : IsUnit digits c.toNat) (rest : List Char) :
    readUnicode (digits ++ rest) = .ok (c, rest) := by
  have notSurrogate := not_surrogate c
  have notLow : ¬ (0xdc00 ≤ c.toNat ∧ c.toNat ≤ 0xdfff) := by omega
  have notHigh : ¬ (0xd800 ≤ c.toNat ∧ c.toNat ≤ 0xdbff) := by omega
  simp only [readUnicode, isUnit.readUnit, if_neg notLow, if_neg notHigh, Char.ofNat_toNat]

theorem readUnicode_pair
    {digits digits' : List Char} {high low : Nat} (isUnit : IsUnit digits high)
    (isUnit' : IsUnit digits' low) (isHigh : 0xd800 ≤ high ∧ high ≤ 0xdbff)
    (isLow : 0xdc00 ≤ low ∧ low ≤ 0xdfff) (rest : List Char) :
    readUnicode (digits ++ '\\' :: 'u' :: (digits' ++ rest)) =
      .ok (Char.ofNat (0x10000 + (high - 0xd800) * 0x400 + (low - 0xdc00)), rest) := by
  have notLow : ¬ (0xdc00 ≤ high ∧ high ≤ 0xdfff) := by omega
  simp only [readUnicode, isUnit.readUnit, if_neg notLow, if_pos isHigh, readPaired,
    isUnit'.readUnit, if_pos isLow]

/-- One character is read in one round. -/
theorem readChars_char
    {t : List Char} {c : Char} (spells : SpellsChar t c) (bound : Nat)
    (readRev rest : List Char) :
    readChars (bound + 1) readRev (t ++ rest) = readChars bound (c :: readRev) rest := by
  have escaped (cs : List Char) (read : readEscape cs = .ok (c, rest)) :
      readChars (bound + 1) readRev ('\\' :: cs) = readChars bound (c :: readRev) rest := by
    simp [readChars, read]
  cases spells with
  | plain notQuote notBackslash notControl =>
      rw [List.singleton_append, readChars, if_neg notQuote, if_neg notBackslash,
        if_neg notControl]
  | letter escape => exact escaped _ (readEscape_letter escape rest)
  | unit isUnit => exact escaped _ (readUnicode_unit isUnit rest)
  | @pair digits digits' high low isUnit isUnit' isHigh isLow =>
      have read := readUnicode_pair isUnit isUnit' isHigh isLow rest
      refine escaped ('u' :: (digits ++ '\\' :: 'u' :: digits' ++ rest)) ?_
      rw [List.append_assoc]
      exact read

theorem SpellsChar.nonempty {t : List Char} {c : Char} (spells : SpellsChar t c) : t ≠ [] := by
  cases spells <;> exact List.cons_ne_nil _ _

theorem readChars_of_spells
    {inside cs : List Char} (spells : SpellsChars inside cs) {bound : Nat}
    (enough : inside.length < bound) (readRev rest : List Char) :
    readChars bound readRev (inside ++ '"' :: rest) =
      .ok (String.ofList (readRev.reverse ++ cs), rest) := by
  induction spells generalizing bound readRev with
  | nil =>
      obtain ⟨bound, rfl⟩ := Nat.exists_eq_add_of_lt enough
      simp [readChars]
  | @cons t ts c cs first _ inductionHypothesis =>
      have positive := List.length_pos_iff.mpr first.nonempty
      rw [List.length_append] at enough
      obtain ⟨bound, rfl⟩ : ∃ more, bound = more + 1 := Nat.exists_eq_add_one.mpr (by omega)
      rw [List.append_assoc, readChars_char first, inductionHypothesis (by omega)]
      simp

theorem SpellsString.read
    {t : List Char} {s : String} (spells : SpellsString t s) (rest : List Char) :
    ∃ inside, t ++ rest = '"' :: inside ∧ readString inside = .ok (s, rest) := by
  obtain ⟨inside, rfl, chars⟩ := spells
  refine ⟨inside ++ '"' :: rest, by simp, ?_⟩
  have enough : inside.length < (inside ++ '"' :: rest).length + 1 := by
    rw [List.length_append]
    omega
  rw [readString, readChars_of_spells chars enough]
  simp

/-! ## Whole numbers -/

theorem le_ofDigitChars (digits : List Char) (n : Nat) : n ≤ Nat.ofDigitChars 10 digits n := by
  induction digits generalizing n with
  | nil => exact Nat.le_refl n
  | cons c digits inductionHypothesis =>
      rw [Nat.ofDigitChars_cons]
      exact Nat.le_trans (by omega) (inductionHypothesis _)

/-- Digits of a number that sixty-four bits hold are absorbed to the last one. -/
theorem absorb_digits
    (digits : List Char) {n : Nat}
    (fits : Nat.ofDigitChars 10 digits n < Decimal.significandBound) :
    Decimal.absorb n (digits.map digitValue) = (Nat.ofDigitChars 10 digits n, 0) := by
  induction digits generalizing n with
  | nil => rfl
  | cons c digits inductionHypothesis =>
      rw [Nat.ofDigitChars_cons, Nat.mul_comm] at fits ⊢
      have here : n * 10 + digitValue c < Decimal.significandBound :=
        Nat.lt_of_le_of_lt (le_ofDigitChars digits _) fits
      rw [List.map_cons, Decimal.absorb, if_pos here]
      exact inductionHypothesis fits

theorem head?_toDigits {n : Nat} (positive : 0 < n) : (Nat.toDigits 10 n).head? ≠ some '0' := by
  induction n using Nat.strongRecOn with
  | _ n inductionHypothesis =>
      rw [Nat.toDigits_eq_if (by decide)]
      split
      · next small =>
          have different : ∀ d < 10, 0 < d → Nat.digitChar d ≠ '0' := by decide
          simpa using different n small positive
      · next great =>
          obtain ⟨c, digits, isDigits⟩ := List.exists_cons_of_ne_nil
            (Nat.toDigits_ne_nil (b := 10) (n := n / 10))
          have first := inductionHypothesis (n / 10) (by omega) (by omega)
          rw [isDigits] at first ⊢
          exact first

/-- The rest of a number ends it. -/
theorem readFraction_of_stops (numeral : Numeral) {rest : List Char} (stops : Stops rest) :
    readFraction numeral rest = numeral.finish rest := by
  cases rest with
  | nil => rfl
  | cons c rest =>
      obtain ⟨-, notPoint, notExponent, notExponent'⟩ := stops c rfl
      simp [readFraction, readScale, notPoint, notExponent, notExponent']

/-- The digits of a number are taken whole. -/
theorem digits_of_stops {rest : List Char} (stops : Stops rest) :
    rest.takeWhile Char.isDigit = [] ∧ rest.dropWhile Char.isDigit = rest := by
  cases rest with
  | nil => exact ⟨rfl, rfl⟩
  | cons c rest =>
      have notDigit := (stops c rfl).1
      simp [notDigit]

theorem readNumber_of_digits
    (negative : Bool) {c : Char} {digits rest : List Char}
    (isDigit : ∀ d ∈ c :: digits, d.isDigit = true) (notZero : c = '0' → digits = [])
    (stops : Stops rest) :
    readNumber negative (c :: digits ++ rest) =
      Numeral.finish ⟨negative, (c :: digits).map digitValue, none, none⟩ rest := by
  by_cases isZero : c = '0'
  · obtain rfl := notZero isZero
    subst isZero
    cases rest with
    | nil => rfl
    | cons d rest =>
        have notDigit := (stops d rfl).1
        simp only [List.cons_append, List.nil_append, readNumber, if_true, notDigit]
        exact readFraction_of_stops _ stops
  · obtain ⟨none, all⟩ := digits_of_stops stops
    have taken : (c :: (digits ++ rest)).takeWhile Char.isDigit = c :: digits := by
      rw [← List.cons_append, List.takeWhile_append_of_pos isDigit, none, List.append_nil]
    have dropped : (c :: (digits ++ rest)).dropWhile Char.isDigit = rest := by
      rw [← List.cons_append, List.dropWhile_append_of_pos isDigit, all]
    unfold readNumber
    simp only [List.cons_append, if_neg isZero, isDigit c List.mem_cons_self, if_true, taken,
      dropped]
    exact readFraction_of_stops _ stops

/-- The numeral of a number is read as its digits, whatever they make. -/
theorem readNumber_of_numeral
    (negative : Bool) {n : Nat} (fits : n < Decimal.significandBound) {rest : List Char}
    (stops : Stops rest) :
    ∃ digits, Decimal.absorb 0 digits = (n, 0) ∧
      readNumber negative (Nat.toDigits 10 n ++ rest) =
        Numeral.finish ⟨negative, digits, none, none⟩ rest := by
  obtain ⟨c, digits, isDigits⟩ :=
    List.exists_cons_of_ne_nil (Nat.toDigits_ne_nil (b := 10) (n := n))
  have isDigit : ∀ d ∈ c :: digits, d.isDigit = true := fun d member =>
    Nat.isDigit_of_mem_toDigits (b := 10) (n := n) (by decide) (by decide) (isDigits ▸ member)
  have denotes : Nat.ofDigitChars 10 (Nat.toDigits 10 n) 0 = n := Nat.ofDigitChars_ten_toDigits
  have notZero : c = '0' → digits = [] := by
    intro isZero
    rcases Nat.eq_zero_or_pos n with rfl | positive
    · exact (List.cons.inj isDigits).2.symm
    · have first := head?_toDigits positive
      rw [isDigits, isZero] at first
      exact absurd rfl first
  refine ⟨(Nat.toDigits 10 n).map digitValue, ?_, ?_⟩
  · rw [absorb_digits _ (by rwa [denotes]), denotes]
  · rw [isDigits]
    exact readNumber_of_digits negative isDigit notZero stops

/-- A whole number is read from its numeral, behind the sign if it has one. -/
theorem readNumber_of_nat
    {n : Nat} (inRange : n < 0x10000000000000000) {rest : List Char} (stops : Stops rest) :
    readNumber false (Nat.toDigits 10 n ++ rest) = .ok (.int n, rest) := by
  obtain ⟨digits, absorbed, read⟩ := readNumber_of_numeral false inRange stops
  simp [read, Numeral.finish, Numeral.value?, absorbed]

theorem readNumber_of_negative
    {n : Nat} (inRange : n + 1 ≤ 0x8000000000000000) {rest : List Char} (stops : Stops rest) :
    readNumber true (Nat.toDigits 10 (n + 1) ++ rest) = .ok (.int (.negSucc n), rest) := by
  have fits : n + 1 < Decimal.significandBound := by unfold Decimal.significandBound; omega
  obtain ⟨digits, absorbed, read⟩ := readNumber_of_numeral true fits stops
  simp [read, Numeral.finish, Numeral.value?, absorbed, inRange, Int.negSucc_eq]

/-! ## Space -/

theorem skipSpace_append {space : List Char} (isSpace : IsSpace space) (cs : List Char) :
    skipSpace (space ++ cs) = skipSpace cs :=
  List.dropWhile_append_of_pos isSpace

theorem skipSpace_cons {c : Char} (notSpace : isSpace c = false) (cs : List Char) :
    skipSpace (c :: cs) = c :: cs :=
  List.dropWhile_cons_of_neg (by simp [notSpace])

theorem skipSpace_mark {space : List Char} (isSpace : IsSpace space) {c : Char}
    (notSpace : Json.isSpace c = false) (cs : List Char) :
    skipSpace (space ++ c :: cs) = c :: cs := by
  rw [skipSpace_append isSpace, skipSpace_cons notSpace]

theorem stops_of_isSpace {c : Char} (blank : isSpace c = true) (cs : List Char) :
    Stops (c :: cs) := by
  intro d first
  obtain rfl := Option.some.inj first
  simp only [isSpace, Bool.or_eq_true, beq_iff_eq] at blank
  rcases blank with ((rfl | rfl) | rfl) | rfl <;> decide

/-- Space ends a number as well as the mark behind it. -/
theorem stops_append {space rest : List Char} (isSpace : IsSpace space) (stops : Stops rest) :
    Stops (space ++ rest) := by
  cases space with
  | nil => exact stops
  | cons c space => exact stops_of_isSpace (isSpace c List.mem_cons_self) _

theorem stops_mark {c : Char} (mark : c = ',' ∨ c = ']' ∨ c = '}') (cs : List Char) :
    Stops (c :: cs) := by
  intro d first
  obtain rfl := Option.some.inj first
  rcases mark with rfl | rfl | rfl <;> decide

/-! ## Lists in brackets -/

/-- A value starts with neither space nor the end of an array. -/
def StartsValue (t : List Char) : Prop :=
  ∃ c cs, t = c :: cs ∧ isSpace c = false ∧ c ≠ ']'

section Lists

variable {α : Type} {spells : List Char → α → Prop}

theorem StartsValue.append {t : List Char} (starts : StartsValue t) (cs : List Char) :
    StartsValue (t ++ cs) := by
  obtain ⟨c, t, rfl, notSpace, notEnd⟩ := starts
  exact ⟨c, t ++ cs, rfl, notSpace, notEnd⟩

theorem SpellsItems.startsValue
    (starts : ∀ t a, spells t a → StartsValue t) {ts : List Char} {as : List α}
    (items : SpellsItems spells ts as) : StartsValue ts := by
  cases items with
  | one only => exact starts _ _ only
  | cons first _ _ _ => exact (starts _ _ first).append _

theorem SpellsList.startsValue
    {opening closing : Char} {t : List Char} {as : List α}
    (spelled : SpellsList spells opening closing t as) (notSpace : isSpace opening = false)
    (notEnd : opening ≠ ']') : StartsValue t := by
  cases spelled with
  | empty _ => exact ⟨_, _, rfl, notSpace, notEnd⟩
  | items _ _ _ => exact ⟨_, _, rfl, notSpace, notEnd⟩

theorem StartsValue.nonempty {t : List Char} (starts : StartsValue t) : t ≠ [] := by
  obtain ⟨c, cs, rfl, -⟩ := starts
  exact List.cons_ne_nil c cs

theorem SpellsItems.length_le
    (nonempty : ∀ t a, spells t a → t ≠ []) {ts : List Char} {as : List α}
    (items : SpellsItems spells ts as) : as.length ≤ ts.length := by
  induction items with
  | one only => exact List.length_pos_iff.mpr (nonempty _ _ only)
  | cons first _ _ _ inductionHypothesis =>
      simp only [List.length_append, List.length_cons]
      omega

/-- A round behind a comma takes one item. -/
theorem readItems_comma
    {item : List Char → Reading Value} {space space' : List Char} (isSpace : IsSpace space)
    (isSpace' : IsSpace space') {t : List Char} (starts : StartsValue t) {value : Value}
    {after : List Char} (read : item t = .ok (value, after)) (bound : Nat)
    (itemsRev : List Value) :
    readItems item (bound + 1) itemsRev (space ++ ',' :: (space' ++ t)) =
      readItems item bound (value :: itemsRev) after := by
  obtain ⟨c, cs, rfl, notSpace, notEnd⟩ := starts
  simp only [readItems, skipSpace_mark isSpace (by decide : Json.isSpace ',' = false),
    skipSpace_mark isSpace' notSpace]
  split
  · contradiction
  · next same => exact absurd (List.cons.inj same).1 notEnd
  · rw [read]

theorem readItems_end
    (item : List Char → Reading Value) {space : List Char} (isSpace : IsSpace space) (bound : Nat)
    (itemsRev : List Value) (rest : List Char) :
    readItems item (bound + 1) itemsRev (space ++ ']' :: rest) =
      .ok (.array itemsRev.reverse, rest) := by
  simp only [readItems, skipSpace_mark isSpace (by decide : Json.isSpace ']' = false)]

/-- The items of an array are read in rounds: one by one, then the end. -/
theorem readItems_of_spells
    {spells : List Char → Value → Prop} {item : List Char → Reading Value}
    (starts : ∀ t value, spells t value → StartsValue t)
    (reads : ∀ t value, spells t value → ReadsAs item t value)
    {ts space : List Char} {items : List Value} (spelled : SpellsItems spells ts items)
    (isSpace : IsSpace space) (rest : List Char) (itemsRev : List Value) :
    ∃ value after, item (ts ++ (space ++ ']' :: rest)) = .ok (value, after) ∧
      items.length ≤ after.length + 1 ∧
      ∀ bound, items.length ≤ bound →
        readItems item bound (value :: itemsRev) after =
          .ok (.array (itemsRev.reverse ++ items), rest) := by
  induction spelled generalizing itemsRev with
  | @one t value only =>
      have stops := stops_append isSpace (stops_mark (.inr (.inl rfl)) rest)
      refine ⟨value, _, reads t value only _ stops, by simp, fun bound enough => ?_⟩
      obtain ⟨bound, rfl⟩ := Nat.exists_eq_add_one.mpr enough
      rw [readItems_end item isSpace]
      simp
  | @cons t space' space'' ts value items first isSpace' isSpace'' later inductionHypothesis =>
      obtain ⟨next, after, read, enough, goesOn⟩ := inductionHypothesis (value :: itemsRev)
      have stops := stops_append isSpace'
        (stops_mark (.inl rfl) (space'' ++ (ts ++ (space ++ ']' :: rest))))
      have few := later.length_le fun t value spelled => (starts t value spelled).nonempty
      have startsNext := (later.startsValue starts).append (space ++ ']' :: rest)
      refine ⟨value, _, by simpa using reads t value first _ stops, ?_, fun bound isBound => ?_⟩
      · simp only [List.length_append, List.length_cons]
        omega
      · obtain ⟨bound, rfl⟩ := Nat.exists_eq_add_one.mpr (Nat.lt_of_lt_of_le (by simp) isBound)
        rw [readItems_comma isSpace' isSpace'' startsNext read,
          goesOn bound (by simpa using isBound)]
        simp

theorem readArray_of_spells
    {spells : List Char → Value → Prop} {item : List Char → Reading Value}
    (starts : ∀ t value, spells t value → StartsValue t)
    (reads : ∀ t value, spells t value → ReadsAs item t value)
    {t : List Char} {items : List Value} (spelled : SpellsList spells '[' ']' t items)
    (rest : List Char) :
    ∃ inside, t ++ rest = '[' :: inside ∧ readArray item inside = .ok (.array items, rest) := by
  cases spelled with
  | @empty space isSpace =>
      refine ⟨space ++ ']' :: rest, by simp, ?_⟩
      simp only [readArray, skipSpace_mark isSpace (by decide : Json.isSpace ']' = false)]
  | @items space ts space' items isSpace spelled isSpace' =>
      refine ⟨space ++ (ts ++ (space' ++ ']' :: rest)), by simp, ?_⟩
      obtain ⟨value, after, read, enough, goesOn⟩ :=
        readItems_of_spells starts reads spelled isSpace' rest []
      obtain ⟨c, cs, isFirst, notSpace, notEnd⟩ :=
        (spelled.startsValue starts).append (space' ++ ']' :: rest)
      rw [isFirst] at read ⊢
      simp only [readArray, skipSpace_mark isSpace notSpace]
      split
      · contradiction
      · next same => exact absurd (List.cons.inj same).1 notEnd
      · rw [read]
        exact goesOn _ enough

/-! ## Objects -/

theorem readMember_of_spells
    {item : List Char → Reading α} (starts : ∀ t a, spells t a → StartsValue t)
    (reads : ∀ t a, spells t a → ReadsAs item t a) {t : List Char} {member : String × α}
    (spelled : SpellsMember spells t member) {rest : List Char} (stops : Stops rest) :
    ∃ inside, t ++ rest = '"' :: inside ∧ readMember item inside = .ok (member, rest) := by
  cases spelled with
  | @mk t space space' ts name a named isSpace isSpace' holds =>
      obtain ⟨inside, whole, readName⟩ := named.read (space ++ ':' :: (space' ++ (ts ++ rest)))
      refine ⟨inside, by simpa using whole, ?_⟩
      obtain ⟨c, cs, isFirst, notSpace, -⟩ := (starts ts a holds).append rest
      have read := reads ts a holds rest stops
      rw [isFirst] at read readName
      simp only [readMember, readName,
        skipSpace_mark isSpace (by decide : Json.isSpace ':' = false),
        skipSpace_mark isSpace' notSpace, read]

theorem readMembers_comma
    {item : List Char → Reading α} {space space' : List Char} (isSpace : IsSpace space)
    (isSpace' : IsSpace space') {inside after : List Char} {member : String × α}
    (read : readMember item inside = .ok (member, after)) (bound : Nat)
    (members : List (String × α)) :
    readMembers item (bound + 1) members (space ++ ',' :: (space' ++ '"' :: inside)) =
      readMembers item bound (insertEntry member.1 member.2 members) after := by
  simp only [readMembers, skipSpace_mark isSpace (by decide : Json.isSpace ',' = false),
    skipSpace_mark isSpace' (by decide : Json.isSpace '"' = false), read]

theorem readMembers_end
    (item : List Char → Reading α) {space : List Char} (isSpace : IsSpace space) (bound : Nat)
    (members : List (String × α)) (rest : List Char) :
    readMembers item (bound + 1) members (space ++ '}' :: rest) = .ok (members, rest) := by
  simp only [readMembers, skipSpace_mark isSpace (by decide : Json.isSpace '}' = false)]

theorem SpellsMember.nonempty {t : List Char} {member : String × α}
    (spelled : SpellsMember spells t member) : t ≠ [] := by
  cases spelled with
  | mk named _ _ _ =>
      obtain ⟨inside, rfl, -⟩ := named
      exact List.cons_ne_nil _ _

/-- The members of an object are read in rounds, too, each inserted among those before. -/
theorem readMembers_of_spells
    {item : List Char → Reading α} (starts : ∀ t a, spells t a → StartsValue t)
    (reads : ∀ t a, spells t a → ReadsAs item t a) {ts space : List Char}
    {members : List (String × α)} (spelled : SpellsItems (SpellsMember spells) ts members)
    (isSpace : IsSpace space) (rest : List Char) (d : Dictionary α) :
    ∃ inside member after, ts ++ (space ++ '}' :: rest) = '"' :: inside ∧
      readMember item inside = .ok (member, after) ∧ members.length ≤ after.length + 1 ∧
      ∀ bound, members.length ≤ bound →
        readMembers item bound (d.insert member.1 member.2).entries after =
          .ok ((d.insertAll members).entries, rest) := by
  induction spelled generalizing d with
  | @one t member only =>
      have stops := stops_append isSpace (stops_mark (.inr (.inr rfl)) rest)
      obtain ⟨inside, whole, read⟩ := readMember_of_spells starts reads only stops
      refine ⟨inside, member, _, whole, read, by simp, fun bound enough => ?_⟩
      obtain ⟨bound, rfl⟩ := Nat.exists_eq_add_one.mpr enough
      rw [readMembers_end item isSpace]
      rfl
  | @cons t space' space'' ts member members first isSpace' isSpace'' later inductionHypothesis =>
      obtain ⟨inside, next, after, whole, read, enough, goesOn⟩ :=
        inductionHypothesis (d.insert member.1 member.2)
      have stops := stops_append isSpace'
        (stops_mark (.inl rfl) (space'' ++ (ts ++ (space ++ '}' :: rest))))
      obtain ⟨inside', whole', read'⟩ := readMember_of_spells starts reads first stops
      have few := later.length_le fun t member spelled => spelled.nonempty
      refine ⟨inside', member, _, by simpa using whole', read', ?_, fun bound isBound => ?_⟩
      · simp only [List.length_append, List.length_cons]
        omega
      · obtain ⟨bound, rfl⟩ := Nat.exists_eq_add_one.mpr (Nat.lt_of_lt_of_le (by simp) isBound)
        rw [whole, readMembers_comma isSpace' isSpace'' read]
        exact goesOn bound (by simpa using isBound)

theorem readObject_of_spells
    {item : List Char → Reading α} (starts : ∀ t a, spells t a → StartsValue t)
    (reads : ∀ t a, spells t a → ReadsAs item t a) {t : List Char} {members : List (String × α)}
    (spelled : SpellsMembers spells t members) (rest : List Char) :
    ∃ inside, t ++ rest = '{' :: inside ∧
      readObject item inside = .ok ((Dictionary.ofList members).entries, rest) := by
  cases spelled with
  | @empty space isSpace =>
      refine ⟨space ++ '}' :: rest, by simp, ?_⟩
      simp only [readObject, skipSpace_mark isSpace (by decide : Json.isSpace '}' = false)]
      rfl
  | @items space ts space' members isSpace spelled isSpace' =>
      refine ⟨space ++ (ts ++ (space' ++ '}' :: rest)), by simp, ?_⟩
      obtain ⟨inside, member, after, whole, read, enough, goesOn⟩ :=
        readMembers_of_spells starts reads spelled isSpace' rest ∅
      rw [whole]
      simp only [readObject, skipSpace_mark isSpace (by decide : Json.isSpace '"' = false), read]
      exact goesOn _ enough

end Lists

/-! ## Values -/

theorem numeral_toList (n : Nat) : (Text.numeral n).toList = Nat.toDigits 10 n :=
  String.toList_ofList

theorem numeral_starts_digit (n : Nat) :
    ∃ c digits, (Text.numeral n).toList = c :: digits ∧ c.isDigit = true := by
  rw [numeral_toList]
  obtain ⟨c, digits, isDigits⟩ :=
    List.exists_cons_of_ne_nil (Nat.toDigits_ne_nil (b := 10) (n := n))
  refine ⟨c, digits, isDigits, ?_⟩
  exact Nat.isDigit_of_mem_toDigits (b := 10) (n := n) (by decide) (by decide)
    (isDigits ▸ List.mem_cons_self)

/-- A digit is none of the marks that other values start with. -/
theorem readScalar?_of_isDigit {c : Char} (isDigit : c.isDigit = true) (cs : List Char) :
    readScalar? (c :: cs) = some (readNumber false (c :: cs)) := by
  unfold readScalar?
  split <;> simp_all

theorem startsValue_of_isDigit {c : Char} (isDigit : c.isDigit = true) (cs : List Char) :
    StartsValue (c :: cs) := by
  refine ⟨c, cs, rfl, ?_, ?_⟩
  · cases blank : isSpace c with
    | false => rfl
    | true => exact absurd isDigit (by simp [(stops_of_isSpace blank [] c rfl).1])
  · rintro rfl
    exact absurd isDigit (by decide)

/-- A scalar is read as such, and starts like one. -/
theorem SpellsScalar.read
    {t : List Char} {value : Value} (spelled : SpellsScalar t value) :
    StartsValue t ∧ ∀ rest, Stops rest → readScalar? (t ++ rest) = some (.ok (value, rest)) := by
  cases spelled with
  | null => exact ⟨⟨_, _, rfl, by decide⟩, fun rest _ => rfl⟩
  | true => exact ⟨⟨_, _, rfl, by decide⟩, fun rest _ => rfl⟩
  | false => exact ⟨⟨_, _, rfl, by decide⟩, fun rest _ => rfl⟩
  | string isString =>
      constructor
      · obtain ⟨inside, rfl, -⟩ := isString
        exact ⟨_, _, rfl, by decide⟩
      · intro rest _
        obtain ⟨inside, whole, read⟩ := isString.read rest
        simp only [whole, readScalar?, read, Except.map]
  | @int n inRange =>
      cases n with
      | ofNat n =>
          have fits : n < 0x10000000000000000 := Int.ofNat_lt.mp inRange.2
          obtain ⟨c, digits, isDigits, isDigit⟩ := numeral_starts_digit n
          have numeral : (Text.signedNumeral (.ofNat n)).toList = c :: digits := isDigits
          rw [numeral]
          refine ⟨startsValue_of_isDigit isDigit digits, fun rest stops => ?_⟩
          have read := readNumber_of_nat fits stops
          rw [← numeral_toList, isDigits] at read
          rw [List.cons_append, readScalar?_of_isDigit isDigit, ← List.cons_append, read]
          rfl
      | negSucc n =>
          have fits : n + 1 ≤ 0x8000000000000000 := by
            have lower := inRange.1
            omega
          have numeral : (Text.signedNumeral (.negSucc n)).toList =
              '-' :: Nat.toDigits 10 (n + 1) := by
            rw [Text.signedNumeral, String.toList_append, numeral_toList]
            rfl
          rw [numeral]
          refine ⟨⟨_, _, rfl, by decide⟩, fun rest stops => ?_⟩
          rw [List.cons_append, readScalar?, readNumber_of_negative fits stops]

/-- Brackets begin no scalar. -/
theorem readScalar?_array (cs : List Char) : readScalar? ('[' :: cs) = none := rfl

theorem readScalar?_object (cs : List Char) : readScalar? ('{' :: cs) = none := rfl

theorem readValue_of_spells (nesting : Nat) :
    ∀ t value, Spells nesting t value → StartsValue t ∧ ReadsAs (readValue nesting) t value := by
  have scalar {nesting : Nat} {t : List Char} {value : Value} (spelled : SpellsScalar t value) :
      StartsValue t ∧ ReadsAs (readValue nesting) t value := by
    refine ⟨spelled.read.1, fun rest stops => ?_⟩
    unfold readValue
    rw [spelled.read.2 rest stops]
  induction nesting with
  | zero => exact fun t value => scalar
  | succ nesting inductionHypothesis =>
      have starts := fun t value spelled => (inductionHypothesis t value spelled).1
      have reads := fun t value spelled => (inductionHypothesis t value spelled).2
      rintro t value (spelled | ⟨items, rfl, spelled⟩ | ⟨members, rfl, spelled⟩)
      · exact scalar spelled
      · refine ⟨spelled.startsValue (by decide) (by decide), fun rest _ => ?_⟩
        obtain ⟨inside, whole, read⟩ := readArray_of_spells starts reads spelled rest
        rw [whole, readValue, readScalar?_array]
        exact read
      · refine ⟨spelled.startsValue (by decide) (by decide), fun rest _ => ?_⟩
        obtain ⟨inside, whole, read⟩ := readObject_of_spells starts reads spelled rest
        rw [whole, readValue, readScalar?_object, ofMembers_eq_entries]
        show (readObject (readValue nesting) inside).map _ = _
        rw [read]
        rfl

/-! ## Documents -/

theorem skipSpace_of_isSpace {space : List Char} (isSpace : IsSpace space) :
    skipSpace space = [] := by
  rw [← List.append_nil space, skipSpace_append isSpace]
  rfl

theorem stops_of_onlySpace {space : List Char} (isSpace : IsSpace space) : Stops space := by
  rw [← List.append_nil space]
  exact stops_append isSpace nofun

/-- Space around what a document holds is passed over. -/
theorem finishDocument_of_spells
    {α β : Type} {spells : List Char → α → Prop} {reader : List Char → Reading β} {f : α → β}
    (starts : ∀ t a, spells t a → StartsValue t)
    (reads : ∀ t a, spells t a → ReadsAs reader t (f a)) {text : String} {a : α}
    (spelled : SpellsDocument spells text a) :
    finishDocument (reader (skipSpace text.toList)) = .ok (f a) := by
  cases spelled with
  | @mk front t back a isSpace holds isSpace' whole =>
      obtain ⟨c, cs, isFirst, notSpace, -⟩ := (starts t a holds).append back
      have read := reads t a holds back (stops_of_onlySpace isSpace')
      rw [isFirst] at whole read
      rw [whole, skipSpace_mark isSpace notSpace, read]
      simp only [finishDocument, skipSpace_of_isSpace isSpace']

/-- A document is read as the value that it spells. -/
theorem readDocument_of_isDocument
    {text : String} {value : Value} (isDocument : IsDocument text value) :
    readDocument text = .ok value :=
  finishDocument_of_spells (f := id)
    (fun t value spelled => (readValue_of_spells nestingBound t value spelled).1)
    (fun t value spelled => (readValue_of_spells nestingBound t value spelled).2) isDocument

theorem SpellsString.reads
    {t : List Char} {s : String} (spelled : SpellsString t s) :
    StartsValue t ∧ ReadsAs readText t s := by
  constructor
  · obtain ⟨inside, rfl, -⟩ := spelled
    exact ⟨_, _, rfl, by decide⟩
  · intro rest _
    obtain ⟨inside, whole, read⟩ := spelled.read rest
    rw [whole]
    exact read

/-- Of several texts under one name the last one counts. -/
theorem readTexts_of_isTexts
    {text : String} {pairs : List (String × String)} (isTexts : IsTexts text pairs) :
    readTexts text = .ok (.ofList pairs) := by
  have starts (t : List Char) (s : String) (spelled : SpellsString t s) := spelled.reads.1
  have reads (t : List Char) (s : String) (spelled : SpellsString t s) := spelled.reads.2
  have members (t : List Char) (pairs : List (String × String))
      (spelled : SpellsMembers SpellsString t pairs) :
      StartsValue t ∧ ReadsAs readTextMembers t (.ofList pairs) := by
    refine ⟨spelled.startsValue (by decide) (by decide), fun rest _ => ?_⟩
    obtain ⟨inside, whole, read⟩ := readObject_of_spells starts reads spelled rest
    rw [whole, readTextMembers, read]
    show Except.ok (Dictionary.ofList (Dictionary.ofList pairs).entries, rest) = _
    rw [Dictionary.ofList_entries]
  exact finishDocument_of_spells (fun t pairs spelled => (members t pairs spelled).1)
    (fun t pairs spelled => (members t pairs spelled).2) isTexts

end Gherkin.Json
