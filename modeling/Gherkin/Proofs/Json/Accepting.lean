import Gherkin.Proofs.Json.Reading

/-!
Contract: the readers accept no other texts than those of the grammar.

Owns: that a string, an object with members of one form and a document of texts are read
only from texts that spell them.
Does not own: values of any form. A number may be read from a text outside the grammar.
Main statement: `readTexts_eq_ok_iff`.
-/

set_option autoImplicit false

namespace Gherkin.Json

/-- What is taken from the front spells what is read. -/
def TakesOnly {α : Type} (reader : List Char → Reading α) (spells : List Char → α → Prop) :
    Prop :=
  ∀ cs a rest, reader cs = .ok (a, rest) → ∃ t, cs = t ++ rest ∧ spells t a

/-! ## Escapes -/

/-- A digit has one byte. -/
theorem hexValue?_isDigit {c : Char} {n : Nat} (value : Text.hexValue? c = some n) :
    n < 16 ∧ c.utf8Size = 1 := by
  rw [Char.utf8Size_eq_one_iff, UInt32.le_iff_toNat_le]
  simp only [Text.hexValue?, Char.le_def, UInt32.le_iff_toNat_le] at value
  have same : c.toNat = c.val.toNat := rfl
  split at value
  · next decimal =>
      obtain rfl := Option.some.inj value
      simp_all
      omega
  · split at value
    · next lower =>
        obtain rfl := Option.some.inj value
        simp_all
        omega
    · split at value
      · next upper =>
          obtain rfl := Option.some.inj value
          simp_all
          omega
      · cases value

/-- A number of so many digits is bounded, and each of the digits has one byte. -/
theorem numberIn?_isNumber {digits : List Char} {n : Nat}
    (number : Text.numberIn? 16 digits = some n) :
    n < Nat.pow 16 digits.length ∧ byteCount digits = digits.length := by
  have digitwise (digits : List Char) (acc : Option Nat) :
      digits.foldl (fun acc c => acc.bind fun n =>
        ((Text.hexValue? c).filter (· < 16)).map (16 * n + ·)) acc = some n →
      ∃ a, acc = some a ∧ n < (a + 1) * 16 ^ digits.length ∧
        byteCount digits = digits.length := by
    induction digits generalizing acc with
    | nil =>
        intro same
        exact ⟨n, same, by simp, rfl⟩
    | cons c digits inductionHypothesis =>
        intro folded
        obtain ⟨b, next, bounded, bytes⟩ := inductionHypothesis _ folded
        obtain ⟨a, rfl, next⟩ := Option.bind_eq_some_iff.mp next
        obtain ⟨value, digit, rfl⟩ := Option.map_eq_some_iff.mp next
        obtain ⟨small, size⟩ := hexValue?_isDigit (Option.filter_eq_some_iff.mp digit).1
        refine ⟨a, rfl, ?_, ?_⟩
        · calc n < (16 * a + value + 1) * 16 ^ digits.length := bounded
            _ ≤ (a + 1) * 16 * 16 ^ digits.length := Nat.mul_le_mul_right _ (by omega)
            _ = (a + 1) * 16 ^ (c :: digits).length := by
              rw [List.length_cons, Nat.pow_succ', Nat.mul_assoc]
        · rw [byteCount, List.length_cons, size, bytes, Nat.add_comm]
  obtain ⟨a, zero, bounded, bytes⟩ := digitwise digits (some 0) number
  obtain rfl := Option.some.inj zero
  exact ⟨by simpa using bounded, bytes⟩

theorem readUnit_takesOnly : TakesOnly readUnit IsUnit := by
  intro cs unit rest read
  simp only [readUnit] at read
  split at read
  · cases read
  · next enough =>
      split at read
      · next unit' denotes =>
          obtain ⟨rfl, rfl⟩ := Prod.mk.inj (Except.ok.inj read)
          refine ⟨cs.take 4, (List.take_append_drop 4 cs).symm, ?_, denotes⟩
          have bytes := (numberIn?_isNumber denotes).2
          have atMost := List.length_take_le 4 cs
          omega
      · cases read

theorem IsUnit.lt {digits : List Char} {unit : Nat} (isUnit : IsUnit digits unit) :
    unit < 0x10000 := by
  have bounded := (numberIn?_isNumber isUnit.denotes).1
  rwa [isUnit.length_eq] at bounded

/-- The second code unit of a pair, behind its escape. -/
theorem readPaired_takesOnly (high : Nat) :
    TakesOnly (readPaired high) fun t c => ∃ digits low, t = '\\' :: 'u' :: digits ∧
      IsUnit digits low ∧ (0xdc00 ≤ low ∧ low ≤ 0xdfff) ∧
      c = Char.ofNat (0x10000 + (high - 0xd800) * 0x400 + (low - 0xdc00)) := by
  intro cs c rest read
  unfold readPaired at read
  split at read
  · next cs =>
      split at read
      · cases read
      · next low behind readLow =>
          split at read
          · next isLow =>
              obtain ⟨rfl, rfl⟩ := Prod.mk.inj (Except.ok.inj read)
              obtain ⟨digits, rfl, isUnit⟩ := readUnit_takesOnly cs low _ readLow
              exact ⟨_, rfl, digits, low, rfl, isUnit, isLow, rfl⟩
          · cases read
  all_goals cases read

theorem readUnicode_takesOnly :
    TakesOnly readUnicode fun t c => SpellsChar ('\\' :: 'u' :: t) c := by
  intro cs c rest read
  unfold readUnicode at read
  split at read
  · cases read
  · next unit behind readFirst =>
      obtain ⟨digits, rfl, isUnit⟩ := readUnit_takesOnly cs unit behind readFirst
      split at read
      · cases read
      · next notLow =>
          split at read
          · next isHigh =>
              obtain ⟨t, rfl, digits', low, rfl, isUnit', isLow, isPair⟩ :=
                readPaired_takesOnly unit behind c rest read
              refine ⟨digits ++ '\\' :: 'u' :: digits', by rw [List.append_assoc], ?_⟩
              have pair := SpellsChar.pair isUnit isUnit' isHigh isLow
              rwa [← isPair] at pair
          · next notHigh =>
              obtain ⟨rfl, rfl⟩ := Prod.mk.inj (Except.ok.inj read)
              have small := isUnit.lt
              have valid : unit.isValidChar := by
                rw [Nat.isValidChar]
                omega
              have same : (Char.ofNat unit).toNat = unit := by
                rw [Char.ofNat, dif_pos valid]
                rfl
              exact ⟨digits, rfl, .unit (same.symm ▸ isUnit)⟩

theorem mem_escapes {letter c : Char} (escaped : escaped? letter = some c) :
    (letter, c) ∈ escapes := by
  unfold escaped? at escaped
  split at escaped
  · next itself =>
      obtain rfl := Option.some.inj escaped
      rcases itself with rfl | rfl | rfl <;> decide
  · iterate 5
      split at escaped
      · next same =>
          obtain rfl := Option.some.inj escaped
          subst same
          decide
    cases escaped

theorem readEscape_takesOnly : TakesOnly readEscape fun t c => SpellsChar ('\\' :: t) c := by
  intro cs c rest read
  unfold readEscape at read
  split at read
  · cases read
  · next cs =>
      obtain ⟨t, rfl, spelled⟩ := readUnicode_takesOnly cs c rest read
      exact ⟨'u' :: t, rfl, spelled⟩
  · next letter cs _ =>
      split at read
      · next char escaped =>
          obtain ⟨rfl, rfl⟩ := Prod.mk.inj (Except.ok.inj read)
          exact ⟨[letter], rfl, .letter (mem_escapes escaped)⟩
      · cases read

/-! ## Strings -/

/-- The characters up to the closing quote, behind those already read. -/
theorem spells_of_readChars
    {bound : Nat} {readRev cs rest : List Char} {s : String}
    (read : readChars bound readRev cs = .ok (s, rest)) :
    ∃ inside later, cs = inside ++ '"' :: rest ∧
      s = String.ofList (readRev.reverse ++ later) ∧ SpellsChars inside later := by
  induction bound generalizing readRev cs with
  | zero => cases read
  | succ bound inductionHypothesis =>
      have goesOn {t behind : List Char} {c : Char} (spelled : SpellsChar t c)
          (whole : cs = t ++ behind)
          (read : readChars bound (c :: readRev) behind = .ok (s, rest)) :
          ∃ inside later, cs = inside ++ '"' :: rest ∧
            s = String.ofList (readRev.reverse ++ later) ∧ SpellsChars inside later := by
        obtain ⟨inside, later, rfl, isString, spelledLater⟩ := inductionHypothesis read
        refine ⟨t ++ inside, c :: later, ?_, ?_, .cons spelled spelledLater⟩
        · rw [whole, List.append_assoc]
        · rw [isString, List.reverse_cons, List.append_assoc, List.singleton_append]
      cases cs with
      | nil => cases read
      | cons c cs =>
          simp only [readChars] at read
          split at read
          · next isQuote =>
              obtain ⟨rfl, rfl⟩ := Prod.mk.inj (Except.ok.inj read)
              exact ⟨[], [], by rw [isQuote]; rfl, by rw [List.append_nil], .nil⟩
          · next notQuote =>
              split at read
              · next isBackslash =>
                  split at read
                  · cases read
                  · next char behind readEscaped =>
                      obtain ⟨t, rfl, spelled⟩ := readEscape_takesOnly cs char behind readEscaped
                      exact goesOn spelled (by rw [isBackslash]; rfl) read
              · next notBackslash =>
                  split at read
                  · cases read
                  · next notControl =>
                      exact goesOn (.plain notQuote notBackslash notControl) rfl read

/-- A string behind its opening quote. -/
theorem readString_takesOnly : TakesOnly readString fun t s => SpellsString ('"' :: t) s := by
  intro cs s rest read
  obtain ⟨inside, later, rfl, rfl, spelled⟩ := spells_of_readChars read
  exact ⟨inside ++ ['"'], by simp, inside, rfl, by simpa using spelled⟩

/-! ## Objects -/

theorem skipSpace_split (cs : List Char) : ∃ space, IsSpace space ∧ cs = space ++ skipSpace cs :=
  ⟨cs.takeWhile isSpace, fun _ member => List.mem_takeWhile_imp member,
    List.takeWhile_append_dropWhile.symm⟩

section Objects

variable {α : Type} {item : List Char → Reading α} {spells : List Char → α → Prop}

/-- A member behind the opening quote of its name. -/
theorem readMember_takesOnly (takesOnly : TakesOnly item spells) :
    TakesOnly (readMember item) fun t member => SpellsMember spells ('"' :: t) member := by
  intro cs member rest read
  unfold readMember at read
  split at read
  · cases read
  · next name behind readName =>
      obtain ⟨t, rfl, named⟩ := readString_takesOnly cs name behind readName
      obtain ⟨space, isSpace, whole⟩ := skipSpace_split behind
      split at read
      · cases read
      · next afterColon isColon =>
          obtain ⟨space', isSpace', whole'⟩ := skipSpace_split afterColon
          split at read
          · cases read
          · next value rest' readValue =>
              obtain ⟨rfl, rfl⟩ := Prod.mk.inj (Except.ok.inj read)
              obtain ⟨ts, isItem, holds⟩ := takesOnly _ value rest' readValue
              refine ⟨t ++ (space ++ ':' :: (space' ++ ts)), ?_,
                .mk named isSpace isSpace' holds⟩
              rw [isColon, whole', isItem] at whole
              simp [whole]
      · cases read

/-- The further members behind one, and the end of the object. -/
theorem spells_of_readMembers (takesOnly : TakesOnly item spells)
    {bound : Nat} {d : Dictionary α} {t cs rest : List Char} {member : String × α}
    {entries : List (String × α)} (spelled : SpellsMember spells t member)
    (read : readMembers item bound d.entries cs = .ok (entries, rest)) :
    ∃ ts space members, t ++ cs = ts ++ (space ++ '}' :: rest) ∧ IsSpace space ∧
      SpellsItems (SpellsMember spells) ts (member :: members) ∧
      entries = (d.insertAll members).entries := by
  induction bound generalizing d t cs member with
  | zero => cases read
  | succ bound inductionHypothesis =>
      obtain ⟨space, isSpace, whole⟩ := skipSpace_split cs
      unfold readMembers at read
      split at read
      · cases read
      · next isEnd =>
          obtain ⟨rfl, rfl⟩ := Prod.mk.inj (Except.ok.inj read)
          exact ⟨t, space, [], by rw [whole, isEnd], isSpace, .one spelled, rfl⟩
      · next behind isComma =>
          obtain ⟨space', isSpace', whole'⟩ := skipSpace_split behind
          split at read
          · cases read
          · next inside isQuote =>
              split at read
              · cases read
              · next name value after readNext =>
                  obtain ⟨t', rfl, spelled'⟩ :=
                    readMember_takesOnly takesOnly inside (name, value) after readNext
                  obtain ⟨ts, space'', members, wholeLater, isSpace'', later, inserted⟩ :=
                    inductionHypothesis (d := d.insert name value) spelled' read
                  refine ⟨t ++ (space ++ ',' :: (space' ++ ts)), space'', (name, value) :: members,
                    ?_, isSpace'', .cons spelled isSpace isSpace' later, inserted⟩
                  rw [whole, isComma, whole', isQuote]
                  simpa using wholeLater
          all_goals cases read
      · cases read

/-- An object behind its opening bracket. -/
theorem readObject_takesOnly (takesOnly : TakesOnly item spells) :
    TakesOnly (readObject item) fun t entries => ∃ members,
      SpellsMembers spells ('{' :: t) members ∧ entries = (Dictionary.ofList members).entries := by
  intro cs entries rest read
  obtain ⟨space, isSpace, whole⟩ := skipSpace_split cs
  unfold readObject at read
  split at read
  · cases read
  · next isEnd =>
      obtain ⟨rfl, rfl⟩ := Prod.mk.inj (Except.ok.inj read)
      exact ⟨space ++ ['}'], by rw [whole, isEnd]; simp, [], .empty isSpace, rfl⟩
  · next inside isQuote =>
      split at read
      · cases read
      · next member after readFirst =>
          obtain ⟨t, rfl, spelled⟩ := readMember_takesOnly takesOnly inside member after readFirst
          obtain ⟨ts, space', members, wholeLater, isSpace', items, inserted⟩ :=
            spells_of_readMembers takesOnly (d := .ofList [member]) spelled read
          refine ⟨space ++ (ts ++ (space' ++ ['}'])), ?_, member :: members,
            .items isSpace items isSpace', inserted⟩
          rw [whole, isQuote, ← List.cons_append, wholeLater]
          simp
  · cases read

end Objects

/-! ## Documents of texts -/

theorem readText_takesOnly : TakesOnly readText SpellsString := by
  intro cs s rest read
  unfold readText at read
  split at read
  · next cs =>
      obtain ⟨t, rfl, spelled⟩ := readString_takesOnly cs s rest read
      exact ⟨'"' :: t, rfl, spelled⟩
  · cases read

theorem readTextMembers_takesOnly :
    TakesOnly readTextMembers fun t d => ∃ pairs,
      SpellsMembers SpellsString t pairs ∧ d = .ofList pairs := by
  intro cs d rest read
  unfold readTextMembers at read
  split at read
  · next cs =>
      obtain ⟨result, readAll, same⟩ := exists_of_map_eq_ok read
      obtain ⟨rfl, rfl⟩ := Prod.mk.inj same
      obtain ⟨t, rfl, pairs, spelled, isEntries⟩ :=
        readObject_takesOnly readText_takesOnly cs result.1 result.2 readAll
      exact ⟨'{' :: t, rfl, pairs, spelled, by rw [isEntries, Dictionary.ofList_entries]⟩
  · cases read

theorem spells_of_finishDocument
    {α : Type} {reader : List Char → Reading α} {spells : List Char → α → Prop}
    (takesOnly : TakesOnly reader spells) {text : String} {a : α}
    (read : finishDocument (reader (skipSpace text.toList)) = .ok a) :
    SpellsDocument spells text a := by
  obtain ⟨front, isSpace, whole⟩ := skipSpace_split text.toList
  unfold finishDocument at read
  split at read
  · cases read
  · next result rest taken =>
      obtain ⟨back, isSpace', whole'⟩ := skipSpace_split rest
      split at read
      · next isEnd =>
          obtain rfl := Except.ok.inj read
          obtain ⟨t, isFront, spelled⟩ := takesOnly _ result rest taken
          rw [isEnd, List.append_nil] at whole'
          exact .mk isSpace spelled (whole' ▸ isSpace') (by rw [whole, isFront])
      · cases read

/-- Texts are read from a document just if it is an object with strings for members. -/
theorem readTexts_eq_ok_iff {text : String} {d : Dictionary String} :
    readTexts text = .ok d ↔ ∃ pairs, IsTexts text pairs ∧ d = .ofList pairs := by
  constructor
  · intro read
    cases spells_of_finishDocument readTextMembers_takesOnly read with
    | mk isSpace holds isSpace' whole =>
        obtain ⟨pairs, spelled, rfl⟩ := holds
        exact ⟨pairs, .mk isSpace spelled isSpace' whole, rfl⟩
  · rintro ⟨pairs, isTexts, rfl⟩
    exact readTexts_of_isTexts isTexts

end Gherkin.Json
