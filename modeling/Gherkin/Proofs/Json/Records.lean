import Gherkin.Json.Decode
import Gherkin.Proofs.Dictionary
import Mathlib.Logic.Relation

/-!
Contract: records in their JSON form, written and read.

Owns: that lists, numbers and dictionaries are read as they were written, what an object
made of present members holds, when the members of a record pass their checks, and what
members that are no field of a record, added at any depth, change: nothing.
Does not own: the forms of the domain's records (`Gherkin.Proofs.Report.Forms`).
Main statements: `Value.ofPresent_spec`, `Schema.members_object`,
`Schema.passesOver`.
-/

set_option autoImplicit false

namespace Gherkin.Json

/-- Decoding gives back what was encoded. -/
def ReadsBack {α : Type} (encode : α → Value) (decode : Decoder α) : Prop :=
  ∀ a, decode (encode a) = .ok a

section Parts

variable {α : Type} {encode : α → Value} {decode : Decoder α}

theorem ReadsBack.list (back : ReadsBack encode decode) :
    ReadsBack (fun items => .array (items.map encode)) (decodeList decode) := by
  intro items
  show decodeItems decode (items.map encode) = .ok items
  induction items with
  | nil => rfl
  | cons item items inductionHypothesis =>
      simp only [List.map_cons, decodeItems, back item, inductionHypothesis, Except.map]

theorem ReadsBack.dictionary (back : ReadsBack encode decode) :
    ReadsBack (.ofDictionary encode) (decodeDictionary decode) := by
  intro d
  have members (entries : List (String × α)) :
      decodeMembers decode (entries.map fun entry => (entry.1, encode entry.2)) =
        .ok entries := by
    induction entries with
    | nil => rfl
    | cons entry entries inductionHypothesis =>
        simp only [List.map_cons, decodeMembers, back entry.2, inductionHypothesis, Except.map]
  calc decodeDictionary decode (.ofDictionary encode d)
      = (decodeMembers decode (d.entries.map fun entry => (entry.1, encode entry.2))).map
          Dictionary.ofList := rfl
    _ = .ok d := by rw [members, Except.map, Dictionary.ofList_entries]

/-- What has no `null` form may be left out. -/
theorem ReadsBack.option (back : ReadsBack encode decode) {a : α} (present : encode a ≠ .null) :
    decodeOption decode (encode a) = .ok (some a) := by
  have read := back a
  cases form : encode a with
  | null => exact absurd form present
  | _ => rw [decodeOption, ← form, read, Except.map]; simp

theorem readsBack_string : ReadsBack Value.string decodeString := fun _ => rfl

theorem decodeBounded_of_lt {title : String} {bound n : Nat} (less : n < bound) :
    decodeBounded title bound (.int n) = .ok n := by
  rw [decodeBounded, if_pos ⟨Int.natCast_nonneg n, Int.ofNat_lt.mpr less⟩, Int.toNat_natCast]

theorem readsBack_uInt32 : ReadsBack (fun n : UInt32 => .int n.toNat) decodeUInt32 := by
  intro n
  rw [decodeUInt32, decodeBounded_of_lt n.toNat_lt, Except.map, UInt32.ofNat_toNat]

theorem readsBack_uInt64 : ReadsBack (fun n : UInt64 => .int n.toNat) decodeUInt64 := by
  intro n
  rw [decodeUInt64, decodeBounded_of_lt n.toNat_lt, Except.map, UInt64.ofNat_toNat]

end Parts

/-! Objects made of present members -/

theorem insertMembers_entries (d : Dictionary Value) (added : List (String × Value)) :
    Value.insertMembers d.entries added = (d.insertAll added).entries := by
  induction added generalizing d with
  | nil => rfl
  | cons member added inductionHypothesis => exact inductionHypothesis (d.insert member.1 member.2)

theorem ofMembers_eq_entries (members : List (String × Value)) :
    Value.ofMembers members = .object (Dictionary.ofList members).entries :=
  congrArg Value.object (insertMembers_entries ∅ members)

/-- The members that are there, with their values. -/
def present (members : List (String × Option Value)) : List (String × Value) :=
  members.filterMap fun (name, value?) => value?.map (name, ·)

theorem mem_present
    {members : List (String × Option Value)} {name : String} {value : Value} :
    (name, value) ∈ present members ↔ (name, some value) ∈ members := by
  simp only [present, List.mem_filterMap, Option.map_eq_some_iff, Prod.mk.injEq]
  constructor
  · rintro ⟨⟨_, _⟩, member, _, rfl, rfl, rfl⟩
    exact member
  · exact fun member => ⟨_, member, _, rfl, rfl, rfl⟩

theorem names_present_sublist (members : List (String × Option Value)) :
    ((present members).map Prod.fst).Sublist (members.map Prod.fst) := by
  induction members with
  | nil => exact .slnil
  | cons member members inductionHypothesis =>
      obtain ⟨name, _ | value⟩ := member
      · exact inductionHypothesis.cons name
      · exact inductionHypothesis.cons_cons name

/-- An object of present members holds those and no others. -/
theorem ofPresent_spec
    {members : List (String × Option Value)} (distinct : (members.map Prod.fst).Nodup) :
    ∃ entries, Value.ofPresent members = .object entries ∧
      (∀ member ∈ members, entries.lookup member.1 = member.2) ∧
      ∀ name value, (name, value) ∈ entries → (name, some value) ∈ members := by
  have distinctPresent := distinct.sublist (names_present_sublist members)
  refine ⟨_, ofMembers_eq_entries (present members), ?_, ?_⟩
  · rintro ⟨name, value?⟩ member
    cases value? with
    | some value => exact Dictionary.get?_ofList_of_mem distinctPresent (mem_present.mpr member)
    | none =>
        refine Dictionary.get?_ofList_eq_none fun named => ?_
        obtain ⟨⟨_, value⟩, isPresent, rfl⟩ := List.mem_map.mp named
        have same := List.inj_on_of_nodup_map distinct member (mem_present.mp isPresent) rfl
        exact nomatch (Prod.mk.inj same).2
  · intro name value member
    exact mem_present.mp (Dictionary.mem_of_mem_ofList member)

theorem member?_ofPresent
    {members : List (String × Option Value)} {name : String} {value? : Option Value}
    (distinct : (members.map Prod.fst).Nodup) (listed : (name, value?) ∈ members) :
    (Value.ofPresent members).member? name = value? := by
  obtain ⟨entries, form, found, -⟩ := ofPresent_spec distinct
  rw [form]
  exact found _ listed

/-! Checked members -/

section Records

variable {schema : Schema}

theorem Schema.members_object
    {entries : List (String × Value)}
    (pass : ∀ field ∈ schema.fields, ∀ value, (field.name, value) ∈ entries →
      field.check value = .ok ()) :
    schema.members (.object entries) = .ok entries := by
  have checked : schema.check entries = .ok () := by
    induction entries with
    | nil => rfl
    | cons entry entries inductionHypothesis =>
        have later := inductionHypothesis fun field known value member =>
          pass field known value (List.mem_cons_of_mem entry member)
        rw [Schema.check]
        split
        · exact later
        · next field found =>
            have named : field.name = entry.1 := by simpa using List.find?_some found
            rw [pass field (List.mem_of_find?_eq_some found) entry.2
              (named ▸ List.mem_cons_self)]
            exact later
  rw [Schema.members, checked]
  rfl

/-- A member written for a field: if it is there, it passes the field's check. -/
def Field.Takes (field : Field) (member : String × Option Value) : Prop :=
  field.name = member.1 ∧ ∀ value, member.2 = some value → field.check value = .ok ()

theorem names_of_takes
    {fields : List Field} {members : List (String × Option Value)}
    (takes : List.Forall₂ Field.Takes fields members) :
    members.map Prod.fst = fields.map Field.name := by
  induction takes with
  | nil => rfl
  | cons first _ inductionHypothesis =>
      rw [List.map_cons, List.map_cons, inductionHypothesis, first.1]

theorem exists_member_of_takes
    {fields : List Field} {members : List (String × Option Value)}
    (takes : List.Forall₂ Field.Takes fields members) {field : Field} (known : field ∈ fields) :
    ∃ member ∈ members, field.Takes member := by
  induction takes with
  | nil => exact absurd known List.not_mem_nil
  | cons first _ inductionHypothesis =>
      rcases List.mem_cons.mp known with rfl | later
      · exact ⟨_, List.mem_cons_self, first⟩
      · obtain ⟨member, inMembers, taken⟩ := inductionHypothesis later
        exact ⟨member, List.mem_cons_of_mem _ inMembers, taken⟩

/-- An object with a member for each field decodes from just these. -/
theorem Schema.members_ofPresent
    (schema : Schema) {members : List (String × Option Value)}
    (distinct : (schema.fields.map Field.name).Nodup)
    (takes : List.Forall₂ Field.Takes schema.fields members) :
    ∃ entries, schema.members (.ofPresent members) = .ok entries ∧
      ∀ member ∈ members, entries.lookup member.1 = member.2 := by
  have distinctNames : (members.map Prod.fst).Nodup := names_of_takes takes ▸ distinct
  obtain ⟨entries, form, found, listed⟩ := ofPresent_spec distinctNames
  refine ⟨entries, ?_, found⟩
  rw [form]
  refine members_object fun field known value member => ?_
  obtain ⟨taken, inMembers, named, pass⟩ := exists_member_of_takes takes known
  have same : taken = (field.name, some value) :=
    List.inj_on_of_nodup_map distinctNames inMembers (listed _ _ member) named.symm
  exact pass value (congrArg Prod.snd same)

variable {α : Type} {encode : α → Value} {decode : Decoder α} {members : List (String × Value)}

theorem Field.takes_some
    (name : String) (back : ReadsBack encode decode) (a : α) :
    (Field.of name decode).Takes (name, some (encode a)) := by
  refine ⟨rfl, fun value isValue => ?_⟩
  cases isValue
  show (decode (encode a)).map _ = .ok ()
  rw [back a, Except.map]

theorem Field.takes_option
    (name : String) (back : ReadsBack encode decode) (notNull : ∀ a, encode a ≠ .null)
    (a? : Option α) :
    (Field.of name (decodeOption decode)).Takes (name, a?.map encode) := by
  refine ⟨rfl, fun value isValue => ?_⟩
  cases a? with
  | none => exact nomatch isValue
  | some a =>
      cases isValue
      show (decodeOption decode (encode a)).map _ = .ok ()
      rw [back.option (notNull a), Except.map]

theorem required_of_lookup
    {name : String} {a : α} (back : ReadsBack encode decode)
    (found : members.lookup name = some (encode a)) :
    required members name decode = .ok a := by
  rw [required, found]
  exact back a

theorem optional_of_lookup
    {name : String} {a? : Option α} (back : ReadsBack encode decode)
    (notNull : ∀ a, encode a ≠ .null) (found : members.lookup name = a?.map encode) :
    optional members name decode = .ok a? := by
  rw [optional, found]
  cases a? with
  | none => rfl
  | some a => exact back.option (notNull a)

/-! Unknown members -/

/-- Where records stand inside a value: nowhere, in each item of an array, or here and
perhaps in some of the fields. -/
inductive Nest where
  | plain
  | items (item : Nest)
  | record (schema : Schema) (field : String → Nest)

/-- Of the fields only the one of that name holds records. -/
def Nest.under (name : String) (nest : Nest) (other : String) : Nest :=
  if other = name then nest else .plain

/-- The second value has one more member, under a name that is no field of the record
to which it is added. That record may stand inside others. -/
inductive Adds : Nest → Value → Value → Prop where
  | member {schema : Schema} {field : String → Nest} {members : List (String × Value)}
      {name : String} (value : Value) (unknown : ∀ known ∈ schema.fields, known.name ≠ name) :
      Adds (.record schema field) (.object members) (.object (insertEntry name value members))
  | inside {schema : Schema} {field : String → Nest} {before after : List (String × Value)}
      {name : String} {value value' : Value} (added : Adds (field name) value value') :
      Adds (.record schema field) (.object (before ++ (name, value) :: after))
        (.object (before ++ (name, value') :: after))
  | item {nest : Nest} {before after : List Value} {value value' : Value}
      (added : Adds nest value value') :
      Adds (.items nest) (.array (before ++ value :: after)) (.array (before ++ value' :: after))
  /-- A record may also stand as an array of its fields in order. -/
  | listed {schema : Schema} {field : String → Nest} {before after : List Value} {known : Field}
      {value value' : Value} (here : schema.fields[before.length]? = some known)
      (added : Adds (field known.name) value value') :
      Adds (.record schema field) (.array (before ++ value :: after))
        (.array (before ++ value' :: after))

/-- One more unknown member changes neither what a decoder gives nor why it fails. -/
def Unmoved {α : Type} (nest : Nest) (decode : Decoder α) : Prop :=
  ∀ value value', Adds nest value value' → decode value' = decode value

/-- Any number of unknown members is passed over. -/
def PassesOver {α : Type} (nest : Nest) (decode : Decoder α) : Prop :=
  ∀ value value', Relation.ReflTransGen (Adds nest) value value' → decode value' = decode value

variable {nest : Nest}

theorem Unmoved.passesOver (unmoved : Unmoved nest decode) : PassesOver nest decode := by
  intro value value' added
  induction added with
  | refl => rfl
  | tail _ one inductionHypothesis => exact (unmoved _ _ one).trans inductionHypothesis

theorem unmoved_plain : Unmoved .plain decode :=
  fun _ _ added => nomatch added

theorem Unmoved.list (unmoved : Unmoved nest decode) :
    Unmoved (.items nest) (decodeList decode) := by
  intro value value' added
  cases added with
  | @item _ before after value value' added =>
      show decodeItems decode (before ++ value' :: after) =
        decodeItems decode (before ++ value :: after)
      induction before with
      | nil => simp only [List.nil_append, decodeItems, unmoved value value' added]
      | cons first before inductionHypothesis =>
          simp only [List.cons_append, decodeItems, inductionHypothesis]

theorem Unmoved.option (unmoved : Unmoved nest decode) :
    Unmoved nest (decodeOption decode) := by
  intro value value' added
  have same := unmoved value value' added
  cases added <;> simp only [decodeOption, same]

theorem Unmoved.field (unmoved : Unmoved nest decode) (name : String) :
    Unmoved nest (Field.of name decode).check := by
  intro value value' added
  simp only [Field.of, unmoved value value' added]

theorem unmoved_under
    {name : String} (unmoved : Unmoved nest decode) (known : .of name decode ∈ schema.fields)
    (distinct : (schema.fields.map Field.name).Nodup) :
    ∀ other ∈ schema.fields, Unmoved (Nest.under name nest other.name) other.check := by
  intro other member
  unfold Nest.under
  split
  · next named =>
      have same : other = .of name decode := List.inj_on_of_nodup_map distinct member known named
      exact same ▸ unmoved.field name
  · exact unmoved_plain

variable {field : String → Nest}

/-- A member is the same in both, but for unknown members inside it. -/
def SameMember (nest : Nest) (members members' : List (String × Value)) (name : String) : Prop :=
  members'.lookup name = members.lookup name ∨
    ∃ value value', members.lookup name = some value ∧ members'.lookup name = some value' ∧
      Adds nest value value'

def SameFields (schema : Schema) (field : String → Nest)
    (members members' : List (String × Value)) : Prop :=
  ∀ known ∈ schema.fields, SameMember (field known.name) members members' known.name

theorem check_insertEntry
    {members : List (String × Value)} {name : String} (value : Value)
    (unknown : ∀ known ∈ schema.fields, known.name ≠ name) :
    schema.check (insertEntry name value members) = schema.check members := by
  have notFound : schema.fields.find? (·.name == name) = none := by
    simpa [List.find?_eq_none] using unknown
  induction members with
  | nil => simp only [insertEntry, Schema.check, notFound]
  | cons member members inductionHypothesis =>
      rw [insertEntry]
      split
      · simp only [Schema.check, notFound]
      · split
        · next same => simp only [Schema.check, notFound, same]
        · simp only [Schema.check, inductionHypothesis]

theorem check_replaced
    (before after : List (String × Value)) {name : String} {value value' : Value}
    (same : ∀ known ∈ schema.fields, known.name = name → known.check value' = known.check value) :
    schema.check (before ++ (name, value') :: after) =
      schema.check (before ++ (name, value) :: after) := by
  induction before with
  | nil =>
      cases found : schema.fields.find? (·.name == name) with
      | none => simp only [List.nil_append, Schema.check, found]
      | some known =>
          have named : known.name = name := by simpa using List.find?_some found
          simp only [List.nil_append, Schema.check, found,
            same known (List.mem_of_find?_eq_some found) named]
  | cons first before inductionHypothesis =>
      simp only [List.cons_append, Schema.check, inductionHypothesis]

theorem sameFields_insertEntry
    {members : List (String × Value)} {name : String} (value : Value)
    (unknown : ∀ known ∈ schema.fields, known.name ≠ name) :
    SameFields schema field members (insertEntry name value members) := by
  intro known member
  left
  rw [lookup_insertEntry, if_neg (unknown known member)]

theorem sameFields_replaced
    (before after : List (String × Value)) {name : String} {value value' : Value}
    (added : Adds (field name) value value') :
    SameFields schema field (before ++ (name, value) :: after)
      (before ++ (name, value') :: after) := by
  intro known _
  unfold SameMember
  rw [List.lookup_append, List.lookup_append, lookup_cons_eq_ite, lookup_cons_eq_ite]
  cases before.lookup known.name with
  | some earlier => exact .inl rfl
  | none =>
      split
      · next same => exact .inr ⟨value, value', rfl, rfl, same ▸ added⟩
      · exact .inl rfl

/-- With an array of fields in order, the field at a place is a member under its name. -/
theorem zip_names_replaced
    {names : List String} {before after : List Value} {name : String} (value : Value)
    (here : names[before.length]? = some name) :
    names.zip (before ++ value :: after) =
      names.zip before ++ (name, value) :: (names.drop (before.length + 1)).zip after := by
  induction before generalizing names with
  | nil =>
      cases names with
      | nil => exact nomatch here
      | cons first names => cases here; rfl
  | cons item before inductionHypothesis =>
      cases names with
      | nil => exact nomatch here
      | cons first names =>
          show (first, item) :: names.zip (before ++ value :: after) = _
          rw [inductionHypothesis here]
          rfl

/-- A record decoded from its checked members does not see unknown ones, if none of its
fields does. -/
theorem Schema.unmoved
    {read : List (String × Value) → Except DecodeError α}
    (fields : ∀ known ∈ schema.fields, Unmoved (field known.name) known.check)
    (fromFields : ∀ members members', SameFields schema field members members' →
      read members' = read members) :
    Unmoved (.record schema field) fun value => schema.members value >>= read := by
  intro value value' added
  cases added with
  | @member _ _ members name value unknown =>
      have same := fromFields members _ (sameFields_insertEntry value unknown)
      simp only [Schema.members, check_insertEntry value unknown]
      cases schema.check members with
      | error e => rfl
      | ok _ => exact same
  | @inside _ _ before after name value value' added =>
      have same := fromFields _ _ (sameFields_replaced before after added)
      have checked : schema.check (before ++ (name, value') :: after) = _ :=
        check_replaced before after fun known member named =>
          fields known member value value' (named ▸ added)
      simp only [Schema.members, checked]
      cases schema.check (before ++ (name, value) :: after) with
      | error e => rfl
      | ok _ => exact same
  | @listed _ _ before after known value value' here added =>
      have name : (schema.fields.map Field.name)[before.length]? = some known.name := by
        rw [List.getElem?_map, here, Option.map_some]
      simp only [Schema.members, zip_names_replaced _ name, List.length_append, List.length_cons]
      generalize (schema.fields.map Field.name).zip before = front
      generalize ((schema.fields.map Field.name).drop (before.length + 1)).zip after = back
      have checked := check_replaced front back
        fun other member named => fields other member value value' (named ▸ added)
      have same := fromFields _ _ (sameFields_replaced front back added)
      rw [checked]
      cases schema.check _ with
      | error e => rfl
      | ok _ =>
          by_cases short : before.length + (after.length + 1) < schema.fields.length
          · simp only [if_pos short]
          · by_cases long : schema.fields.length < before.length + (after.length + 1)
            · simp only [if_neg short, if_pos long]
            · simp only [if_neg short, if_neg long]
              exact same

theorem SameMember.required
    {members members' : List (String × Value)} {name : String}
    (same : SameMember nest members members' name) (unmoved : Unmoved nest decode) :
    required members' name decode = required members name decode := by
  unfold Json.required
  rcases same with equal | ⟨value, value', found, found', added⟩
  · rw [equal]
  · rw [found, found']
    exact unmoved value value' added

theorem SameMember.optional
    {members members' : List (String × Value)} {name : String}
    (same : SameMember nest members members' name) (unmoved : Unmoved nest decode) :
    optional members' name decode = optional members name decode := by
  unfold Json.optional
  rcases same with equal | ⟨value, value', found, found', added⟩
  · rw [equal]
  · rw [found, found']
    exact unmoved.option value value' added

end Records

end Gherkin.Json
