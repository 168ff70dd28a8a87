import Mathlib.Data.List.Nodup
import Mathlib.Data.List.Pairwise
import Gherkin.Run.Library

/-!
Contract: the definitions that a list of entries registers, and the order they stand in.

Owns: the registry of a list of entries, the definition that it finds for a step, and how
far that depends on the order of the entries.
Does not own: which texts the patterns match.
Main statements: `exists_entry_of_find?` and `findSome?_of_reordered`.

Only definitions that match the same text compete, so it is enough that those which do
keep their order.
-/

set_option autoImplicit false

namespace Gherkin

variable {α : Type}

namespace Entry

def definition (entry : Entry α) : Definition α :=
  ⟨entry.kind, .lenient entry.pattern, entry.action⟩

/-- The pattern of the entry is not refused. -/
def Compiles (refuses : Pattern → Bool) (entry : Entry α) : Prop :=
  refuses (.lenient entry.pattern) = false

theorem Compiles.register
    {entry : Entry α} {registry : Registry α} (compiles : entry.Compiles registry.refuses)
    (isLenient : registry.mode = .lenient) :
    registry.register entry.kind entry.pattern entry.action =
      .ok { registry with definitions := registry.definitions ++ [entry.definition] } := by
  have compiled : registry.compile entry.pattern = .ok (.lenient entry.pattern) := by
    rw [Compiler.compile, isLenient]
    exact if_neg (Bool.eq_false_iff.mp compiles)
  rw [Registry.register, compiled]
  rfl

end Entry

/-- The registry of entries that all compile. -/
def Registry.ofEntries (entries : List (Entry α)) : Registry α :=
  { mode := .lenient, definitions := entries.map Entry.definition }

theorem StepLibrary.ofList_register
    {entries : List (Entry α)} {registry : Registry α}
    (compile : ∀ entry ∈ entries, entry.Compiles registry.refuses)
    (isLenient : registry.mode = .lenient) :
    StepLibrary.ofList entries registry =
      .ok { registry with
        definitions := registry.definitions ++ entries.map Entry.definition } := by
  induction entries generalizing registry with
  | nil => simp [ofList]
  | cons entry entries inductionHypothesis =>
      have first := (compile entry List.mem_cons_self).register isLenient
      let further : Registry α :=
        { registry with definitions := registry.definitions ++ [entry.definition] }
      have stillLenient : further.mode = .lenient := isLenient
      have compileLater : ∀ other ∈ entries, other.Compiles further.refuses :=
        fun other member => compile other (List.mem_cons_of_mem entry member)
      rw [ofList, first]
      simpa [further] using inductionHypothesis compileLater stillLenient

theorem StepLibrary.ofList_empty
    {entries : List (Entry α)} (compile : ∀ entry ∈ entries, entry.Compiles Pattern.isHuge) :
    StepLibrary.ofList entries {} = .ok (.ofEntries entries) :=
  ofList_register compile rfl

/-! ## Finding -/

/-- The arguments that a definition of this kind takes from a text. -/
def Definition.captures? (definition : Definition α) (kind : StepKind) (text : String) :
    Option (List Argument) :=
  if definition.kind = kind then definition.pattern.captures? text else none

theorem Definition.isSome_captures?_iff
    {definition : Definition α} {kind : StepKind} {text : String} :
    (definition.captures? kind text).isSome = true ↔
      definition.kind = kind ∧ definition.pattern.isMatch text = true := by
  unfold captures? Pattern.isMatch
  split
  · next sameKind => simp [sameKind]
  · next otherKind => simp [otherKind]

/-- What was found, wherever it stood. -/
def Found.call (found : Found α) : Definition α × List Argument :=
  (found.definition, found.arguments)

theorem Registry.call_findFrom
    (kind : StepKind) (text : String) (index : Nat) (definitions : List (Definition α)) :
    (findFrom kind text index definitions).map Found.call =
      definitions.findSome? fun definition =>
        (definition.captures? kind text).map (definition, ·) := by
  induction definitions generalizing index with
  | nil => rfl
  | cons definition definitions inductionHypothesis =>
      rw [List.findSome?_cons, ← inductionHypothesis (index + 1)]
      by_cases sameKind : definition.kind = kind
      · cases captured : definition.pattern.captures? text <;>
          simp [findFrom, Definition.captures?, sameKind, captured, Found.call]
      · simp [findFrom, Definition.captures?, sameKind]

/-- What is found is a definition of the step's kind that captures the arguments. -/
theorem Registry.captures?_of_find?
    {registry : Registry α} {kind : StepKind} {text : String} {found : Found α}
    (find : registry.find? kind text = some found) :
    found.definition ∈ registry.definitions ∧ found.definition.kind = kind ∧
      found.definition.pattern.captures? text = some found.arguments := by
  have called := call_findFrom kind text 0 registry.definitions
  rw [← find?, find] at called
  obtain ⟨definition, member, hit⟩ := List.exists_of_findSome?_eq_some called.symm
  obtain ⟨captured, isCaptured, same⟩ := Option.map_eq_some_iff.mp hit
  obtain ⟨rfl, rfl⟩ := Prod.mk.inj same
  have sameKind := (Definition.isSome_captures?_iff.mp (Option.isSome_of_eq_some isCaptured)).1
  rw [Definition.captures?, if_pos sameKind] at isCaptured
  exact ⟨member, sameKind, isCaptured⟩

/-- The entry whose definition is found, with the arguments. -/
def chosen? (entries : List (Entry α)) (kind : StepKind) (text : String) :
    Option (Entry α × List Argument) :=
  entries.findSome? fun entry => (entry.definition.captures? kind text).map (entry, ·)

theorem call_find?_ofEntries (entries : List (Entry α)) (kind : StepKind) (text : String) :
    ((Registry.ofEntries entries).find? kind text).map Found.call =
      (chosen? entries kind text).map fun found => (found.1.definition, found.2) := by
  rw [Registry.find?, Registry.call_findFrom, Registry.ofEntries, List.findSome?_map, chosen?]
  induction entries with
  | nil => rfl
  | cons entry entries inductionHypothesis =>
      rw [List.findSome?_cons, List.findSome?_cons]
      cases captured : entry.definition.captures? kind text with
      | none => simpa [captured] using inductionHypothesis
      | some arguments => simp [captured]

/-- What is found belongs to an entry of the step's kind that captures the arguments. -/
theorem exists_entry_of_find?
    {entries : List (Entry α)} {kind : StepKind} {text : String} {found : Found α}
    (find : (Registry.ofEntries entries).find? kind text = some found) :
    ∃ entry ∈ entries, found.definition = entry.definition ∧ entry.kind = kind ∧
      (Pattern.lenient entry.pattern).captures? text = some found.arguments := by
  obtain ⟨registered, sameKind, captured⟩ := Registry.captures?_of_find? find
  obtain ⟨entry, member, isDefinition⟩ := List.mem_map.mp registered
  rw [← isDefinition] at sameKind captured
  exact ⟨entry, member, isDefinition.symm, sameKind, captured⟩

/-! ## Reordering -/

theorem findSome?_filter_isSome {β γ : Type} (f : β → Option γ) (items : List β) :
    (items.filter fun item => (f item).isSome).findSome? f = items.findSome? f := by
  induction items with
  | nil => rfl
  | cons item items inductionHypothesis =>
      cases value : f item <;> simp [value, inductionHypothesis]

/-- In a list without repetition no two items stand in both orders. -/
theorem eq_of_sublist_both_orders
    {β : Type} {items : List β} (nodup : items.Nodup) {a b : β}
    (forward : [a, b].Sublist items) (backward : [b, a].Sublist items) : a = b := by
  induction items with
  | nil => contradiction
  | cons item items inductionHypothesis =>
      obtain ⟨absent, nodupLater⟩ := List.nodup_cons.mp nodup
      have behind : ∀ c d : β, [c, d].Sublist items → c ∈ items ∧ d ∈ items :=
        fun c d inside => ⟨inside.subset (by simp), inside.subset (by simp)⟩
      rcases List.sublist_cons_iff.mp forward with later | ⟨_, same, _⟩
      · rcases List.sublist_cons_iff.mp backward with later' | ⟨_, same, _⟩
        · exact inductionHypothesis nodupLater later later'
        · obtain ⟨rfl, -⟩ := List.cons.inj same
          exact absurd (behind a b later).2 absent
      · obtain ⟨rfl, rfl⟩ := List.cons.inj same
        rcases List.sublist_cons_iff.mp backward with later' | ⟨_, same, _⟩
        · exact absurd (behind b a later').2 absent
        · exact (List.cons.inj same).1.symm

/-- Where items that have a value keep their order, the first value stays the same. -/
theorem findSome?_of_reordered
    {β γ : Type} {f : β → Option γ} {items reordered : List β}
    (perm : reordered.Perm items) (nodup : items.Nodup)
    (keepsOrder : ∀ a b, (f a).isSome → (f b).isSome →
      [a, b].Sublist items → [a, b].Sublist reordered) :
    reordered.findSome? f = items.findSome? f := by
  let hits := fun item => (f item).isSome
  have inReordered : (reordered.filter hits).Pairwise fun a b => [a, b].Sublist reordered := by
    apply List.pairwise_iff_forall_sublist.mpr
    intro a b inFiltered
    exact inFiltered.trans List.filter_sublist
  have inItems : (items.filter hits).Pairwise fun a b => [a, b].Sublist reordered := by
    apply List.pairwise_iff_forall_sublist.mpr
    intro a b inFiltered
    have hitA : a ∈ items.filter hits := inFiltered.subset (by simp)
    have hitB : b ∈ items.filter hits := inFiltered.subset (by simp)
    exact keepsOrder a b (List.mem_filter.mp hitA).2 (List.mem_filter.mp hitB).2
      (inFiltered.trans List.filter_sublist)
  have nodupReordered := perm.nodup_iff.mpr nodup
  have same : reordered.filter hits = items.filter hits :=
    List.Perm.eq_of_pairwise (fun a b _ _ => eq_of_sublist_both_orders nodupReordered)
      inReordered inItems (perm.filter hits)
  rw [← findSome?_filter_isSome f reordered, ← findSome?_filter_isSome f items, same]

/-- Items with different keys stand in the order of their keys. -/
theorem sublist_of_keys
    {β γ : Type} {key : β → γ} {items : List β} (nodup : (items.map key).Nodup) {a b : β}
    (member : a ∈ items) (member' : b ∈ items)
    (inOrder : [key a, key b].Sublist (items.map key)) : [a, b].Sublist items := by
  obtain ⟨found, sublist, same⟩ := List.sublist_map_iff.mp inOrder
  obtain ⟨c, later, rfl, sameKey, rest⟩ := List.map_eq_cons_iff.mp same.symm
  obtain ⟨d, none, rfl, sameKey', rest'⟩ := List.map_eq_cons_iff.mp rest
  obtain rfl := List.map_eq_nil_iff.mp rest'
  have isA : c = a := List.inj_on_of_nodup_map nodup (sublist.subset (by simp)) member sameKey
  have isB : d = b := List.inj_on_of_nodup_map nodup (sublist.subset (by simp)) member' sameKey'
  rw [isA, isB] at sublist
  exact sublist

end Gherkin
