/-!
Contract: finite maps from strings, kept in code-point order of their keys.

Owns: insertion and look-up on lists of entries, the type `Dictionary` whose
entries are strictly increasing in their keys, and the equations that say what
an insertion does to every look-up.
Does not own: what the entries mean; variables, headers and table look-ups are
all dictionaries.
-/

set_option autoImplicit false

namespace Gherkin

/-- Puts an entry where its key belongs; an entry with the same key gives way. -/
def insertEntry {V : Type} (key : String) (value : V) : List (String × V) → List (String × V)
  | [] => [(key, value)]
  | (k, v) :: rest =>
      if key < k then (key, value) :: (k, v) :: rest
      else if k = key then (key, value) :: rest
      else (k, v) :: insertEntry key value rest

/-- Each key comes strictly before the keys that follow it. -/
def KeysIncrease {V : Type} (entries : List (String × V)) : Prop :=
  entries.Pairwise fun a b => a.1 < b.1

theorem mem_keys_insertEntry
    {V : Type} {key k : String} {value : V} {entries : List (String × V)}
    (member : k ∈ (insertEntry key value entries).map Prod.fst) :
    k = key ∨ k ∈ entries.map Prod.fst := by
  induction entries with
  | nil => simpa [insertEntry] using member
  | cons entry rest inductionHypothesis =>
      obtain ⟨k', v'⟩ := entry
      simp only [insertEntry] at member
      split at member
      · simpa using member
      · split at member
        · simp only [List.map_cons, List.mem_cons] at member ⊢
          grind
        · simp only [List.map_cons, List.mem_cons] at member ⊢
          grind

theorem KeysIncrease.insertEntry
    {V : Type} {entries : List (String × V)}
    (increase : KeysIncrease entries) (key : String) (value : V) :
    KeysIncrease (insertEntry key value entries) := by
  induction entries with
  | nil => simp [Gherkin.insertEntry, KeysIncrease]
  | cons entry rest inductionHypothesis =>
      obtain ⟨k, v⟩ := entry
      simp only [KeysIncrease, List.pairwise_cons] at increase
      have ⟨first, later⟩ := increase
      simp only [Gherkin.insertEntry]
      split
      · rename_i before
        simp only [KeysIncrease, List.pairwise_cons, List.mem_cons]
        refine ⟨?_, first, later⟩
        rintro entry (rfl | member)
        · exact before
        · exact String.lt_trans before (first entry member)
      · split
        · rename_i same
          subst same
          simp only [KeysIncrease, List.pairwise_cons]
          exact ⟨first, later⟩
        · rename_i notBefore different
          simp only [KeysIncrease, List.pairwise_cons]
          refine ⟨?_, inductionHypothesis later⟩
          intro entry member
          have : entry.1 ∈ (Gherkin.insertEntry key value rest).map Prod.fst :=
            List.mem_map_of_mem member
          rcases mem_keys_insertEntry this with isKey | inRest
          · have lessOrEqual : k ≤ key := String.not_lt.mp notBefore
            rw [isKey]
            by_cases less : k < key
            · exact less
            · exact absurd (String.le_antisymm lessOrEqual (String.not_lt.mp less)) different
          · obtain ⟨other, inside, equal⟩ := List.mem_map.mp inRest
            exact equal ▸ first other inside

theorem lookup_cons_eq_ite
    {V : Type} (k key : String) (value : V) (entries : List (String × V)) :
    ((key, value) :: entries).lookup k = if k = key then some value else entries.lookup k := by
  rw [List.lookup_cons]
  by_cases same : k = key
  · simp [same]
  · have : (k == key) = false := by simpa using same
    simp [this, same]

/-- A look-up after an insertion sees the new value under the key inserted and
what it saw before under any other. -/
theorem lookup_insertEntry
    {V : Type} (key k : String) (value : V) (entries : List (String × V)) :
    (insertEntry key value entries).lookup k =
      if k = key then some value else entries.lookup k := by
  induction entries with
  | nil => exact lookup_cons_eq_ite k key value []
  | cons entry rest inductionHypothesis =>
      obtain ⟨k', v'⟩ := entry
      simp only [insertEntry]
      split
      · simp only [lookup_cons_eq_ite]
      · split
        · simp only [lookup_cons_eq_ite]
          grind
        · simp only [lookup_cons_eq_ite, inductionHypothesis]
          grind

/-- A finite map from strings. Its entries stand in code-point order of their
keys and no key occurs twice. -/
structure Dictionary (V : Type) where
  entries : List (String × V)
  keysIncrease : KeysIncrease entries

namespace Dictionary

variable {V : Type}

def empty : Dictionary V :=
  ⟨[], .nil⟩

instance : EmptyCollection (Dictionary V) :=
  ⟨empty⟩

instance : Inhabited (Dictionary V) :=
  ⟨empty⟩

def get? (d : Dictionary V) (key : String) : Option V :=
  d.entries.lookup key

/-- Binds the key to the value, whatever it was bound to before. -/
def insert (d : Dictionary V) (key : String) (value : V) : Dictionary V :=
  ⟨insertEntry key value d.entries, d.keysIncrease.insertEntry key value⟩

/-- Inserts the pairs from left to right: of two pairs with one key the later
one stays. -/
def insertAll (d : Dictionary V) (pairs : List (String × V)) : Dictionary V :=
  pairs.foldl (fun acc pair => acc.insert pair.1 pair.2) d

def ofList (pairs : List (String × V)) : Dictionary V :=
  insertAll ∅ pairs

def toList (d : Dictionary V) : List (String × V) :=
  d.entries

def size (d : Dictionary V) : Nat :=
  d.entries.length

def isEmpty (d : Dictionary V) : Bool :=
  d.entries.isEmpty

@[simp] theorem get?_empty (key : String) : (∅ : Dictionary V).get? key = none := rfl

@[simp] theorem get?_insert (d : Dictionary V) (key k : String) (value : V) :
    (d.insert key value).get? k = if k = key then some value else d.get? k :=
  lookup_insertEntry key k value d.entries

@[simp] theorem insertAll_nil (d : Dictionary V) : d.insertAll [] = d := rfl

@[simp] theorem insertAll_cons
    (d : Dictionary V) (pair : String × V) (pairs : List (String × V)) :
    d.insertAll (pair :: pairs) = (d.insert pair.1 pair.2).insertAll pairs := rfl

theorem insertAll_append (d : Dictionary V) (first second : List (String × V)) :
    d.insertAll (first ++ second) = (d.insertAll first).insertAll second :=
  List.foldl_append ..

end Dictionary

end Gherkin
