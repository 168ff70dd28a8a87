import Mathlib.Data.List.Nodup
import Gherkin.Dictionary

/-!
Contract: dictionaries as functions of their keys.

Owns: which entries an insertion leaves, that a dictionary is given by its look-ups and
is made again of its own entries, and which of several pairs with one key counts.
Does not own: the look-up behind a single insertion (`Gherkin.Dictionary`).
Main statements: `Dictionary.ext_get?`, `Dictionary.ofList_entries`,
`Dictionary.get?_ofList`.
-/

set_option autoImplicit false

namespace Gherkin

variable {V : Type}

theorem mem_insertEntry
    {key : String} {value : V} {entry : String × V} {entries : List (String × V)}
    (member : entry ∈ insertEntry key value entries) :
    entry = (key, value) ∨ entry ∈ entries := by
  induction entries with
  | nil => simpa [insertEntry] using member
  | cons first rest inductionHypothesis =>
      simp only [insertEntry] at member
      split at member
      · simpa using member
      · split at member
        · rcases List.mem_cons.mp member with here | later
          · exact .inl here
          · exact .inr (List.mem_cons_of_mem first later)
        · rcases List.mem_cons.mp member with here | later
          · exact .inr (here ▸ List.mem_cons_self)
          · exact (inductionHypothesis later).imp_right (List.mem_cons_of_mem first)

/-- An entry whose key comes last is put at the end. -/
theorem insertEntry_eq_append
    {key : String} (value : V) {entries : List (String × V)}
    (last : ∀ entry ∈ entries, entry.1 < key) :
    insertEntry key value entries = entries ++ [(key, value)] := by
  induction entries with
  | nil => rfl
  | cons first rest inductionHypothesis =>
      have before := last first List.mem_cons_self
      have notAfter : ¬ key < first.1 := fun after =>
        String.lt_irrefl _ (String.lt_trans before after)
      have different : first.1 ≠ key := fun same =>
        String.lt_irrefl _ (same ▸ before)
      rw [insertEntry, if_neg notAfter, if_neg different,
        inductionHypothesis fun entry member => last entry (List.mem_cons_of_mem first member)]
      rfl

theorem KeysIncrease.lookup_eq_some_iff
    {entries : List (String × V)} (increase : KeysIncrease entries)
    (key : String) (value : V) :
    entries.lookup key = some value ↔ (key, value) ∈ entries := by
  induction entries with
  | nil => simp
  | cons first rest inductionHypothesis =>
      obtain ⟨firstLeast, later⟩ := List.pairwise_cons.mp increase
      obtain ⟨k, v⟩ := first
      rw [lookup_cons_eq_ite, List.mem_cons]
      split
      · next same =>
          have notLater : (k, value) ∉ rest := fun member =>
            String.lt_irrefl k (firstLeast (k, value) member)
          simp [notLater, same, eq_comm]
      · next different =>
          rw [inductionHypothesis later]
          simp [different]

/-- From an entry on no key is smaller than the one of that entry. -/
theorem KeysIncrease.le_of_mem
    {before after : List (String × V)} {entry other : String × V}
    (increase : KeysIncrease (before ++ entry :: after)) (member : other ∈ entry :: after) :
    entry.1 ≤ other.1 := by
  apply String.not_lt.mp
  intro less
  rcases List.mem_cons.mp member with rfl | later
  · exact String.lt_irrefl _ less
  · have fromEntry := (List.pairwise_append.mp increase).2.1
    have greater := (List.pairwise_cons.mp fromEntry).1 other later
    exact String.lt_irrefl _ (String.lt_trans less greater)

/-- Entries in order of their keys, which are all the same, are a single one. -/
theorem KeysIncrease.eq_singleton
    {entries : List (String × V)} (increase : KeysIncrease entries)
    {entry : String × V} (member : entry ∈ entries)
    (sameKey : ∀ other ∈ entries, other.1 = entry.1) : entries = [entry] := by
  cases entries with
  | nil => exact absurd member List.not_mem_nil
  | cons first rest =>
      have noMore : rest = [] := by
        apply List.eq_nil_iff_forall_not_mem.mpr
        intro other later
        have less := (List.pairwise_cons.mp increase).1 other later
        rw [sameKey first List.mem_cons_self, sameKey other (List.mem_cons_of_mem first later)]
          at less
        exact String.lt_irrefl _ less
      subst noMore
      rw [List.mem_singleton.mp member]

namespace Dictionary

theorem get?_eq_some_iff {d : Dictionary V} {key : String} {value : V} :
    d.get? key = some value ↔ (key, value) ∈ d.entries :=
  d.keysIncrease.lookup_eq_some_iff key value

theorem ext_get? {d d' : Dictionary V} (same : ∀ key, d.get? key = d'.get? key) : d = d' := by
  have sameEntries (entry : String × V) : entry ∈ d.entries ↔ entry ∈ d'.entries := by
    rw [← get?_eq_some_iff, ← get?_eq_some_iff, same entry.1]
  have distinct {entries : List (String × V)} (increase : KeysIncrease entries) :
      entries.Nodup :=
    List.Pairwise.imp (fun {a b} less (equal : a = b) => String.lt_irrefl b.1 (equal ▸ less))
      increase
  have permuted : d.entries.Perm d'.entries :=
    (List.perm_ext_iff_of_nodup (distinct d.keysIncrease) (distinct d'.keysIncrease)).mpr
      sameEntries
  have equal : d.entries = d'.entries :=
    permuted.eq_of_pairwise
      (fun _ _ _ _ less greater => absurd (String.lt_trans less greater) (String.lt_irrefl _))
      d.keysIncrease d'.keysIncrease
  cases d
  cases d'
  exact (Dictionary.mk.injEq ..).mpr equal

/-- Pairs that go on where the entries end are added as they stand. -/
theorem entries_insertAll
    {pairs : List (String × V)} (d : Dictionary V)
    (increase : KeysIncrease (d.entries ++ pairs)) :
    (d.insertAll pairs).entries = d.entries ++ pairs := by
  induction pairs generalizing d with
  | nil => simp
  | cons pair pairs inductionHypothesis =>
      have inserted : (d.insert pair.1 pair.2).entries = d.entries ++ [pair] :=
        insertEntry_eq_append pair.2 fun entry member =>
          (List.pairwise_append.mp increase).2.2 entry member pair List.mem_cons_self
      have whole : d.entries ++ pair :: pairs = (d.insert pair.1 pair.2).entries ++ pairs := by
        rw [inserted, List.append_assoc, List.singleton_append]
      rw [insertAll_cons, whole]
      exact inductionHypothesis _ (whole ▸ increase)

theorem ofList_entries (d : Dictionary V) : ofList d.entries = d := by
  have same : (ofList d.entries).entries = d.entries :=
    entries_insertAll ∅ (by exact d.keysIncrease)
  cases d
  exact (Dictionary.mk.injEq ..).mpr same

theorem get?_insertAll (d : Dictionary V) (pairs : List (String × V)) (key : String) :
    (d.insertAll pairs).get? key =
      ((pairs.filter (·.1 = key)).getLast?.map Prod.snd).or (d.get? key) := by
  induction pairs generalizing d with
  | nil => simp
  | cons pair pairs inductionHypothesis =>
      rw [insertAll_cons, inductionHypothesis, get?_insert, List.filter_cons]
      by_cases same : pair.1 = key
      · cases later : (pairs.filter (·.1 = key)).getLast? <;>
          simp [same, List.getLast?_cons, later]
      · simp [same, Ne.symm same]

/-- Of several pairs with one key the last one counts. -/
theorem get?_ofList (pairs : List (String × V)) (key : String) :
    (ofList pairs).get? key = (pairs.filter (·.1 = key)).getLast?.map Prod.snd := by
  rw [ofList, get?_insertAll, get?_empty, Option.or_none]

theorem get?_ofList_of_mem
    {pairs : List (String × V)} {key : String} {value : V}
    (distinct : (pairs.map Prod.fst).Nodup) (member : (key, value) ∈ pairs) :
    (ofList pairs).get? key = some value := by
  have here : (key, value) ∈ pairs.filter (·.1 = key) := by simp [member]
  obtain ⟨last, isLast⟩ :=
    Option.isSome_iff_exists.mp (List.getLast?_isSome.mpr (List.ne_nil_of_mem here))
  obtain ⟨inPairs, sameKey⟩ : last ∈ pairs ∧ last.1 = key := by
    simpa using List.mem_filter.mp (List.mem_of_getLast? isLast)
  have same : last = (key, value) := List.inj_on_of_nodup_map distinct inPairs member sameKey
  rw [get?_ofList, isLast, same]
  rfl

theorem get?_ofList_eq_none
    {pairs : List (String × V)} {key : String} (absent : key ∉ pairs.map Prod.fst) :
    (ofList pairs).get? key = none := by
  have nowhere : pairs.filter (·.1 = key) = [] := by
    rw [List.filter_eq_nil_iff]
    intro pair member
    have different : pair.1 ≠ key := fun same => absent (same ▸ List.mem_map_of_mem member)
    simpa using different
  rw [get?_ofList, nowhere]
  rfl

theorem nodup_keys (d : Dictionary V) : (d.entries.map Prod.fst).Nodup := by
  rw [List.Nodup, List.pairwise_map]
  refine d.keysIncrease.imp fun {a b} less same => ?_
  rw [same] at less
  exact String.lt_irrefl b.1 less

/-- The entries make the dictionary in any order. -/
theorem ofList_of_perm
    {pairs : List (String × V)} {d : Dictionary V} (order : pairs.Perm d.entries) :
    ofList pairs = d := by
  have distinct : (pairs.map Prod.fst).Nodup :=
    ((order.map Prod.fst).nodup_iff).mpr d.nodup_keys
  apply ext_get?
  intro key
  cases found : d.get? key with
  | none =>
      apply get?_ofList_eq_none
      intro member
      obtain ⟨pair, isPair, rfl⟩ := List.mem_map.mp member
      have isEntry := order.mem_iff.mp isPair
      cases found.symm.trans (get?_eq_some_iff.mpr isEntry)
  | some value =>
      have isEntry := get?_eq_some_iff.mp found
      exact get?_ofList_of_mem distinct (order.mem_iff.mpr isEntry)

/-- An entry is the last of the pairs with its key. -/
theorem mem_entries_ofList_iff {pairs : List (String × V)} {key : String} {value : V} :
    (key, value) ∈ (ofList pairs).entries ↔
      ∃ before after, pairs = before ++ (key, value) :: after ∧ ∀ pair ∈ after, pair.1 ≠ key := by
  rw [← get?_eq_some_iff, get?_ofList]
  constructor
  · intro found
    obtain ⟨⟨_, _⟩, isLast, rfl⟩ := Option.map_eq_some_iff.mp found
    obtain ⟨earlier, filtered⟩ := List.getLast?_eq_some_iff.mp isLast
    obtain ⟨front, back, rfl, -, filteredBack⟩ := List.filter_eq_append_iff.mp filtered
    obtain ⟨between, after, rfl, -, sameKey, none⟩ := List.filter_eq_cons_iff.mp filteredBack
    obtain rfl := of_decide_eq_true sameKey
    refine ⟨front ++ between, after, by rw [List.append_assoc], fun pair member same => ?_⟩
    exact List.filter_eq_nil_iff.mp none pair member (decide_eq_true same)
  · rintro ⟨before, after, rfl, noLater⟩
    have none : after.filter (·.1 = key) = [] :=
      List.filter_eq_nil_iff.mpr fun pair member same =>
        noLater pair member (of_decide_eq_true same)
    simp [none]

theorem mem_entries_insertAll
    {d : Dictionary V} {pairs : List (String × V)} {entry : String × V}
    (member : entry ∈ (d.insertAll pairs).entries) : entry ∈ d.entries ∨ entry ∈ pairs := by
  induction pairs generalizing d with
  | nil => exact .inl member
  | cons pair pairs inductionHypothesis =>
      rcases inductionHypothesis (insertAll_cons d pair pairs ▸ member) with inserted | later
      · rcases mem_insertEntry inserted with here | before
        · exact .inr (here ▸ List.mem_cons_self)
        · exact .inl before
      · exact .inr (List.mem_cons_of_mem pair later)

theorem mem_of_mem_ofList
    {pairs : List (String × V)} {entry : String × V} (member : entry ∈ (ofList pairs).entries) :
    entry ∈ pairs :=
  (mem_entries_insertAll member).resolve_left List.not_mem_nil

end Dictionary

end Gherkin
