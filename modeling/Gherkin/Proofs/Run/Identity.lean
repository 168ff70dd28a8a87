import Mathlib.Data.List.Nodup
import Gherkin.Proofs.Run.Chain

/-!
Contract: how far the ids of results tell scenarios apart.

Owns: the names that a result carries, when two ids are the same although the names differ,
and what that means for a whole run.
Does not own: which results a run has (`Gherkin.Proofs.Run.Chain`).
Main statement: `run_ids`.

An id is two names with a hyphen in between. Names may hold hyphens themselves, so one id
can be cut into names in several places.
-/

set_option autoImplicit false

namespace Gherkin

variable {W : Type}

/-! ## Ids as joined names -/

/-- The id of a result can be cut at a later hyphen, and is then the id of the other one:
what stands between the two hyphens belongs to the scenario of the first result and to the
feature of the second. -/
def ScenarioResult.RunsInto (first second : ScenarioResult) : Prop :=
  ∃ between, second.feature = first.feature ++ "-" ++ between ∧
    first.scenario = between ++ "-" ++ second.scenario

theorem ScenarioResult.RunsInto.names_ne
    {first second : ScenarioResult} (runs : first.RunsInto second) :
    first.feature ≠ second.feature ∧ first.scenario ≠ second.scenario := by
  obtain ⟨between, feature, scenario⟩ := runs
  have hyphen : "-".length = 1 := rfl
  constructor
  · intro same
    have lengths := congrArg String.length (same.trans feature)
    rw [String.length_append, String.length_append, hyphen] at lengths
    omega
  · intro same
    have lengths := congrArg String.length (same.symm.trans scenario)
    rw [String.length_append, String.length_append, hyphen] at lengths
    omega

/-- Where one of two equal joins is cut no earlier than the other, it is cut at the same
hyphen or at a later one. -/
theorem cut_later
    {feature scenario other otherScenario : String} {more : List Char}
    (front : other.toList = feature.toList ++ more)
    (back : '-' :: scenario.toList = more ++ '-' :: otherScenario.toList) :
    (feature = other ∧ scenario = otherScenario) ∨
      ∃ between, other = feature ++ "-" ++ between ∧
        scenario = between ++ "-" ++ otherScenario := by
  have hyphen : "-".toList = ['-'] := rfl
  cases more with
  | nil =>
      have sameScenario := (List.cons.inj back).2
      rw [List.append_nil] at front
      exact .inl ⟨(String.toList_inj.mp front).symm, String.toList_inj.mp sameScenario⟩
  | cons c between =>
      obtain ⟨rfl, rest⟩ := List.cons.inj back
      refine .inr ⟨String.ofList between, ?_, ?_⟩
      · apply String.toList_inj.mp
        simp [front, hyphen]
      · apply String.toList_inj.mp
        simp [rest, hyphen]

/-- Two joins are the same if they are cut at the same hyphen, or one of them at a later
hyphen than the other. -/
theorem join_eq_join_iff {feature scenario other otherScenario : String} :
    feature ++ "-" ++ scenario = other ++ "-" ++ otherScenario ↔
      (feature = other ∧ scenario = otherScenario) ∨
      (∃ between, other = feature ++ "-" ++ between ∧
        scenario = between ++ "-" ++ otherScenario) ∨
      ∃ between, feature = other ++ "-" ++ between ∧
        otherScenario = between ++ "-" ++ scenario := by
  constructor
  · intro same
    have hyphen : "-".toList = ['-'] := rfl
    have lists := congrArg String.toList same
    simp only [String.toList_append, hyphen, List.append_assoc, List.singleton_append] at lists
    rcases List.append_eq_append_iff.mp lists with ⟨more, front, back⟩ | ⟨more, front, back⟩
    · exact (cut_later front back).imp_right .inl
    · rcases cut_later front back with ⟨rfl, rfl⟩ | later
      · exact .inl ⟨rfl, rfl⟩
      · exact .inr (.inr later)
  · rintro (⟨rfl, rfl⟩ | ⟨between, rfl, rfl⟩ | ⟨between, rfl, rfl⟩)
    · rfl
    · simp only [String.append_assoc]
    · simp only [String.append_assoc]

/-! ## Ids of results -/

/-- A result carries the names of its feature and its scenario, and the id made of them. -/
structure ScenarioResult.Names (result : ScenarioResult) (named : String × String) : Prop where
  feature : result.feature = named.1
  scenario : result.scenario = named.2
  id : result.id = named.1 ++ "-" ++ named.2

theorem Started.names
    (registry : Registry (Action W)) (started : Started W) :
    (started.result registry).Names (started.feature, started.scenario.name) := by
  obtain ⟨count, failure, left, course⟩ :=
    exists_course registry started.scenario.steps started.world
  unfold Started.result
  rw [course.run_eq started.watch started.feature]
  exact ⟨rfl, rfl, rfl⟩

theorem ScenarioResult.id_eq_id_iff
    {first second : ScenarioResult} {named otherNamed : String × String}
    (names : first.Names named) (otherNames : second.Names otherNamed)
    (distinct : named ≠ otherNamed) :
    first.id = second.id ↔ first.RunsInto second ∨ second.RunsInto first := by
  have notBoth : ¬ (named.1 = otherNamed.1 ∧ named.2 = otherNamed.2) :=
    fun same => distinct (Prod.ext same.1 same.2)
  rw [names.id, otherNames.id, join_eq_join_iff, or_iff_right notBoth, RunsInto, RunsInto,
    names.feature, names.scenario, otherNames.feature, otherNames.scenario]

theorem ScenarioResult.RunsInto.id_eq_id
    {first second : ScenarioResult} (runs : first.RunsInto second)
    {named otherNamed : String × String} (names : first.Names named)
    (otherNames : second.Names otherNamed) : first.id = second.id := by
  rw [names.id, otherNames.id, ← names.feature, ← names.scenario, ← otherNames.feature,
    ← otherNames.scenario]
  exact join_eq_join_iff.mpr (.inr (.inl runs))

/-- Results whose ids are the same only where one runs into the other have distinct ids just
when none runs into another. -/
theorem ScenarioResult.nodup_ids_iff
    {results : List ScenarioResult} (named : ∀ result ∈ results, ∃ names, result.Names names)
    (pairs : results.Pairwise fun first second =>
      first.id = second.id ↔ first.RunsInto second ∨ second.RunsInto first) :
    (results.map id).Nodup ↔
      ∀ first ∈ results, ∀ second ∈ results, ¬ first.RunsInto second := by
  constructor
  · intro distinctIds first isFirst second isSecond runs
    obtain ⟨firstNames, names⟩ := named first isFirst
    obtain ⟨secondNames, otherNames⟩ := named second isSecond
    have sameId := runs.id_eq_id names otherNames
    have same := List.inj_on_of_nodup_map distinctIds isFirst isSecond sameId
    exact runs.names_ne.1 (congrArg ScenarioResult.feature same)
  · intro apart
    rw [List.Nodup, List.pairwise_map]
    refine pairs.imp_of_mem fun {first second} isFirst isSecond same sameId => ?_
    rcases same.mp sameId with runs | runs
    · exact apart first isFirst second isSecond runs
    · exact apart second isSecond first isFirst runs

/-! ## Ids of a run -/

/-- The names of all scenarios of some features, each with that of its feature, in source
order. -/
def namesOf (features : List (String × String)) : List (String × String) :=
  (scenariosOf features).map fun named => (named.1, named.2.name)

theorem namesOf_eq (features : List (String × String)) :
    namesOf features = features.flatMap fun feature =>
      ((Scenario.ofText feature.2).map Scenario.name).map (feature.1, ·) := by
  simp only [namesOf, scenariosOf, List.map_flatMap, List.map_map]
  rfl

theorem nodup_namesOf
    {features : List (String × String)} (distinctFeatures : (features.map Prod.fst).Nodup)
    (distinctScenarios : ∀ feature ∈ features,
      ((Scenario.ofText feature.2).map Scenario.name).Nodup) :
    (namesOf features).Nodup := by
  rw [namesOf_eq, List.nodup_flatMap]
  constructor
  · intro feature member
    exact (distinctScenarios feature member).map fun _ _ same => (Prod.mk.inj same).2
  · rw [List.Nodup, List.pairwise_map] at distinctFeatures
    refine distinctFeatures.imp fun {feature other} different => ?_
    intro named member otherMember
    obtain ⟨name, -, rfl⟩ := List.mem_map.mp member
    obtain ⟨otherName, -, same⟩ := List.mem_map.mp otherMember
    exact different (congrArg Prod.fst same).symm

/-- Where features have distinct names, and the scenarios of each feature have, too, results
carry the names of the scenarios, which are distinct as pairs. Two of them have the same id
just when one id runs into the other, which takes another feature and a scenario of another
name. -/
theorem run_ids
    {library : StepLibrary (Action W)} {registry : Registry (Action W)}
    (registered : library {} = .ok registry) {features : List (String × String)}
    (distinctFeatures : (features.map Prod.fst).Nodup)
    (distinctScenarios : ∀ feature ∈ features,
      ((Scenario.ofText feature.2).map Scenario.name).Nodup)
    (clock : Clock) (world : W) :
    ∃ results left, library.run clock features world = (.ok results, left) ∧
      List.Forall₂ ScenarioResult.Names results (namesOf features) ∧
      (namesOf features).Nodup ∧
      results.Pairwise (fun first second =>
        (first.feature = second.feature ∨ first.scenario = second.scenario →
          first.id ≠ second.id) ∧
        (first.id = second.id ↔ first.RunsInto second ∨ second.RunsInto first)) ∧
      ((results.map ScenarioResult.id).Nodup ↔
        ∀ first ∈ results, ∀ second ∈ results, ¬ first.RunsInto second) := by
  obtain ⟨chain, left, -, names, ran⟩ :=
    StepLibrary.exists_chain_run registered clock features world
  let results := chain.map (Started.result registry)
  have isNames : chain.map (fun started => (started.feature, started.scenario.name)) =
      namesOf features := by
    rw [namesOf, ← names, List.map_map]
    rfl
  have distinctNames := nodup_namesOf distinctFeatures distinctScenarios
  have distinct := distinctNames
  rw [← isNames, List.Nodup, List.pairwise_map] at distinct
  have pairs : results.Pairwise (fun first second =>
      first.id = second.id ↔ first.RunsInto second ∨ second.RunsInto first) := by
    rw [List.pairwise_map]
    exact distinct.imp fun {first second} different =>
      ScenarioResult.id_eq_id_iff (first.names registry) (second.names registry)
        different
  refine ⟨results, left, ran, ?_, distinctNames, ?_, ?_⟩
  · rw [← isNames, List.forall₂_map_left_iff, List.forall₂_map_right_iff]
    exact List.forall₂_same.mpr fun started _ => started.names registry
  · refine pairs.imp fun {first second} same => ⟨?_, same⟩
    intro sameName sameId
    have different : first.feature ≠ second.feature ∧ first.scenario ≠ second.scenario := by
      rcases same.mp sameId with runs | runs
      · exact runs.names_ne
      · exact runs.names_ne.imp Ne.symm Ne.symm
    exact sameName.elim different.1 different.2
  · apply ScenarioResult.nodup_ids_iff _ pairs
    intro result member
    obtain ⟨started, -, rfl⟩ := List.mem_map.mp member
    exact ⟨_, started.names registry⟩

/-- Names with hyphens, and a name that two features share. -/
theorem run_ids_of_hyphens :
    let features := [("a-b", "Scenario: c\nScenario: b-c"), ("a", "Scenario: c\nScenario: b")]
    let library : StepLibrary (Action Unit) := .none
    (features.map Prod.fst).Nodup ∧
      (∀ feature ∈ features, ((Scenario.ofText feature.2).map Scenario.name).Nodup) ∧
      ∃ results left, library.run .epoch features () = (.ok results, left) ∧
        List.Forall₂ ScenarioResult.Names results
          [("a-b", "c"), ("a-b", "b-c"), ("a", "c"), ("a", "b")] ∧
        ((results.map ScenarioResult.id).Nodup ↔
          ∀ first ∈ results, ∀ second ∈ results, ¬ first.RunsInto second) := by
  intro features library
  have distinctFeatures : (features.map Prod.fst).Nodup := by decide
  have distinctScenarios : ∀ feature ∈ features,
      ((Scenario.ofText feature.2).map Scenario.name).Nodup := by
    decide +kernel
  have isNames : namesOf features =
      [("a-b", "c"), ("a-b", "b-c"), ("a", "c"), ("a", "b")] := by
    decide +kernel
  have registered : library {} = .ok {} := rfl
  obtain ⟨results, left, ran, names, -, -, apart⟩ :=
    run_ids registered distinctFeatures distinctScenarios .epoch ()
  rw [isNames] at names
  exact ⟨distinctFeatures, distinctScenarios, results, left, ran, names, apart⟩

/-- Two scenarios of distinct names, in features of distinct names, that share their id. -/
theorem same_id_of_distinct_names :
    let features := [("a", "Scenario: b-c"), ("a-b", "Scenario: c")]
    let library : StepLibrary (Action Unit) := .none
    (features.map Prod.fst).Nodup ∧
      (∀ feature ∈ features, ((Scenario.ofText feature.2).map Scenario.name).Nodup) ∧
      ∃ results, library.run .epoch features () = (.ok results, ()) ∧
        results.map ScenarioResult.id = ["a-b-c", "a-b-c"] := by
  intro features library
  have distinctFeatures : (features.map Prod.fst).Nodup := by decide
  have distinctScenarios : ∀ feature ∈ features,
      ((Scenario.ofText feature.2).map Scenario.name).Nodup := by
    decide +kernel
  have registered : library {} = .ok {} := rfl
  let session : Session Unit := Session.runFeatures { world := (), registry := {} } features
  have ran : library.run .epoch features () = (.ok session.results, ()) :=
    StepLibrary.run_of_ok registered .epoch features ()
  have ids : session.results.map ScenarioResult.id = ["a-b-c", "a-b-c"] := by decide +kernel
  exact ⟨distinctFeatures, distinctScenarios, session.results, ran, ids⟩

end Gherkin
