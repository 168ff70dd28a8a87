import Gherkin.Http.Network
import Gherkin.Proofs.Dictionary
import Gherkin.Proofs.Http.Outgoing
import Gherkin.World

/-!
Contract: what goes out under the name of a header that was set several times.

Owns: headers set one after the other, the spellings under which a name was set, and the
values that a request carries for the name.
Does not own: which headers a request carries (`Gherkin.Proofs.Http.Outgoing`).
Main statement: `World.send_spellings`.

Letter case plays no part in the name of a header that goes out, but a header is set in the
place of an earlier one only if both are spelled alike. The header of the credentials that an
address names goes out besides those that are set.
-/

set_option autoImplicit false

namespace Gherkin

open Http

/-! ## Headers set one after the other -/

def World.setAll (world : World) (sets : List (String × String)) : World :=
  sets.foldl (fun world set => world.setHeader set.1 set.2) world

theorem World.setAll_eq (world : World) (sets : List (String × String)) :
    world.setAll sets = { world with headers := world.headers.insertAll sets } := by
  induction sets generalizing world with
  | nil => rfl
  | cons set sets inductionHypothesis => exact inductionHypothesis (world.setHeader set.1 set.2)

/-- Under exactly this name the value was set last. -/
def SetLast (sets : List (String × String)) (name value : String) : Prop :=
  ∃ before after, sets = before ++ (name, value) :: after ∧ ∀ set ∈ after, set.1 ≠ name

theorem exists_setLast
    {sets : List (String × String)} {set : String × String} (member : set ∈ sets) :
    ∃ value, SetLast sets set.1 value := by
  have isSet : set ∈ sets.filter (·.1 = set.1) := by simp [member]
  obtain ⟨last, isLast⟩ :=
    Option.isSome_iff_exists.mp (List.getLast?_isSome.mpr (List.ne_nil_of_mem isSet))
  have found : (Dictionary.ofList sets).get? set.1 = some last.2 := by
    rw [Dictionary.get?_ofList, isLast]
    rfl
  have isEntry := Dictionary.get?_eq_some_iff.mp found
  exact ⟨last.2, Dictionary.mem_entries_ofList_iff.mp isEntry⟩

/-! ## Spellings of a name -/

/-- The spellings under which a name was set, in code-point order, with the value that was
set last under each. -/
structure Spellings
    (sets : List (String × String)) (name : String) (entries : List (String × String)) :
    Prop where
  increase : KeysIncrease entries
  mem_iff : ∀ spelling value, (spelling, value) ∈ entries ↔
    lowerCase spelling = name ∧ SetLast sets spelling value

/-- Headers that were set are asked for under each of their spellings. -/
theorem exists_spellings (sets : List (String × String)) (name : String) :
    ∃ entries, Spellings sets name entries ∧
      Request.under name (Request.given none (.ofList sets)) = entries.map Prod.snd := by
  let isNamed := fun header : String × String => decide (lowerCase header.1 = name)
  refine ⟨(Dictionary.ofList sets).entries.filter isNamed, ⟨?_, ?_⟩, ?_⟩
  · exact (Dictionary.ofList sets).keysIncrease.sublist List.filter_sublist
  · intro spelling value
    rw [List.mem_filter, Dictionary.mem_entries_ofList_iff, and_comm]
    simp [isNamed, SetLast]
  · show Request.under name
      ((Dictionary.ofList sets).entries.map fun header => (lowerCase header.1, header.2)) = _
    rw [Request.under, List.filter_map, List.map_map]
    rfl

/-- The values that credentials add under a name. -/
def addedUnder (name : String) (credentials : Option Credentials) : List String :=
  Request.under name (credentials.map Credentials.header).toList

/-- The credentials come before what is set. -/
theorem under_given (credentials : Option Credentials) (headers : Dictionary String)
    (name : String) :
    Request.under name (Request.given credentials headers) =
      addedUnder name credentials ++ Request.under name (Request.given none headers) := by
  unfold Request.given
  rw [Request.under_append]
  rfl

theorem addedUnder_eq_nil_iff {name : String} {credentials : Option Credentials} :
    addedUnder name credentials = [] ↔ (name = "authorization" → credentials = none) := by
  cases credentials with
  | none => simp [addedUnder, Request.under]
  | some credentials =>
      have isName : credentials.header.1 = "authorization" := rfl
      by_cases named : name = "authorization"
      · simp [addedUnder, Request.under, isName, named]
      · simp [addedUnder, Request.under, isName, named, Ne.symm named]

variable {before after : List (String × String)} {name value : String}
  {entries : List (String × String)}

theorem Spellings.mem_last
    (spellings : Spellings (before ++ (name, value) :: after) (lowerCase name) entries)
    (isLast : ∀ set ∈ after, lowerCase set.1 ≠ lowerCase name) : (name, value) ∈ entries := by
  refine (spellings.mem_iff name value).mpr ⟨rfl, before, after, rfl, ?_⟩
  intro set member same
  exact isLast set member (congrArg lowerCase same)

/-- Behind some values there is one value for a name just when there are none before, and the
name was spelled in one way; then it is the one set last. -/
theorem Spellings.values_eq_iff
    (spellings : Spellings (before ++ (name, value) :: after) (lowerCase name) entries)
    (isLast : ∀ set ∈ after, lowerCase set.1 ≠ lowerCase name) (added : List String) :
    added ++ entries.map Prod.snd = [value] ↔
      added = [] ∧ ∀ set ∈ before ++ (name, value) :: after,
        lowerCase set.1 = lowerCase name → set.1 = name := by
  have isEntry := spellings.mem_last isLast
  constructor
  · intro oneValue
    have some_value : entries.map Prod.snd ≠ [] :=
      List.ne_nil_of_mem (List.mem_map_of_mem isEntry)
    rcases List.append_eq_singleton_iff.mp oneValue with ⟨none, oneValue⟩ | ⟨-, noValue⟩
    · refine ⟨none, ?_⟩
      intro set member sameName
      obtain ⟨entry, rfl, -⟩ := List.map_eq_singleton_iff.mp oneValue
      obtain ⟨other, setLast⟩ := exists_setLast member
      have isOther := (spellings.mem_iff set.1 other).mpr ⟨sameName, setLast⟩
      have same := (List.mem_singleton.mp isOther).trans (List.mem_singleton.mp isEntry).symm
      exact congrArg Prod.fst same
    · exact absurd noValue some_value
  · rintro ⟨rfl, oneSpelling⟩
    have sameKey : ∀ entry ∈ entries, entry.1 = name := by
      intro entry member
      obtain ⟨sameName, front, back, split, -⟩ := (spellings.mem_iff entry.1 entry.2).mp member
      exact oneSpelling entry (by simp [split]) sameName
    rw [spellings.increase.eq_singleton isEntry sameKey]
    rfl

/-! ## Requests -/

theorem World.sent_of_build
    {world : World} {method : Method} {path : String} {body : Option Json.Value}
    {request : Request}
    (built : Request.build world.transport.client method (world.urlFor path) world.headers body =
      .ok request) :
    (world.send method path body).2.sent = world.sent ++ [request] := by
  unfold send
  rw [built]
  simp only
  split <;> rfl

/-- With headers that are well-formed, a request is built for each address that the client
can send to. -/
theorem exists_build
    {sets : List (String × String)} (valid : ∀ set ∈ sets, Request.isHeader set = true)
    {client : Client} {address : String} {url : Url} (reads : client.url? address = some url)
    (sendable : client.canSend url = true) (method : Method) (body : Option Json.Value) :
    ∃ request, Request.build client method address (.ofList sets) body = .ok request := by
  cases built : Request.build client method address (.ofList sets) body with
  | ok request => exact ⟨request, rfl⟩
  | error error =>
      cases Request.unbuildable_of_build built with
      | address unsendable =>
          rw [unsendable url reads] at sendable
          exact absurd sendable Bool.false_ne_true
      | header member illFormed =>
          rw [valid _ (Dictionary.mem_of_mem_ofList member)] at illFormed
          exact absurd illFormed.symm Bool.false_ne_true

/-- The request that is sent carries the credentials of the address and the headers set
before. -/
theorem World.exists_sent
    {world : World} (fresh : world.headers = ∅) {sets : List (String × String)}
    (valid : ∀ set ∈ sets, Request.isHeader set = true) {path : String} {url : Url}
    (reads : world.transport.client.url? (world.urlFor path) = some url)
    (sendable : world.transport.client.canSend url = true) (method : Method)
    (body : Option Json.Value) :
    ∃ request, ((world.setAll sets).send method path body).2.sent = world.sent ++ [request] ∧
      Request.Carries (world.transport.client.credentials? (world.urlFor path)) (.ofList sets)
        body.isSome request.headers := by
  obtain ⟨request, built⟩ := exists_build valid reads sendable method body
  have isSet : world.setAll sets = { world with headers := .ofList sets } := by
    rw [setAll_eq, fresh]
    rfl
  rw [isSet]
  exact ⟨request, sent_of_build built, (Request.build_isFor built).carries⟩

/-- A request carries, under the name of each header that was set, what was set last under
each spelling of the name, and before that the credentials of the address if they go out
under this name. So it carries the one value that was set last just when the name was always
spelled alike and there are no such credentials. -/
theorem World.send_spellings
    {world : World} (fresh : world.headers = ∅) {sets : List (String × String)}
    (valid : ∀ set ∈ sets, Request.isHeader set = true) {path : String} {url : Url}
    (reads : world.transport.client.url? (world.urlFor path) = some url)
    (sendable : world.transport.client.canSend url = true) (method : Method)
    (body : Option Json.Value) :
    let credentials := world.transport.client.credentials? (world.urlFor path)
    ∃ request, ((world.setAll sets).send method path body).2.sent = world.sent ++ [request] ∧
      ∀ before name value after, sets = before ++ (name, value) :: after →
        (∀ set ∈ after, lowerCase set.1 ≠ lowerCase name) →
          (∃ entries, Spellings sets (lowerCase name) entries ∧
            Request.under (lowerCase name) request.headers =
              addedUnder (lowerCase name) credentials ++ entries.map Prod.snd) ∧
          (Request.under (lowerCase name) request.headers = [value] ↔
            (lowerCase name = "authorization" → credentials = none) ∧
              ∀ set ∈ sets, lowerCase set.1 = lowerCase name → set.1 = name) := by
  intro credentials
  obtain ⟨request, sent, carries⟩ := exists_sent fresh valid reads sendable method body
  refine ⟨request, sent, ?_⟩
  rintro before name value after rfl isLast
  obtain ⟨entries, spellings, values⟩ :=
    exists_spellings (before ++ (name, value) :: after) (lowerCase name)
  have given : Request.under (lowerCase name)
      (Request.given credentials (.ofList (before ++ (name, value) :: after))) =
        addedUnder (lowerCase name) credentials ++ entries.map Prod.snd := by
    rw [under_given, values]
  have isGiven : addedUnder (lowerCase name) credentials ++ entries.map Prod.snd ≠ [] :=
    List.append_ne_nil_of_right_ne_nil _
      (List.ne_nil_of_mem (List.mem_map_of_mem (spellings.mem_last isLast)))
  rw [carries.set _ (given ▸ isGiven), given, ← addedUnder_eq_nil_iff]
  exact ⟨⟨entries, spellings, rfl⟩, spellings.values_eq_iff isLast _⟩

/-- A header set twice, with another one in between. -/
theorem World.send_spellings_of_one :
    let world := World.start .empty (.plain fun _ => .unanswered)
    let sets := [("X-Key", "1"), ("Accept", "text/plain"), ("X-Key", "2")]
    (∀ set ∈ sets, Request.isHeader set = true) ∧
      (Client.plain.url? (world.urlFor "http://h.test/")).any Client.plain.canSend = true ∧
      ∃ request, ((world.setAll sets).send .get "http://h.test/" none).2.sent = [request] ∧
        Request.under "x-key" request.headers = ["2"] := by
  intro world sets
  have valid : ∀ set ∈ sets, Request.isHeader set = true := by decide +kernel
  have sendable :
      (Client.plain.url? (world.urlFor "http://h.test/")).any Client.plain.canSend = true := by
    decide +kernel
  obtain ⟨url, reads, canSend⟩ := (Option.any_eq_true _ _).mp sendable
  obtain ⟨request, sent, values⟩ := @World.send_spellings world rfl sets valid _ url reads
    canSend .get none
  have isName : lowerCase "X-Key" = "x-key" := by decide
  have oneSpelling : ∀ set ∈ sets, lowerCase set.1 = lowerCase "X-Key" → set.1 = "X-Key" := by
    decide
  obtain ⟨-, once⟩ := values [("X-Key", "1"), ("Accept", "text/plain")] "X-Key" "2" [] rfl
    (List.forall_mem_nil _)
  rw [isName] at once oneSpelling
  exact ⟨valid, sendable, request, sent, once.mpr ⟨by simp, oneSpelling⟩⟩

/-- A header set twice goes out twice if its name is spelled in another letter case. -/
theorem World.send_of_two_spellings :
    let world := World.start .empty (.plain fun _ => .unanswered)
    let sets := [("X-Key", "1"), ("x-key", "2")]
    (∀ set ∈ sets, Request.isHeader set = true) ∧
      (Client.plain.url? (world.urlFor "http://h.test/")).any Client.plain.canSend = true ∧
      ∃ request, ((world.setAll sets).send .get "http://h.test/" none).2.sent = [request] ∧
        Request.under "x-key" request.headers = ["1", "2"] := by
  intro world sets
  have valid : ∀ set ∈ sets, Request.isHeader set = true := by decide +kernel
  have sendable :
      (Client.plain.url? (world.urlFor "http://h.test/")).any Client.plain.canSend = true := by
    decide +kernel
  obtain ⟨url, reads, canSend⟩ := (Option.any_eq_true _ _).mp sendable
  obtain ⟨request, sent, carries⟩ := @World.exists_sent world rfl sets valid _ url reads
    canSend .get none
  let credentials := Client.plain.credentials? (world.urlFor "http://h.test/")
  have added : addedUnder "x-key" credentials = [] := addedUnder_eq_nil_iff.mpr (by simp)
  have given : Request.under "x-key" (Request.given credentials (.ofList sets)) = ["1", "2"] := by
    rw [under_given, added]
    decide +kernel
  have isGiven : Request.under "x-key" (Request.given credentials (.ofList sets)) ≠ [] := by
    simp [given]
  have carried := carries.set "x-key" isGiven
  exact ⟨valid, sendable, request, sent, carried.trans given⟩

end Gherkin
