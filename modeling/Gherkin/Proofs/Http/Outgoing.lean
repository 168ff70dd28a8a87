import Mathlib.Data.List.Sort
import Gherkin.Http.Message

/-!
Contract: which request goes out to an address, and when there is none.

Owns: the headers that a request carries, the request that belongs to a method, an address,
headers and a body, and the two reasons why there is none.
Does not own: how a client reads an address, when a request is sent
(`Gherkin.Run.HttpSteps`), and that its headers are well-formed
(`Gherkin.Proofs.Http.WellFormed`).
Main statement: `build_cases`.

Sorting by names is stable, so it is enough to look at the headers of one name at a time.
-/

set_option autoImplicit false

namespace Gherkin.Http.Request

/-- The values of the headers with this name, in order. -/
def under (name : String) (headers : List (String × String)) : List String :=
  (headers.filter fun header => header.1 = name).map Prod.snd

/-- What goes out under a name that is not set. -/
def defaults (hasBody : Bool) : List (String × String) :=
  ("accept", "*/*") :: if hasBody then [("content-type", "application/json")] else []

/-- The headers that go out in a request: in order of their names, those asked for as they
are, and defaults under the names that are not asked for. -/
structure Carries (credentials : Option Credentials) (headers : Dictionary String)
    (hasBody : Bool) (sent : List (String × String)) : Prop where
  sorted : sent.Pairwise fun a b => a.1 ≤ b.1
  set : ∀ name, under name (given credentials headers) ≠ [] →
    under name sent = under name (given credentials headers)
  unset : ∀ name, under name (given credentials headers) = [] →
    under name sent = under name (defaults hasBody)

/-- The request with a method to the address that a text stands for: it goes out with the
credentials of the address, with all headers set and with the body as compact JSON. -/
structure IsFor (request : Request) (client : Client) (method : Method) (address : String)
    (headers : Dictionary String) (body : Option Json.Value) : Prop where
  method_eq : request.method = method
  address_eq : request.address = address
  reads : client.url? address = some request.url
  sendable : client.canSend request.url = true
  wellFormed : ∀ header ∈ headers.toList, isHeader header = true
  carries : Carries (client.credentials? address) headers body.isSome request.headers
  body_eq : request.body = body.elim "" Json.Value.render

/-- Why no request goes out: the client cannot send to the address, or a header is
ill-formed. -/
inductive Unbuildable (client : Client) (address : String) (headers : Dictionary String) :
    Prop where
  | address (unsendable : ∀ url, client.url? address = some url → client.canSend url = false)
  | header {header : String × String} (member : header ∈ headers.toList)
      (illFormed : isHeader header = false)

/-! ## Headers of one name -/

theorem under_append (name : String) (first second : List (String × String)) :
    under name (first ++ second) = under name first ++ under name second := by
  simp [under]

/-- The order of names, as sorting decides it. -/
def namesInOrder (a b : String × String) : Bool :=
  a.1 ≤ b.1

theorem namesInOrder_trans (a b c : String × String) (first : namesInOrder a b = true)
    (second : namesInOrder b c = true) : namesInOrder a c = true :=
  decide_eq_true (String.le_trans (of_decide_eq_true first) (of_decide_eq_true second))

theorem namesInOrder_total (a b : String × String) :
    (namesInOrder a b || namesInOrder b a) = true := by
  rcases String.le_total a.1 b.1 with before | after
  · simp [namesInOrder, before]
  · simp [namesInOrder, after]

/-- Sorting keeps the headers of one name as they are. -/
theorem under_mergeSort (name : String) (headers : List (String × String)) :
    under name (headers.mergeSort namesInOrder) = under name headers := by
  let isNamed := fun header : String × String => decide (header.1 = name)
  have ordered : (headers.filter isNamed).Pairwise fun a b => namesInOrder a b = true := by
    apply List.pairwise_of_forall_mem_list
    intro a member b member'
    have sameName : a.1 = name := of_decide_eq_true (List.mem_filter.mp member).2
    have sameName' : b.1 = name := of_decide_eq_true (List.mem_filter.mp member').2
    simp [namesInOrder, sameName, sameName']
  have kept := List.sublist_mergeSort namesInOrder_trans namesInOrder_total ordered
    List.filter_sublist
  have filtered := kept.filter isNamed
  rw [List.filter_filter] at filtered
  have sameLength := ((List.mergeSort_perm headers namesInOrder).filter isNamed).length_eq
  have same : headers.filter isNamed = (headers.mergeSort namesInOrder).filter isNamed := by
    apply List.Sublist.eq_of_length
    · simpa using filtered
    · exact sameLength.symm
  exact congrArg (List.map Prod.snd) same.symm

theorem under_eq_nil_iff {name : String} {headers : List (String × String)} :
    under name headers = [] ↔ headers.any (·.1 == name) = false := by
  simp [under]

theorem under_defaultHeader
    (name : String) (headers : List (String × String)) (other value : String) :
    under name (defaultHeader headers other value) =
      if name = other ∧ under name headers = [] then [value] else [] := by
  by_cases same : name = other
  · subst same
    unfold defaultHeader
    split
    · next isSet =>
        have notEmpty : ¬ (name = name ∧ under name headers = []) := by
          intro unset
          rw [under_eq_nil_iff.mp unset.2] at isSet
          contradiction
        rw [if_neg notEmpty]
        rfl
    · next isUnset =>
        have isEmpty := under_eq_nil_iff.mpr (Bool.eq_false_iff.mpr isUnset)
        rw [if_pos ⟨rfl, isEmpty⟩]
        simp [under]
  · have different : other ≠ name := fun isName => same isName.symm
    unfold defaultHeader
    split <;> simp [under, same, different]

theorem under_defaults (name : String) (hasBody : Bool) :
    under name (defaults hasBody) =
      (if name = "accept" then ["*/*"] else []) ++
        if hasBody = true ∧ name = "content-type" then ["application/json"] else [] := by
  have behind : under name (defaults hasBody) =
      under name [("accept", "*/*")] ++
        under name (if hasBody then [("content-type", "application/json")] else []) :=
    under_append name [_] _
  rw [behind]
  congr 1
  · by_cases isAccept : name = "accept"
    · subst isAccept
      rfl
    · simp [under, isAccept, Ne.symm isAccept]
  · by_cases isType : name = "content-type"
    · subst isType
      cases hasBody <;> rfl
    · cases hasBody <;> simp [under, isType, Ne.symm isType]

theorem headersFor_carries (credentials : Option Credentials) (headers : Dictionary String)
    (hasBody : Bool) :
    Carries credentials headers hasBody (headersFor credentials headers hasBody) := by
  let asked := given credentials headers
  let accept := defaultHeader asked "accept" "*/*"
  let contentType :=
    if hasBody then defaultHeader asked "content-type" "application/json" else []
  have sent : headersFor credentials headers hasBody =
      (asked ++ accept ++ contentType).mergeSort namesInOrder := rfl
  have values : ∀ name, under name (headersFor credentials headers hasBody) =
      under name asked ++ under name accept ++ under name contentType := by
    intro name
    rw [sent, under_mergeSort, under_append, under_append]
  have typeValues : ∀ name, under name contentType =
      if hasBody = true ∧ name = "content-type" ∧ under name asked = [] then
        ["application/json"] else [] := by
    intro name
    cases hasBody with
    | false => rfl
    | true => simpa [contentType] using under_defaultHeader name asked _ _
  refine ⟨?_, ?_, ?_⟩
  · rw [sent]
    have ordered := List.pairwise_mergeSort namesInOrder_trans namesInOrder_total
      (asked ++ accept ++ contentType)
    exact ordered.imp fun inOrder => of_decide_eq_true inOrder
  · intro name isSet
    rw [values, typeValues, under_defaultHeader, if_neg fun unset => isSet unset.2,
      if_neg fun unset => isSet unset.2.2, List.append_nil, List.append_nil]
  · intro name isUnset
    have isUnset : under name asked = [] := isUnset
    rw [values, typeValues, under_defaultHeader, under_defaults]
    simp [isUnset]

/-! ## One way to carry headers -/

theorem under_cons (name : String) (header : String × String) (headers : List (String × String)) :
    under name (header :: headers) =
      if header.1 = name then header.2 :: under name headers else under name headers := by
  by_cases same : header.1 = name <;> simp [under, same]

theorem exists_mem_of_under {name : String} {headers : List (String × String)}
    (isSet : under name headers ≠ []) : ∃ header ∈ headers, header.1 = name := by
  simpa [under] using isSet

theorem under_head_ne_nil (header : String × String) (headers : List (String × String)) :
    under header.1 (header :: headers) ≠ [] := by
  simp [under_cons]

/-- The first name of headers in order comes before all that are set. -/
theorem head_le_of_under
    {header : String × String} {headers : List (String × String)}
    (sorted : (header :: headers).Pairwise fun a b => a.1 ≤ b.1) {name : String}
    (isSet : under name (header :: headers) ≠ []) : header.1 ≤ name := by
  obtain ⟨other, member, rfl⟩ := exists_mem_of_under isSet
  rcases List.mem_cons.mp member with rfl | later
  · exact String.le_refl _
  · exact (List.pairwise_cons.mp sorted).1 other later

/-- Headers in order are known from those of each name. -/
theorem eq_of_under
    {first second : List (String × String)}
    (sorted : first.Pairwise fun a b => a.1 ≤ b.1) (sorted' : second.Pairwise fun a b => a.1 ≤ b.1)
    (same : ∀ name, under name first = under name second) : first = second := by
  induction first generalizing second with
  | nil =>
      cases second with
      | nil => rfl
      | cons header second => exact absurd (same header.1).symm (under_head_ne_nil header second)
  | cons header first inductionHypothesis =>
      cases second with
      | nil => exact absurd (same header.1) (under_head_ne_nil header first)
      | cons header' second =>
          have before : header.1 ≤ header'.1 := by
            apply head_le_of_under sorted
            rw [same]
            exact under_head_ne_nil header' second
          have after : header'.1 ≤ header.1 := by
            apply head_le_of_under sorted'
            rw [← same]
            exact under_head_ne_nil header first
          have sameName : header.1 = header'.1 := String.le_antisymm before after
          have sameValues := same header.1
          rw [under_cons, under_cons, if_pos rfl, if_pos sameName.symm] at sameValues
          obtain ⟨sameValue, _⟩ := List.cons.inj sameValues
          have sameHeader : header = header' := Prod.ext sameName sameValue
          have sameLater : first = second := by
            apply inductionHypothesis sorted.of_cons sorted'.of_cons
            intro name
            have sameHere := same name
            rw [under_cons, under_cons, ← sameHeader] at sameHere
            split at sameHere
            · exact (List.cons.inj sameHere).2
            · exact sameHere
          rw [sameHeader, sameLater]

theorem Carries.unique
    {credentials : Option Credentials} {headers : Dictionary String} {hasBody : Bool}
    {first second : List (String × String)} (carries : Carries credentials headers hasBody first)
    (carries' : Carries credentials headers hasBody second) : first = second := by
  apply eq_of_under carries.sorted carries'.sorted
  intro name
  by_cases isSet : under name (given credentials headers) = []
  · rw [carries.unset name isSet, carries'.unset name isSet]
  · rw [carries.set name isSet, carries'.set name isSet]

variable {client : Client} {method : Method} {address : String} {headers : Dictionary String}
  {body : Option Json.Value}

/-- There is no second request for the same. -/
theorem IsFor.unique
    {first second : Request} (isFor : first.IsFor client method address headers body)
    (isFor' : second.IsFor client method address headers body) : first = second := by
  obtain ⟨sameMethod, sameAddress, reads, -, -, carries, sameBody⟩ := isFor
  obtain ⟨sameMethod', sameAddress', reads', -, -, carries', sameBody'⟩ := isFor'
  have sameUrl : first.url = second.url := by
    rw [reads] at reads'
    exact Option.some.inj reads'
  have sameHeaders := carries.unique carries'
  rw [← sameMethod'] at sameMethod
  rw [← sameAddress'] at sameAddress
  rw [← sameBody'] at sameBody
  cases first
  cases second
  congr

theorem IsFor.not_unbuildable
    {request : Request} (isFor : request.IsFor client method address headers body) :
    ¬ Unbuildable client address headers := by
  intro unbuildable
  cases unbuildable with
  | address unsendable =>
      have notSendable := unsendable request.url isFor.reads
      rw [isFor.sendable] at notSendable
      contradiction
  | header member illFormed =>
      rw [isFor.wellFormed _ member] at illFormed
      contradiction

/-! ## Building -/

/-- Building comes to the request for what was given, or to an error, and then to one for a
reason. -/
theorem build_cases
    (client : Client) (method : Method) (address : String) (headers : Dictionary String)
    (body : Option Json.Value) :
    (∃ request, build client method address headers body = .ok request ∧
        request.IsFor client method address headers body) ∨
      (∃ error, build client method address headers body = .error error) ∧
        Unbuildable client address headers := by
  cases reads : client.readAddress? address with
  | none =>
      have unread : client.url? address = none := by rw [Client.url?, reads]; rfl
      refine .inr ⟨⟨.malformed, by rw [build, reads]⟩, .address ?_⟩
      intro url isUrl
      rw [unread] at isUrl
      cases isUrl
  | some found =>
      have isUrl : client.url? address = some found.url := by rw [Client.url?, reads]; rfl
      have isCredentials : client.credentials? address = found.credentials := by
        rw [Client.credentials?, reads]
        rfl
      have unsendable (notSendable : client.canSend found.url = false) :
          Unbuildable client address headers := by
        refine .address fun url isUrl' => ?_
        rw [isUrl] at isUrl'
        rwa [← Option.some.inj isUrl']
      simp only [build, reads]
      split_ifs with bare illFormed unreachable
      · refine .inr ⟨⟨_, rfl⟩, unsendable ?_⟩
        simp [Client.canSend, Option.isNone_iff_eq_none.mp bare]
      · have notAll : ¬ ∀ header ∈ headers.toList, isHeader header = true := by
          simpa using illFormed
        push Not at notAll
        obtain ⟨header, member, notHeader⟩ := notAll
        exact .inr ⟨⟨_, rfl⟩, .header member (Bool.eq_false_iff.mpr notHeader)⟩
      · refine .inr ⟨⟨_, rfl⟩, unsendable ?_⟩
        simpa [Client.canSend] using fun _ => unreachable
      · refine .inl ⟨_, rfl, rfl, rfl, isUrl, ?_, ?_, ?_, ?_⟩
        · have leads : found.url.authority.isSome = true := by
            simpa [Option.isSome_iff_ne_none] using bare
          have reached : client.reaches found.url = true := by simpa using unreachable
          rw [Client.canSend, leads, reached]
          rfl
        · simpa using illFormed
        · rw [isCredentials]
          exact headersFor_carries found.credentials headers _
        · cases body <;> rfl

/-- What is built is the request for what was given. -/
theorem build_isFor
    {request : Request} (built : build client method address headers body = .ok request) :
    request.IsFor client method address headers body := by
  rcases build_cases client method address headers body with ⟨_, builds, isFor⟩ | ⟨refused, -⟩
  · rw [builds] at built
    exact Except.ok.inj built ▸ isFor
  · obtain ⟨error, refused⟩ := refused
    rw [refused] at built
    contradiction

theorem unbuildable_of_build
    {error : SendError} (refused : build client method address headers body = .error error) :
    Unbuildable client address headers := by
  rcases build_cases client method address headers body with ⟨_, builds, _⟩ | ⟨_, unbuildable⟩
  · rw [builds] at refused
    contradiction
  · exact unbuildable

end Gherkin.Http.Request
