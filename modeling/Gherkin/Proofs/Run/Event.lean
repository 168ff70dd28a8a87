import Gherkin.Proofs.Http.Outgoing
import Gherkin.Proofs.Run.Calling
import Gherkin.Proofs.Run.Overlap

/-!
Contract: what an executed step does to the conversation with a server.

Owns: what a step asks for as the sentence that it is, the one event that it comes to, and
that running a step does what its event says and nothing else.
Does not own: the running of several steps (`Gherkin.Proofs.Run.History`), and which
request belongs to an address (`Gherkin.Proofs.Http.Outgoing`).
Main statements: `exists_event` and `Occurs.unique`.

The twelve sentences have few roles: one sets a header, six send a request, which differ in
where the method comes from and whether there is a body, and all behind `Then` only look.
-/

set_option autoImplicit false

namespace Gherkin.HttpSteps

open Http

/-! ## What a step asks for -/

/-- What a sentence asks for: to set a header, to send a request, with or without a body,
or to look. A method that is named by a word need not be one. -/
inductive Command where
  | set (name value : String)
  | send (method path : String) (hasBody : Bool)
  | look
deriving DecidableEq

/-- The method of the sentence in a table of methods with their sentences. -/
def methodIn (table : List (String × String)) (pattern : String) : Option String :=
  (table.find? (·.2 == pattern)).map Prod.fst

/-- What the sentence of a pattern asks for with these values. -/
def Command.ofSentence (pattern : String) : List Argument → Command
  | [.text path] =>
      match methodIn withoutBody pattern, methodIn withBody pattern with
      | some method, _ => .send method path false
      | none, some method => .send method path true
      | none, none => .look
  | [.text first, .text second] =>
      if pattern = "I set header {string} to {string}" then .set first second
      else if pattern = "I send a {word} request to {string}" then
        .send (upperCase first) second false
      else .look
  | _ => .look

/-- What a step asks for, if it is one of the sentences. -/
def commandOf? (step : Step) : Option Command :=
  ((Registry.ofEntries entries).find? step.kind step.text).map fun found =>
    .ofSentence found.definition.pattern.text found.arguments

/-- The method, the path and the body with which a step sends a request. The body is what
the doc string denotes as JSON. -/
inductive Asks (step : Step) : Method → String → Option Json.Value → Prop where
  | withoutBody {method : Method} {path : String}
      (sends : commandOf? step = some (.send method.name path false)) :
      Asks step method path none
  | withBody {method : Method} {path doc : String} {value : Json.Value}
      (sends : commandOf? step = some (.send method.name path true))
      (hasDoc : step.docString = some doc)
      (isJson : Json.readDocument (Text.trimmed doc) = .ok value) :
      Asks step method path (some value)

/-- Why a step that sends hands over no request. -/
inductive Refused (step : Step) (world : World) : Prop where
  | method {name path : String} {hasBody : Bool}
      (sends : commandOf? step = some (.send name path hasBody))
      (invalid : isName name.toList = false)
  | noDocString {name path : String} (sends : commandOf? step = some (.send name path true))
      (missing : step.docString = none)
  | notJson {name path doc : String} {fault : Json.Fault}
      (sends : commandOf? step = some (.send name path true))
      (hasDoc : step.docString = some doc)
      (isFault : Json.readDocument (Text.trimmed doc) = .error fault)
  | unbuildable {method : Method} {path : String} {body : Option Json.Value}
      (asks : Asks step method path body)
      (unbuildable : Request.Unbuildable world.transport.client (world.urlFor path) world.headers)

/-! ## Events -/

/-- What a step did: it set a header, it sent a request that was answered in some way, or
neither. -/
inductive Event where
  | set (name value : String)
  | sent (request : Request) (answer : Exchange)
  | nothing

/-- The step has this event, and fails with this error if it does. -/
inductive Occurs (step : Step) (world : World) : Option StepError → Event → Prop where
  | set {name value : String} (sets : commandOf? step = some (.set name value)) :
      Occurs step world none (.set name value)
  | delivered {method : Method} {path : String} {body : Option Json.Value}
      {request : Request} {raw : RawResponse} (asks : Asks step method path body)
      (isFor : request.IsFor world.transport.client method (world.urlFor path) world.headers body)
      (answers : world.transport.answer request = .delivered raw) :
      Occurs step world none (.sent request (.delivered raw))
  | lost {method : Method} {path : String} {body : Option Json.Value}
      {request : Request} {error : StepError} (asks : Asks step method path body)
      (isFor : request.IsFor world.transport.client method (world.urlFor path) world.headers body)
      (fails : ∀ raw, world.transport.answer request ≠ .delivered raw) :
      Occurs step world (some error) (.sent request (world.transport.answer request))
  | refused {error : StepError} (refused : Refused step world) :
      Occurs step world (some error) .nothing
  | looked {error : Option StepError} (looks : commandOf? step = some .look) :
      Occurs step world error .nothing
  | unmatched {error : StepError} (missing : commandOf? step = none) :
      Occurs step world (some error) .nothing

namespace Event

def request? : Event → Option Request
  | .sent request _ => some request
  | _ => none

/-- The response that is kept: the one that was delivered. -/
def response? : Event → Option Response
  | .sent _ (.delivered raw) => some (.ofRaw raw)
  | _ => none

def valueOf? (name : String) : Event → Option String
  | .set other value => if other = name then some value else none
  | _ => none

/-- The world behind an event. -/
def apply (event : Event) (world : World) : World :=
  match event with
  | .set name value => { world with headers := world.headers.insert name value }
  | .sent request answer =>
      { world with
        response := (Event.sent request answer).response?.or world.response
        sent := world.sent ++ [request] }
  | .nothing => world

end Event

/-! ## The roles of the sentences -/

def looking : List String :=
  [
    "the response status code should be {int}",
    "the response should have the following data:",
    "the response should contain {string} with value {string}",
    "the response should contain {string}",
    "the response header {string} should be {string}"
  ]

inductive Role : Entry (Action World) → Prop where
  | setHeader : Role ⟨.context, "I set header {string} to {string}", setHeader⟩
  | withoutBody {method : Method} {pattern : String}
      (member : (method.name, pattern) ∈ withoutBody) :
      Role ⟨.action, pattern, sendWithoutBody method⟩
  | withBody {method : Method} {pattern : String}
      (member : (method.name, pattern) ∈ withBody) :
      Role ⟨.action, pattern, sendWithBody method⟩
  | anyMethod : Role ⟨.action, "I send a {word} request to {string}", sendAny⟩
  | check {pattern : String} (member : pattern ∈ looking)
      (judge : World → Arguments → Except StepError Unit) : Role ⟨.outcome, pattern, check judge⟩

theorem role_of_mem : ∀ entry ∈ entries, Role entry := by
  have get : (Method.get.name, "I send a GET request to {string}") ∈ withoutBody := by decide
  have delete : (Method.delete.name, "I send a DELETE request to {string}") ∈ withoutBody := by
    decide
  have post : (Method.post.name, "I send a POST request to {string} with:") ∈ withBody := by
    decide
  have put : (Method.put.name, "I send a PUT request to {string} with:") ∈ withBody := by
    decide
  have patch : (Method.patch.name, "I send a PATCH request to {string} with:") ∈ withBody := by
    decide
  unfold entries
  simp only [List.forall_mem_cons]
  exact ⟨.setHeader, .withoutBody get, .withBody post, .withBody put, .withBody patch,
    .withoutBody delete, .anyMethod, .check (by decide) _, .check (by decide) _,
    .check (by decide) _, .check (by decide) _, .check (by decide) _, nofun⟩

theorem command_withoutBody (path : String) :
    ∀ method ∈ withoutBody,
      Command.ofSentence method.2 [.text path] = .send method.1 path false := by
  have found : ∀ method ∈ withoutBody, methodIn withoutBody method.2 = some method.1 := by
    decide +kernel
  intro method member
  rw [Command.ofSentence, found method member]

theorem command_withBody (path : String) :
    ∀ method ∈ withBody,
      Command.ofSentence method.2 [.text path] = .send method.1 path true := by
  have found : ∀ method ∈ withBody,
      methodIn withoutBody method.2 = none ∧ methodIn withBody method.2 = some method.1 := by
    decide +kernel
  intro method member
  rw [Command.ofSentence, (found method member).1, (found method member).2]

theorem command_looking (captured : List Argument) :
    ∀ pattern ∈ looking, Command.ofSentence pattern captured = .look := by
  have other : ∀ pattern ∈ looking,
      methodIn withoutBody pattern = none ∧ methodIn withBody pattern = none ∧
        pattern ≠ "I set header {string} to {string}" ∧
          pattern ≠ "I send a {word} request to {string}" := by
    decide +kernel
  intro pattern member
  obtain ⟨notWithout, notWith, notSet, notAny⟩ := other pattern member
  unfold Command.ofSentence
  split
  · rw [notWithout, notWith]
  · rw [if_neg notSet, if_neg notAny]
  · rfl

/-! ## Running a step -/

/-- What sending a request comes to, with the world that it leaves: no request can be
built, or one is handed over and is lost, or it is answered. -/
inductive Sending (world : World) (method : Method) (path : String) (body : Option Json.Value) :
    Outcome → World → Prop where
  | unbuildable {error : SendError}
      (unbuildable : Request.Unbuildable world.transport.client (world.urlFor path) world.headers) :
      Sending world method path body (.failed (.transport error)) world
  | lost {request : Request} {error : SendError}
      (isFor : request.IsFor world.transport.client method (world.urlFor path) world.headers body)
      (fails : ∀ raw, world.transport.answer request ≠ .delivered raw) :
      Sending world method path body (.failed (.transport error))
        { world with sent := world.sent ++ [request] }
  | delivered {request : Request} {raw : RawResponse}
      (isFor : request.IsFor world.transport.client method (world.urlFor path) world.headers body)
      (answers : world.transport.answer request = .delivered raw) :
      Sending world method path body .passed
        { world with response := some (.ofRaw raw), sent := world.sent ++ [request] }

theorem sending (world : World) (method : Method) (path : String) (body : Option Json.Value) :
    Sending world method path body (send world method path body).1
      (send world method path body).2 := by
  unfold send World.send
  cases built : Request.build world.transport.client method (world.urlFor path) world.headers
      body with
  | error refusal => exact .unbuildable (Request.unbuildable_of_build built)
  | ok request =>
      have isFor := Request.build_isFor built
      simp only
      cases answers : world.transport.answer request with
      | delivered raw => exact .delivered isFor answers
      | unanswered => exact .lost isFor (by simp [answers])
      | brokenOff status headers => exact .lost isFor (by simp [answers])

/-- A request that is lost leaves the response as it was. -/
theorem apply_lost
    {world : World} {request : Request}
    (fails : ∀ raw, world.transport.answer request ≠ .delivered raw) :
    (Event.sent request (world.transport.answer request)).apply world =
      { world with sent := world.sent ++ [request] } := by
  cases answers : world.transport.answer request with
  | delivered raw => exact absurd answers (fails raw)
  | unanswered => rfl
  | brokenOff status headers => rfl

/-- Sending hands over the request that was asked for, or none. -/
theorem exists_event_of_send
    {step : Step} {method : Method} {path : String} {body : Option Json.Value}
    (asks : Asks step method path body) (world : World) :
    ∃ event, Occurs step world (send world method path body).1.error? event ∧
      (send world method path body).2 = event.apply world := by
  have sends := sending world method path body
  generalize (send world method path body).1 = outcome,
    (send world method path body).2 = left at sends ⊢
  cases sends with
  | unbuildable unbuildable => exact ⟨.nothing, .refused (.unbuildable asks unbuildable), rfl⟩
  | lost isFor fails => exact ⟨_, .lost asks isFor fails, (apply_lost fails).symm⟩
  | delivered isFor answers => exact ⟨_, .delivered asks isFor answers, rfl⟩

/-- The values of a pattern with two strings, or with a word and a string. -/
theorem texts_of_gives
    {first : Placeholder} {arguments : List Argument} (notInt : first ≠ .int)
    (gives : List.Forall₂ Placeholder.Gives [first, .string] arguments) :
    ∃ a b, arguments = [.text a, .text b] := by
  obtain ⟨_, _, givesFirst, givesLater, rfl⟩ := List.forall₂_cons_left_iff.mp gives
  obtain ⟨_, _, givesSecond, givesNone, rfl⟩ := List.forall₂_cons_left_iff.mp givesLater
  obtain rfl := List.forall₂_nil_left_iff.mp givesNone
  cases givesSecond with
  | string b =>
      cases givesFirst with
      | string a => exact ⟨a, b, rfl⟩
      | word a => exact ⟨a, b, rfl⟩
      | int n => contradiction

theorem text_of_gives
    {arguments : List Argument} (gives : List.Forall₂ Placeholder.Gives [.string] arguments) :
    ∃ a, arguments = [.text a] := by
  obtain ⟨_, _, givesFirst, givesNone, rfl⟩ := List.forall₂_cons_left_iff.mp gives
  obtain rfl := List.forall₂_nil_left_iff.mp givesNone
  cases givesFirst with
  | string a => exact ⟨a, rfl⟩

theorem exists_event_of_withBody
    {step : Step} {method : Method} {path : String}
    (sends : commandOf? step = some (.send method.name path true)) (world : World) :
    let called := sendWithBody method world (step.arguments [.text path])
    ∃ event, Occurs step world called.1.error? event ∧ called.2 = event.apply world := by
  have asksPath : asked (Arguments.text (step.arguments [.text path]) 0) = .ok path := rfl
  intro called
  have isCalled : called = sendWithBody method world (step.arguments [.text path]) := rfl
  unfold sendWithBody bodyOf at isCalled
  rw [Step.docString_arguments (.cons (.string path) .nil), asksPath] at isCalled
  cases hasDoc : step.docString with
  | none =>
      rw [hasDoc] at isCalled
      rw [isCalled]
      exact ⟨.nothing, .refused (.noDocString sends hasDoc), rfl⟩
  | some doc =>
      rw [hasDoc] at isCalled
      simp only [Option.elim_some, asked, Except.mapError] at isCalled
      cases isJson : Json.readDocument (Text.trimmed doc) with
      | error fault =>
          rw [isJson] at isCalled
          rw [isCalled]
          exact ⟨.nothing, .refused (.notJson sends hasDoc isJson), rfl⟩
      | ok value =>
          rw [isJson] at isCalled
          rw [isCalled]
          exact exists_event_of_send (.withBody sends hasDoc isJson) world

theorem exists_event_of_anyMethod
    {step : Step} {word path : String}
    (sends : commandOf? step = some (.send (upperCase word) path false)) (world : World) :
    let called := sendAny world (step.arguments [.text word, .text path])
    ∃ event, Occurs step world called.1.error? event ∧ called.2 = event.apply world := by
  have asksWord : asked (Arguments.text (step.arguments [.text word, .text path]) 0) = .ok word :=
    rfl
  have asksPath : asked (Arguments.text (step.arguments [.text word, .text path]) 1) = .ok path :=
    rfl
  intro called
  have isCalled : called = sendAny world (step.arguments [.text word, .text path]) := rfl
  unfold sendAny at isCalled
  rw [asksWord, asksPath] at isCalled
  simp only [Except.bind, methodOf, Method.ofText?] at isCalled
  by_cases valid : isName (upperCase word).toList = true
  · rw [dif_pos valid] at isCalled
    rw [isCalled]
    let method : Method := ⟨upperCase word, valid⟩
    have asks : Asks step method path none := .withoutBody sends
    exact exists_event_of_send asks world
  · rw [dif_neg valid] at isCalled
    rw [isCalled]
    exact ⟨.nothing, .refused (.method sends (Bool.eq_false_iff.mpr valid)), rfl⟩

theorem exists_event_of_role
    {entry : Entry (Action World)} (role : Role entry) {step : Step} {arguments : List Argument}
    (gives : List.Forall₂ Placeholder.Gives (Pattern.lenient entry.pattern).placeholders arguments)
    (asks : commandOf? step = some (.ofSentence entry.pattern arguments)) (world : World) :
    let called := entry.action world (step.arguments arguments)
    ∃ event, Occurs step world called.1.error? event ∧ called.2 = event.apply world := by
  cases role with
  | setHeader =>
      obtain ⟨name, value, rfl⟩ := texts_of_gives (by decide) (setHeader_holes ▸ gives)
      exact ⟨_, .set asks, rfl⟩
  | withoutBody isMethod =>
      obtain ⟨path, rfl⟩ := text_of_gives (withoutBody_holes _ isMethod ▸ gives)
      rw [command_withoutBody path _ isMethod] at asks
      exact exists_event_of_send (.withoutBody asks) world
  | withBody isMethod =>
      obtain ⟨path, rfl⟩ := text_of_gives (withBody_holes _ isMethod ▸ gives)
      rw [command_withBody path _ isMethod] at asks
      exact exists_event_of_withBody asks world
  | anyMethod =>
      obtain ⟨word, path, rfl⟩ := texts_of_gives (by decide) (anyMethod_holes ▸ gives)
      exact exists_event_of_anyMethod asks world
  | check isLooking judge =>
      rw [command_looking arguments _ isLooking] at asks
      exact ⟨.nothing, .looked asks, rfl⟩

/-- Running a step does what its event says. -/
theorem exists_event (step : Step) (world : World) :
    ∃ event, Occurs step world (step.run (.ofEntries entries) world).1 event ∧
      (step.run (.ofEntries entries) world).2 = event.apply world := by
  cases find : (Registry.ofEntries entries).find? step.kind step.text with
  | none =>
      have ran : step.run (.ofEntries entries) world =
          (some (.noMatch step.kind step.text), world) := by
        simp [Step.run, find]
      have missing : commandOf? step = none := by rw [commandOf?, find]; rfl
      rw [ran]
      exact ⟨.nothing, .unmatched missing, rfl⟩
  | some found =>
      obtain ⟨entry, member, isDefinition, sameKind, captured⟩ := exists_entry_of_find? find
      have asks : commandOf? step = some (.ofSentence entry.pattern found.arguments) := by
        rw [commandOf?, find, Option.map_some, isDefinition]
        rfl
      have isAction : found.definition.action = entry.action := by
        rw [isDefinition]
        rfl
      rw [Step.run_of_found find, isAction]
      exact exists_event_of_role (role_of_mem entry member)
        (Pattern.gives_of_captures? captured) asks world

/-! ## A step has one event -/

theorem Asks.sends
    {step : Step} {method : Method} {path : String} {body : Option Json.Value}
    (asks : Asks step method path body) :
    commandOf? step = some (.send method.name path body.isSome) := by
  cases asks with
  | withoutBody sends => exact sends
  | withBody sends hasDoc isJson => exact sends

theorem Refused.sends {step : Step} {world : World} (refused : Refused step world) :
    ∃ method path hasBody, commandOf? step = some (.send method path hasBody) := by
  cases refused with
  | method sends invalid => exact ⟨_, _, _, sends⟩
  | noDocString sends missing => exact ⟨_, _, _, sends⟩
  | notJson sends hasDoc isFault => exact ⟨_, _, _, sends⟩
  | unbuildable asks unbuildable => exact ⟨_, _, _, asks.sends⟩

/-- A request with a body has what the doc string denotes. -/
theorem Asks.of_isSome
    {step : Step} {method : Method} {path : String} {body : Option Json.Value}
    (asks : Asks step method path body) (hasBody : body.isSome = true) :
    ∃ doc value, step.docString = some doc ∧
      Json.readDocument (Text.trimmed doc) = .ok value ∧ body = some value := by
  cases asks with
  | withoutBody sends => contradiction
  | withBody sends hasDoc isJson => exact ⟨_, _, hasDoc, isJson, rfl⟩

theorem Asks.unique
    {step : Step} {method method' : Method} {path path' : String}
    {body body' : Option Json.Value} (asks : Asks step method path body)
    (asks' : Asks step method' path' body') : method = method' ∧ path = path' ∧ body = body' := by
  have sends := asks.sends
  rw [asks'.sends] at sends
  obtain ⟨sameName, samePath, sameSome⟩ := Command.send.inj (Option.some.inj sends)
  refine ⟨?_, samePath.symm, ?_⟩
  · exact Method.eq_of_name sameName.symm
  · cases hasBody : body.isSome with
    | false =>
        rw [hasBody] at sameSome
        rw [Option.not_isSome_iff_eq_none.mp (Bool.eq_false_iff.mp hasBody),
          Option.not_isSome_iff_eq_none.mp (Bool.eq_false_iff.mp sameSome)]
    | true =>
        rw [hasBody] at sameSome
        obtain ⟨doc, value, hasDoc, isJson, rfl⟩ := asks.of_isSome hasBody
        obtain ⟨doc', value', hasDoc', isJson', rfl⟩ := asks'.of_isSome sameSome
        rw [hasDoc] at hasDoc'
        obtain rfl := Option.some.inj hasDoc'
        rw [isJson] at isJson'
        exact congrArg some (Except.ok.inj isJson')

/-- No request belongs to a step that is refused. -/
theorem Refused.not_isFor
    {step : Step} {world : World} (refused : Refused step world) {method : Method} {path : String}
    {body : Option Json.Value} (asks : Asks step method path body) (request : Request) :
    ¬ request.IsFor world.transport.client method (world.urlFor path) world.headers body := by
  intro isFor
  have sends := asks.sends
  cases refused with
  | method sends' invalid =>
      rw [sends] at sends'
      obtain ⟨rfl, -, -⟩ := Command.send.inj (Option.some.inj sends')
      rw [method.wellFormed] at invalid
      contradiction
  | noDocString sends' missing =>
      rw [sends] at sends'
      obtain ⟨-, -, hasBody⟩ := Command.send.inj (Option.some.inj sends')
      obtain ⟨doc, value, hasDoc, -, -⟩ := asks.of_isSome hasBody
      rw [hasDoc] at missing
      contradiction
  | notJson sends' hasDoc' isFault =>
      rw [sends] at sends'
      obtain ⟨-, -, hasBody⟩ := Command.send.inj (Option.some.inj sends')
      obtain ⟨doc, value, hasDoc, isJson, -⟩ := asks.of_isSome hasBody
      rw [hasDoc] at hasDoc'
      obtain rfl := Option.some.inj hasDoc'
      rw [isJson] at isFault
      cases isFault
  | unbuildable asks' unbuildable =>
      obtain ⟨-, rfl, -⟩ := asks.unique asks'
      exact isFor.not_unbuildable unbuildable

namespace Occurs

variable {step : Step} {world : World} {error : Option StepError}

theorem of_set {name value : String} (occurs : Occurs step world error (.set name value)) :
    commandOf? step = some (.set name value) := by
  cases occurs with
  | set sets => exact sets

/-- A request that goes out is the one that was asked for, and it has one answer. -/
theorem of_sent
    {request : Request} {answer : Exchange}
    (occurs : Occurs step world error (.sent request answer)) :
    answer = world.transport.answer request ∧ ∃ method path body, Asks step method path body ∧
      request.IsFor world.transport.client method (world.urlFor path) world.headers body := by
  cases occurs with
  | delivered asks isFor answers => exact ⟨answers.symm, _, _, _, asks, isFor⟩
  | lost asks isFor fails => exact ⟨rfl, _, _, _, asks, isFor⟩

theorem of_nothing (occurs : Occurs step world error .nothing) :
    Refused step world ∨ commandOf? step = some .look ∨ commandOf? step = none := by
  cases occurs with
  | refused refused => exact .inl refused
  | looked looks => exact .inr (.inl looks)
  | unmatched missing => exact .inr (.inr missing)

/-- A step that sets a header does just that. -/
theorem not_nothing_of_set
    {name value : String} (sets : commandOf? step = some (.set name value)) :
    ¬ Occurs step world error .nothing := by
  intro occurs
  rcases occurs.of_nothing with refused | looks | missing
  · obtain ⟨_, _, _, sends⟩ := refused.sends
    rw [sets] at sends
    cases sends
  · rw [sets] at looks
    cases looks
  · rw [sets] at missing
    cases missing

theorem not_sent_of_set
    {name value : String} (sets : commandOf? step = some (.set name value))
    (request : Request) (answer : Exchange) : ¬ Occurs step world error (.sent request answer) := by
  intro occurs
  obtain ⟨-, _, _, _, asks, -⟩ := occurs.of_sent
  have sends := asks.sends
  rw [sets] at sends
  cases sends

/-- A step that sends a request does not also send none. -/
theorem not_nothing_of_sent
    {error' : Option StepError} {request : Request} {answer : Exchange}
    (sent : Occurs step world error' (.sent request answer)) :
    ¬ Occurs step world error .nothing := by
  intro occurs
  obtain ⟨-, _, _, _, asks, isFor⟩ := sent.of_sent
  rcases occurs.of_nothing with refused | looks | missing
  · exact refused.not_isFor asks request isFor
  · rw [asks.sends] at looks
    cases looks
  · rw [asks.sends] at missing
    cases missing

/-- The event of a step is known from the step and the world before it. -/
theorem unique
    {error' : Option StepError} {event event' : Event}
    (occurs : Occurs step world error event) (occurs' : Occurs step world error' event') :
    event = event' := by
  cases event with
  | set name value =>
      have sets := occurs.of_set
      cases event' with
      | set name' value' =>
          have sets' := occurs'.of_set
          rw [sets] at sets'
          obtain ⟨sameName, sameValue⟩ := Command.set.inj (Option.some.inj sets')
          rw [sameName, sameValue]
      | sent request answer => exact absurd occurs' (not_sent_of_set sets request answer)
      | nothing => exact absurd occurs' (not_nothing_of_set sets)
  | sent request answer =>
      cases event' with
      | set name value => exact absurd occurs (not_sent_of_set occurs'.of_set request answer)
      | sent request' answer' =>
          obtain ⟨isAnswer, _, _, _, asks, isFor⟩ := occurs.of_sent
          obtain ⟨isAnswer', _, _, _, asks', isFor'⟩ := occurs'.of_sent
          obtain ⟨rfl, rfl, rfl⟩ := asks.unique asks'
          obtain rfl := isFor.unique isFor'
          rw [isAnswer, isAnswer']
      | nothing => exact absurd occurs' (not_nothing_of_sent occurs)
  | nothing =>
      cases event' with
      | set name value => exact absurd occurs (not_nothing_of_set occurs'.of_set)
      | sent request answer => exact absurd occurs (not_nothing_of_sent occurs')
      | nothing => rfl

end Occurs

end Gherkin.HttpSteps
