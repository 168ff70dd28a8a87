import Gherkin.Http.Network
import Gherkin.Proofs.Json.Printing
import Gherkin.Proofs.Run.Event
import Gherkin.Proofs.Text.Bytes

/-!
Contract: what is sent with a request comes back from a server that echoes it.

Owns: which bytes the sentences with a body send, that they depend on nothing but the value
that the doc string denotes, and that this value is the data of the response to an echo.
Does not own: the reading and the writing of values (`Gherkin.Proofs.Json.Printing`), and
when a request can be built (`Gherkin.Proofs.Http.Outgoing`).
Main statement: `posted_value_returns`.

Data that is blank or no JSON is kept otherwise than as a value. The text of a value is
neither, so what looks like nothing or like a text is not taken for it.
-/

set_option autoImplicit false

namespace Gherkin.HttpSteps

open Http Json

/-! ## Bodies -/

/-- The text of a value is JSON that is not blank, and so is taken for the value. -/
theorem dataOf_render {value : Value} (plain : IsPlain nestingBound value) :
    Response.dataOf value.render = value := by
  obtain ⟨c, cs, isChars, -⟩ := (readValue_of_spells nestingBound _ _ plain.spells).1
  have notBlank : Text.isBlank c = false := plain.spells.noBlankEnds.1 c (by rw [isChars]; rfl)
  have visible : value.render.toList.all Text.isBlank = false := by
    simp [Value.render, isChars, notBlank]
  simp [Response.dataOf, visible, readDocument_render plain]

/-- A response to the request with the body that was sent: one that has these bytes, or that
of a route that echoes, unless it has a status without a body. -/
inductive Echoes (request : Request) : RawResponse → Prop where
  | same {raw : RawResponse} (body_eq : raw.body = request.body.toUTF8.toList) :
      Echoes request raw
  | route {route : Route} (echoes : route.body = .echo) (notNoContent : route.status ≠ 204)
      (notNotModified : route.status ≠ 304) : Echoes request (route.respond request)

theorem Echoes.body_eq
    {request : Request} {raw : RawResponse} (echoes : Echoes request raw)
    (notHead : request.method.name ≠ "HEAD") : raw.body = request.body.toUTF8.toList := by
  cases echoes with
  | same body_eq => exact body_eq
  | @route route echoes notNoContent notNotModified =>
      have hasBody : Route.isBodiless route.status = false := by
        simp [Route.isBodiless, notNoContent, notNotModified]
      simp [Route.respond, hasBody, notHead, Route.bodyFor, echoes]

theorem Echoes.data_eq
    {request : Request} {raw : RawResponse} (echoes : Echoes request raw)
    (notHead : request.method.name ≠ "HEAD") {value : Value}
    (isBody : request.body = value.render) (plain : IsPlain nestingBound value) :
    (Response.ofRaw raw).data = value := by
  show Response.dataOf (Text.decodeBytes raw.body) = value
  rw [echoes.body_eq notHead, Text.decodeBytes_toUTF8, isBody, dataOf_render plain]

/-! ## Steps with a body -/

/-- What a step that sends this value comes to, with the world that it leaves: it fails
before anything is sent, or it sends one request, whose body is the text of the value, and
an echo of that is kept with the value for its data. -/
inductive Posts (world : World) (value : Value) : Option StepError → World → Prop where
  | unsent (error : StepError) : Posts world value (some error) world
  | sent {error? : Option StepError} {left : World} {request : Request}
      (isSent : left.sent = world.sent ++ [request]) (body_eq : request.body = value.render)
      (echoed : ∀ raw, world.transport.answer request = .delivered raw → Echoes request raw →
        error? = none ∧ ∃ response, left.response = some response ∧
          response.status = raw.status ∧ response.data = value) :
      Posts world value error? left

theorem Sending.posts
    {world left : World} {method : Method} {path : String} {value : Value} {outcome : Outcome}
    (notHead : method.name ≠ "HEAD") (plain : IsPlain nestingBound value)
    (sending : Sending world method path (some value) outcome left) :
    Posts world value outcome.error? left := by
  cases sending with
  | unbuildable _ => exact .unsent _
  | lost isFor fails =>
      exact .sent rfl isFor.body_eq fun raw answers _ => absurd answers (fails raw)
  | @delivered request raw isFor answers =>
      refine .sent rfl isFor.body_eq fun raw' answers' echoes => ⟨rfl, _, rfl, ?_⟩
      rw [answers] at answers'
      obtain rfl := Exchange.delivered.inj answers'
      have notHead : request.method.name ≠ "HEAD" := isFor.method_eq ▸ notHead
      exact ⟨rfl, echoes.data_eq notHead isFor.body_eq plain⟩

theorem posts_of_sendWithBody
    {method : Method} (notHead : method.name ≠ "HEAD") {arguments : Arguments} {doc : String}
    (isDoc : arguments.docString = .ok doc) {value : Value}
    (isJson : readDocument doc = .ok value) (plain : IsPlain nestingBound value)
    (world : World) :
    Posts world value (sendWithBody method world arguments).1.error?
      (sendWithBody method world arguments).2 := by
  have isBody : bodyOf arguments = .ok value := by
    simp only [bodyOf, isDoc, asked, isJson, Except.mapError]
  unfold sendWithBody
  rw [isBody]
  cases asked (arguments.text 0) with
  | error e => exact .unsent e
  | ok path => exact (sending world method path (some value)).posts notHead plain

/-- The sentences with a body send it with a method that has one in the response. -/
theorem exists_method_of_withBody
    {entry : Entry (Action World)} (isEntry : entry ∈ entries)
    (hasBody : entry.pattern ∈ withBody.map Prod.snd) :
    ∃ method : Method, method.name ≠ "HEAD" ∧ entry.action = sendWithBody method := by
  have notHead : ∀ method ∈ withBody, method.1 ≠ "HEAD" := by decide
  cases role_of_mem entry isEntry with
  | withBody member => exact ⟨_, notHead _ member, rfl⟩
  | setHeader => exact absurd hasBody (by decide)
  | anyMethod => exact absurd hasBody (by decide)
  | @withoutBody method pattern member =>
      have other : ∀ method ∈ withoutBody, method.2 ∉ withBody.map Prod.snd := by decide
      exact absurd hasBody (other _ member)
  | @check pattern member judge =>
      have other : ∀ pattern ∈ looking, pattern ∉ withBody.map Prod.snd := by decide
      exact absurd hasBody (other _ member)

/-- A doc string whose numbers are all whole is read as the value that it denotes, in which
there is no float. Wherever a step with such a doc string is served by a sentence with a
body, it sends the text of the value or nothing, and an echo of that brings the value. -/
theorem posted_value_returns
    {registry : Registry (Action World)} {step : Step} {found : Found (Action World)}
    (find : registry.find? step.kind step.text = some found)
    {entry : Entry (Action World)} (isEntry : entry ∈ entries)
    (hasBody : entry.pattern ∈ withBody.map Prod.snd)
    (sameAction : found.definition.action = entry.action)
    {doc : String} (hasDoc : step.docString = some doc) :
    (∀ value, IsDocument doc value →
      readDocument (Text.trimmed doc) = .ok value ∧ ¬ HasFloat value) ∧
    ∀ value, readDocument (Text.trimmed doc) = .ok value → ¬ HasFloat value →
      ∀ world, Posts world value (step.run registry world).1 (step.run registry world).2 := by
  constructor
  · intro value isDocument
    exact ⟨readDocument_of_isDocument isDocument.trimmed, isDocument.isPlain.not_hasFloat⟩
  · intro value isJson noFloat world
    have plain := (isPlain_or_hasFloat_of_readDocument isJson).resolve_right noFloat
    obtain ⟨method, notHead, isAction⟩ := exists_method_of_withBody isEntry hasBody
    have isDoc : (step.arguments found.arguments).docString = .ok (Text.trimmed doc) := by
      rw [(Step.readable_of_find? find).docString_eq, hasDoc]
      rfl
    rw [Step.run_of_found find, sameAction, isAction]
    exact posts_of_sendWithBody notHead isDoc isJson plain world

/-- The greatest whole number and the empty text come back as they are. -/
theorem posted_value_returns_at_bound :
    ∃ (step : Step) (found : Found (Action World)) (value : Value) (world : World),
      (Registry.ofEntries entries).find? step.kind step.text = some found ∧
      found.definition.pattern.text ∈ withBody.map Prod.snd ∧
      step.docString = some "[18446744073709551615,\"\"]" ∧
      IsDocument "[18446744073709551615,\"\"]" value ∧
      (step.run (.ofEntries entries) world).2.sent.length = 1 ∧
      Posts world value (step.run (.ofEntries entries) world).1
        (step.run (.ofEntries entries) world).2 := by
  let step : Step := {
    kind := .action
    keyword := .names .action
    text := "I send a PUT request to \"http://localhost/limits\" with:"
    line := 2
    docString := some "[18446744073709551615,\"\"]" }
  let value : Value := .array [.int 18446744073709551615, .string ""]
  let world : World :=
    .start .empty (.plain fun request => .delivered ⟨200, [], request.body.toUTF8.toList⟩)
  have finds : ((Registry.ofEntries entries).find? step.kind step.text).map
      (fun found => found.definition.pattern.text) =
        some "I send a PUT request to {string} with:" := by
    decide +kernel
  obtain ⟨found, find, isPattern⟩ := Option.map_eq_some_iff.mp finds
  obtain ⟨entry, isEntry, isDefinition, -, -⟩ := exists_entry_of_find? find
  have sameAction : found.definition.action = entry.action := by
    rw [isDefinition]
    rfl
  have samePattern : found.definition.pattern.text = entry.pattern := by
    rw [isDefinition]
    rfl
  have hasBody : found.definition.pattern.text ∈ withBody.map Prod.snd := by
    rw [isPattern]
    decide
  have plain : IsPlain nestingBound value := by
    refine .array (List.forall_mem_cons.mpr ⟨.int (by unfold InRange; omega), ?_⟩)
    exact List.forall_mem_singleton.mpr (.string "")
  have isText : value.render = "[18446744073709551615,\"\"]" := by decide +kernel
  have isDocument : IsDocument "[18446744073709551615,\"\"]" value := isText ▸ plain.isDocument
  have sentOne : (step.run (.ofEntries entries) world).2.sent.length = 1 := by decide +kernel
  obtain ⟨reads, returns⟩ :=
    posted_value_returns find isEntry (samePattern ▸ hasBody) sameAction rfl
  obtain ⟨isJson, noFloat⟩ := reads value isDocument
  exact ⟨step, found, value, world, find, hasBody, rfl, isDocument, sentOne,
    returns value isJson noFloat world⟩

end Gherkin.HttpSteps
