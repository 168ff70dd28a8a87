import Gherkin.Http.Network
import Gherkin.Proofs.Http.Collecting
import Gherkin.Proofs.Run.History

/-!
Contract: what a call of a built-in sentence leaves behind when it fails.

Owns: what a call can come to, whatever its arguments are and however the transport
behaves, and that steps which only look may be repeated and reordered.
Does not own: which request belongs to an address (`Gherkin.Proofs.Http.Outgoing`).
Main statement: `failures_atomic`.

A call has one chance to change the world, and takes it last: by then its arguments have
been read, and the response, if it asked for one, has arrived whole.
-/

set_option autoImplicit false

namespace Gherkin

/-- Steps that leave the world as it is are each executed in that world. -/
theorem executed_of_unchanged
    {W : Type} {registry : Registry (Action W)} {world : W} {steps : List Step}
    (unchanged : ∀ step ∈ steps, (step.run registry world).2 = world) :
    ∀ executed ∈ Step.executed registry steps world,
      executed = ⟨executed.step, world, (executed.step.run registry world).1, world⟩ := by
  induction steps with
  | nil => simp [Step.executed]
  | cons step steps inductionHypothesis =>
      obtain ⟨stays, stayLater⟩ := List.forall_mem_cons.mp unchanged
      intro executed member
      rw [Step.executed, stays] at member
      rcases List.mem_cons.mp member with rfl | later
      · rfl
      · cases failed : (step.run registry world).1 with
        | some error => simp [failed] at later
        | none =>
            rw [failed] at later
            exact inductionHypothesis stayLater executed later

namespace HttpSteps

open Http

/-! ## What a call can come to -/

/-- The error says that an argument, the body or the method could not be read. -/
inductive Unread : StepError → Prop where
  | argument (error : ArgumentError) : Unread (.argument error)
  | json (fault : Json.Fault) (text : String) : Unread (.json fault text)
  | invalidMethod (word : String) : Unread (.invalidMethod word)

/-- What a call of a built-in sentence can come to, with the world that it leaves. -/
inductive Comes (world : World) : Outcome → World → Prop where
  | set (name value : String) : Comes world .passed (world.setHeader name value)
  | sends {method : Method} {path : String} {body : Option Json.Value} {outcome : Outcome}
      {left : World} (sending : Sending world method path body outcome left) :
      Comes world outcome left
  | stays (outcome : Outcome) : Comes world outcome world

theorem comes_of_role
    {entry : Entry (Action World)} (role : Role entry) (world : World) (arguments : Arguments) :
    Comes world (entry.action world arguments).1 (entry.action world arguments).2 := by
  cases role with
  | setHeader =>
      show Comes world (setHeader world arguments).1 (setHeader world arguments).2
      unfold setHeader
      cases asked (arguments.text 0) with
      | error error => exact .stays _
      | ok name =>
          cases asked (arguments.text 1) with
          | error error => exact .stays _
          | ok value => exact .set name value
  | @withoutBody method pattern _ =>
      show Comes world (sendWithoutBody method world arguments).1
        (sendWithoutBody method world arguments).2
      unfold sendWithoutBody
      cases asked (arguments.text 0) with
      | error error => exact .stays _
      | ok path => exact .sends (sending world method path none)
  | @withBody method pattern _ =>
      show Comes world (sendWithBody method world arguments).1
        (sendWithBody method world arguments).2
      unfold sendWithBody
      cases bodyOf arguments with
      | error error => exact .stays _
      | ok body =>
          cases asked (arguments.text 0) with
          | error error => exact .stays _
          | ok path => exact .sends (sending world method path (some body))
  | anyMethod =>
      show Comes world (sendAny world arguments).1 (sendAny world arguments).2
      unfold sendAny
      cases (asked (arguments.text 0)).bind methodOf with
      | error error => exact .stays _
      | ok method =>
          cases asked (arguments.text 1) with
          | error error => exact .stays _
          | ok path => exact .sends (sending world method path none)
  | check _ judge => exact .stays _

/-! ## Failures -/

/-- A call that hands over at most one request, changes nothing else if it fails, and takes
what is delivered as a whole. -/
structure Atomic (world : World) (outcome : Outcome) (left : World) : Prop where
  sent : left.sent = world.sent ∨ ∃ request, left.sent = world.sent ++ [request]
  failed : ∀ error, outcome.error? = some error →
    left.environment = world.environment ∧ left.headers = world.headers ∧
      left.response = world.response
  unread : ∀ error, outcome.error? = some error → Unread error → left = world
  delivered : ∀ request raw, left.sent = world.sent ++ [request] →
    world.transport.answer request = .delivered raw →
      outcome = .passed ∧
        left = { world with response := some (.ofRaw raw), sent := world.sent ++ [request] }

theorem Sending.atomic
    {world left : World} {method : Method} {path : String} {body : Option Json.Value}
    {outcome : Outcome} (sending : Sending world method path body outcome left) :
    Atomic world outcome left := by
  cases sending with
  | unbuildable _ =>
      refine ⟨.inl rfl, fun _ _ => ⟨rfl, rfl, rfl⟩, fun _ _ _ => rfl, ?_⟩
      intro request raw isSent
      simp at isSent
  | @lost request error _ fails =>
      refine ⟨.inr ⟨request, rfl⟩, fun _ _ => ⟨rfl, rfl, rfl⟩, ?_, ?_⟩
      · intro other isError unread
        obtain rfl := Option.some.inj isError
        cases unread
      · intro other raw isSent answers
        obtain rfl : request = other := by simpa using isSent
        exact absurd answers (fails raw)
  | @delivered request raw _ answers =>
      refine ⟨.inr ⟨request, rfl⟩, nofun, nofun, ?_⟩
      intro other raw' isSent answers'
      obtain rfl : request = other := by simpa using isSent
      rw [answers] at answers'
      obtain rfl := Exchange.delivered.inj answers'
      exact ⟨rfl, rfl⟩

theorem Comes.atomic
    {world left : World} {outcome : Outcome} (comes : Comes world outcome left) :
    Atomic world outcome left := by
  cases comes with
  | set name value =>
      refine ⟨.inl rfl, nofun, nofun, ?_⟩
      intro request raw isSent
      simp [World.setHeader] at isSent
  | sends sending => exact sending.atomic
  | stays outcome =>
      refine ⟨.inl rfl, fun _ _ => ⟨rfl, rfl, rfl⟩, fun _ _ _ => rfl, ?_⟩
      intro request raw isSent
      simp at isSent

/-! ## Requests -/

/-- The method, the path and the body that a sentence with this pattern reads from its
arguments. -/
inductive Requests (arguments : Arguments) :
    String → Method → String → Option Json.Value → Prop where
  | withoutBody {method : Method} {pattern path : String}
      (member : (method.name, pattern) ∈ withoutBody) (isPath : arguments.text 0 = .ok path) :
      Requests arguments pattern method path none
  | withBody {method : Method} {pattern path doc : String} {value : Json.Value}
      (member : (method.name, pattern) ∈ withBody) (isDoc : arguments.docString = .ok doc)
      (isJson : Json.readDocument doc = .ok value) (isPath : arguments.text 0 = .ok path) :
      Requests arguments pattern method path (some value)
  | anyMethod {method : Method} {word path : String} (isWord : arguments.text 0 = .ok word)
      (isMethod : Method.ofText? (upperCase word) = some method)
      (isPath : arguments.text 1 = .ok path) :
      Requests arguments "I send a {word} request to {string}" method path none

theorem mem_entries_withoutBody
    {method : Method} {pattern : String} (member : (method.name, pattern) ∈ withoutBody) :
    ⟨.action, pattern, sendWithoutBody method⟩ ∈ entries := by
  unfold withoutBody at member
  simp only [List.mem_cons, Prod.mk.injEq, List.not_mem_nil, or_false] at member
  rcases member with ⟨isGet, rfl⟩ | ⟨isDelete, rfl⟩
  · obtain rfl : method = .get := Method.eq_of_name isGet
    exact List.mem_of_getElem? (show entries[1]? = some _ from rfl)
  · obtain rfl : method = .delete := Method.eq_of_name isDelete
    exact List.mem_of_getElem? (show entries[5]? = some _ from rfl)

theorem mem_entries_withBody
    {method : Method} {pattern : String} (member : (method.name, pattern) ∈ withBody) :
    ⟨.action, pattern, sendWithBody method⟩ ∈ entries := by
  unfold withBody at member
  simp only [List.mem_cons, Prod.mk.injEq, List.not_mem_nil, or_false] at member
  rcases member with ⟨isPost, rfl⟩ | ⟨isPut, rfl⟩ | ⟨isPatch, rfl⟩
  · obtain rfl : method = .post := Method.eq_of_name isPost
    exact List.mem_of_getElem? (show entries[2]? = some _ from rfl)
  · obtain rfl : method = .put := Method.eq_of_name isPut
    exact List.mem_of_getElem? (show entries[3]? = some _ from rfl)
  · obtain rfl : method = .patch := Method.eq_of_name isPatch
    exact List.mem_of_getElem? (show entries[4]? = some _ from rfl)

/-- A sentence sends what it reads. -/
theorem action_of_requests
    {entry : Entry (Action World)} (isEntry : entry ∈ entries) {arguments : Arguments}
    {method : Method} {path : String} {body : Option Json.Value}
    (requests : Requests arguments entry.pattern method path body) (world : World) :
    entry.action world arguments = send world method path body := by
  have only : ∀ other ∈ entries, entry.pattern = other.pattern → entry = other :=
    fun other isOther => List.inj_on_of_nodup_map nodup_patterns isEntry isOther
  generalize isPattern : entry.pattern = pattern at requests
  cases requests with
  | withoutBody member isPath =>
      rw [only _ (mem_entries_withoutBody member) isPattern]
      simp only [sendWithoutBody, isPath, asked, Except.mapError]
  | withBody member isDoc isJson isPath =>
      rw [only _ (mem_entries_withBody member) isPattern]
      simp only [sendWithBody, bodyOf, isDoc, isJson, isPath, asked, Except.mapError]
  | anyMethod isWord isMethod isPath =>
      have isAny : ⟨.action, "I send a {word} request to {string}", sendAny⟩ ∈ entries :=
        List.mem_of_getElem? (show entries[6]? = some _ from rfl)
      rw [only _ isAny isPattern]
      simp only [sendAny, methodOf, isWord, isMethod, isPath, asked, Except.mapError, Except.bind]

/-- An answer is taken whatever its status is. -/
theorem send_of_delivered
    {world : World} {method : Method} {path : String} {body : Option Json.Value}
    {request : Request} {raw : RawResponse}
    (isFor : request.IsFor world.transport.client method (world.urlFor path) world.headers body)
    (answers : world.transport.answer request = .delivered raw) :
    send world method path body =
      (.passed,
        { world with response := some (.ofRaw raw), sent := world.sent ++ [request] }) := by
  have sends := sending world method path body
  generalize send world method path body = called at sends
  obtain ⟨outcome, left⟩ := called
  cases sends with
  | unbuildable unbuildable => exact absurd unbuildable isFor.not_unbuildable
  | lost isFor' fails =>
      obtain rfl := isFor.unique isFor'
      exact absurd answers (fails raw)
  | delivered isFor' answers' =>
      obtain rfl := isFor.unique isFor'
      rw [answers] at answers'
      obtain rfl := Exchange.delivered.inj answers'
      rfl

/-! ## Looking -/

theorem unchanged_of_outcome
    {entry : Entry (Action World)} (isEntry : entry ∈ entries) (looks : entry.kind = .outcome)
    (world : World) (arguments : Arguments) : (entry.action world arguments).2 = world := by
  cases role_of_mem entry isEntry with
  | setHeader => cases looks
  | withoutBody _ => cases looks
  | withBody _ => cases looks
  | anyMethod => cases looks
  | check _ judge => rfl

/-- Whatever is found for the step is a built-in sentence behind `Then`. -/
def OnlyLooks (registry : Registry (Action World)) (step : Step) : Prop :=
  ∀ found, registry.find? step.kind step.text = some found →
    ∃ entry ∈ entries, entry.kind = .outcome ∧ found.definition.action = entry.action

theorem onlyLooks_of_outcome
    {step : Step} (isOutcome : step.kind = .outcome) : OnlyLooks (.ofEntries entries) step := by
  intro found find
  obtain ⟨entry, member, isDefinition, sameKind, -⟩ := exists_entry_of_find? find
  exact ⟨entry, member, sameKind.trans isOutcome, congrArg Definition.action isDefinition⟩

theorem OnlyLooks.run
    {registry : Registry (Action World)} {step : Step} (looks : OnlyLooks registry step)
    (world : World) : (step.run registry world).2 = world := by
  cases find : registry.find? step.kind step.text with
  | none => simp [Step.run, find]
  | some found =>
      obtain ⟨entry, member, isOutcome, sameAction⟩ := looks found find
      rw [Step.run_of_found find, sameAction]
      exact unchanged_of_outcome member isOutcome world _

/-! ## The result -/

/-- A built-in sentence that fails changes nothing but the record of requests, and not even
that if it could not read what it needs. A response that is delivered is taken as a whole,
whatever its status: status, data and headers are then those that arrived. Sentences behind
`Then` change nothing, so that each has the same outcome wherever it stands among others. -/
theorem failures_atomic :
    (∀ entry ∈ entries, ∀ (world : World) (arguments : Arguments),
      Atomic world (entry.action world arguments).1 (entry.action world arguments).2) ∧
    (∀ entry ∈ entries, ∀ (world : World) (arguments : Arguments) (method : Method)
      (path : String) (body : Option Json.Value),
      Requests arguments entry.pattern method path body →
        ∀ (request : Request) (raw : RawResponse),
          request.IsFor world.transport.client method (world.urlFor path) world.headers body →
            world.transport.answer request = .delivered raw →
              entry.action world arguments =
                (.passed,
                  { world with
                    response := some (.ofRaw raw)
                    sent := world.sent ++ [request] }) ∧
              (Response.ofRaw raw).Keeps raw) ∧
    (∀ entry ∈ entries, entry.kind = .outcome → ∀ (world : World) (arguments : Arguments),
      (entry.action world arguments).2 = world) ∧
    (∀ step : Step, step.kind = .outcome → OnlyLooks (.ofEntries entries) step) ∧
    ∀ (registry : Registry (Action World)) (steps others : List Step),
      (∀ step ∈ steps, OnlyLooks registry step) →
        (∀ step ∈ others, OnlyLooks registry step) →
          ∀ world : World, ∀ executed ∈ Step.executed registry steps world,
            executed.before = world ∧ executed.after = world ∧
              ∀ again ∈ Step.executed registry others world,
                again.step = executed.step → again.error = executed.error := by
  refine ⟨?_, ?_, ?_, ?_, ?_⟩
  · intro entry isEntry world arguments
    exact (comes_of_role (role_of_mem entry isEntry) world arguments).atomic
  · intro entry isEntry world arguments method path body requests request raw isFor answers
    rw [action_of_requests isEntry requests]
    exact ⟨send_of_delivered isFor answers, Response.keeps_ofRaw raw⟩
  · intro entry isEntry looks world arguments
    exact unchanged_of_outcome isEntry looks world arguments
  · intro step isOutcome
    exact onlyLooks_of_outcome isOutcome
  · intro registry steps others look lookAgain world executed member
    have alone := executed_of_unchanged (fun step isStep => (look step isStep).run world)
      executed member
    refine ⟨congrArg Executed.before alone, congrArg Executed.after alone, ?_⟩
    intro again member' sameStep
    have aloneAgain := executed_of_unchanged
      (fun step isStep => (lookAgain step isStep).run world) again member'
    rw [aloneAgain, alone]
    exact congrArg (fun step => (Step.run registry step world).1) sameStep

/-- A server that is not available has answered. -/
theorem failures_atomic_of_unavailable :
    ∃ entry ∈ entries, entry.pattern = "I send a GET request to {string}" ∧
      ∃ request : Request,
        entry.action (.start .empty (.plain fun _ => .delivered ⟨503, [], []⟩))
            [.text "http://localhost/ping"] =
          (.passed,
            { World.start .empty (.plain fun _ => .delivered ⟨503, [], []⟩) with
              response := some (.ofRaw ⟨503, [], []⟩)
              sent := [request] }) := by
  let world : World := .start .empty (.plain fun _ => .delivered ⟨503, [], []⟩)
  have isEntry : ⟨.action, "I send a GET request to {string}", sendWithoutBody .get⟩ ∈ entries :=
    mem_entries_withoutBody (by decide)
  have requests : Requests [.text "http://localhost/ping"] "I send a GET request to {string}"
      .get "http://localhost/ping" none :=
    .withoutBody (by decide) rfl
  have isBuilt : (Request.build .plain .get (world.urlFor "http://localhost/ping") world.headers
      none).isOk = true := by
    decide +kernel
  cases built : Request.build .plain .get (world.urlFor "http://localhost/ping") world.headers
      none with
  | error refusal =>
      rw [built] at isBuilt
      cases isBuilt
  | ok request =>
      have taken := failures_atomic.2.1 _ isEntry world _ _ _ _ requests request ⟨503, [], []⟩
        (Request.build_isFor built) rfl
      exact ⟨_, isEntry, rfl, request, taken.1⟩

end HttpSteps

end Gherkin
