import RaisinDB.Agents.Children

/-!
# Runs that a reducer drives

The log of a run is the inbox of its reducer.  Each event that the reducer understands is
delivered once, in order; the answer is a next state and effects, and both are committed
together with how far the inbox has been read.
-/

namespace RaisinDB.Agents

open List
open RaisinDB.Foundation (Value)

/-! ## What a reducer is asked and answers -/

inductive EventKind where
  | runStarted | userInput | modelTurnCompleted | toolResult | requestResolved | requestClosed
  | operationFailed | operationCancelled | resumed | budgetExceeded | stopped
  deriving DecidableEq

structure ReducerEvent where
  seq : Nat
  kind : EventKind
  effectId : Option String
  operationId : Option String
  data : Value
  deriving DecidableEq

structure OpenRequestView where
  requestId : String
  kind : String
  effectId : Option String
  subjectDigest : Option String
  expiresAtMs : Option Nat

structure RunView where
  runId : String
  status : RunStatus
  turn : Option UInt32
  lastSeq : Nat
  usage : RunUsage
  budgets : RunBudgets
  openRequests : List OpenRequestView
  unansweredCalls : List String
  scope : RunScope
  subject : SubjectRef

structure ReducerRequest where
  contract : String
  accept : List String
  run : RunView
  state : Option Value
  stateRev : Nat
  event : ReducerEvent

structure Refusal where
  code : String
  message : String

structure ReducerResponse where
  contract : String
  state : Value
  stateRev : Nat
  effects : List Effect
  projection : Option Value
  refused : Option Refusal

inductive ReducerCallError where
  | unavailable (message : String)
  | refused (code message : String)
  | invalid (refusal : Refusal)
  | changed (actualHash : String)

namespace PendingKind

def name : PendingKind → String
  | approval .. => "approval"
  | input .. => "input"
  | external .. => "external"
  | child .. => "child"

def digest : PendingKind → Option String
  | approval subjectDigest .. => some subjectDigest
  | _ => none

end PendingKind

namespace Effect

/-- Whether an effect starts an operation or opens a request. -/
def isOperation (effect : Effect) : Bool :=
  match effect.body with
  | .callTool .. | .requestModelTurn .. | .requestApproval .. | .askUser .. => true
  | _ => false

def isTerminal (effect : Effect) : Bool :=
  match effect.body with
  | .complete .. | .fail .. => true
  | _ => false

def isCheckpoint (effect : Effect) : Bool :=
  match effect.body with
  | .checkpoint .. => true
  | _ => false

def isUnknown (effect : Effect) : Bool := decide (effect.body = .unknown)

def isGap (effect : Effect) : Bool :=
  match effect.body with
  | .capabilityGap _ => true
  | _ => false

/-- What must follow a capability gap. -/
def followsGap (effect : Effect) : Bool :=
  match effect.body with
  | .askUser .. => true
  | .complete outcome .. => decide (outcome = .blocked)
  | _ => false

def kindName (effect : Effect) : String :=
  match effect.body with
  | .callTool .. => "call_tool"
  | .requestModelTurn .. => "request_model_turn"
  | .requestApproval .. => "request_approval"
  | .askUser .. => "ask_user"
  | .withdrawRequest .. => "withdraw_request"
  | .checkpoint .. => "checkpoint"
  | .complete .. => "complete"
  | .fail .. => "fail"
  | .capabilityGap .. => "capability_gap"
  | .unknown => "unknown"

def withdrawn (effect : Effect) : Option String :=
  match effect.body with
  | .withdrawRequest requestId => some requestId
  | _ => none

def answeredCall (effect : Effect) : Option String :=
  match effect.body with
  | .callTool _ _ _ _ _ _ forCallId => forCallId
  | _ => none

def turnResults (effect : Effect) : Option (List ToolResultEntry) :=
  match effect.body with
  | .requestModelTurn _ _ _ toolResults _ => some toolResults
  | _ => none

end Effect

def effectId (stateRev index : Nat) : String := stateRev.repr ++ ":" ++ index.repr

/-! ## The rules of a response -/

/-- How large a state is as canonical JSON, and what is wrong with a projection that has not the
generic shape. -/
structure ResponseChecks where
  stateSize : Value → Nat
  projectionError : Value → Option String

def maxStateBytes : Nat := 256 * 1024

def refuse (code message : String) : Except Refusal Unit := .error ⟨code, message⟩

/-- Every gap is followed by a question or a blocked end. -/
def gapsFollowed : List Effect → Bool
  | [] => true
  | effect :: rest => (!effect.isGap || rest.any Effect.followsGap) && gapsFollowed rest

/-- The calls that a model turn leaves unanswered, given what tool calls answer. -/
def leftUnanswered (unanswered byCall : List String) (effect : Effect) : List String :=
  match effect.turnResults with
  | some results =>
      unanswered.filter fun call =>
        !(results.map ToolResultEntry.callId).contains call && !byCall.contains call
  | none => []

/-- The first in the order of texts. -/
def least : List String → String
  | [] => ""
  | text :: rest => rest.foldl (fun first other => if other < first then other else first) text

def misnumbered (stateRev : Nat) (entry : Effect × Nat) : Bool :=
  entry.1.effectId ≠ effectId stateRev entry.2

/-! What the refusals say. -/

def effectIdMessage (resp : ReducerResponse) : String :=
  match resp.effects.zipIdx.find? (misnumbered resp.stateRev) with
  | some (effect, index) =>
      "effect " ++ index.repr ++ " has id '" ++ effect.effectId ++ "', expected '" ++
        effectId resp.stateRev index ++ "'"
  | none => ""

def afterEndMessage (effects : List Effect) : String :=
  ((effects.find? (!·.isCheckpoint)).map Effect.kindName).elim "" fun kind =>
    "'" ++ kind ++ "' after the run ended; only checkpoint is allowed"

def stillOpenMessage (requests : List OpenRequestView) (withdrawn : List String) : String :=
  (requests.find? fun request => !withdrawn.contains request.requestId).elim "" fun request =>
    "request '" ++ request.requestId ++ "' is still open; withdraw it or start no operation"

def validateResponse (checks : ResponseChecks) (req : ReducerRequest) (resp : ReducerResponse) :
    Except Refusal Unit :=
  let operations := (resp.effects.filter Effect.isOperation).length
  let terminals := (resp.effects.filter Effect.isTerminal).length
  let withdrawn := resp.effects.filterMap Effect.withdrawn
  let byCall := resp.effects.filterMap Effect.answeredCall
  let unanswered := req.run.unansweredCalls
  if !req.accept.contains resp.contract then
    refuse "contract_mismatch" ("response contract '" ++ resp.contract ++ "' was not offered")
  else if resp.refused.isSome then .ok ()
  else if resp.effects.any Effect.isUnknown then
    refuse "unknown_effect_kind"
      ("effect " ++ (resp.effects.findIdx Effect.isUnknown).repr ++ " has an unknown kind")
  else if resp.stateRev ≠ req.stateRev ∧ resp.stateRev ≠ req.stateRev + 1 then
    refuse "state_rev_regressed" ("state_rev " ++ resp.stateRev.repr ++ " is neither " ++
      req.stateRev.repr ++ " nor " ++ (req.stateRev + 1).repr)
  else if resp.effects.zipIdx.any (misnumbered resp.stateRev) then
    refuse "effect_id_mismatch" (effectIdMessage resp)
  else if resp.effects ≠ [] ∧ resp.stateRev ≠ req.stateRev + 1 then
    refuse "effects_without_state_change"
      "a response with effects must advance state_rev by one"
  else if 1 < operations then
    refuse "multiple_operations"
      (operations.repr ++ " operation effects; at most one per response")
  else if 1 < terminals ∨ (terminals = 1 ∧ 0 < operations) then
    refuse "terminal_not_exclusive"
      "complete/fail must be the only terminal effect and cannot start an operation"
  else if !gapsFollowed resp.effects then
    refuse "gap_without_follow_up"
      "capability_gap must be followed by complete\x7bblocked\x7d or ask_user"
  else if (req.run.status.isTerminal ∨ req.event.kind = .stopped) ∧
      !resp.effects.all Effect.isCheckpoint then
    refuse "effects_after_terminal" (afterEndMessage resp.effects)
  else if req.event.kind = .userInput ∧ req.run.openRequests.length ≠ 0 ∧ 0 < operations ∧
      !req.run.openRequests.all fun request => withdrawn.contains request.requestId then
    refuse "open_requests_unresolved" (stillOpenMessage req.run.openRequests withdrawn)
  else if !byCall.all unanswered.contains then
    refuse "unanswered_tool_calls" ("call_tool answers '" ++
      least (byCall.filter (!unanswered.contains ·)) ++ "', which is not an unanswered call")
  else if resp.effects.any fun effect => leftUnanswered unanswered byCall effect ≠ [] then
    refuse "unanswered_tool_calls" ("model turn requested while call '" ++
      least (((resp.effects.map (leftUnanswered unanswered byCall)).find? (· ≠ [])).getD []) ++
        "' is unanswered")
  else if maxStateBytes < checks.stateSize resp.state then
    refuse "state_too_large" ("state is " ++ (checks.stateSize resp.state).repr ++ " bytes, limit " ++
      maxStateBytes.repr)
  else
    match resp.projection.bind checks.projectionError with
    | some message => refuse "projection_invalid" message
    | none => .ok ()

/-! ## The inbox -/

/-- What loads the payload of a result. -/
abbrev Loader := String → Option Value

def optionalUsage (usage : Option OpUsage) : Value :=
  usage.elim .null fun usage =>
    .object
      [("input_tokens", .number usage.inputTokens.repr),
        ("output_tokens", .number usage.outputTokens.repr)]

def turnData (payload : Option Value) (toolCalls : List CallId) (usage : Option OpUsage) : Value :=
  match payload.getD (.object []) with
  | .object fields =>
      let called :=
        if (Value.lookup "tool_calls" fields).isSome then fields
        else Value.insertField "tool_calls" (.array (toolCalls.map Value.string)) fields
      .object (Value.insertField "usage" (optionalUsage usage) called)
  | other => other

def errorClass (kind : Option OperationKind) (payload : Option Value) : String :=
  (payload.bind (strOf "error_class")).getD
    (if kind = some .modelTurn then "provider" else "tool_error")

/-- A hand-back that answers a waiting operation names that operation. -/
def answeredEnvelope (envelope : Option Value) (op : Option String) : Value :=
  match envelope, op with
  | some (.object fields), some op =>
      let named := ((Value.lookup "operation_id" fields).bind Value.asStr).any fun id =>
        List.isPrefixOf "child:".toList id.toList
      if named then .object (Value.insertField "operation_id" (.string op) fields)
      else .object fields
  | some envelope, _ => envelope
  | none, _ => .null

def resolutionData (requestId : RequestId) : Value → Value
  | .object fields =>
      .object
        ((Value.insertField "request_id" (.string requestId) fields).filter (·.1 != "effect_id"))
  | other => other

/-- What a stored event delivers to the reducer, if anything. -/
def mapEvent (event : RunEvent) (load : Loader) : Option ReducerEvent :=
  match event.kind with
  | .runCreated _ _ _ input =>
      some ⟨event.seq, .runStarted, none, none, .object [("input", input)]⟩
  | .steerConsumed steerId _ input =>
      some ⟨event.seq, .userInput, none, none,
        .object [("steer_id", .string steerId), ("input", input)]⟩
  | .operationCompleted opId kind effectId forCallId tool outcome usage resultRef toolCalls =>
      let payload := resultRef.bind fun result => load result.key
      match outcome with
      | .succeeded =>
          if kind = some .modelTurn then
            some ⟨event.seq, .modelTurnCompleted, effectId, some opId,
              turnData payload toolCalls usage⟩
          else
            some ⟨event.seq, .toolResult, effectId, some opId,
              .object
                [("call_id", optional forCallId), ("tool", optional tool),
                  ("envelope", payload.getD .null)]⟩
      | .failed | .retryable | .blocked =>
          some ⟨event.seq, .operationFailed, effectId, some opId,
            .object
              [("error_class", .string (errorClass kind payload)),
                ("retryable", .bool (decide (outcome = .retryable))),
                ("outcome_unknown", .bool false),
                ("message", (payload.bind (Value.get "message")).getD .null),
                ("call_id", optional forCallId), ("tool", optional tool),
                ("envelope", payload.getD .null)]⟩
      | .waiting | .cancelled => none
  | .requestResolved requestId resolution _ =>
      let effectId := strOf "effect_id" resolution
      if strOf "kind" resolution = some "external" then
        let op := strOf "op_id" resolution
        let envelope := (strOf "result_key" resolution).bind load
        some ⟨event.seq, .toolResult, effectId, op,
          .object
            [("call_id", (resolution.get "for_call_id").getD .null),
              ("tool", (resolution.get "tool").getD .null),
              ("envelope", answeredEnvelope envelope op), ("request_id", .string requestId)]⟩
      else
        some ⟨event.seq, .requestResolved, effectId, none, resolutionData requestId resolution⟩
  | .requestClosed requestId reason =>
      if reason = "withdrawn" then none
      else
        some ⟨event.seq, .requestClosed, none, none,
          .object [("request_id", .string requestId), ("reason", .string reason)]⟩
  | .operationCancelled opId acknowledged effectId =>
      some ⟨event.seq, .operationCancelled, effectId, some opId,
        .object [("acknowledged", .bool acknowledged)]⟩
  | .operationAbandoned opId reason effectId forCallId =>
      some ⟨event.seq, .operationFailed, effectId, some opId,
        .object
          [("error_class", .string "abandoned"), ("retryable", .bool false),
            ("outcome_unknown", .bool true), ("message", .string reason),
            ("call_id", optional forCallId)]⟩
  | .resumed number =>
      some ⟨event.seq, .resumed, none, none,
        .object [("from_checkpoint_no", number.elim .null fun number => .number number.toNat.repr)]⟩
  | .budgetExceeded which limit used =>
      some ⟨event.seq, .budgetExceeded, none, none,
        .object
          [("which", .string which), ("limit", .number limit.repr), ("used", .number used.repr)]⟩
  | .terminal .stopped outcome =>
      some ⟨event.seq, .stopped, none, none, .object [("reason", optional outcome.message)]⟩
  | _ => none

/-- The first event after a number that delivers something; how many events lie in between does not
matter. -/
def scanDeliverable (log : List RunEvent) (after : Nat) (load : Loader) :
    Option (Nat × ReducerEvent) :=
  (log.filter (after < ·.seq)).findSome? fun event =>
    (mapEvent event load).map fun delivered => (event.seq, delivered)

def requestView (request : PendingRequest) : OpenRequestView where
  requestId := request.requestId
  kind := request.kind.name
  effectId := request.effectId
  subjectDigest := request.kind.digest
  expiresAtMs := request.expiresAtMs

def runView (record : AgentRunRecord) : RunView where
  runId := record.runId
  status := record.state.status
  turn := record.currentTurn
  lastSeq := record.lastSeq
  usage := record.usage
  budgets := record.budgets
  openRequests := record.state.openRequests.map requestView
  unansweredCalls := record.unansweredCalls
  scope := record.scope
  subject := record.subject

def buildRequest (record : AgentRunRecord) (binding : DomainBinding) (state : Option Value)
    (event : ReducerEvent) : ReducerRequest where
  contract := binding.contract
  accept := [binding.contract]
  run := runView record
  state := state
  stateRev := binding.stateRev
  event := event

/-! ## Applying a response -/

/-- Core adds the identity of the run to what the reducer gave the tool. -/
def addContext (args : Value) (opId : OperationId) (run : RunId) : Value :=
  match args with
  | .object fields =>
      let given := objectFields (Value.lookup "__raisin_context" fields)
      let context := Value.insertField "operation_id" (.string opId)
        (Value.insertField "run_id" (.string run) given)
      .object (Value.insertField "__raisin_context" (.object context)
        (fields.filter (·.1 != "__raisin_context")))
  | other => other

def resultEntry (entry : ToolResultEntry) : Value :=
  .object
    [("call_id", .string entry.callId), ("synthetic", .bool entry.synthetic),
      ("content", entry.content)]

/-- The operation an effect asks for. -/
def specFor (effect : Effect) (opId : OperationId) (run : RunId) (now : Nat) :
    Option OperationSpec :=
  match effect.body with
  | .callTool tool args mutating replaySafe interruptible timeoutMs forCallId =>
      some
        { kind := some .toolCall
          effectId := some effect.effectId
          replaySafe := some replaySafe
          nonInterruptible := !interruptible
          forCallId := forCallId
          input := some (.object
            [("tool", .string tool), ("args", addContext args opId run),
              ("mutating", .bool mutating)])
          deadlineMs := timeoutMs.map (now + ·) }
  | .requestModelTurn toolsOffered instructions context toolResults outputSchema =>
      some
        { kind := some .modelTurn
          effectId := some effect.effectId
          replaySafe := some true
          answers := toolResults.map ToolResultEntry.callId
          input := some (.object
            ([("kind", .string "request_model_turn"), ("tools_offered", .array toolsOffered)] ++
              (instructions.map fun text => ("instructions", Value.string text)).toList ++
              (context.map fun value => ("context", value)).toList ++
              [("tool_results", .array (toolResults.map resultEntry))] ++
              (outputSchema.map fun value => ("output_schema", value)).toList)) }
  | _ => none

def BeginRefusal.text : BeginRefusal → String
  | notIdle => "NotIdle"
  | openRequests => "OpenRequests"
  | unansweredCalls message => "UnansweredCalls(" ++ message ++ ")"
  | budget exceeded => "Budget(" ++ exceeded.which ++ ")"
  | toolNotAllowed tool => "ToolNotAllowed(" ++ tool ++ ")"

/-- What is recorded of a tool that the objective does not allow. -/
def deniedResult (tool : String) : OperationResult where
  outcome := some .blocked
  payload := some (.object
    [("error_class", .string "tool_not_allowed"),
      ("message", .string ("the child's objective does not allow tool '" ++ tool ++ "'"))])

def returnToIdle (tx : Tx) : Tx :=
  match tx.record.state with
  | .running lease _ => tx.setRecordState (.running lease (.idle []))
  | _ => tx

/-- A tool that is not allowed is an operation that is blocked at once. -/
def startDenied (tx : Tx) (spec : OperationSpec) (tool : String) : Except TransitionRefusal Tx :=
  match beginIn tx { spec with kind := some (.custom "tool_denied") } with
  | .error refused => refusal "begin_refused" refused.text
  | .ok (started, op) => .ok (returnToIdle (completed started op (deniedResult tool) .blocked))

def parkEffect (tx : Tx) (effect : Effect) (stateRev : Nat) : Tx :=
  { tx with
    record :=
      { tx.record with
        domain := tx.record.domain.map fun binding =>
          { binding with outbox := some ⟨effect, stateRev⟩ } } }

/-- Start the operation of an effect, or park the effect when a budget refuses it.  Only effects
that ask for an operation come here. -/
def startOrPark (tx : Tx) (effect : Effect) (stateRev : Nat) : Except TransitionRefusal Tx :=
  let opId := OperationId.nth tx.record.runId (tx.record.counters.op + 1)
  match specFor effect opId tx.record.runId tx.nowMs with
  | none => refusal "begin_refused" "operation effect"
  | some spec =>
      match beginIn tx spec with
      | .ok (started, _) => .ok started
      | .error (.budget exceeded) => .ok (exceed (parkEffect tx effect stateRev) exceeded)
      | .error (.toolNotAllowed tool) => startDenied tx spec tool
      | .error (.unansweredCalls message) => refusal "unanswered_tool_calls" message
      | .error .openRequests =>
          refusal "open_requests_unresolved"
            "an operation cannot start while requests are open"
      | .error .notIdle => refusal "begin_refused" BeginRefusal.notIdle.text

/-- What the effects of a response ask for, to be done when all of them are read. -/
structure Asked where
  operation : Option Effect := none
  requests : List NewRequest := []
  terminal : Option (TerminalStatus × RunOutcome × Option String) := none

def CompleteOutcome.text : CompleteOutcome → String
  | succeeded => "succeeded"
  | partly => "partial"
  | blocked => "blocked"

/-- A checkpoint that the domain asks for keeps the state of the domain. -/
def snapshotDomainState (tx : Tx) (state : Value) : Tx :=
  let key := "ckpt:" ++ tx.record.counters.checkpoint.toNat.repr ++ ":state"
  let stored := storeJson tx key state
  { stored with
    checkpoint := stored.checkpoint.map fun checkpoint =>
      { checkpoint with structuredRef := some (jsonResult key state) } }

def withdrawOpen (tx : Tx) (requestId : RequestId) : Tx :=
  if tx.record.state.openRequests.any (·.requestId == requestId) then
    (tx.push (.requestClosed requestId "withdrawn")).removeRequest requestId
  else tx

def applyEffect (state : Value) (now : Nat) (tx : Tx) (asked : Asked) (effect : Effect) :
    Except TransitionRefusal (Tx × Asked) :=
  match effect.body with
  | .callTool .. | .requestModelTurn .. => .ok (tx, { asked with operation := some effect })
  | .requestApproval subject expiresInMs =>
      .ok (tx,
        { asked with
          requests := asked.requests ++
            [⟨.approval subject.digest subject.digestAlg subject.summary (some subject.kind)
                (subject.changes.map Value.array),
              some effect.effectId, expiresInMs.map (now + ·)⟩] })
  | .askUser question choices schema expiresInMs =>
      .ok (tx,
        { asked with
          requests := asked.requests ++
            [⟨.input question choices schema, some effect.effectId,
              expiresInMs.map (now + ·)⟩] })
  | .withdrawRequest requestId => .ok (withdrawOpen tx requestId, asked)
  | .checkpoint _ summary =>
      .ok (snapshotDomainState (tx.writeCheckpoint .domainRequested summary) state, asked)
  | .complete outcome summary artifacts evidence =>
      .ok (tx,
        { asked with
          terminal := some (.completed,
            ⟨outcome.text, none, summary,
              some (.object [("artifacts", .array artifacts), ("evidence", .array evidence)])⟩,
            none) })
  | .fail code message =>
      .ok (tx,
        { asked with
          terminal := some (.failed, ⟨"failed", some code, some message, none⟩, some code) })
  | .capabilityGap _ => .ok (tx, asked)
  | .unknown => refusal "unknown_effect_kind" "unknown effect"

def applyEffects (state : Value) (now : Nat) :
    Tx → Asked → List Effect → Except TransitionRefusal (Tx × Asked)
  | tx, asked, [] => .ok (tx, asked)
  | tx, asked, effect :: rest => do
      let next ← applyEffect state now tx asked effect
      applyEffects state now next.1 next.2 rest

def openAsked (tx : Tx) (opened : List PendingRequest) (requests : List NewRequest) :
    Tx × List PendingRequest :=
  requests.foldl
    (fun current req =>
      let next := openRequest current.1 req
      (next.1, current.2 ++ [next.2]))
    (tx, opened)

/-- The binding once the response to this event is stored. -/
def advanceBinding (binding : DomainBinding) (seq : Nat) (resp : ReducerResponse)
    (finalizeLast : Option Bool) : DomainBinding :=
  let changed := decide (resp.stateRev ≠ binding.stateRev)
  let projected := changed && resp.projection.isSome
  { binding with
    stateRev := resp.stateRev
    projectionRev := if projected then some resp.stateRev else binding.projectionRev
    projectionSuperseded :=
      if projected && finalizeLast.isSome then false else binding.projectionSuperseded
    deliveredSeq := seq
    finalized := binding.finalized || finalizeLast == some true }

/-- What the run does once every effect is read: it ends, starts an operation, or waits for what is
open. -/
def settleAsked (tx : Tx) (asked : Asked) (stateRev : Nat) : Except TransitionRefusal Tx :=
  match asked.terminal, asked.operation with
  | some (status, outcome, reason), _ => .ok (tx.terminate status outcome reason)
  | none, some effect =>
      if tx.record.state.openRequests ≠ [] then
        refusal "open_requests_unresolved" "an operation cannot start while requests are open"
      else startOrPark tx effect stateRev
  | none, none =>
      let all := openAsked tx tx.record.state.openRequests asked.requests
      match NonEmpty.fromVec all.2 with
      | some waiting => .ok (all.1.setState (.waiting waiting) none)
      | none => .ok all.1

/-- Apply the response to an event.  Once the run has ended it only moves the inbox on and writes
checkpoints. -/
def applyDomainResponse (record : AgentRunRecord) (seq : Nat) (resp : ReducerResponse)
    (finalizeLast : Option Bool) (now : Nat) : Except TransitionRefusal Transition :=
  match record.domain with
  | none => refusal "no_domain" "run has no reducer"
  | some binding => do
      let tx := Tx.new record now
      let advanced :=
        { tx with
          domainState :=
            if resp.stateRev ≠ binding.stateRev then
              some (resp.stateRev,
                .object [("state", resp.state), ("projection", resp.projection.getD .null)])
            else none
          record :=
            { tx.record with
              domain := some (advanceBinding binding seq resp finalizeLast) } }
      let pushed := advanced.push (.domainApplied resp.stateRev seq resp.effects)
      let read ← applyEffects resp.state now pushed {} resp.effects
      if finalizeLast.isSome || read.1.record.state.isTerminal then return read.1.finish
      else do
        let settled ← settleAsked read.1 read.2 resp.stateRev
        return settled.finish

end RaisinDB.Agents
