import RaisinDB.Agents.Tx

/-!
# The life of a run

A driver takes the lease of a queued run, starts operations at its idle boundary and
records how they end.  Budgets are checked before an operation starts.  A driver whose
lease expired is taken over.
-/

namespace RaisinDB.Agents

open List
open RaisinDB.Foundation (Value)

def refusal {α : Type} (code message : String) : Except TransitionRefusal α :=
  .error ⟨code, message⟩

/-- Every legal change of status. -/
def legalChanges : List (RunStatus × RunStatus) :=
  [(.queued, .running), (.queued, .stopped), (.running, .paused), (.running, .waiting),
    (.running, .queued), (.running, .cancelling), (.running, .stopped), (.running, .completed),
    (.running, .failed), (.cancelling, .stopped), (.waiting, .queued), (.waiting, .paused),
    (.waiting, .stopped), (.paused, .stopped), (.paused, .queued)]

/-! ## Fences -/

structure LeaseFence where
  owner : String
  epoch : Nat
  deriving DecidableEq

inductive Fence where
  | none
  | lease (fence : LeaseFence)
  | domainFinalize (expectedStateRev : Nat)
  deriving DecidableEq

/-- What a commit must prove about the stored record. -/
def checkFence (stored : AgentRunRecord) (fence : Fence) (now : Nat) : Except String Unit :=
  match fence with
  | .none => .ok ()
  | .lease claim =>
      match stored.state.lease with
      | some lease =>
          if lease.owner = claim.owner ∧ lease.epoch = claim.epoch ∧
              claim.epoch = stored.leaseEpoch ∧ now < lease.expiresAtMs then .ok ()
          else .error "lease_lost"
      | none => .error "lease_lost"
  | .domainFinalize expected =>
      match stored.domain with
      | some binding =>
          if stored.state.isTerminal ∧ !binding.finalized ∧ binding.stateRev = expected then .ok ()
          else .error "finalize_fenced"
      | none => .error "finalize_fenced"

/-! ## Budgets -/

structure Exceeded where
  which : String
  limit : Nat
  used : Nat
  deriving DecidableEq

def overLimit (which : String) (limit : Option Nat) (used : Nat) : Option Exceeded :=
  match limit with
  | some limit => if limit ≤ used then some ⟨which, limit, used⟩ else none
  | none => none

/-- What a live child holds reserved counts as used. -/
def addReserved (usage : RunUsage) (link : ChildLink) : RunUsage :=
  { usage with
    operations := usage.operations + link.reserved.maxOperations.getD 0
    modelCalls := usage.modelCalls + link.reserved.maxModelCalls.getD 0
    inputTokens := usage.inputTokens + link.reserved.maxTotalTokens.getD 0 }

def treeUsed (record : AgentRunRecord) : RunUsage :=
  (record.children.filter ChildLink.isLive).foldl addReserved
    { record.usage.treeTotal with consecutiveOpFailures := record.usage.consecutiveOpFailures }

/-- The budget that starting an operation of this kind would exceed. -/
def checkBeforeOp (record : AgentRunRecord) (kind : OperationKind) (startsTurn : Bool)
    (now : Nat) : Option Exceeded :=
  let budgets := record.budgets
  let used := treeUsed record
  (if startsTurn then overLimit "max_turns" budgets.maxTurns record.counters.turn.toNat else none)
    <|> overLimit "max_operations" budgets.maxOperations used.operations
    <|> (if kind = .modelTurn then overLimit "max_model_calls" budgets.maxModelCalls used.modelCalls
        else none)
    <|> overLimit "max_total_tokens" budgets.maxTotalTokens (used.inputTokens + used.outputTokens)
    <|> overLimit "max_wall_ms" budgets.maxWallMs (now - record.createdAtMs)
    <|> overLimit "max_consecutive_op_failures" budgets.maxConsecutiveOpFailures
        used.consecutiveOpFailures

structure Spare where
  operations : Option Nat
  modelCalls : Option Nat
  tokens : Option Nat
  wallMs : Option Nat

/-- What a run can still lend. -/
def spare (record : AgentRunRecord) (now : Nat) : Spare :=
  let used := treeUsed record
  let budgets := record.budgets
  { operations := budgets.maxOperations.map (· - used.operations)
    modelCalls := budgets.maxModelCalls.map (· - used.modelCalls)
    tokens := budgets.maxTotalTokens.map (· - (used.inputTokens + used.outputTokens))
    wallMs := budgets.maxWallMs.map (· - (now - record.createdAtMs)) }

/-- Count one finished operation. -/
def accumulate (usage : RunUsage) (kind : OperationKind) (outcome : OpOutcome)
    (spent : Option OpUsage) : RunUsage :=
  { usage with
    operations := usage.operations + 1
    modelCalls := if kind = .modelTurn then usage.modelCalls + 1 else usage.modelCalls
    toolCalls := if kind = .toolCall then usage.toolCalls + 1 else usage.toolCalls
    inputTokens := usage.inputTokens + (spent.map OpUsage.inputTokens).getD 0
    outputTokens := usage.outputTokens + (spent.map OpUsage.outputTokens).getD 0
    consecutiveOpFailures :=
      if outcome.isFailure then usage.consecutiveOpFailures + 1
      else if outcome = .cancelled then usage.consecutiveOpFailures
      else 0 }

/-- A budget that is named replaces the old one. -/
def raise (budgets increase : RunBudgets) : RunBudgets :=
  { budgets with
    maxTurns := increase.maxTurns <|> budgets.maxTurns
    maxOperations := increase.maxOperations <|> budgets.maxOperations
    maxModelCalls := increase.maxModelCalls <|> budgets.maxModelCalls
    maxTotalTokens := increase.maxTotalTokens <|> budgets.maxTotalTokens
    maxWallMs := increase.maxWallMs <|> budgets.maxWallMs
    maxConsecutiveOpFailures :=
      increase.maxConsecutiveOpFailures <|> budgets.maxConsecutiveOpFailures
    maxChildren := increase.maxChildren <|> budgets.maxChildren
    maxLiveChildren := increase.maxLiveChildren <|> budgets.maxLiveChildren
    maxDepth := increase.maxDepth <|> budgets.maxDepth }

/-! ## Leases -/

def applyAcquire (record : AgentRunRecord) (owner : String) (now ttl : Nat) :
    Except TransitionRefusal Transition :=
  match record.state with
  | .queued requests _ =>
      let tx := (Tx.new record now).bumpEpoch
      let epoch := tx.record.leaseEpoch
      .ok (((tx.push (.leaseAcquired owner epoch)).setState
        (.running ⟨owner, epoch, now + ttl⟩ (.idle requests)) none).finish)
  | state => refusal "not_queued" ("run is " ++ state.status.asStr)

def applyRenew (record : AgentRunRecord) (now ttl : Nat) : Except TransitionRefusal Transition :=
  let tx := Tx.new record now
  match record.state with
  | .running lease activity =>
      .ok (tx.setRecordState (.running { lease with expiresAtMs := now + ttl } activity)).finish
  | .cancelling lease op stop =>
      .ok (tx.setRecordState (.cancelling { lease with expiresAtMs := now + ttl } op stop)).finish
  | _ => refusal "no_lease" "nothing to renew"

def applyRelease (record : AgentRunRecord) (now : Nat) (wake : Bool) :
    Except TransitionRefusal Transition :=
  match record.state with
  | .running _ (.idle requests) =>
      let released := (Tx.new record now).setState (.queued requests .leaseReleased) none
      .ok (if wake then released else { released with wake := none }).finish
  | _ => refusal "not_idle" "release is legal only between operations"

/-! ## Starting operations -/

structure OperationSpec where
  kind : Option OperationKind := none
  effectId : Option String := none
  replaySafe : Option Bool := none
  nonInterruptible : Bool := false
  forCallId : Option CallId := none
  answers : List CallId := []
  input : Option Value := none
  deadlineMs : Option Nat := none
  cause : Option TurnCause := none

inductive BeginRefusal where
  | notIdle
  | openRequests
  | unansweredCalls (message : String)
  | budget (exceeded : Exceeded)
  | toolNotAllowed (tool : String)
  deriving DecidableEq

/-- No path allows every tool; `*` at the end allows what begins so. -/
def toolAllowed (allowed : List String) (tool : String) : Bool :=
  allowed.isEmpty || allowed.any fun pattern =>
    if pattern.toList.getLast? = some '*' then
      List.isPrefixOf pattern.toList.dropLast tool.toList
    else pattern == tool

/-- The tool that the objective of a child does not allow. -/
def deniedTool (record : AgentRunRecord) (kind : OperationKind) (input : Option Value) :
    Option String :=
  match record.delegation with
  | none => none
  | some delegation =>
      let allowed := delegation.objective.allowedTools
      let tool := (toolOf input).getD ""
      if kind ≠ .toolCall ∨ allowed = [] then none
      else if toolAllowed allowed tool then none
      else some tool

def startTurn (tx : Tx) (cause : Option TurnCause) : Tx :=
  let turn := tx.record.counters.turn + 1
  let started :=
    { tx with
      record :=
        { tx.record with
          counters := { tx.record.counters with turn := turn }
          currentTurn := some turn
          usage := { tx.record.usage with turns := turn.toNat } } }
  started.push (.turnStarted turn (cause.getD (if turn = 1 then .input else .continuation)))

def startedEvent (op : ActiveOperation) : RunEventKind :=
  .operationStarted op.opId op.kind op.effectId op.idempotencyKey op.replaySafe op.interruptible
    op.forCallId op.attempt

/-- A model turn answers every open call, and then there are none; a tool answers an open call. -/
def answerCalls (tx : Tx) (kind : OperationKind) (spec : OperationSpec) :
    Except BeginRefusal Tx :=
  if kind = .modelTurn then
    match tx.record.unansweredCalls.find? (!spec.answers.contains ·) with
    | some missing => .error (.unansweredCalls ("call '" ++ missing ++ "' is unanswered"))
    | none => .ok { tx with record := { tx.record with unansweredCalls := [] } }
  else
    match spec.forCallId with
    | some call =>
        if tx.record.unansweredCalls.contains call then .ok tx
        else .error (.unansweredCalls ("call '" ++ call ++ "' is not unanswered"))
    | none => .ok tx

def replaySafeByDefault : OperationKind → Bool
  | .modelTurn | .compaction => true
  | _ => false

/-- The operation that is started, under the next number. -/
def newOperation (tx : Tx) (kind : OperationKind) (spec : OperationSpec) : ActiveOperation where
  opId := OperationId.nth tx.record.runId tx.record.counters.op
  kind := kind
  effectId := spec.effectId
  idempotencyKey := OperationId.nth tx.record.runId tx.record.counters.op
  replaySafe := spec.replaySafe.getD (replaySafeByDefault kind)
  interruptible := !spec.nonInterruptible
  forCallId := spec.forCallId
  input := spec.input
  startedAtMs := tx.nowMs
  deadlineMs := spec.deadlineMs
  leaseEpoch := tx.record.leaseEpoch
  attempt := 1

def countOperation (tx : Tx) : Tx :=
  { tx with
    record :=
      { tx.record with
        counters := { tx.record.counters with op := tx.record.counters.op + 1 } } }

/-- Start an operation at the idle boundary. -/
def beginIn (tx : Tx) (spec : OperationSpec) : Except BeginRefusal (Tx × ActiveOperation) :=
  match tx.record.state with
  | .running lease (.idle requests) =>
      if requests ≠ [] then .error .openRequests
      else
        let kind := spec.kind.getD .toolCall
        match deniedTool tx.record kind spec.input with
        | some tool => .error (.toolNotAllowed tool)
        | none =>
            let startsTurn := tx.record.currentTurn.isNone
            match checkBeforeOp tx.record kind startsTurn tx.nowMs with
            | some exceeded => .error (.budget exceeded)
            | none => do
                let answered ← answerCalls tx kind spec
                let turned := if startsTurn then startTurn answered spec.cause else answered
                let counted := countOperation turned
                let op := newOperation counted kind spec
                let pushed := counted.push (startedEvent op)
                return (pushed.setRecordState (.running lease (.operating op false)), op)
  | _ => .error .notIdle

def applyBegin (record : AgentRunRecord) (spec : OperationSpec) (now : Nat) :
    Except BeginRefusal Transition :=
  (beginIn (Tx.new record now) spec).map fun started => started.1.finish

/-- Log the budget and pause with a checkpoint, or fail. -/
def exceed (tx : Tx) (exceeded : Exceeded) : Tx :=
  let logged := tx.push (.budgetExceeded exceeded.which exceeded.limit exceeded.used)
  let reason := "budget_exceeded:" ++ exceeded.which
  match logged.record.budgets.onExceeded with
  | .pause =>
      let reasoned :=
        { logged with record := { logged.record with statusReason := some reason } }
      (reasoned.setState (.paused logged.record.state.openRequests (.budget exceeded.which))
        (some reason)).writeCheckpoint .pause none
  | .fail => logged.terminate .failed ⟨"failed", some reason, none, none⟩ (some reason)

def applyBudgetExceeded (record : AgentRunRecord) (exceeded : Exceeded) (now : Nat) :
    Transition :=
  (exceed (Tx.new record now) exceeded).finish

/-! ## Ending operations -/

structure OperationResult where
  outcome : Option OpOutcome := none
  usage : Option OpUsage := none
  payload : Option Value := none
  toolCalls : List CallId := []
  resumeKey : Option String := none

def largeResultBytes : Nat := 4 * 1024

def largeResultWindow : Nat := 32

def jsonResult (key : String) (value : Value) : ResultRef :=
  ⟨key, value.toVec.size, "application/json"⟩

def storeJson (tx : Tx) (key : String) (value : Value) : Tx :=
  { tx with results := tx.results ++ [(jsonResult key value, value)] }

/-- Remember a large result; only the last ones are kept. -/
def rememberLarge (tx : Tx) (result : ResultRef) : Tx :=
  if largeResultBytes ≤ result.bytes then
    let window := tx.record.largeResults ++ [result]
    { tx with
      record := { tx.record with largeResults := window.drop (window.length - largeResultWindow) } }
  else tx

def storeResult (tx : Tx) (op : ActiveOperation) (payload : Option Value) :
    Tx × Option ResultRef :=
  match payload with
  | none => (tx, none)
  | some payload =>
      let key := "op:" ++ op.opId ++ ":" ++ op.attempt.repr
      (rememberLarge (storeJson tx key payload) (jsonResult key payload),
        some (jsonResult key payload))

def completed (tx : Tx) (op : ActiveOperation) (result : OperationResult) (outcome : OpOutcome) :
    Tx :=
  let stored := storeResult tx op result.payload
  let seq := stored.1.nextSeq
  let pushed := stored.1.push
    (.operationCompleted op.opId (some op.kind) op.effectId op.forCallId op.tool outcome
      result.usage stored.2 result.toolCalls)
  { pushed with
    idem := pushed.idem ++ [(op.idempotencyKey, seq)]
    record :=
      { pushed.record with
        usage := accumulate pushed.record.usage op.kind outcome result.usage
        unansweredCalls :=
          if op.kind = .modelTurn then result.toolCalls else pushed.record.unansweredCalls } }

def optional (text : Option String) : Value := text.elim .null .string

/-- What a child's hand-back answers a request that waits for it: a waiting tool is given its
result, a request for the child its status. -/
def childResolution (child : RunId) (resultKey : String) (status : RunStatus)
    (request : PendingRequest) : Option Value :=
  match request.kind with
  | .external opId key forCallId tool =>
      if key = resumeKey child then
        some (.object
          [("kind", .string "external"), ("result_key", .string resultKey),
            ("op_id", .string opId), ("effect_id", optional request.effectId),
            ("delivery_id", .string (resumeKey child)), ("for_call_id", optional forCallId),
            ("tool", optional tool)])
      else none
  | .child childRunId =>
      if childRunId = child then
        some (.object
          [("kind", .string "child"), ("child_run_id", .string child),
            ("status", .string status.asStr), ("result_key", .string resultKey),
            ("effect_id", optional request.effectId)])
      else none
  | _ => none

/-- A run that an answer queued is woken for it. -/
def wakeForResult (tx : Tx) : Tx :=
  match tx.record.state with
  | .queued requests _ =>
      if tx.wake.isSome then
        { (tx.setRecordState (.queued requests .externalResult)) with
          wake := some .externalResult }
      else tx
  | _ => tx

def resolveRequest (tx : Tx) (requestId : RequestId) (resolution : Value)
    (byControl : Option ControlId) : Tx :=
  (tx.push (.requestResolved requestId resolution byControl)).removeRequest requestId

/-- Answer every open request that waits for the child. -/
def resolveChildWaits (tx : Tx) (child : RunId) (resultKey : String) (status : RunStatus) : Tx :=
  wakeForResult
    (tx.record.state.openRequests.foldl
      (fun tx request =>
        match childResolution child resultKey status request with
        | some resolution => resolveRequest tx request.requestId resolution none
        | none => tx)
      tx)

/-- A tool that waits for a child which already handed back is answered at once. -/
def answerLanded (tx : Tx) (key : String) : Tx :=
  match tx.record.children.find? fun link => link.delivered && link.resumeKey == key with
  | some link =>
      match link.resultKey with
      | some resultKey => resolveChildWaits tx link.runId resultKey link.status
      | none => tx
  | none => tx

def countRequest (tx : Tx) : Tx :=
  { tx with
    record :=
      { tx.record with
        counters := { tx.record.counters with request := tx.record.counters.request + 1 } } }

/-- The request of a tool that waits for something external. -/
def openExternal (tx : Tx) (op : ActiveOperation) (key : String) : Tx × PendingRequest :=
  let counted := countRequest tx
  let request : PendingRequest :=
    { requestId := RequestId.nth counted.record.runId counted.record.counters.request
      kind := .external op.opId key op.forCallId op.tool
      requestedBy := some op.opId
      effectId := op.effectId
      createdSeq := counted.nextSeq
      expiresAtMs := none }
  (counted.push (.requestOpened request), request)

/-- Where an operation that ends leaves the run: paused if a pause landed meanwhile, waiting if it
opened a request, and otherwise idle. -/
def leaveOperation (tx : Tx) (lease : Lease) (pauseRequested : Bool)
    (requests : List PendingRequest) : Tx :=
  if pauseRequested then
    (tx.setState (.paused requests .user) (some "user_pause")).writeCheckpoint .pause none
  else
    match NonEmpty.fromVec requests with
    | some requests => tx.setState (.waiting requests) none
    | none => tx.setRecordState (.running lease (.idle []))

/-- The operation of a running run ends. -/
def finishRunning (tx : Tx) (lease : Lease) (op : ActiveOperation) (pauseRequested : Bool)
    (result : OperationResult) (outcome : OpOutcome) : Tx :=
  let done := completed tx op result outcome
  if outcome = .waiting then
    let key := result.resumeKey.getD ""
    let opened := openExternal done op key
    answerLanded (leaveOperation opened.1 lease pauseRequested [opened.2]) key
  else leaveOperation done lease pauseRequested []

/-- The operation of a run that is stopping ends, and with it the run. -/
def finishCancelling (tx : Tx) (op : ActiveOperation) (stop : StopInfo)
    (result : OperationResult) (outcome : OpOutcome) : Tx :=
  let done := if outcome = .cancelled then tx else completed tx op result outcome
  let acknowledged := decide (outcome = .cancelled)
  (done.push (.operationCancelled op.opId acknowledged op.effectId)).terminate .stopped
    (.new "stopped" stop.reason) (some "user_stop")

def applyFinish (record : AgentRunRecord) (opId : OperationId) (result : OperationResult)
    (now : Nat) : Except TransitionRefusal Transition :=
  let outcome := result.outcome.getD .succeeded
  let notActive := refusal "op_not_active" ("operation " ++ opId ++ " is not in flight")
  match record.state with
  | .running lease (.operating op pauseRequested) =>
      if op.opId ≠ opId then notActive
      else if outcome = .waiting ∧ result.resumeKey.getD "" = "" then
        refusal "waiting_without_resume_key" "a waiting result must name a resume_key"
      else .ok (finishRunning (Tx.new record now) lease op pauseRequested result outcome).finish
  | .cancelling _ op stop =>
      if op.opId ≠ opId then notActive
      else .ok (finishCancelling (Tx.new record now) op stop result outcome).finish
  | _ => notActive

/-! ## The idle boundary -/

def consumeSteer (tx : Tx) (steer : SteerEntry) : Tx :=
  let turned :=
    if tx.record.currentTurn.isNone then startTurn tx (some (.steer steer.steerId)) else tx
  turned.push (.steerConsumed steer.steerId (turned.record.currentTurn.getD 0) steer.input)

def applyConsumeSteers (record : AgentRunRecord) (now : Nat) : Option Transition :=
  match record.state with
  | .running _ (.idle _) =>
      if record.steerQueue = [] then none
      else
        let tx := Tx.new record now
        some (record.steerQueue.foldl consumeSteer
          { tx with record := { tx.record with steerQueue := [] } }).finish
  | _ => none

structure NewRequest where
  kind : PendingKind
  effectId : Option String
  expiresAtMs : Option Nat

def openRequest (tx : Tx) (req : NewRequest) : Tx × PendingRequest :=
  let counted := countRequest tx
  let request : PendingRequest :=
    { requestId := RequestId.nth counted.record.runId counted.record.counters.request
      kind := req.kind
      requestedBy := none
      effectId := req.effectId
      createdSeq := counted.nextSeq
      expiresAtMs := req.expiresAtMs }
  (counted.push (.requestOpened request), request)

/-- A request for a child is refused when it is none, or has already handed back. -/
def admitRequest (children : List ChildLink) (req : NewRequest) :
    Except TransitionRefusal Unit :=
  match req.kind with
  | .child childRunId =>
      match children.find? fun link => link.runId == childRunId with
      | none => refusal "unknown_child" (childRunId ++ " is not a child of this run")
      | some link =>
          if link.delivered then
            refusal "child_already_completed" "the child's hand-back is already in the mailbox"
          else .ok ()
  | _ => .ok ()

def openRequests (children : List ChildLink) :
    Tx → List PendingRequest → List NewRequest → Except TransitionRefusal (Tx × List PendingRequest)
  | tx, opened, [] => .ok (tx, opened)
  | tx, opened, req :: rest => do
      admitRequest children req
      let next := openRequest tx req
      openRequests children next.1 (opened ++ [next.2]) rest

def applyWait (record : AgentRunRecord) (requests : List NewRequest) (now : Nat) :
    Except TransitionRefusal Transition :=
  match record.state with
  | .running _ (.idle opened) => do
      let all ← openRequests record.children (Tx.new record now) opened requests
      match NonEmpty.fromVec all.2 with
      | some waiting => return (all.1.setState (.waiting waiting) none).finish
      | none => refusal "nothing_to_wait_for" "no request to wait on"
  | _ => refusal "not_idle" "requests open only between operations"

def applyTerminal (record : AgentRunRecord) (status : TerminalStatus) (outcome : RunOutcome)
    (reason : Option String) (now : Nat) : Except TransitionRefusal Transition :=
  match record.state with
  | .running _ (.idle _) => .ok ((Tx.new record now).terminate status outcome reason).finish
  | _ => refusal "not_idle" "a run ends from its idle boundary"

def applyCheckpoint (record : AgentRunRecord) (reason : CheckpointReason)
    (summary : Option String) (now : Nat) : Transition :=
  ((Tx.new record now).writeCheckpoint reason summary).finish

/-- Pause because the reducer cannot be used. -/
def applyReducerPause (record : AgentRunRecord) (reason : String) (now : Nat) :
    Except TransitionRefusal Transition :=
  match record.state with
  | .running _ (.idle requests) =>
      let tx := Tx.new record now
      let reasoned := { tx with record := { tx.record with statusReason := some reason } }
      .ok ((reasoned.setState (.paused requests (.reducer reason)) (some reason)).writeCheckpoint
        .pause none).finish
  | _ => refusal "not_idle" "reducer pause happens at the idle boundary"

/-! ## Expiry and takeover -/

def isExpired (now : Nat) (request : PendingRequest) : Bool :=
  request.expiresAtMs.any (· ≤ now)

def closeExpired (tx : Tx) (request : PendingRequest) : Tx :=
  (tx.push (.requestClosed request.requestId "expired")).removeRequest request.requestId

def applyExpireRequests (record : AgentRunRecord) (now : Nat) : Option Transition :=
  let expired := record.state.openRequests.filter (isExpired now)
  if expired = [] then none else some (expired.foldl closeExpired (Tx.new record now)).finish

structure Takeover where
  transition : Transition
  /-- What the new owner presents to dispatch the operation again. -/
  redispatch : Option LeaseFence

/-- The lease passes to a new owner under the next epoch. -/
def takenOver (tx : Tx) (old : Lease) (owner : String) : Tx :=
  tx.bumpEpoch.push
    (.leaseTakenOver old.owner old.epoch owner tx.bumpEpoch.record.leaseEpoch)

/-- Take over an expired lease.  An operation is dispatched again only when it may be replayed;
otherwise it is abandoned and the run is queued. -/
def applyTakeover (record : AgentRunRecord) (owner : String) (now ttl : Nat) :
    Except TransitionRefusal Takeover :=
  let tx := Tx.new record now
  match record.state with
  | .cancelling old op stop =>
      let taken := takenOver tx old owner
      let lease : Lease := ⟨owner, taken.record.leaseEpoch, now + ttl⟩
      let cancelled := (taken.setRecordState (.cancelling lease op stop)).push
        (.operationCancelled op.opId false op.effectId)
      .ok ⟨(cancelled.terminate .stopped (.new "stopped" stop.reason) (some "user_stop")).finish,
        none⟩
  | .running old (.operating op pauseRequested) =>
      let taken := takenOver tx old owner
      let lease : Lease := ⟨owner, taken.record.leaseEpoch, now + ttl⟩
      if op.replaySafe then
        let again :=
          { op with
            attempt := op.attempt + 1
            leaseEpoch := lease.epoch
            startedAtMs := now }
        let started := taken.push (startedEvent again)
        .ok ⟨(started.setRecordState (.running lease (.operating again pauseRequested))).finish,
          some ⟨owner, lease.epoch⟩⟩
      else
        let idle := (taken.setRecordState (.running lease (.idle []))).push
          (.operationAbandoned op.opId "lease_expired_not_replay_safe" op.effectId op.forCallId)
        let counted :=
          { idle with
            record :=
              { idle.record with
                usage :=
                  { idle.record.usage with
                    consecutiveOpFailures := idle.record.usage.consecutiveOpFailures + 1 } } }
        .ok ⟨(counted.setState (.queued [] .leaseReleased) (some "lease_expired")).finish, none⟩
  | .running _ (.idle requests) =>
      .ok ⟨(tx.setState (.queued requests .leaseReleased) (some "lease_expired")).finish, none⟩
  | _ => refusal "no_lease" "nothing to take over"

end RaisinDB.Agents
