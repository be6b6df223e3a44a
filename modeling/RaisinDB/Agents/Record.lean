import RaisinDB.Foundation.Json

/-!
# Agent runs

A run is one record.  Its state says where the run is in its life, and has no room for
an operation without a lease, for a request open while an operation is in flight, or for
anything left of a run that has ended.
-/

namespace RaisinDB.Agents

open List
open RaisinDB.Foundation (Value)

/-! ## Names -/

abbrev RunId := String

/-- `run/op/n`, which is also the idempotency key of the operation. -/
abbrev OperationId := String

abbrev ControlId := String

abbrev RequestId := String

abbrev SteerId := String

abbrev CallId := String

def OperationId.nth (run : RunId) (n : Nat) : OperationId := run ++ "/op/" ++ n.repr

def RequestId.nth (run : RunId) (n : Nat) : RequestId := run ++ "/req/" ++ n.repr

def SteerId.nth (run : RunId) (n : Nat) : SteerId := run ++ "/steer/" ++ n.repr

structure RunScope where
  tenantId : String
  repoId : String
  branch : String
  deriving DecidableEq

structure SubjectRef where
  workspace : String
  path : String
  nodeId : Option String
  deriving DecidableEq

inductive PrincipalKind where
  | user | agent | system
  deriving DecidableEq

structure Principal where
  kind : PrincipalKind
  id : String
  onBehalfOf : Option String
  deriving DecidableEq

/-! ## Operations, requests and steers -/

inductive OperationKind where
  | modelTurn | toolCall | compaction
  | custom (name : String)
  deriving DecidableEq

structure ActiveOperation where
  opId : OperationId
  kind : OperationKind
  effectId : Option String
  idempotencyKey : String
  replaySafe : Bool
  interruptible : Bool
  forCallId : Option CallId
  input : Option Value
  startedAtMs : Nat
  deadlineMs : Option Nat
  /-- The epoch under which it was last started. -/
  leaseEpoch : Nat
  /-- One at the first dispatch, one more for each takeover that dispatches it again. -/
  attempt : Nat
  deriving DecidableEq

/-- The tool a tool call names. -/
def toolOf (input : Option Value) : Option String :=
  (input.bind (Value.get "tool")).bind Value.asStr

def ActiveOperation.tool (op : ActiveOperation) : Option String := toolOf op.input

structure Lease where
  owner : String
  epoch : Nat
  expiresAtMs : Nat
  deriving DecidableEq

inductive PendingKind where
  | approval (subjectDigest digestAlg summary : String) (scope : Option String)
      (changes : Option Value)
  | input (prompt : String) (choices : Option (List Value)) (schema : Option Value)
  | child (childRunId : RunId)
  | external (opId : OperationId) (resumeKey : String) (forCallId : Option CallId)
      (tool : Option String)
  deriving DecidableEq

structure PendingRequest where
  requestId : RequestId
  kind : PendingKind
  requestedBy : Option OperationId
  effectId : Option String
  createdSeq : Nat
  expiresAtMs : Option Nat
  deriving DecidableEq

structure SteerEntry where
  steerId : SteerId
  controlId : ControlId
  input : Value
  queuedSeq : Nat
  deriving DecidableEq

/-! ## The state -/

inductive RunStatus where
  | queued | running | waiting | paused | cancelling | completed | failed | stopped
  deriving DecidableEq

namespace RunStatus

def isTerminal : RunStatus → Bool
  | completed | failed | stopped => true
  | _ => false

def asStr : RunStatus → String
  | queued => "queued"
  | running => "running"
  | waiting => "waiting"
  | paused => "paused"
  | cancelling => "cancelling"
  | completed => "completed"
  | failed => "failed"
  | stopped => "stopped"

end RunStatus

inductive TerminalStatus where
  | completed | failed | stopped
  deriving DecidableEq

def TerminalStatus.status : TerminalStatus → RunStatus
  | completed => .completed
  | failed => .failed
  | stopped => .stopped

structure RunOutcome where
  kind : String
  code : Option String
  message : Option String
  detail : Option Value
  deriving DecidableEq

def RunOutcome.new (kind : String) (message : Option String) : RunOutcome :=
  ⟨kind, none, message, none⟩

inductive WakeReason where
  | created | steer | requestResolved | resumed | leaseReleased | externalResult | finalize
  | handback | cascade
  deriving DecidableEq

inductive PauseReason where
  | user
  | budget (which : String)
  | reducer (reason : String)
  deriving DecidableEq

structure StopInfo where
  controlId : ControlId
  reason : Option String
  deriving DecidableEq

structure NonEmpty (α : Type) where
  head : α
  tail : List α
  deriving DecidableEq

namespace NonEmpty

variable {α : Type}

def fromVec : List α → Option (NonEmpty α)
  | [] => none
  | head :: tail => some ⟨head, tail⟩

def intoVec (items : NonEmpty α) : List α := items.head :: items.tail

theorem fromVec_eq_some {items : List α} {some' : NonEmpty α} :
    fromVec items = some some' ↔ items = some'.intoVec := by
  cases items with
  | nil => simp [fromVec, intoVec]
  | cons head tail =>
      rcases some' with ⟨head', tail'⟩
      simp [fromVec, intoVec]

theorem fromVec_eq_none {items : List α} : fromVec items = none ↔ items = [] := by
  cases items <;> simp [fromVec]

end NonEmpty

inductive Activity where
  /-- Between operations. -/
  | idle (requests : List PendingRequest)
  /-- No request is open while an operation is in flight. -/
  | operating (op : ActiveOperation) (pauseRequested : Bool)
  deriving DecidableEq

inductive RunState where
  | queued (requests : List PendingRequest) (wake : WakeReason)
  | running (lease : Lease) (activity : Activity)
  | cancelling (lease : Lease) (op : ActiveOperation) (stop : StopInfo)
  | waiting (requests : NonEmpty PendingRequest)
  | paused (requests : List PendingRequest) (reason : PauseReason)
  | terminal (terminal : TerminalStatus) (outcome : RunOutcome)
  deriving DecidableEq

namespace RunState

def status : RunState → RunStatus
  | queued .. => .queued
  | running .. => .running
  | cancelling .. => .cancelling
  | waiting .. => .waiting
  | paused .. => .paused
  | terminal ended _ => ended.status

def lease : RunState → Option Lease
  | running lease _ | cancelling lease _ _ => some lease
  | _ => none

def activeOp : RunState → Option ActiveOperation
  | running _ (.operating op _) | cancelling _ op _ => some op
  | _ => none

def openRequests : RunState → List PendingRequest
  | queued requests _ | paused requests _ | running _ (.idle requests) => requests
  | waiting requests => requests.intoVec
  | _ => []

def isTerminal : RunState → Bool
  | terminal .. => true
  | _ => false

@[simp] theorem queued_view (requests : List PendingRequest) (wake : WakeReason) :
    (queued requests wake).status = .queued ∧ (queued requests wake).lease = none ∧
      (queued requests wake).activeOp = none ∧ (queued requests wake).openRequests = requests ∧
      (queued requests wake).isTerminal = false := ⟨rfl, rfl, rfl, rfl, rfl⟩

@[simp] theorem running_view (lease : Lease) (activity : Activity) :
    (running lease activity).status = .running ∧ (running lease activity).lease = some lease ∧
      (running lease activity).isTerminal = false := ⟨rfl, rfl, rfl⟩

@[simp] theorem idle_view (lease : Lease) (requests : List PendingRequest) :
    (running lease (.idle requests)).activeOp = none ∧
      (running lease (.idle requests)).openRequests = requests := ⟨rfl, rfl⟩

@[simp] theorem operating_view (lease : Lease) (op : ActiveOperation) (pauseRequested : Bool) :
    (running lease (.operating op pauseRequested)).activeOp = some op ∧
      (running lease (.operating op pauseRequested)).openRequests = [] := ⟨rfl, rfl⟩

@[simp] theorem cancelling_view (lease : Lease) (op : ActiveOperation) (stop : StopInfo) :
    (cancelling lease op stop).status = .cancelling ∧
      (cancelling lease op stop).lease = some lease ∧
      (cancelling lease op stop).activeOp = some op ∧
      (cancelling lease op stop).openRequests = [] ∧
      (cancelling lease op stop).isTerminal = false := ⟨rfl, rfl, rfl, rfl, rfl⟩

@[simp] theorem waiting_view (requests : NonEmpty PendingRequest) :
    (waiting requests).status = .waiting ∧ (waiting requests).lease = none ∧
      (waiting requests).activeOp = none ∧
      (waiting requests).openRequests = requests.intoVec ∧
      (waiting requests).isTerminal = false := ⟨rfl, rfl, rfl, rfl, rfl⟩

@[simp] theorem paused_view (requests : List PendingRequest) (reason : PauseReason) :
    (paused requests reason).status = .paused ∧ (paused requests reason).lease = none ∧
      (paused requests reason).activeOp = none ∧
      (paused requests reason).openRequests = requests ∧
      (paused requests reason).isTerminal = false := ⟨rfl, rfl, rfl, rfl, rfl⟩

@[simp] theorem terminal_view (ended : TerminalStatus) (outcome : RunOutcome) :
    (terminal ended outcome).status = ended.status ∧ (terminal ended outcome).lease = none ∧
      (terminal ended outcome).activeOp = none ∧ (terminal ended outcome).openRequests = [] ∧
      (terminal ended outcome).isTerminal = true := ⟨rfl, rfl, rfl, rfl, rfl⟩

theorem status_isTerminal (state : RunState) : state.status.isTerminal = state.isTerminal := by
  rcases state with _ | _ | _ | _ | _ | ⟨_ | _ | _, _⟩ <;> rfl

end RunState

/-! ## Budgets and usage -/

inductive BudgetPolicy where
  | pause | fail
  deriving DecidableEq

/-- No limit is no bound. -/
structure RunBudgets where
  maxTurns : Option Nat := none
  maxOperations : Option Nat := none
  maxModelCalls : Option Nat := none
  maxTotalTokens : Option Nat := none
  maxWallMs : Option Nat := none
  maxConsecutiveOpFailures : Option Nat := none
  maxChildren : Option Nat := none
  maxLiveChildren : Option Nat := none
  maxDepth : Option Nat := none
  onExceeded : BudgetPolicy := .pause
  deriving DecidableEq

structure RunUsage where
  turns : Nat := 0
  operations : Nat := 0
  modelCalls : Nat := 0
  toolCalls : Nat := 0
  inputTokens : Nat := 0
  outputTokens : Nat := 0
  consecutiveOpFailures : Nat := 0
  childInputTokens : Nat := 0
  childOutputTokens : Nat := 0
  childOperations : Nat := 0
  childModelCalls : Nat := 0
  childToolCalls : Nat := 0
  childrenCompleted : Nat := 0
  deriving DecidableEq

/-- What a run used with all its finished children. -/
def RunUsage.treeTotal (usage : RunUsage) : RunUsage where
  turns := usage.turns
  operations := usage.operations + usage.childOperations
  modelCalls := usage.modelCalls + usage.childModelCalls
  toolCalls := usage.toolCalls + usage.childToolCalls
  inputTokens := usage.inputTokens + usage.childInputTokens
  outputTokens := usage.outputTokens + usage.childOutputTokens
  consecutiveOpFailures := usage.consecutiveOpFailures
  childrenCompleted := usage.childrenCompleted

/-- Turns and checkpoints are counted in 32 bits, and the counts wrap around. -/
structure Counters where
  turn : UInt32 := 0
  op : Nat := 0
  steer : Nat := 0
  request : Nat := 0
  checkpoint : UInt32 := 0
  child : Nat := 0
  mail : Nat := 0
  deriving DecidableEq

structure ResultRef where
  key : String
  bytes : Nat
  contentType : String
  deriving DecidableEq

/-! ## Reducers and their effects -/

structure ReducerRef where
  functionPath : String
  handler : String
  artifactHash : String
  deriving DecidableEq

structure ToolResultEntry where
  callId : String
  synthetic : Bool
  content : Value
  deriving DecidableEq

structure ApprovalSubject where
  kind : String
  digest : String
  digestAlg : String
  summary : String
  changes : Option (List Value)
  deriving DecidableEq

inductive CompleteOutcome where
  | succeeded | partly | blocked
  deriving DecidableEq

inductive EffectBody where
  | callTool (tool : String) (args : Value) (mutating replaySafe interruptible : Bool)
      (timeoutMs : Option Nat) (forCallId : Option String)
  | requestModelTurn (toolsOffered : List Value) (instructions : Option String)
      (context : Option Value) (toolResults : List ToolResultEntry) (outputSchema : Option Value)
  | requestApproval (subject : ApprovalSubject) (expiresInMs : Option Nat)
  | askUser (question : String) (choices : Option (List Value)) (schema : Option Value)
      (expiresInMs : Option Nat)
  | withdrawRequest (requestId : String)
  | checkpoint (reason summary : Option String)
  | complete (outcome : CompleteOutcome) (summary : Option String)
      (artifacts evidence : List Value)
  | fail (code message : String)
  | capabilityGap (gap : Value)
  | unknown
  deriving DecidableEq

structure Effect where
  effectId : String
  body : EffectBody
  deriving DecidableEq

structure PendingEffect where
  effect : Effect
  stateRev : Nat
  deriving DecidableEq

structure DomainBinding where
  reducer : ReducerRef
  contract : String
  stateRev : Nat
  deliveredSeq : Nat
  /-- At most one operation effect that was not started. -/
  outbox : Option PendingEffect
  projectionRev : Option Nat
  projectionSuperseded : Bool
  finalized : Bool
  pendingArtifactHash : Option String
  deriving DecidableEq

def contractV1 : String := "raisin.agent-run.reducer/1"

def DomainBinding.new (reducer : ReducerRef) : DomainBinding where
  reducer := reducer
  contract := contractV1
  stateRev := 0
  deliveredSeq := 0
  outbox := none
  projectionRev := none
  projectionSuperseded := false
  finalized := false
  pendingArtifactHash := none

/-! ## Children -/

def maxDepth : Nat := 4

def maxChildrenPerRun : Nat := 64

def mailboxLimit : Nat := 256

def maxContextItems : Nat := 50

def maxInlineBytes : Nat := 64 * 1024

inductive ContextSelection where
  | none
  | recentTurns (turns : Nat) (items : List Value)
  | snapshot (checkpointNo : Option UInt32) (data : Option Value)
  deriving DecidableEq

structure ExpectedArtifact where
  kind : String
  locator : Option Value
  required : Bool
  deriving DecidableEq

structure AcceptanceCheck where
  id : String
  required : Bool
  deriving DecidableEq

structure ChildObjective where
  title : String
  context : ContextSelection
  /-- Function paths, or the beginning of such paths before a `*`; no path at all allows
  every tool. -/
  allowedTools : List String
  /-- No list keeps what the parent was granted; an empty list grants no writes. -/
  allowedWrites : Option (List Value)
  expectedArtifacts : List ExpectedArtifact
  acceptanceChecks : List AcceptanceCheck
  requiredFields : List String
  deriving DecidableEq

structure Delegation where
  objective : ChildObjective
  childNo : Nat
  spawnKey : Option String
  handbackDelivered : Bool
  deriving DecidableEq

/-- What a parent knows of one child. -/
structure ChildLink where
  childNo : Nat
  runId : RunId
  title : String
  spawnKey : Option String
  status : RunStatus
  /-- What the parent lends while the child is live. -/
  reserved : RunBudgets
  delivered : Bool
  resultKey : Option String
  usage : Option RunUsage
  deriving DecidableEq

/-- `child:run`: what a tool that waits for a child names. -/
def resumeKey (child : RunId) : String := "child:" ++ child

def ChildLink.isLive (link : ChildLink) : Bool := !link.delivered

def ChildLink.resumeKey (link : ChildLink) : String := Agents.resumeKey link.runId

inductive MailKind where
  | completion | message
  deriving DecidableEq

structure MailboxItem where
  mailNo : Nat
  kind : MailKind
  fromRun : RunId
  /-- The event that delivered it. -/
  seq : Nat
  resultKey : String
  status : Option RunStatus
  deriving DecidableEq

structure RunWaiter where
  kind : String
  target : String
  branch : String
  data : Value
  delivered : Bool
  deriving DecidableEq

/-! ## The record -/

def steerQueueLimit : Nat := 32

structure AgentRunRecord where
  runId : RunId
  scope : RunScope
  subject : SubjectRef
  principal : Principal
  controlCapabilityHash : Option String
  agentRef : Option String
  createKey : Option String
  state : RunState
  statusReason : Option String
  version : Nat
  lastSeq : Nat
  createdAtMs : Nat
  updatedAtMs : Nat
  counters : Counters
  currentTurn : Option UInt32
  leaseEpoch : Nat
  steerQueue : List SteerEntry
  unansweredCalls : List CallId
  budgets : RunBudgets
  usage : RunUsage
  lastCheckpointSeq : Option Nat
  domain : Option DomainBinding
  parentRunId : Option RunId
  rootRunId : Option RunId
  depth : Nat
  delegation : Option Delegation
  children : List ChildLink
  mailbox : List MailboxItem
  largeResults : List ResultRef
  executorConfig : Option Value
  waiter : Option RunWaiter
  deriving DecidableEq

/-- Everything a run is created from. -/
structure CreateRun where
  scope : RunScope
  subject : SubjectRef
  principal : Principal
  controlCapabilityHash : Option String
  agentRef : Option String
  createKey : Option String
  budgets : RunBudgets
  input : Value
  reducer : Option ReducerRef
  executorConfig : Option Value
  waiter : Option RunWaiter

/-- A run that was just created: queued, at version one, with one event. -/
def newRecord (req : CreateRun) (runId : RunId) (now : Nat) : AgentRunRecord where
  runId := runId
  scope := req.scope
  subject := req.subject
  principal := req.principal
  controlCapabilityHash := req.controlCapabilityHash
  agentRef := req.agentRef
  createKey := req.createKey
  state := .queued [] .created
  statusReason := none
  version := 1
  lastSeq := 1
  createdAtMs := now
  updatedAtMs := now
  counters := {}
  currentTurn := none
  leaseEpoch := 0
  steerQueue := []
  unansweredCalls := []
  budgets := req.budgets
  usage := {}
  lastCheckpointSeq := none
  domain := req.reducer.map DomainBinding.new
  parentRunId := none
  rootRunId := none
  depth := 0
  delegation := none
  children := []
  mailbox := []
  largeResults := []
  executorConfig := req.executorConfig
  waiter := req.waiter

end RaisinDB.Agents
