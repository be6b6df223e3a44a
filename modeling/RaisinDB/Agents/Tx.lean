import RaisinDB.Agents.Record

/-!
# Transitions under construction

A transition starts from the stored record, changes a copy of it and pushes events.  The
store numbers the events in the order they were pushed, so a transition knows the number
of every event it pushes and can write it down.
-/

namespace RaisinDB.Agents

open List
open RaisinDB.Foundation (Value)

/-! ## Events -/

structure ActorRef where
  kind : PrincipalKind
  id : String
  capability : Option String
  deriving DecidableEq

/-- The capability never reaches the log. -/
def ActorRef.redacted (actor : ActorRef) : ActorRef := { actor with capability := none }

inductive ApprovalDecision where
  | approve
  | reject (reason : Option String)
  deriving DecidableEq

inductive ControlKind where
  | stop (reason : Option String)
  | pause
  | resume (budgetIncrease : Option RunBudgets) (acceptReducerChange : Bool)
  | steer (input : Value)
  | approve (requestId : RequestId) (decision : ApprovalDecision) (subjectDigest : String)
  | provideInput (requestId : RequestId) (value : Value)
  deriving DecidableEq

inductive ControlAck where
  | applied (seq : Nat)
  | duplicate (originalSeq : Nat)
  | rejected (reason : String) (seq : Nat)
  deriving DecidableEq

def ControlAck.seq : ControlAck → Nat
  | applied seq | rejected _ seq => seq
  | duplicate originalSeq => originalSeq

def ControlAck.asDuplicate : ControlAck → ControlAck
  | duplicate originalSeq => duplicate originalSeq
  | other => duplicate other.seq

inductive TurnCause where
  | input
  | steer (steerId : SteerId)
  | request (requestId : RequestId)
  | resume
  | continuation
  deriving DecidableEq

inductive OpOutcome where
  | succeeded | waiting | retryable | blocked | failed | cancelled
  deriving DecidableEq

def OpOutcome.isFailure : OpOutcome → Bool
  | failed | retryable | blocked => true
  | _ => false

structure OpUsage where
  inputTokens : Nat
  outputTokens : Nat
  deriving DecidableEq

inductive CheckpointReason where
  | compaction | pause | periodic | beforeTerminal | domainRequested | delegation
  deriving DecidableEq

inductive RunEventKind where
  | runCreated (subject : SubjectRef) (principal : Principal) (budgets : RunBudgets)
      (input : Value)
  | statusChanged (source target : RunStatus) (reason : Option String)
  | turnStarted (turn : UInt32) (cause : TurnCause)
  | turnEnded (turn : UInt32)
  | operationStarted (opId : OperationId) (kind : OperationKind) (effectId : Option String)
      (idempotencyKey : String) (replaySafe interruptible : Bool) (forCallId : Option CallId)
      (attempt : Nat)
  | operationCompleted (opId : OperationId) (kind : Option OperationKind)
      (effectId : Option String) (forCallId : Option CallId) (tool : Option String)
      (outcome : OpOutcome) (usage : Option OpUsage) (resultRef : Option ResultRef)
      (toolCalls : List CallId)
  | operationCancelled (opId : OperationId) (acknowledged : Bool) (effectId : Option String)
  | operationAbandoned (opId : OperationId) (reason : String) (effectId : Option String)
      (forCallId : Option CallId)
  | controlReceived (controlId : ControlId) (command : ControlKind) (issuedBy : ActorRef)
  | controlApplied (controlId : ControlId)
  | controlRejected (controlId : ControlId) (reason : String)
  | steerQueued (steerId : SteerId)
  | steerConsumed (steerId : SteerId) (turn : UInt32) (input : Value)
  | steerDiscarded (steerId : SteerId)
  | requestOpened (request : PendingRequest)
  | requestResolved (requestId : RequestId) (resolution : Value) (byControl : Option ControlId)
  | requestClosed (requestId : RequestId) (reason : String)
  | resumed (fromCheckpointNo : Option UInt32)
  | checkpointWritten (checkpointNo : UInt32) (atSeq : Nat) (reason : CheckpointReason)
  | budgetExceeded (which : String) (limit used : Nat)
  | leaseAcquired (owner : String) (epoch : Nat)
  | leaseTakenOver (fromOwner : String) (fromEpoch : Nat) (owner : String) (epoch : Nat)
  | leaseReleased (epoch : Nat)
  | domainApplied (stateRev deliveredSeq : Nat) (effects : List Effect)
  | terminal (status : TerminalStatus) (outcome : RunOutcome)
  | childSpawned (childRunId : RunId) (childNo : Nat) (title : String) (reserved : RunBudgets)
      (depth : Nat)
  | childHandback (childRunId : RunId) (childNo : Nat) (status : RunStatus)
      (outcomeKind resultKey : String) (mailNo : Nat) (contractSatisfied : Bool)
  | handbackDelivered (parentRunId : RunId)
  | mailPosted (mailNo : Nat) (fromRun : RunId) (resultKey : String)
  | mailboxAcked (upTo : Nat)
  | childControlled (childRunId : RunId) (action : String) (controlId : ControlId) (ack : String)
  | waiterNotified (kind target : String)
  deriving DecidableEq

/-- An event as a transition pushes it. -/
structure NewEvent where
  turn : Option UInt32
  opId : Option OperationId
  kind : RunEventKind
  deriving DecidableEq

/-- An event as the store keeps it. -/
structure RunEvent where
  runId : RunId
  seq : Nat
  atMs : Nat
  turn : Option UInt32
  opId : Option OperationId
  kind : RunEventKind
  deriving DecidableEq

def opIdOf : RunEventKind → Option OperationId
  | .operationStarted opId .. | .operationCompleted opId .. | .operationCancelled opId ..
  | .operationAbandoned opId .. => some opId
  | _ => none

/-! ## Checkpoints -/

structure CheckpointCore where
  status : RunStatus
  requests : List PendingRequest
  steerQueue : List SteerEntry
  unansweredCalls : List CallId
  usage : RunUsage
  budgets : RunBudgets
  counters : Counters
  children : List ChildLink
  mailbox : List MailboxItem
  deriving DecidableEq

structure RunCheckpoint where
  runId : RunId
  checkpointNo : UInt32
  atSeq : Nat
  atMs : Nat
  reason : CheckpointReason
  turn : Option UInt32
  core : CheckpointCore
  domainStateRev : Option Nat
  domainContract : Option String
  transcriptCutoff : Option SubjectRef
  summary : Option String
  largeRefs : List ResultRef
  structuredRef : Option ResultRef
  deriving DecidableEq

def RunCheckpoint.build (record : AgentRunRecord) (reason : CheckpointReason) (atSeq now : Nat)
    (summary : Option String) : RunCheckpoint where
  runId := record.runId
  checkpointNo := record.counters.checkpoint
  atSeq := atSeq
  atMs := now
  reason := reason
  turn := record.currentTurn
  core :=
    { status := record.state.status
      requests := record.state.openRequests
      steerQueue := record.steerQueue
      unansweredCalls := record.unansweredCalls
      usage := record.usage
      budgets := record.budgets
      counters := record.counters
      children := record.children
      mailbox := record.mailbox }
  domainStateRev := record.domain.map DomainBinding.stateRev
  domainContract := record.domain.map DomainBinding.contract
  transcriptCutoff := none
  summary := summary
  largeRefs := record.largeResults
  structuredRef := none

/-! ## The transition -/

/-- What is written beside the record and the events. -/
structure Outputs where
  cancel : Option (RunId × OperationId) := none
  wake : Option WakeReason := none
  checkpoint : Option RunCheckpoint := none
  idem : List (String × Nat) := []
  control : Option (ControlId × ControlAck × String) := none
  domainState : Option (Nat × Value) := none
  results : List (ResultRef × Value) := []
  deriving DecidableEq

structure Transition extends Outputs where
  record : AgentRunRecord
  expectedVersion : Nat
  events : List NewEvent
  deriving DecidableEq

structure Tx extends Outputs where
  baseSeq : Nat
  baseVersion : Nat
  record : AgentRunRecord
  nowMs : Nat
  events : List NewEvent
  deriving DecidableEq

namespace Tx

def new (record : AgentRunRecord) (now : Nat) : Tx where
  baseSeq := record.lastSeq
  baseVersion := record.version
  record := record
  nowMs := now
  events := []

/-- The number the next event gets. -/
def nextSeq (tx : Tx) : Nat := tx.baseSeq + tx.events.length + 1

/-- The event gets the number that was next. -/
def push (tx : Tx) (kind : RunEventKind) : Tx :=
  { tx with events := tx.events ++ [⟨tx.record.currentTurn, opIdOf kind, kind⟩] }

def setRecordState (tx : Tx) (state : RunState) : Tx :=
  { tx with record := { tx.record with state := state } }

/-- Leaving a lease ends the open turn. -/
def endTurn (tx : Tx) : Tx :=
  match tx.record.currentTurn with
  | none => tx
  | some turn =>
      { tx with
        record := { tx.record with currentTurn := none }
        events := tx.events ++ [⟨some turn, none, .turnEnded turn⟩] }

def bumpEpoch (tx : Tx) : Tx :=
  { tx with record := { tx.record with leaseEpoch := tx.record.leaseEpoch + 1 } }

def releaseLease (tx : Tx) : Tx :=
  tx.bumpEpoch.push (.leaseReleased tx.bumpEpoch.record.leaseEpoch)

/-- An ended run owes no effect any more and its projection is out of date. -/
def supersedeProjection (tx : Tx) : Tx :=
  { tx with
    record :=
      { tx.record with
        domain := tx.record.domain.map fun binding =>
          { binding with projectionSuperseded := true, outbox := none } } }

/-- Queueing the run asks for a driver. -/
def wakeFor (tx : Tx) : RunState → Tx
  | .queued _ wake =>
      if tx.record.state.status = .queued then tx else { tx with wake := some wake }
  | _ => tx

def leaveLease (tx : Tx) (next : RunState) : Tx :=
  if tx.record.state.lease.isSome && next.lease.isNone then tx.endTurn.releaseLease else tx

def enter (tx : Tx) (next : RunState) : Tx :=
  ((if next.isTerminal then tx.supersedeProjection else tx).wakeFor next).setRecordState next

def setState (tx : Tx) (next : RunState) (reason : Option String) : Tx :=
  let source := tx.record.state.status
  let moved := (tx.leaveLease next).enter next
  if source = next.status then moved
  else moved.push (.statusChanged source next.status reason)

def writeCheckpoint (tx : Tx) (reason : CheckpointReason) (summary : Option String) : Tx :=
  let number := tx.record.counters.checkpoint + 1
  let seq := tx.nextSeq
  let counted :=
    { tx with
      record :=
        { tx.record with
          counters := { tx.record.counters with checkpoint := number }
          lastCheckpointSeq := some seq } }
  let pushed := counted.push (.checkpointWritten number seq reason)
  { pushed with
    checkpoint := some (RunCheckpoint.build pushed.record reason seq pushed.nowMs summary) }

def closeRequests (tx : Tx) (reason : String) (requests : List PendingRequest) : Tx :=
  requests.foldl (fun tx request => tx.push (.requestClosed request.requestId reason)) tx

def discardSteers (tx : Tx) : Tx :=
  tx.record.steerQueue.foldl (fun tx steer => tx.push (.steerDiscarded steer.steerId))
    { tx with record := { tx.record with steerQueue := [] } }

/-- End the run, with nothing left open. -/
def terminate (tx : Tx) (status : TerminalStatus) (outcome : RunOutcome)
    (reason : Option String) : Tx :=
  let closed := (tx.closeRequests "cancelled" tx.record.state.openRequests).discardSteers
  let cleared :=
    { closed with
      record := { closed.record with unansweredCalls := [], statusReason := reason } }
  (cleared.setState (.terminal status outcome) reason).push (.terminal status outcome)

/-- Take an open request away.  A waiting run with none left is queued; there is nothing to take
away while an operation is in flight. -/
def removeRequest (tx : Tx) (requestId : RequestId) : Tx :=
  let requests := tx.record.state.openRequests
  if requests.any (·.requestId == requestId) then
    let rest := requests.eraseP (·.requestId == requestId)
    match tx.record.state with
    | .waiting _ =>
        match NonEmpty.fromVec rest with
        | some rest => tx.setRecordState (.waiting rest)
        | none => tx.setState (.queued [] .requestResolved) none
    | .queued _ wake => tx.setRecordState (.queued rest wake)
    | .paused _ reason => tx.setRecordState (.paused rest reason)
    | .running lease (.idle _) => tx.setRecordState (.running lease (.idle rest))
    | _ => tx
  else tx

def finish (tx : Tx) : Transition where
  toOutputs := tx.toOutputs
  record :=
    { tx.record with
      version := tx.baseVersion + 1
      lastSeq := tx.baseSeq + tx.events.length
      updatedAtMs := tx.nowMs }
  expectedVersion := tx.baseVersion
  events := tx.events

end Tx

/-! ## Refusals -/

structure TransitionRefusal where
  code : String
  message : String
  deriving DecidableEq

end RaisinDB.Agents
