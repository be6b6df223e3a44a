import RaisinDB.Agents.Store

/-!
# What the log says of a run

Reading the events of a run in order gives an account of it: its status, what is open and
queued, the operation in flight, who holds the lease and under which epoch, the mailbox
and the children.  An event is legal when it follows from the account so far.
-/

namespace RaisinDB.Agents

open List
open RaisinDB.Foundation (Value)

/-! ## The account -/

/-- What the log says of an operation. -/
structure OpView where
  opId : OperationId
  kind : OperationKind
  effectId : Option String
  idempotencyKey : String
  replaySafe : Bool
  interruptible : Bool
  forCallId : Option CallId
  attempt : Nat
  /-- The epoch under which it was last started. -/
  leaseEpoch : Nat
  deriving DecidableEq

def ActiveOperation.view (op : ActiveOperation) : OpView where
  opId := op.opId
  kind := op.kind
  effectId := op.effectId
  idempotencyKey := op.idempotencyKey
  replaySafe := op.replaySafe
  interruptible := op.interruptible
  forCallId := op.forCallId
  attempt := op.attempt
  leaseEpoch := op.leaseEpoch

/-- What the log says of a child. -/
structure LinkView where
  runId : RunId
  reserved : RunBudgets
  delivered : Bool
  deriving DecidableEq

def ChildLink.view (link : ChildLink) : LinkView := ⟨link.runId, link.reserved, link.delivered⟩

/-- A control that is being handled, and the event that logged its arrival. -/
structure Receipt where
  controlId : ControlId
  command : ControlKind
  seq : Nat
  deriving DecidableEq

@[ext]
structure Ledger where
  runId : RunId
  /-- How many events were read. -/
  seq : Nat
  status : RunStatus
  requests : List PendingRequest
  /-- The queued steers with the numbers of the events that queued them. -/
  steers : List (SteerId × Nat)
  turn : Option UInt32
  op : Option OpView
  /-- A pause was applied to the operation in flight. -/
  pausing : Bool
  /-- Who holds the lease, and under which epoch it was given. -/
  owner : Option (String × Nat)
  epoch : Nat
  mailbox : List MailboxItem
  /-- The children with what they are lent, and whether they have handed back. -/
  children : List LinkView
  counters : Counters
  lastCheckpoint : Option Nat
  operations : Nat
  modelCalls : Nat
  received : Option Receipt
  /-- A resume was applied and the status has not changed yet. -/
  resumed : Bool
  deriving DecidableEq

namespace Ledger

/-- The hand-back of the first child of that name. -/
def markDelivered (child : RunId) : List LinkView → List LinkView
  | [] => []
  | link :: rest =>
      if link.runId = child then { link with delivered := true } :: rest
      else link :: markDelivered child rest

/-- What an event says, apart from its number. -/
def note (ledger : Ledger) : RunEventKind → Ledger
  | .statusChanged _ target _ =>
      { ledger with status := target, pausing := false, resumed := false }
  | .turnStarted turn _ =>
      { ledger with turn := some turn, counters := { ledger.counters with turn := turn } }
  | .turnEnded _ => { ledger with turn := none }
  | .operationStarted opId kind effectId idempotencyKey replaySafe interruptible forCallId
      attempt =>
      { ledger with
        op := some ⟨opId, kind, effectId, idempotencyKey, replaySafe, interruptible, forCallId,
          attempt, ledger.epoch⟩
        counters :=
          if ledger.op.isNone then { ledger.counters with op := ledger.counters.op + 1 }
          else ledger.counters }
  | .operationCompleted _ kind .. =>
      { ledger with
        op := none
        operations := ledger.operations + 1
        modelCalls :=
          if kind = some .modelTurn then ledger.modelCalls + 1 else ledger.modelCalls }
  | .operationCancelled .. => { ledger with op := none }
  | .operationAbandoned .. => { ledger with op := none, pausing := false }
  | .controlReceived controlId command _ =>
      { ledger with received := some ⟨controlId, command, ledger.seq + 1⟩ }
  | .controlApplied _ =>
      { ledger with
        received := none
        pausing := ledger.pausing ||
          (ledger.received.any (·.command == .pause) && ledger.op.isSome) }
  | .controlRejected .. => { ledger with received := none }
  | .steerQueued steerId =>
      { ledger with
        steers := ledger.steers ++ [(steerId, ledger.seq + 1)]
        counters := { ledger.counters with steer := ledger.counters.steer + 1 } }
  | .steerConsumed steerId .. | .steerDiscarded steerId =>
      { ledger with steers := ledger.steers.eraseP (·.1 == steerId) }
  | .requestOpened request =>
      { ledger with
        requests := ledger.requests ++ [request]
        counters := { ledger.counters with request := ledger.counters.request + 1 } }
  | .requestResolved requestId .. | .requestClosed requestId _ =>
      { ledger with requests := ledger.requests.eraseP (·.requestId == requestId) }
  | .resumed _ => { ledger with resumed := true }
  | .checkpointWritten number atSeq _ =>
      { ledger with
        counters := { ledger.counters with checkpoint := number }
        lastCheckpoint := some atSeq }
  | .leaseAcquired owner epoch | .leaseTakenOver _ _ owner epoch =>
      { ledger with owner := some (owner, epoch), epoch := epoch }
  | .leaseReleased epoch => { ledger with owner := none, epoch := epoch }
  | .childSpawned child number _ reserved _ =>
      { ledger with
        children := ledger.children ++ [⟨child, reserved, false⟩]
        counters := { ledger.counters with child := number } }
  | .childHandback child _ status _ key number _ =>
      { ledger with
        children := markDelivered child ledger.children
        mailbox := makeRoom ledger.mailbox ++
          [⟨number, .completion, child, ledger.seq + 1, key, some status⟩]
        counters := { ledger.counters with mail := number } }
  | .mailPosted number sender key =>
      { ledger with
        mailbox := ledger.mailbox ++ [⟨number, .message, sender, ledger.seq + 1, key, none⟩]
        counters := { ledger.counters with mail := number } }
  | .mailboxAcked upTo => { ledger with mailbox := ledger.mailbox.filter (upTo < ·.mailNo) }
  | _ => ledger

def observe (ledger : Ledger) (kind : RunEventKind) : Ledger :=
  { ledger.note kind with seq := ledger.seq + 1 }

/-- Read events in order. -/
def replay (ledger : Ledger) (kinds : List RunEventKind) : Ledger := kinds.foldl observe ledger

@[simp] theorem replay_nil (ledger : Ledger) : ledger.replay [] = ledger := rfl

@[simp] theorem replay_cons (ledger : Ledger) (kind : RunEventKind) (rest : List RunEventKind) :
    ledger.replay (kind :: rest) = (ledger.observe kind).replay rest := rfl

theorem replay_append (ledger : Ledger) (first second : List RunEventKind) :
    ledger.replay (first ++ second) = (ledger.replay first).replay second := foldl_append

@[simp] theorem observe_seq (ledger : Ledger) (kind : RunEventKind) :
    (ledger.observe kind).seq = ledger.seq + 1 := rfl

theorem replay_seq (ledger : Ledger) (kinds : List RunEventKind) :
    (ledger.replay kinds).seq = ledger.seq + kinds.length := by
  induction kinds generalizing ledger with
  | nil => rfl
  | cons kind rest ih => rw [replay_cons, ih, observe_seq, length_cons]; omega

/-! ## Legal events -/

/-- A run that ends leaves nothing behind; one that is pausing can only pause, stop or, when its
operation was given up, be queued; a paused one is queued by a resume only. -/
def MayChange (ledger : Ledger) (source target : RunStatus) : Prop :=
  source = ledger.status ∧ (source, target) ∈ legalChanges ∧
    (target.isTerminal → ledger.op = none ∧ ledger.requests = [] ∧ ledger.steers = []) ∧
    (target ≠ .running → target ≠ .cancelling → ledger.owner = none) ∧
    (ledger.pausing = true → target = .paused ∨ target = .cancelling) ∧
    (source = .paused → target = .queued → ledger.resumed = true)

/-- A first start is the next operation of a run with nothing open; a later one repeats an operation
that may be replayed. -/
def MayStart (ledger : Ledger) (op : OpView) : Prop :=
  ledger.status = .running ∧ ledger.owner.isSome ∧ ledger.received = none ∧
    ((ledger.op = none ∧ op.attempt = 1 ∧ ledger.requests = [] ∧ ledger.pausing = false ∧
        op.opId = OperationId.nth ledger.runId (ledger.counters.op + 1)) ∨
      ∃ before, ledger.op = some before ∧ before.replaySafe = true ∧
        op = { before with attempt := before.attempt + 1, leaseEpoch := ledger.epoch })

/-- A child that has not handed back. -/
def Awaited (ledger : Ledger) (child : RunId) : Prop :=
  ∃ reserved, ledger.children.find? (·.runId == child) = some ⟨child, reserved, false⟩

def Legal (ledger : Ledger) : RunEventKind → Prop
  | .runCreated .. => False
  | .statusChanged source target _ => ledger.MayChange source target
  | .turnStarted turn _ => ledger.turn = none ∧ turn = ledger.counters.turn + 1
  | .turnEnded turn => ledger.turn = some turn
  | .operationStarted opId kind effectId idempotencyKey replaySafe interruptible forCallId
      attempt =>
      ledger.MayStart ⟨opId, kind, effectId, idempotencyKey, replaySafe, interruptible, forCallId,
        attempt, ledger.epoch⟩
  | .operationCompleted opId kind effectId .. =>
      ∃ op, ledger.op = some op ∧ op.opId = opId ∧ some op.kind = kind ∧ op.effectId = effectId
  | .operationCancelled opId _ _ =>
      ledger.status = .cancelling ∧ ∀ op, ledger.op = some op → op.opId = opId
  | .operationAbandoned opId _ effectId _ =>
      ∃ op, ledger.op = some op ∧ op.opId = opId ∧ op.replaySafe = false ∧ op.effectId = effectId
  | .controlReceived .. => ledger.received = none
  | .controlApplied controlId =>
      ∃ receipt, ledger.received = some receipt ∧ receipt.controlId = controlId
  | .controlRejected controlId _ =>
      ∀ receipt, ledger.received = some receipt →
        receipt.controlId = controlId ∧ receipt.seq = ledger.seq
  | .resumed _ =>
      ∃ receipt increase acceptChange, ledger.received = some receipt ∧
        receipt.command = .resume increase acceptChange
  | .steerQueued steerId =>
      steerId = SteerId.nth ledger.runId (ledger.counters.steer + 1) ∧
        ledger.status.isTerminal = false
  | .steerConsumed steerId turn _ =>
      ledger.turn = some turn ∧ ledger.steers.head?.map Prod.fst = some steerId
  | .steerDiscarded steerId => ledger.steers.head?.map Prod.fst = some steerId
  | .requestOpened request =>
      request.requestId = RequestId.nth ledger.runId (ledger.counters.request + 1) ∧
        request.createdSeq = ledger.seq + 1 ∧ ledger.op = none ∧ ledger.status = .running ∧
        ∀ child, request.kind = .child child → ledger.Awaited child
  | .requestResolved requestId resolution _ =>
      ∃ request ∈ ledger.requests, request.requestId = requestId ∧
        strOf "effect_id" resolution = request.effectId
  | .requestClosed requestId _ => ∃ request ∈ ledger.requests, request.requestId = requestId
  | .checkpointWritten number atSeq _ =>
      number = ledger.counters.checkpoint + 1 ∧ atSeq = ledger.seq + 1
  | .leaseAcquired _ epoch => ledger.owner = none ∧ epoch = ledger.epoch + 1
  | .leaseTakenOver _ _ _ epoch => ledger.owner.isSome = true ∧ epoch = ledger.epoch + 1
  | .leaseReleased epoch => ledger.owner.isSome = true ∧ epoch = ledger.epoch + 1
  | .childSpawned _ number .. =>
      number = ledger.counters.child + 1 ∧ ledger.children.length < maxChildrenPerRun ∧
        ledger.status.isTerminal = false
  | .childHandback child _ _ _ key number _ =>
      ledger.Awaited child ∧ key = handbackKey child ∧ number = ledger.counters.mail + 1
  | .mailPosted number .. =>
      number = ledger.counters.mail + 1 ∧ ledger.mailbox.length < mailboxLimit
  | _ => True

def LegalRun : Ledger → List RunEventKind → Prop
  | _, [] => True
  | ledger, kind :: rest => ledger.Legal kind ∧ LegalRun (ledger.observe kind) rest

theorem legalRun_append {ledger : Ledger} {first second : List RunEventKind} :
    LegalRun ledger (first ++ second) ↔
      LegalRun ledger first ∧ LegalRun (ledger.replay first) second := by
  induction first generalizing ledger with
  | nil => simp [LegalRun]
  | cons kind rest ih => simp only [cons_append, LegalRun, ih, replay_cons, and_assoc]

end Ledger

/-! ## The account a record gives -/

/-- A pause that an operation in flight holds up. -/
def RunState.pausing : RunState → Bool
  | running _ (.operating _ pauseRequested) => pauseRequested
  | _ => false

@[simp] theorem RunState.pausing_operating (lease : Lease) (op : ActiveOperation)
    (pauseRequested : Bool) :
    (running lease (.operating op pauseRequested)).pausing = pauseRequested := rfl

@[simp] theorem RunState.pausing_queued (requests : List PendingRequest) (wake : WakeReason) :
    (queued requests wake).pausing = false := rfl

@[simp] theorem RunState.pausing_idle (lease : Lease) (requests : List PendingRequest) :
    (running lease (.idle requests)).pausing = false := rfl

@[simp] theorem RunState.pausing_cancelling (lease : Lease) (op : ActiveOperation)
    (stop : StopInfo) : (cancelling lease op stop).pausing = false := rfl

@[simp] theorem RunState.pausing_waiting (requests : NonEmpty PendingRequest) :
    (waiting requests).pausing = false := rfl

@[simp] theorem RunState.pausing_paused (requests : List PendingRequest) (reason : PauseReason) :
    (paused requests reason).pausing = false := rfl

@[simp] theorem RunState.pausing_terminal (ended : TerminalStatus) (outcome : RunOutcome) :
    (terminal ended outcome).pausing = false := rfl

theorem RunState.pausing_eq_false {state : RunState} (noOp : state.activeOp = none) :
    state.pausing = false := by
  rcases state with _ | ⟨_, _ | _⟩ | _ | _ | _ | _ <;> first | rfl | cases noOp

def queuedSteers (queue : List SteerEntry) : List (SteerId × Nat) :=
  queue.map fun steer => (steer.steerId, steer.queuedSeq)

def linkViews (children : List ChildLink) : List LinkView := children.map ChildLink.view

theorem linkViews_find? (children : List ChildLink) (child : RunId) :
    (linkViews children).find? (·.runId == child) =
      (children.find? (·.runId == child)).map ChildLink.view := by
  rw [linkViews, find?_map]
  rfl

/-- Renewing a lease changes nothing of it here. -/
@[simp] def Lease.view (lease : Lease) : String × Nat := (lease.owner, lease.epoch)

def ledgerOf (record : AgentRunRecord) : Ledger where
  runId := record.runId
  seq := record.lastSeq
  status := record.state.status
  requests := record.state.openRequests
  steers := queuedSteers record.steerQueue
  turn := record.currentTurn
  op := record.state.activeOp.map ActiveOperation.view
  pausing := record.state.pausing
  owner := record.state.lease.map Lease.view
  epoch := record.leaseEpoch
  mailbox := record.mailbox
  children := linkViews record.children
  counters := record.counters
  lastCheckpoint := record.lastCheckpointSeq
  operations := record.usage.operations
  modelCalls := record.usage.modelCalls
  received := none
  resumed := false

def Transition.kinds (transition : Transition) : List RunEventKind :=
  transition.events.map NewEvent.kind

/-- What the log does not tell of a run, and hardly any transition changes. -/
structure Origin where
  seq : Nat
  version : Nat
  runId : RunId
  scope : RunScope
  parentRunId : Option RunId
  rootRunId : Option RunId
  depth : Nat
  objective : Option ChildObjective
  executorConfig : Option Value
  budgets : RunBudgets
  childOperations : Nat
  childModelCalls : Nat
  /-- The revision of the domain state and how far the inbox was read. -/
  inbox : Option (Nat × Nat)

def DomainBinding.inbox (binding : DomainBinding) : Nat × Nat :=
  (binding.stateRev, binding.deliveredSeq)

def originOf (record : AgentRunRecord) : Origin where
  seq := record.lastSeq
  version := record.version
  runId := record.runId
  scope := record.scope
  parentRunId := record.parentRunId
  rootRunId := record.rootRunId
  depth := record.depth
  objective := record.delegation.map Delegation.objective
  executorConfig := record.executorConfig
  budgets := record.budgets
  childOperations := record.usage.childOperations
  childModelCalls := record.usage.childModelCalls
  inbox := record.domain.map DomainBinding.inbox

/-- A run that has ended owes no answer and no effect. -/
def AgentRunRecord.Clean (record : AgentRunRecord) : Prop :=
  record.state.isTerminal = true →
    record.unansweredCalls = [] ∧ record.domain.all (·.outbox.isNone) = true

theorem clean_of_live {record : AgentRunRecord} (live : record.state.isTerminal = false) :
    record.Clean := fun ended => absurd ended (Bool.eq_false_iff.mp live)

/-- The events of a transition are legal one after the other, what they say of the run is what its
next record says, and the rest of the record is what it was. -/
structure Follows (record : AgentRunRecord) (transition : Transition) : Prop where
  legal : (ledgerOf record).LegalRun transition.kinds
  replays : (ledgerOf record).replay transition.kinds = ledgerOf transition.record
  expected : transition.expectedVersion = record.version
  origin : originOf transition.record =
    { originOf record with
      seq := record.lastSeq + transition.events.length
      version := record.version + 1 }
  clean : record.Clean → transition.record.Clean

end RaisinDB.Agents
