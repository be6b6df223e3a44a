import RaisinDB.Agents.Domain
import RaisinDB.Foundation.Machine

/-!
# The store of a run

A commit replaces the record and adds its events, provided that the record is still the
one the commit was computed from, that the caller still holds what it claims, and that
the record keeps its invariants.
-/

namespace RaisinDB.Agents

open List
open RaisinDB.Foundation (Value Machine)

/-! ## Invariants -/

structure InvariantViolation where
  code : String
  message : String
  deriving DecidableEq

def violation (code message : String) : Except InvariantViolation Unit := .error ⟨code, message⟩

/-- Counters, epochs and revisions never go back. -/
def checkMonotone (prev next : AgentRunRecord) : Except InvariantViolation Unit :=
  if next.counters.turn < prev.counters.turn ∨ next.counters.op < prev.counters.op ∨
      next.counters.steer < prev.counters.steer ∨ next.counters.request < prev.counters.request ∨
      next.counters.checkpoint < prev.counters.checkpoint then
    violation "I3" "a counter decreased"
  else if next.leaseEpoch < prev.leaseEpoch ∨ next.version < prev.version then
    violation "I3" "lease_epoch or version decreased"
  else
    match prev.domain, next.domain with
    | some before, some after =>
        if after.stateRev < before.stateRev ∨ after.deliveredSeq < before.deliveredSeq then
          violation "I3" "domain state_rev or delivered_seq decreased"
        else .ok ()
    | some _, none => violation "I3" "domain binding removed"
    | none, _ => .ok ()

def checkLease (next : AgentRunRecord) : Except InvariantViolation Unit :=
  if next.state.lease.any (·.epoch ≠ next.leaseEpoch) then
    violation "I1" "lease epoch differs from record lease_epoch"
  else if next.state.activeOp.any (next.leaseEpoch < ·.leaseEpoch) then
    violation "I1" "active op started under a future epoch"
  else .ok ()

def checkEnded (next : AgentRunRecord) : Except InvariantViolation Unit :=
  if next.state.isTerminal ∧ (next.steerQueue ≠ [] ∨ next.unansweredCalls ≠ []) then
    violation "I4" "terminal run keeps steers or unanswered calls"
  else if next.state.isTerminal ∧ next.domain.any (·.outbox.isSome) then
    violation "I4" "terminal run keeps a domain outbox"
  else .ok ()

def checkRequests (next : AgentRunRecord) : Except InvariantViolation Unit :=
  if ¬ (next.state.openRequests.map PendingRequest.requestId).Nodup then
    violation "I5" "duplicate open request ids"
  else if next.domain.any (next.lastSeq < ·.deliveredSeq) then
    violation "I6" "delivered_seq beyond last_seq"
  else .ok ()

def checkLineage (prev : Option AgentRunRecord) (next : AgentRunRecord) :
    Except InvariantViolation Unit :=
  let isChild := next.parentRunId.isSome
  if isChild ≠ next.rootRunId.isSome ∨ isChild ≠ decide (0 < next.depth) then
    violation "I7" "parent, root and depth must be set together"
  else if maxDepth < next.depth then violation "I7" "run tree too deep"
  else
    match prev with
    | some prev =>
        if prev.parentRunId ≠ next.parentRunId ∨ prev.rootRunId ≠ next.rootRunId ∨
            prev.depth ≠ next.depth then
          violation "I7" "lineage changed"
        else if next.children.length < prev.children.length then
          violation "I7" "a child link was removed"
        else .ok ()
    | none => .ok ()

def checkBounds (next : AgentRunRecord) : Except InvariantViolation Unit :=
  if maxChildrenPerRun < next.children.length then violation "I8" "too many children"
  else if mailboxLimit < next.mailbox.length then violation "I8" "mailbox overflow"
  else .ok ()

/-- Checked inside every commit. -/
def checkInvariants (prev : Option AgentRunRecord) (next : AgentRunRecord) :
    Except InvariantViolation Unit := do
  checkLease next
  prev.elim (.ok ()) fun prev => checkMonotone prev next
  checkEnded next
  checkRequests next
  checkLineage prev next
  checkBounds next

/-! ## Commits -/

inductive StoreError where
  | versionConflict (current : Nat)
  | leaseLost (currentEpoch : Nat)
  | finalizeFenced
  | invariant (violation : InvariantViolation)
  | controlDuplicate (ack : ControlAck)
  | controlReused
  | malformed (message : String)
  deriving DecidableEq

/-- What is stored of a run. -/
structure StoredRun where
  record : AgentRunRecord
  log : List RunEvent
  acks : List (ControlId × ControlAck × String)
  idem : List (String × Nat)
  checkpoints : List RunCheckpoint
  domainStates : List (Nat × Value)
  results : List (String × Value)

def numberEvents (runId : RunId) (now : Nat) : Nat → List NewEvent → List RunEvent
  | _, [] => []
  | seq, event :: rest =>
      ⟨runId, seq, now, event.turn, event.opId, event.kind⟩ :: numberEvents runId now (seq + 1) rest

/-- The fence first: a driver that lost its lease must learn that, not that it should retry. -/
def verifyCommit (stored : AgentRunRecord) (fence : Fence) (transition : Transition) (now : Nat) :
    Except StoreError (List RunEvent) :=
  match checkFence stored fence now with
  | .error code =>
      if code = "lease_lost" then .error (.leaseLost stored.leaseEpoch) else .error .finalizeFenced
  | .ok () =>
      let next := transition.record
      if stored.version ≠ transition.expectedVersion then
        .error (.versionConflict stored.version)
      else if next.version ≠ stored.version + 1 ∨
          next.lastSeq ≠ stored.lastSeq + transition.events.length then
        .error (.malformed "record version/last_seq do not follow the stored record")
      else if next.runId ≠ stored.runId ∨ next.scope ≠ stored.scope then
        .error (.malformed "record identity changed")
      else
        match checkInvariants (some stored) next with
        | .error violated => .error (.invariant violated)
        | .ok () => .ok (numberEvents stored.runId now (stored.lastSeq + 1) transition.events)

def checkControlDedup (existing : Option (ControlAck × String))
    (control : Option (ControlId × ControlAck × String)) : Except StoreError Unit :=
  match existing, control with
  | some (ack, digest), some (_, _, newDigest) =>
      if digest = newDigest then .error (.controlDuplicate ack.asDuplicate)
      else .error .controlReused
  | _, _ => .ok ()

namespace StoredRun

def controlAck (run : StoredRun) (controlId : ControlId) : Option (ControlAck × String) :=
  (run.acks.find? (·.1 == controlId)).map Prod.snd

def domainState (run : StoredRun) (rev : Nat) : Option Value :=
  (run.domainStates.find? (·.1 == rev)).map Prod.snd

/-- The payload last stored under a key. -/
def result (run : StoredRun) (key : String) : Option Value :=
  (run.results.find? (·.1 == key)).map Prod.snd

def checkWriteOnce (run : StoredRun) (state : Option (Nat × Value)) : Except StoreError Unit :=
  match state with
  | some (rev, _) =>
      if (run.domainState rev).isSome then
        .error (.malformed ("domain state " ++ rev.repr ++ " is write-once"))
      else .ok ()
  | none => .ok ()

/-- Write the record, the events and everything beside them. -/
def write (run : StoredRun) (transition : Transition) (events : List RunEvent) : StoredRun where
  record := transition.record
  log := run.log ++ events
  acks := transition.control.toList ++ run.acks
  idem := transition.idem ++ run.idem
  checkpoints := transition.checkpoint.toList ++ run.checkpoints
  domainStates := transition.domainState.toList ++ run.domainStates
  results := (transition.results.map fun result => (result.1.key, result.2)).reverse ++ run.results

/-- The one write path. -/
def commit (run : StoredRun) (fence : Fence) (transition : Transition) (now : Nat) :
    Except StoreError StoredRun := do
  let events ← verifyCommit run.record fence transition now
  checkControlDedup (transition.control.bind fun control => run.controlAck control.1)
    transition.control
  checkWriteOnce run transition.domainState
  return run.write transition events

/-- A run that was just created. -/
def create (record : AgentRunRecord) (input : Value) : StoredRun where
  record := record
  log := [⟨record.runId, 1, record.createdAtMs, none, none,
    .runCreated record.subject record.principal record.budgets input⟩]
  acks := []
  idem := []
  checkpoints := []
  domainStates := []
  results := []

end StoredRun

/-! ## What the service commits -/

structure Reducer where
  ref : ReducerRef
  reduce : ReducerRequest → Except ReducerCallError ReducerResponse

structure CheckpointWrite where
  fence : Option LeaseFence
  operationId : Option OperationId
  reason : Option CheckpointReason
  summary : Option String
  transcriptCutoff : Option SubjectRef
  state : Option Value
  largeRefs : List ResultRef

inductive Action where
  | acquire (owner : String)
  | renew (fence : LeaseFence)
  | begin (fence : LeaseFence) (spec : OperationSpec)
  | finish (fence : LeaseFence) (opId : OperationId) (result : OperationResult)
  | release (fence : LeaseFence) (wake : Bool)
  | consumeSteers (fence : LeaseFence)
  | wait (fence : LeaseFence) (requests : List NewRequest)
  | complete (fence : LeaseFence) (status : TerminalStatus) (outcome : RunOutcome)
      (reason : Option String)
  | checkpoint (fence : LeaseFence) (reason : CheckpointReason) (summary : Option String)
  | writeCheckpoint (write : CheckpointWrite)
  | takeover (owner : String)
  | expireRequests
  | deliver (key deliveryId : String) (envelope : Value)
  | control (cmd : ControlCommand) (system : Bool)
  | logRejection (cmd : ControlCommand)
  | spawn (req : SpawnChild) (childId : RunId) (actor : ActorRef) (system : Bool)
  | handback (child : AgentRunRecord)
  | handbackDelivered
  | post (sender : RunId) (message : Value) (messageId : String)
  | ack (upTo : Nat) (actor : ActorRef) (system : Bool)
  | childControlled (child : RunId) (action : String) (controlId : ControlId) (ack : String)
  | childStatus (child : RunId) (status : RunStatus)
  | waiterNotified
  | domainStep (fence : LeaseFence) (reducer : Reducer)
  | finalizeDomain (reducer : Reducer)

/-- What the service is configured with, and the hashes it uses. -/
structure Service where
  leaseTtlMs : Nat
  capabilityHash : String → String
  payloadDigest : ControlKind → String
  envelopeDigest : Value → String
  checks : ResponseChecks

namespace Service

variable (service : Service)

/-- A budget that refuses the operation is committed. -/
def beginOperation (record : AgentRunRecord) (spec : OperationSpec) (now : Nat) :
    Option Transition :=
  match applyBegin record spec now with
  | .ok transition => some transition
  | .error (.budget exceeded) => some (applyBudgetExceeded record exceeded now)
  | .error _ => none

/-- The writer holds the lease, names the operation in flight, or no driver holds the run. -/
def mayWriteCheckpoint (record : AgentRunRecord) (write : CheckpointWrite) : Bool :=
  !record.state.isTerminal &&
    (write.fence.isSome ||
      match write.operationId with
      | some opId => record.state.activeOp.any (·.opId == opId)
      | none => record.state.lease.isNone)

def addLargeRefs (refs extra : List ResultRef) : List ResultRef :=
  extra.foldl (fun refs ref => if refs.any (·.key == ref.key) then refs else refs ++ [ref]) refs

def structuredCheckpoint (record : AgentRunRecord) (write : CheckpointWrite) (now : Nat) :
    Transition :=
  let written := (Tx.new record now).writeCheckpoint (write.reason.getD .compaction) write.summary
  let key := "ckpt:" ++ written.record.counters.checkpoint.toNat.repr ++ ":state"
  let stored : Tx := match write.state with
    | some state => storeJson written key state
    | none => written
  let detailed : Tx :=
    { stored with
      checkpoint := stored.checkpoint.map fun checkpoint =>
        { checkpoint with
          transcriptCutoff := write.transcriptCutoff
          structuredRef := write.state.map (jsonResult key)
          largeRefs := addLargeRefs checkpoint.largeRefs write.largeRefs } }
  detailed.finish

/-- A control whose id was used is answered from its acknowledgement, unless it says something
else now. -/
def submitControl (run : StoredRun) (record : AgentRunRecord) (cmd : ControlCommand)
    (system : Bool) (now : Nat) : Option Transition :=
  match run.controlAck cmd.controlId with
  | some (_, digest) =>
      if digest = service.payloadDigest cmd.kind then none
      else some (logRejection record cmd "control_id_reused" now)
  | none =>
      some (applyControl service.payloadDigest record cmd
        (authorize service.capabilityHash record cmd.issuedBy system) now).transition

/-- A delivery whose id was used is answered from its acknowledgement. -/
def deliverExternal (run : StoredRun) (record : AgentRunRecord) (key deliveryId : String)
    (envelope : Value) (now : Nat) : Option Transition :=
  match run.controlAck (externalId deliveryId) with
  | some _ => none
  | none =>
      some (applyDelivery record key deliveryId envelope (service.envelopeDigest envelope) now).1

/-- A spawn under a key that was used comes back with the child there is. -/
def spawnChild (record : AgentRunRecord) (req : SpawnChild) (childId : RunId) (actor : ActorRef)
    (system : Bool) (now : Nat) : Option Transition :=
  if !authorize service.capabilityHash record actor system then none
  else if req.spawnKey.any fun key => record.children.any (·.spawnKey == some key) then none
  else
    match applySpawn record req childId now with
    | .ok (transition, _) => some transition
    | .error _ => none

def landHandback (record child : AgentRunRecord) (now : Nat) : Option Transition :=
  (buildHandback child).bind fun handback => applyHandback record child handback now

/-! ## Reducer calls -/

/-- Call the reducer with an event.  It must be the one the run was bound to, and its response must
follow the rules. -/
def callReducer (run : StoredRun) (record : AgentRunRecord) (binding : DomainBinding)
    (reducer : Reducer) (event : ReducerEvent) : Except ReducerCallError ReducerResponse :=
  if reducer.ref.artifactHash ≠ binding.reducer.artifactHash then
    .error (.changed reducer.ref.artifactHash)
  else
    let state :=
      if binding.stateRev = 0 then none
      else (run.domainState binding.stateRev).bind (Value.get "state")
    let req := buildRequest record binding state event
    match reducer.reduce req with
    | .error failed => .error failed
    | .ok resp =>
        match resp.refused with
        | some refused => .error (.refused refused.code refused.message)
        | none =>
            match validateResponse service.checks req resp with
            | .error refused => .error (.invalid refused)
            | .ok () => .ok resp

def failTransition (record : AgentRunRecord) (code : String) (now : Nat) :
    Except TransitionRefusal Transition :=
  applyTerminal record .failed ⟨"failed", some code, none, none⟩ (some code) now

def withPendingHash (hash : String) (transition : Transition) : Transition :=
  { transition with
    record :=
      { transition.record with
        domain := transition.record.domain.map fun binding =>
          { binding with pendingArtifactHash := some hash } } }

/-- What a step commits on the answer to an event. -/
def answerTransition (record : AgentRunRecord) (seq now : Nat) :
    Except ReducerCallError ReducerResponse → Except TransitionRefusal Transition
  | .ok resp =>
      match applyDomainResponse record seq resp none now with
      | .ok transition => .ok transition
      | .error refused => failTransition record ("reducer_refused:" ++ refused.code) now
  | .error (.unavailable _) => applyReducerPause record "reducer_unavailable" now
  | .error (.changed hash) =>
      (applyReducerPause record "reducer_changed" now).map (withPendingHash hash)
  | .error (.refused code _) => failTransition record ("reducer_refused:" ++ code) now
  | .error (.invalid refused) =>
      failTransition record
        (if refused.code = "contract_mismatch" then "reducer_contract_mismatch"
        else "reducer_refused:" ++ refused.code) now

def emptyOutbox (record : AgentRunRecord) : AgentRunRecord :=
  { record with domain := record.domain.map fun binding => { binding with outbox := none } }

/-- The effect that was parked is started, with the outbox empty. -/
def startOutbox (record : AgentRunRecord) (parked : PendingEffect) (now : Nat) :
    Except TransitionRefusal Transition :=
  let emptied := { Tx.new record now with record := emptyOutbox record }
  (startOrPark emptied parked.effect parked.stateRev).map Tx.finish

/-- One step at the idle boundary, which is where the driver takes it. -/
def domainStep (run : StoredRun) (record : AgentRunRecord) (reducer : Reducer) (now : Nat) :
    Option Transition :=
  match record.state, record.domain with
  | .running _ (.idle _), some binding =>
      match binding.outbox with
      | some parked => (startOutbox record parked now).toOption
      | none =>
          match scanDeliverable run.log binding.deliveredSeq run.result with
          | none => none
          | some (seq, event) =>
              (answerTransition record seq now
                (service.callReducer run record binding reducer event)).toOption
  | _, _ => none

/-- A run that has ended delivers the rest of its log, whatever the reducer answers. -/
def finalizeStep (run : StoredRun) (record : AgentRunRecord) (reducer : Reducer) (now : Nat) :
    Option (Nat × Transition) :=
  match record.domain with
  | none => none
  | some binding =>
      if !record.state.isTerminal ∨ binding.finalized then none
      else
        let tx := Tx.new record now
        let marked (seq : Nat) (finalized : Bool) : Transition :=
          { tx with
            record :=
              { tx.record with
                domain := some { binding with deliveredSeq := seq, finalized := finalized } } }.finish
        match scanDeliverable run.log binding.deliveredSeq run.result with
        | none => some (binding.stateRev, marked binding.deliveredSeq true)
        | some (seq, event) =>
            let last := (scanDeliverable run.log seq run.result).isNone
            match service.callReducer run record binding reducer event with
            | .ok resp =>
                match applyDomainResponse record seq resp (some last) now with
                | .ok transition => some (binding.stateRev, transition)
                | .error _ => none
            | .error _ => some (binding.stateRev, marked seq last)

/-! ## One action -/

def fenced (fence : LeaseFence) (transition : Option Transition) : Option (Fence × Transition) :=
  transition.map fun transition => (.lease fence, transition)

def unfenced (transition : Option Transition) : Option (Fence × Transition) :=
  transition.map fun transition => (.none, transition)

/-- What an action commits, computed from the record that was loaded. -/
def transitionOf (run : StoredRun) (record : AgentRunRecord) (now : Nat) :
    Action → Option (Fence × Transition)
  | .acquire owner => unfenced (applyAcquire record owner now service.leaseTtlMs).toOption
  | .renew fence => fenced fence (applyRenew record now service.leaseTtlMs).toOption
  | .begin fence spec => fenced fence (beginOperation record spec now)
  | .finish fence opId result => fenced fence (applyFinish record opId result now).toOption
  | .release fence wake => fenced fence (applyRelease record now wake).toOption
  | .consumeSteers fence => fenced fence (applyConsumeSteers record now)
  | .wait fence requests => fenced fence (applyWait record requests now).toOption
  | .complete fence status outcome reason =>
      fenced fence (applyTerminal record status outcome reason now).toOption
  | .checkpoint fence reason summary =>
      fenced fence (some (applyCheckpoint record reason summary now))
  | .writeCheckpoint write =>
      if mayWriteCheckpoint record write then
        some (write.fence.elim .none .lease, structuredCheckpoint record write now)
      else none
  | .takeover owner =>
      if record.state.lease.any (·.expiresAtMs ≤ now) then
        unfenced ((applyTakeover record owner now service.leaseTtlMs).toOption.map
          Takeover.transition)
      else none
  | .expireRequests => unfenced (applyExpireRequests record now)
  | .deliver key deliveryId envelope =>
      unfenced (service.deliverExternal run record key deliveryId envelope now)
  | .control cmd system => unfenced (service.submitControl run record cmd system now)
  | .logRejection cmd => unfenced (some (logRejection record cmd "control_id_reused" now))
  | .spawn req childId actor system =>
      unfenced (service.spawnChild record req childId actor system now)
  | .handback child => unfenced (landHandback record child now)
  | .handbackDelivered => unfenced (applyHandbackDelivered record now)
  | .post sender message messageId =>
      unfenced ((postToParent record sender message messageId now).toOption.join)
  | .ack upTo actor system =>
      if authorize service.capabilityHash record actor system then
        unfenced (applyAck record upTo now)
      else none
  | .childControlled child action controlId ack =>
      unfenced (some (applyChildControlled record child action controlId ack now))
  | .childStatus child status => unfenced (applyChildStatus record child status now)
  | .waiterNotified => unfenced (applyWaiterNotified record now)
  | .domainStep fence reducer => fenced fence (service.domainStep run record reducer now)
  | .finalizeDomain reducer =>
      (service.finalizeStep run record reducer now).map fun finalized =>
        (.domainFinalize finalized.1, finalized.2)

end Service

/-! ## Runs -/

/-- A run with every record it ever had: any of them may still be in a caller's hands. -/
structure RunHistory where
  run : StoredRun
  loaded : List AgentRunRecord

/-- A caller acts on a record that it loaded at some time. -/
structure Call where
  record : AgentRunRecord
  action : Action
  now : Nat

/-- What a call committed. -/
structure Commit where
  fence : Fence
  transition : Transition

namespace RunHistory

def start (record : AgentRunRecord) (input : Value) : RunHistory :=
  ⟨StoredRun.create record input, [record]⟩

variable (service : Service)

def attempt (history : RunHistory) (call : Call) : Option (Commit × StoredRun) :=
  if call.record ∈ history.loaded then
    match service.transitionOf history.run call.record call.now call.action with
    | some (fence, transition) =>
        match history.run.commit fence transition call.now with
        | .ok run => some (⟨fence, transition⟩, run)
        | .error _ => none
    | none => none
  else none

/-- A call that is refused changes nothing. -/
def step (history : RunHistory) (call : Call) : RunHistory × Option Commit :=
  match history.attempt service call with
  | some (commit, run) => (⟨run, run.record :: history.loaded⟩, some commit)
  | none => (history, none)

end RunHistory

def runMachine (service : Service) : Machine RunHistory Call (Option Commit) :=
  ⟨RunHistory.step service⟩

end RaisinDB.Agents
