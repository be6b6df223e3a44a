import RaisinDB.Agents.Lifecycle

/-!
# Controls

A control is logged when it arrives and again when it is applied or rejected.  What a
rejected control had begun to do is dropped.  Results from outside arrive as controls of
their own.
-/

namespace RaisinDB.Agents

open List
open RaisinDB.Foundation (Value)

structure ControlCommand where
  controlId : ControlId
  kind : ControlKind
  issuedBy : ActorRef
  deriving DecidableEq

/-- Whether an actor may control a run: the principal itself, the user an agent acts for, whoever
holds the capability, and the system with its token. -/
def authorize (capabilityHash : String → String) (record : AgentRunRecord) (actor : ActorRef)
    (system : Bool) : Bool :=
  if actor.kind = .system then system
  else
    let isPrincipal := decide (actor.kind = record.principal.kind ∧ actor.id = record.principal.id)
    let isOnBehalf := decide (actor.kind = .user ∧ record.principal.onBehalfOf = some actor.id)
    isPrincipal || isOnBehalf ||
      match actor.capability, record.controlCapabilityHash with
      | some capability, some hash => capabilityHash capability == hash
      | _, _ => false

/-! ## What a control does -/

def findOpen (tx : Tx) (requestId : RequestId) : Except String PendingRequest :=
  match tx.record.state.openRequests.find? (·.requestId == requestId) with
  | some request => .ok request
  | none => .error "request_not_open"

def stop (tx : Tx) (cmd : ControlCommand) (reason : Option String) : Except String Tx :=
  match tx.record.state with
  | .cancelling .. => .error "already_stopping"
  | .running lease (.operating op _) =>
      let cancelled :=
        { tx with
          cancel := some (tx.record.runId, op.opId)
          record := { tx.record with statusReason := some "user_stop" } }
      .ok (cancelled.setState (.cancelling lease op ⟨cmd.controlId, reason⟩) (some "user_stop"))
  | _ => .ok (tx.terminate .stopped (.new "stopped" reason) (some "user_stop"))

def enterUserPause (tx : Tx) (requests : List PendingRequest) : Tx :=
  let reasoned := { tx with record := { tx.record with statusReason := some "user_pause" } }
  (reasoned.setState (.paused requests .user) (some "user_pause")).writeCheckpoint .pause none

/-- While an operation is in flight a pause is only remembered. -/
def pause (tx : Tx) : Except String Tx :=
  match tx.record.state with
  | .running lease (.operating op pauseRequested) =>
      if pauseRequested then .error "already_pausing"
      else .ok (tx.setRecordState (.running lease (.operating op true)))
  | .running _ (.idle requests) => .ok (enterUserPause tx requests)
  | .waiting requests => .ok (enterUserPause tx requests.intoVec)
  | .paused .. => .error "already_paused"
  | .cancelling .. => .error "run_stopping"
  | _ => .error "not_pausable"

/-- A changed reducer is used from now on. -/
def acceptReducer (binding : DomainBinding) : DomainBinding :=
  match binding.pendingArtifactHash with
  | some hash =>
      { binding with
        pendingArtifactHash := none
        reducer := { binding.reducer with artifactHash := hash } }
  | none => binding

def resume (tx : Tx) (increase : Option RunBudgets) (acceptChange : Bool) : Except String Tx :=
  match tx.record.state with
  | .paused requests reason =>
      let changed := decide (reason = .reducer "reducer_changed")
      if changed && !acceptChange then .error "reducer_changed_requires_accept"
      else
        let number := tx.record.counters.checkpoint
        let readied :=
          { tx with
            record :=
              { tx.record with
                domain := if changed then tx.record.domain.map acceptReducer else tx.record.domain
                budgets := increase.elim tx.record.budgets (raise tx.record.budgets)
                statusReason := none } }
        let resumed := readied.push (.resumed (if 0 < number then some number else none))
        .ok (resumed.setState (.queued requests .resumed) none)
  | _ => .error "not_paused"

def steer (tx : Tx) (cmd : ControlCommand) (input : Value) : Except String Tx :=
  match tx.record.state with
  | .cancelling .. => .error "run_stopping"
  | _ =>
      if steerQueueLimit ≤ tx.record.steerQueue.length then .error "steer_queue_full"
      else
        let number := tx.record.counters.steer + 1
        let steerId := SteerId.nth tx.record.runId number
        let seq := tx.nextSeq
        let queued :=
          { tx.push (.steerQueued steerId) with
            record :=
              { tx.record with
                counters := { tx.record.counters with steer := number }
                steerQueue := tx.record.steerQueue ++ [⟨steerId, cmd.controlId, input, seq⟩] } }
        match tx.record.state with
        | .waiting requests => .ok (queued.setState (.queued requests.intoVec .steer) none)
        | _ => .ok queued

def approvalResolution (request : PendingRequest) (decision : ApprovalDecision)
    (subjectDigest : String) : Value :=
  let said := match decision with
    | .approve => ("approve", none)
    | .reject reason => ("reject", reason)
  .object
    [("kind", .string "approval"), ("decision", .string said.1), ("reason", optional said.2),
      ("subject_digest", .string subjectDigest), ("effect_id", optional request.effectId)]

def approve (tx : Tx) (cmd : ControlCommand) (requestId : RequestId)
    (decision : ApprovalDecision) (subjectDigest : String) : Except String Tx := do
  let request ← findOpen tx requestId
  match request.kind with
  | .approval wanted .. =>
      if wanted ≠ subjectDigest then .error "digest_mismatch"
      else
        .ok (resolveRequest tx requestId (approvalResolution request decision subjectDigest)
          (some cmd.controlId))
  | _ => .error "request_kind_mismatch"

def provideInput (tx : Tx) (cmd : ControlCommand) (requestId : RequestId) (value : Value) :
    Except String Tx := do
  let request ← findOpen tx requestId
  match request.kind with
  | .input .. =>
      .ok (resolveRequest tx requestId
        (.object
          [("kind", .string "input"), ("value", value), ("effect_id", optional request.effectId)])
        (some cmd.controlId))
  | _ => .error "request_kind_mismatch"

def controlBody (tx : Tx) (cmd : ControlCommand) : Except String Tx :=
  match cmd.kind with
  | .stop reason => stop tx cmd reason
  | .pause => pause tx
  | .resume increase acceptChange => resume tx increase acceptChange
  | .steer input => steer tx cmd input
  | .approve requestId decision subjectDigest => approve tx cmd requestId decision subjectDigest
  | .provideInput requestId value => provideInput tx cmd requestId value

structure ControlTransition where
  transition : Transition
  ack : ControlAck

def receiveControl (record : AgentRunRecord) (cmd : ControlCommand) (now : Nat) : Tx :=
  (Tx.new record now).push (.controlReceived cmd.controlId cmd.kind cmd.issuedBy.redacted)

def acknowledge (tx : Tx) (cmd : ControlCommand) (digest : String) (ack : ControlAck) :
    ControlTransition :=
  ⟨{ tx with control := some (cmd.controlId, ack, digest) }.finish, ack⟩

/-- A control is applied, or rejected without a trace in the record. -/
def applyControl (payloadDigest : ControlKind → String) (record : AgentRunRecord)
    (cmd : ControlCommand) (authorized : Bool) (now : Nat) : ControlTransition :=
  let received := receiveControl record cmd now
  let result :=
    if !authorized then .error "unauthorized"
    else if record.state.isTerminal then .error "run_terminal"
    else controlBody received cmd
  match result with
  | .ok tx =>
      acknowledge (tx.push (.controlApplied cmd.controlId)) cmd (payloadDigest cmd.kind)
        (.applied tx.nextSeq)
  | .error reason =>
      acknowledge (received.push (.controlRejected cmd.controlId reason)) cmd
        (payloadDigest cmd.kind) (.rejected reason received.nextSeq)

/-- A rejection that leaves the stored acknowledgement alone. -/
def logRejection (record : AgentRunRecord) (cmd : ControlCommand) (reason : String) (now : Nat) :
    Transition :=
  ((receiveControl record cmd now).push (.controlRejected cmd.controlId reason)).finish

/-! ## Results from outside -/

def externalId (deliveryId : String) : ControlId := "ext:" ++ deliveryId

/-- Whether a request waits for a result under this key. -/
def waitsFor (key : String) (request : PendingRequest) : Bool :=
  match request.kind with
  | .external _ resumeKey _ _ => resumeKey == key
  | _ => false

def externalResolution (request : PendingRequest) (deliveryId : String) : Value :=
  match request.kind with
  | .external opId _ forCallId tool =>
      .object
        [("kind", .string "external"), ("result_key", .string (externalId deliveryId)),
          ("op_id", .string opId), ("effect_id", optional request.effectId),
          ("delivery_id", .string deliveryId), ("for_call_id", optional forCallId),
          ("tool", optional tool)]
  | _ => .null

/-- Answer the request that waits for this key; without one the delivery is rejected, and that is
its acknowledgement too. -/
def applyDelivery (record : AgentRunRecord) (key deliveryId : String) (envelope : Value)
    (digest : String) (now : Nat) : Transition × ControlAck :=
  let tx := Tx.new record now
  let controlId := externalId deliveryId
  match record.state.openRequests.find? (waitsFor key) with
  | none =>
      let ack := ControlAck.rejected "request_not_open" tx.nextSeq
      ({ tx.push (.controlRejected controlId "request_not_open") with
          control := some (controlId, ack, digest) }.finish, ack)
  | some request =>
      let stored := storeJson tx controlId envelope
      let ack := ControlAck.applied stored.nextSeq
      let resolved := wakeForResult
        (resolveRequest stored request.requestId (externalResolution request deliveryId) none)
      ({ resolved with control := some (controlId, ack, digest) }.finish, ack)

end RaisinDB.Agents
