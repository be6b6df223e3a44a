import RaisinDB.Replication.CausalRuns
import RaisinDB.Replication.ReplayEngine

/-!
# The replication coordinator

Operations from a peer pass the causal buffer of their repository and the replay
engine before they are stored.  Buffer and engine have moved on when the write is
attempted, and nothing takes them back when it fails.
-/

namespace RaisinDB.Coordinator

open RaisinDB.Foundation RaisinDB.Replication List

/-! ## Priorities -/

inductive OperationPriority where
  | critical
  | high
  | medium
  | low
  deriving DecidableEq

def OperationPriority.rank : OperationPriority → Nat
  | .critical => 1
  | .high => 2
  | .medium => 3
  | .low => 4

def OperationPriority.fromOperation (op : Operation) : OperationPriority :=
  match op.opType with
  | .updateUser _ | .deleteUser _ | .updateTenant _ | .deleteTenant _ | .updateDeployment _
  | .deleteDeployment _ | .updateRepository _ _ | .deleteRepository _ _
  | .grantPermission _ _ _ _ _ | .revokePermission _ _ _ _ _ | .upsertIdentity _
  | .deleteIdentity _ | .createSession _ | .revokeSession _ | .revokeAllIdentitySessions _
  | .upsertOAuthClient _ | .deleteOAuthClient _ | .upsertOAuthRefreshToken _
  | .revokeOAuthRefreshFamily _ | .upsertApiKey _ | .upsertSecret _
  | .rotateRefreshToken _ _ => .critical
  | .updateWorkspace _ | .deleteWorkspace _ | .updateBranch _ | .deleteBranch _
  | .createTag _ _ | .deleteTag _ | .updateNodeType _ | .deleteNodeType _
  | .updateArchetype _ | .deleteArchetype _ | .updateElementType _
  | .deleteElementType _ => .high
  | .applyRevision _ _ | .createRevisionMeta _ => .medium
  | .addRelation _ _ _ _ _ | .removeRelation _ _ _ _ _ | .upsertTranslationOverlay _ _ _ _ _
  | .unknown _ | .upsertNodeSnapshot _ _ _ _ | .deleteNodeSnapshot _ _ _ _ => .low

/-- The higher priority first, then the smaller sequence number. -/
def comparePriority (a b : Operation) : Ordering :=
  match compare (OperationPriority.fromOperation a).rank (OperationPriority.fromOperation b).rank with
  | .eq => compare a.opSeq b.opSeq
  | other => other

def sortOperationsByPriority (sorter : SliceSort Operation) (operations : List Operation) :
    List Operation :=
  sorter.sortBy comparePriority operations

/-! ## The coordinator -/

/-- What the coordinator asks of the log; `ε` are its errors. -/
class OperationLogStorage (σ : Type) (ε : outParam Type) where
  getVectorClock : σ → String → String → Except ε VectorClock
  /-- The storage afterwards, and whether the write succeeded. -/
  putOperationsBatch : σ → List Operation → σ × Except ε Unit

inductive CoordinatorError (ε : Type) where
  | storage (error : ε)
  | network (message : String)
  | protocol (message : String)

structure ReplicationCoordinator (σ τ : Type) where
  storage : σ
  replayEngine : ReplayEngine τ
  causalBuffers : AList fun _ : String × String => CausalDeliveryBuffer

/-- The answer of a peer to a pull. -/
inductive PeerReply where
  | operationBatch (operations : List Operation) (hasMore : Bool)
  | error (message : String)
  | unexpected (message : String)
  | unreachable (message : String)

/-- What one cycle leaves to libraries and network: the choices of the `n`-th delivery, the
sorts, and whether the acknowledgment got through. -/
structure CycleRuntime where
  delivery : Nat → DeliveryRuntime
  priority : SliceSort Operation
  replay : ReplayRuntime
  ack : Except String Unit

/-- The batch that a cycle handed to the storage, the storage's answer and the result. -/
structure CycleOutcome (ε : Type) where
  attempted : List Operation
  written : Except ε Unit
  result : Except (CoordinatorError ε) Unit

/-- The operations that a cycle has stored. -/
def CycleOutcome.stored {ε : Type} (outcome : CycleOutcome ε) : List Operation :=
  match outcome.written with
  | .ok () => outcome.attempted
  | .error _ => []

namespace ReplicationCoordinator

variable {σ ε τ : Type} [OperationLogStorage σ ε] [IdempotencyTracker τ]

/-- The buffer of a repository; one that does not exist starts from the stored clock. -/
def bufferOf (self : ReplicationCoordinator σ τ) (key : String × String) : CausalDeliveryBuffer :=
  match self.causalBuffers.lookup key with
  | some buffer => buffer
  | none =>
      .new ((OperationLogStorage.getVectorClock self.storage key.1 key.2).toOption.getD .new)

def setBuffer (self : ReplicationCoordinator σ τ) (key : String × String)
    (buffer : CausalDeliveryBuffer) : ReplicationCoordinator σ τ :=
  { self with causalBuffers := self.causalBuffers.insert key buffer }

def deliverThroughCausalBuffers (self : ReplicationCoordinator σ τ)
    (delivery : Nat → DeliveryRuntime) :
    List Operation → ReplicationCoordinator σ τ × List Operation
  | [] => (self, [])
  | op :: rest =>
      let key := (op.tenantId, op.repoId)
      let (buffer, released) := (self.bufferOf key).deliver (delivery 0) op
      let (final, later) :=
        (self.setBuffer key buffer).deliverThroughCausalBuffers (fun n => delivery (n + 1)) rest
      (final, released ++ later)

/-- Replay the operations, store the winners and acknowledge them. -/
def applyDeliverable (self : ReplicationCoordinator σ τ) (runtime : CycleRuntime)
    (deliverable : List Operation) : ReplicationCoordinator σ τ × CycleOutcome ε :=
  let (engine, result) := self.replayEngine.replay runtime.replay deliverable
  let replayed := { self with replayEngine := engine }
  if result.applied.isEmpty then (replayed, ⟨[], .ok (), .ok ()⟩)
  else
    match OperationLogStorage.putOperationsBatch self.storage result.applied with
    | (storage, .error error) =>
        ({ replayed with storage := storage },
          ⟨result.applied, .error error, .error (.storage error)⟩)
    | (storage, .ok ()) =>
        ({ replayed with storage := storage },
          ⟨result.applied, .ok (), runtime.ack.mapError .network⟩)

/-- One pull.  The reply is whatever the peer sends for the clock it is given. -/
def syncTenantRepoWithPeer (self : ReplicationCoordinator σ τ) (runtime : CycleRuntime)
    (tenantId repoId : String) (reply : VectorClock → PeerReply) :
    ReplicationCoordinator σ τ × CycleOutcome ε :=
  match OperationLogStorage.getVectorClock self.storage tenantId repoId with
  | .error error => (self, ⟨[], .ok (), .error (.storage error)⟩)
  | .ok localVc =>
      match reply localVc with
      | .operationBatch operations _ =>
          if operations.isEmpty then (self, ⟨[], .ok (), .ok ()⟩)
          else
            let (delivered, deliverable) :=
              self.deliverThroughCausalBuffers runtime.delivery operations
            delivered.applyDeliverable runtime
              (sortOperationsByPriority runtime.priority deliverable)
      | .error message => (self, ⟨[], .ok (), .error (.protocol message)⟩)
      | .unexpected message =>
          (self, ⟨[], .ok (), .error (.protocol ("Unexpected message: " ++ message))⟩)
      | .unreachable message => (self, ⟨[], .ok (), .error (.network message)⟩)

/-- A push that a peer sends to the coordinator. -/
def handlePushFromPeer (self : ReplicationCoordinator σ τ) (runtime : CycleRuntime)
    (operations : List Operation) : ReplicationCoordinator σ τ × CycleOutcome ε :=
  let (delivered, deliverable) := self.deliverThroughCausalBuffers runtime.delivery operations
  delivered.applyDeliverable runtime deliverable

end ReplicationCoordinator

end RaisinDB.Coordinator
