import RaisinDB.Coordinator.Retry
import RaisinDB.Oplog.Recovery
import RaisinDB.Oplog.Storage

/-!
# Pulls beside pushes and captures

The persisted snapshot and the clock of a causal buffer count the same history.
Pulls move both; pushes that the server writes straight to the log and local
captures move the snapshot only.  A pulled operation is stored at once while the
buffer agrees with the snapshot about it.
-/

namespace RaisinDB.Coordinator

open RaisinDB.Foundation RaisinDB.Oplog RaisinDB.Replication List

instance : OperationLogStorage RocksDbOperationLogStorage OplogError where
  getVectorClock := RocksDbOperationLogStorage.getVectorClock
  putOperationsBatch := RocksDbOperationLogStorage.putOperationsBatch

/-- A node that pulls from its peers. -/
abbrev Receiver (τ : Type) := ReplicationCoordinator RocksDbOperationLogStorage τ

/-- What happens to a receiver: a push to its server, a local write, or an answered pull. -/
inductive ReceiverEvent where
  | push (operations : List Operation)
  | capture (op : Operation)
  | pull (tenantId repoId : String) (operations : List Operation) (hasMore : Bool)
      (runtime : CycleRuntime)

section Receiver

variable {τ : Type}

def receiverMachine [IdempotencyTracker τ] : Machine (Receiver τ) ReceiverEvent Unit where
  step receiver event :=
    match event with
    | .push operations =>
        ({ receiver with storage := (receiver.storage.handlePushOperations operations).1 }, ())
    | .capture op =>
        ({ receiver with storage := ⟨(receiver.storage.oplogRepo.appendCaptured op).1⟩ }, ())
    | .pull tenantId repoId operations hasMore runtime =>
        ((receiver.syncTenantRepoWithPeer runtime tenantId repoId
          fun _ => .operationBatch operations hasMore).1, ())

/-- The receiver before its first pull. -/
def Receiver.start (storage : RocksDbOperationLogStorage) (engine : ReplayEngine τ) : Receiver τ :=
  ⟨storage, engine, ∅⟩

/-- By the persisted snapshot the operation is the next one of its node. -/
def StoredReady (storage : RocksDbOperationLogStorage) (op : Operation) : Prop :=
  ∃ clock, storage.getVectorClock op.tenantId op.repoId = .ok clock ∧ Ready clock op

/-- The storage has the operation. -/
def IsStored (storage : RocksDbOperationLogStorage) (op : Operation) : Prop :=
  op ∈ storage.oplogRepo.repoOps op.tenantId op.repoId

/-- An answered pull stores every operation that the snapshot finds ready. -/
def Prompt (before after : Receiver τ) : ReceiverEvent → Prop
  | .pull tenantId repoId operations _ _ =>
      (∃ clock, before.storage.getVectorClock tenantId repoId = .ok clock) →
        ∀ op ∈ operations, StoredReady before.storage op → IsStored after.storage op
  | _ => True

/-- The operations in all buffers. -/
def ReplicationCoordinator.held (receiver : Receiver τ) : List Operation :=
  receiver.causalBuffers.entries.flatMap fun entry => entry.2.waiting

/-- An operation as captures make them. -/
structure Stamped (op : Operation) : Prop where
  formed : (OplogRow.operation op).WellFormed
  seq : op.opSeq = op.ownCounter
  positive : 0 < op.ownCounter

/-- No two operations of one repository share a node and its counter. -/
def RepoTwinFree (ops : List Operation) : Prop :=
  ∀ a ∈ ops, ∀ b ∈ ops, a.tenantId = b.tenantId → a.repoId = b.repoId →
    a.clusterNodeId = b.clusterNodeId → a.ownCounter = b.ownCounter → a = b

/-- The tracker does not know the operation as applied. -/
def Unapplied [IdempotencyTracker τ] (receiver : Receiver τ) (op : Operation) : Prop :=
  IdempotencyTracker.isApplied receiver.replayEngine.idempotencyTracker op.opId ≠ .ok true

/-- The reply brings well-made operations, and those that the snapshot finds ready the buffer
finds ready too, the engine has not applied, and nothing competes with. -/
structure Agreeing [IdempotencyTracker τ] (receiver : Receiver τ) (operations : List Operation) : Prop where
  stamped : ∀ op ∈ operations, Stamped op
  twins : RepoTwinFree (operations ++ receiver.held)
  clocks : ∀ op ∈ operations, StoredReady receiver.storage op →
    ∀ buffer, receiver.causalBuffers.lookup (op.tenantId, op.repoId) = some buffer →
      Ready buffer.localVc op
  unapplied : ∀ op ∈ operations, StoredReady receiver.storage op → Unapplied receiver op
  uncontested : ∀ op ∈ operations, StoredReady receiver.storage op →
    ∀ other ∈ operations ++ receiver.held, Unapplied receiver other →
      conflictGroupKey other = conflictGroupKey op → other = op

/-- Pulls have to agree with the buffers; pushes and captures may do anything. -/
def PullsAgree [IdempotencyTracker τ] (receiver : Receiver τ) : ReceiverEvent → Prop
  | .pull _ _ operations _ _ => Agreeing receiver operations
  | _ => True

/-! ## Delivery through the buffers -/

theorem bufferOf_setBuffer (receiver : Receiver τ) (key query : String × String)
    (buffer : CausalDeliveryBuffer) :
    (receiver.setBuffer key buffer).bufferOf query =
      if query = key then buffer else receiver.bufferOf query := by
  unfold ReplicationCoordinator.bufferOf ReplicationCoordinator.setBuffer
  dsimp only
  split
  · rename_i found
    by_cases same : query = key
    · rw [same, AList.lookup_insert] at found
      rw [if_pos same, Option.some.inj found]
    · rw [AList.lookup_insert_ne same] at found
      rw [if_neg same, found]
  · rename_i absent
    by_cases same : query = key
    · rw [same, AList.lookup_insert] at absent
      cases absent
    · rw [AList.lookup_insert_ne same] at absent
      rw [if_neg same, absent]

/-- Every buffer is settled and holds operations of the list that belong to it. -/
def Delivering (receiver : Receiver τ) (involved : List Operation) : Prop :=
  ∀ key buffer, receiver.causalBuffers.lookup key = some buffer →
    buffer.Settled ∧ ∀ op ∈ buffer.waiting, op ∈ involved ∧ (op.tenantId, op.repoId) = key

variable {receiver : Receiver τ} {involved : List Operation}

theorem Delivering.bufferOf (delivering : Delivering receiver involved) (key : String × String) :
    (receiver.bufferOf key).Settled ∧
      ∀ op ∈ (receiver.bufferOf key).waiting, op ∈ involved ∧ (op.tenantId, op.repoId) = key := by
  unfold ReplicationCoordinator.bufferOf
  split
  · rename_i buffer found
    exact delivering key buffer found
  · exact ⟨fun op hop => absurd hop (CausalDeliveryBuffer.mem_waiting_new _ op),
      fun op hop => absurd hop (CausalDeliveryBuffer.mem_waiting_new _ op)⟩

variable {buffer : CausalDeliveryBuffer} {op : Operation}

/-- A ready operation stays ready while others are released, unless it is released itself. -/
theorem ready_or_released {after : CausalDeliveryBuffer} {released : List Operation}
    (releases : Releases buffer released after) (ready : Ready buffer.localVc op)
    (alone : ∀ other ∈ released, other.clusterNodeId = op.clusterNodeId →
      other.ownCounter = op.ownCounter → other = op) : op ∈ released ∨ Ready after.localVc op := by
  induction releases with
  | done => exact Or.inr ready
  | next present readyNext later ih =>
    rename_i buffer after next rest
    obtain ⟨here, alone'⟩ := forall_mem_cons.mp alone
    by_cases same : next = op
    · exact Or.inl (mem_cons.mpr (Or.inl same.symm))
    · have apart : next.clusterNodeId ≠ op.clusterNodeId := fun sameNode => same
        (here sameNode (by rw [readyNext.next, ready.next, sameNode]))
      exact (ih (readyNext.merge ready apart) alone').imp (mem_cons_of_mem _) id

/-- What one delivery does, seen from the operations involved. -/
structure DeliveryStep (receiver next : Receiver τ) (op : Operation) (released involved :
    List Operation) : Prop where
  delivering : Delivering next involved
  inside : released ⊆ involved
  ready : ∀ other ∈ involved,
    Ready (receiver.bufferOf (other.tenantId, other.repoId)).localVc other →
      other ∈ released ∨
        (other ≠ op ∧ Ready (next.bufferOf (other.tenantId, other.repoId)).localVc other)

theorem Delivering.proper (delivering : Delivering receiver involved)
    (positive : ∀ op ∈ involved, 0 < op.ownCounter) (twins : RepoTwinFree involved)
    (key : String × String) : (receiver.bufferOf key).Proper := by
  obtain ⟨_, members⟩ := delivering.bufferOf key
  refine ⟨fun other hother => positive other (members other hother).1, ?_⟩
  intro a ha b hb
  obtain ⟨insideA, keyA⟩ := members a ha
  obtain ⟨insideB, keyB⟩ := members b hb
  obtain ⟨sameTenant, sameRepo⟩ := Prod.mk.inj (keyA.trans keyB.symm)
  exact twins a insideA b insideB sameTenant sameRepo

/-- What the new buffer of the repository has to satisfy, whichever case of the delivery
applies. -/
theorem Delivering.setBuffer (delivering : Delivering receiver involved) {released : List Operation}
    (settled : buffer.Settled) (holds : ∀ other ∈ buffer.waiting, other ∈ involved ∧
      (other.tenantId, other.repoId) = (op.tenantId, op.repoId)) (inside : released ⊆ involved)
    (readies : ∀ other ∈ involved, (other.tenantId, other.repoId) = (op.tenantId, op.repoId) →
      Ready (receiver.bufferOf (op.tenantId, op.repoId)).localVc other →
        other ∈ released ∨ (other ≠ op ∧ Ready buffer.localVc other)) :
    DeliveryStep receiver (receiver.setBuffer (op.tenantId, op.repoId) buffer) op released
      involved := by
  refine ⟨fun key found lookup => ?_, inside, fun other hother ready => ?_⟩
  · by_cases same : key = (op.tenantId, op.repoId)
    · subst same
      obtain rfl : buffer = found :=
        Option.some.inj ((AList.lookup_insert _).symm.trans lookup)
      exact ⟨settled, holds⟩
    · exact delivering key found ((AList.lookup_insert_ne same).symm.trans lookup)
  · rw [bufferOf_setBuffer]
    by_cases same : (other.tenantId, other.repoId) = (op.tenantId, op.repoId)
    · rw [if_pos same]
      exact readies other hother same (same ▸ ready)
    · rw [if_neg same]
      refine Or.inr ⟨fun equal => same ?_, ready⟩
      rw [equal]

theorem Delivering.step (delivering : Delivering receiver involved)
    (positive : ∀ op ∈ involved, 0 < op.ownCounter) (twins : RepoTwinFree involved)
    (runtime : DeliveryRuntime) (hop : op ∈ involved) : DeliveryStep receiver
      (receiver.setBuffer (op.tenantId, op.repoId)
        ((receiver.bufferOf (op.tenantId, op.repoId)).deliver runtime op).1) op
      ((receiver.bufferOf (op.tenantId, op.repoId)).deliver runtime op).2 involved := by
  obtain ⟨settled, members⟩ := delivering.bufferOf (op.tenantId, op.repoId)
  have proper := delivering.proper positive twins (op.tenantId, op.repoId)
  rcases CausalDeliveryBuffer.deliver_cases runtime proper settled (positive op hop) with
    ⟨early, result⟩ | ⟨readyOp, released, after, releases, stable, result⟩
  · rw [result]
    refine delivering.setBuffer (settled.bufferOperation early) ?_ (nil_subset _) ?_
    · intro other hother
      rcases CausalDeliveryBuffer.mem_waiting_bufferOperation.mp hother with rfl | ⟨old, _⟩
      · exact ⟨hop, rfl⟩
      · exact members other old
    · intro other _ _ ready
      exact Or.inr ⟨fun equal => early (equal ▸ ready), ready⟩
  · rw [result]
    have sorted : ∀ other, other ∈ runtime.sorter.sortBy compareDelivery released ↔
        other ∈ released := runtime.sorter.mem_sortBy compareDelivery released
    refine delivering.setBuffer stable ?_ ?_ ?_
    · exact fun other hother => members other (releases.waiting_subset hother)
    · refine cons_subset.mpr ⟨hop, fun other hother => ?_⟩
      exact (members other (releases.released_subset ((sorted other).mp hother))).1
    · intro other hother key ready
      by_cases same : other = op
      · exact Or.inl (mem_cons.mpr (Or.inl same))
      · obtain ⟨sameTenant, sameRepo⟩ := Prod.mk.inj key
        have apart : op.clusterNodeId ≠ other.clusterNodeId := fun sameNode => same
          (twins other hother op hop sameTenant sameRepo sameNode.symm
            (by rw [ready.next, readyOp.next, sameNode]))
        have alone : ∀ next ∈ released, next.clusterNodeId = other.clusterNodeId →
            next.ownCounter = other.ownCounter → next = other := by
          intro next hnext
          obtain ⟨inside, nextKey⟩ := members next (releases.released_subset hnext)
          obtain ⟨nextTenant, nextRepo⟩ := Prod.mk.inj (nextKey.trans key.symm)
          exact twins next inside other hother nextTenant nextRepo
        rcases ready_or_released releases (readyOp.merge ready apart) alone with out | still
        · exact Or.inl (mem_cons_of_mem _ ((sorted other).mpr out))
        · exact Or.inr ⟨same, still⟩

variable {operations : List Operation}

/-- A whole reply: the buffers stay settled and every ready operation of it comes out. -/
theorem Delivering.run (delivering : Delivering receiver involved)
    (positive : ∀ op ∈ involved, 0 < op.ownCounter) (twins : RepoTwinFree involved)
    (delivery : Nat → DeliveryRuntime) (inside : operations ⊆ involved) :
    Delivering (receiver.deliverThroughCausalBuffers delivery operations).1 involved ∧
      (receiver.deliverThroughCausalBuffers delivery operations).2 ⊆ involved ∧
      ∀ op ∈ operations, Ready (receiver.bufferOf (op.tenantId, op.repoId)).localVc op →
        op ∈ (receiver.deliverThroughCausalBuffers delivery operations).2 := by
  induction operations generalizing receiver delivery with
  | nil => exact ⟨delivering, nil_subset _, fun op hop => by cases hop⟩
  | cons first rest ih =>
    obtain ⟨hfirst, insideRest⟩ := cons_subset.mp inside
    have step := delivering.step positive twins (delivery 0) hfirst
    obtain ⟨after, released, found⟩ :=
      ih step.delivering (fun n => delivery (n + 1)) insideRest
    refine ⟨after, append_subset.mpr ⟨step.inside, released⟩, fun op hop ready => ?_⟩
    rcases step.ready op (inside hop) ready with out | ⟨different, still⟩
    · exact mem_append_left _ out
    · refine mem_append_right _ (found op ?_ still)
      exact (mem_cons.mp hop).resolve_left different

/-! ## One pull -/

theorem mem_held :
    op ∈ receiver.held ↔ ∃ key buffer, receiver.causalBuffers.lookup key = some buffer ∧
      op ∈ buffer.waiting := by
  rw [ReplicationCoordinator.held, mem_flatMap]
  constructor
  · rintro ⟨⟨key, buffer⟩, hentry, hop⟩
    exact ⟨key, buffer, AList.mem_lookup_iff.mpr hentry, hop⟩
  · rintro ⟨key, buffer, lookup, hop⟩
    exact ⟨⟨key, buffer⟩, AList.mem_lookup_iff.mp lookup, hop⟩

/-- No buffer holds a ready operation, and all that is held is well made. -/
structure Tidy (receiver : Receiver τ) : Prop where
  delivering : Delivering receiver receiver.held
  stamped : ∀ op ∈ receiver.held, Stamped op

theorem Delivering.tidy (delivering : Delivering receiver involved)
    (stamped : ∀ op ∈ involved, Stamped op) : Tidy receiver := by
  refine ⟨fun key buffer lookup => ?_, fun op hop => ?_⟩
  · obtain ⟨settled, members⟩ := delivering key buffer lookup
    exact ⟨settled, fun op hop => ⟨mem_held.mpr ⟨key, buffer, lookup, hop⟩, (members op hop).2⟩⟩
  · obtain ⟨key, buffer, lookup, waiting⟩ := mem_held.mp hop
    exact stamped op ((delivering key buffer lookup).2 op waiting).1

theorem tidy_start (storage : RocksDbOperationLogStorage) (engine : ReplayEngine τ) :
    Tidy (Receiver.start storage engine) := by
  refine ⟨fun key buffer lookup => ?_, fun op hop => by cases hop⟩
  cases lookup

theorem Tidy.delivering_reply (tidy : Tidy receiver) (operations : List Operation) :
    Delivering receiver (operations ++ receiver.held) := by
  intro key buffer lookup
  obtain ⟨settled, members⟩ := tidy.delivering key buffer lookup
  exact ⟨settled, fun op hop =>
    ⟨mem_append_right _ (members op hop).1, (members op hop).2⟩⟩

/-- By the snapshot ready means ready for a buffer that starts from it. -/
theorem ready_bufferOf (ready : StoredReady receiver.storage op)
    (agree : ∀ buffer, receiver.causalBuffers.lookup (op.tenantId, op.repoId) = some buffer →
      Ready buffer.localVc op) : Ready (receiver.bufferOf (op.tenantId, op.repoId)).localVc op := by
  obtain ⟨clock, readable, next⟩ := ready
  unfold ReplicationCoordinator.bufferOf
  split
  · rename_i buffer found
    exact agree buffer found
  · change Ready ((receiver.storage.getVectorClock op.tenantId op.repoId).toOption.getD .new) op
    rw [readable]
    exact next

/-- Well-made operations with one key are twins. -/
theorem Stamped.eq_of_key {ops : List Operation} (twins : RepoTwinFree ops) {a b : Operation}
    (ha : a ∈ ops) (hb : b ∈ ops) (stampedA : Stamped a) (stampedB : Stamped b)
    (same : buildOperationKey a = buildOperationKey b) : a = b := by
  rw [buildOperationKey, buildOperationKey, oplogKey_eq, oplogKey_eq] at same
  obtain ⟨tenant, repo, rest⟩ := repoBase_append_inj stampedA.formed.1 stampedB.formed.1
    stampedA.formed.2.1 stampedB.formed.2.1 same
  obtain ⟨node, stamp⟩ := split_at_first stampedA.formed.2.2.1 stampedB.formed.2.2.1 rest
  have seqs := append_inj_left stamp (by rw [length_encodeU64, length_encodeU64])
  have seq := encodeU64_injective stampedA.formed.2.2.2.1 stampedB.formed.2.2.2.1 seqs
  rw [stampedA.seq, stampedB.seq] at seq
  exact twins a ha b hb tenant repo (utf8Bytes_injective node) seq

/-- A batch of well-made operations is stored as a whole. -/
theorem isStored_putOperationsBatch (storage : RocksDbOperationLogStorage)
    {applied : List Operation} (twins : RepoTwinFree involved)
    (stamped : ∀ op ∈ involved, Stamped op) (inside : applied ⊆ involved) (hop : op ∈ applied) :
    IsStored (storage.putOperationsBatch applied).1 op := by
  have stampedOp := stamped op (inside hop)
  refine stored_putOperationsBatch storage hop (fun other hother keys => ?_) fun other hother => ?_
  · exact Stamped.eq_of_key twins (inside hother) (inside hop) (stamped other (inside hother))
      stampedOp keys
  · have formed := (stamped other (inside hother)).formed
    exact (OpLogRepository.snapshotKey_ne_operation stampedOp.formed formed.1 formed.2.1).symm

variable [IdempotencyTracker τ]

theorem applyDeliverable_frame (receiver : Receiver τ) (runtime : CycleRuntime)
    (deliverable : List Operation) :
    (receiver.applyDeliverable runtime deliverable).1.causalBuffers = receiver.causalBuffers ∧
      (receiver.applyDeliverable runtime deliverable).1.storage =
        (receiver.storage.putOperationsBatch
          (receiver.replayEngine.replay runtime.replay deliverable).2.applied).1 := by
  unfold ReplicationCoordinator.applyDeliverable
  dsimp only
  split
  · rename_i empty
    refine ⟨rfl, ?_⟩
    rw [List.isEmpty_iff.mp empty]
    rfl
  · split
    · rename_i result
      exact ⟨rfl, (congrArg Prod.fst result).symm⟩
    · rename_i result
      exact ⟨rfl, (congrArg Prod.fst result).symm⟩

/-- Without a readable clock the peer is not asked. -/
theorem sync_unreadable {tenantId repoId : String} {error : OplogError}
    (unreadable : receiver.storage.getVectorClock tenantId repoId = .error error)
    (runtime : CycleRuntime) (reply : VectorClock → PeerReply) :
    receiver.syncTenantRepoWithPeer runtime tenantId repoId reply =
      (receiver, ⟨[], .ok (), .error (.storage error)⟩) := by
  have answer : OperationLogStorage.getVectorClock receiver.storage tenantId repoId =
      (.error error : Except OplogError VectorClock) := unreadable
  rw [ReplicationCoordinator.syncTenantRepoWithPeer, answer]

variable {clock : VectorClock}

/-- An empty reply changes nothing. -/
theorem sync_nothing {tenantId repoId : String}
    (readable : receiver.storage.getVectorClock tenantId repoId = .ok clock)
    (runtime : CycleRuntime) (hasMore : Bool) :
    receiver.syncTenantRepoWithPeer runtime tenantId repoId
        (fun _ => .operationBatch [] hasMore) = (receiver, ⟨[], .ok (), .ok ()⟩) := by
  have answer : OperationLogStorage.getVectorClock receiver.storage tenantId repoId =
      (.ok clock : Except OplogError VectorClock) := readable
  rw [ReplicationCoordinator.syncTenantRepoWithPeer, answer]
  rfl

/-- An answered pull delivers, sorts and applies. -/
theorem sync_operationBatch {runtime : CycleRuntime} {tenantId repoId : String}
    (readable : receiver.storage.getVectorClock tenantId repoId = .ok clock)
    (nonempty : operations ≠ []) (hasMore : Bool) :
    receiver.syncTenantRepoWithPeer runtime tenantId repoId
        (fun _ => .operationBatch operations hasMore) =
      (receiver.deliverThroughCausalBuffers runtime.delivery operations).1.applyDeliverable runtime
        (sortOperationsByPriority runtime.priority
          (receiver.deliverThroughCausalBuffers runtime.delivery operations).2) := by
  have some : ¬ operations.isEmpty := fun empty => nonempty (List.isEmpty_iff.mp empty)
  have answer : OperationLogStorage.getVectorClock receiver.storage tenantId repoId =
      (.ok clock : Except OplogError VectorClock) := readable
  unfold ReplicationCoordinator.syncTenantRepoWithPeer
  rw [answer]
  dsimp only
  rw [if_neg some]

/-- An unapplied operation that nothing competes with is among the winners. -/
theorem mem_applied (receiver : Receiver τ) (runtime : ReplayRuntime) {deliverable : List Operation}
    (hop : op ∈ deliverable) (unapplied : Unapplied receiver op)
    (alone : ∀ other ∈ deliverable, Unapplied receiver other →
      conflictGroupKey other = conflictGroupKey op → other = op) :
    op ∈ (receiver.replayEngine.replay runtime deliverable).2.applied := by
  have winners := (receiver.replayEngine.replay_winners runtime deliverable).1
  obtain ⟨winner, hwinner, register⟩ :=
    winners.covers op (ReplayEngine.mem_newOps.mpr ⟨hop, unapplied⟩)
  obtain ⟨inside, new⟩ := ReplayEngine.mem_newOps.mp (winners.mem hwinner)
  rw [← alone winner inside new register]
  exact hwinner

theorem applied_subset (receiver : Receiver τ) (runtime : ReplayRuntime)
    (deliverable : List Operation) :
    (receiver.replayEngine.replay runtime deliverable).2.applied ⊆ deliverable := by
  intro op hop
  have new := (receiver.replayEngine.replay_winners runtime deliverable).1.mem hop
  exact (ReplayEngine.mem_newOps.mp new).1

/-- A reply that agrees with the buffers: what the snapshot finds ready goes through buffer,
sort and engine into the storage. -/
theorem Tidy.answered (tidy : Tidy receiver) (agreeing : Agreeing receiver operations)
    (runtime : CycleRuntime) {tenantId repoId : String}
    (readable : receiver.storage.getVectorClock tenantId repoId = .ok clock)
    (nonempty : operations ≠ []) (hasMore : Bool) :
    Tidy (receiver.syncTenantRepoWithPeer runtime tenantId repoId
        fun _ => .operationBatch operations hasMore).1 ∧
      ∀ op ∈ operations, StoredReady receiver.storage op →
        IsStored (receiver.syncTenantRepoWithPeer runtime tenantId repoId
          fun _ => .operationBatch operations hasMore).1.storage op := by
  have stamped : ∀ op ∈ operations ++ receiver.held, Stamped op :=
    forall_mem_append.mpr ⟨agreeing.stamped, tidy.stamped⟩
  obtain ⟨after, released, found⟩ := (tidy.delivering_reply operations).run
    (fun op hop => (stamped op hop).positive) agreeing.twins runtime.delivery
    (subset_append_left operations receiver.held)
  obtain ⟨engine, _⟩ := receiver.deliverThroughCausalBuffers_frame runtime.delivery operations
  rw [sync_operationBatch readable nonempty]
  generalize receiver.deliverThroughCausalBuffers runtime.delivery operations =
    delivered at after released found engine ⊢
  obtain ⟨middle, deliverable⟩ := delivered
  dsimp only at after released found engine ⊢
  obtain ⟨buffers, written⟩ := applyDeliverable_frame middle runtime
    (sortOperationsByPriority runtime.priority deliverable)
  have sorted : ∀ other, other ∈ sortOperationsByPriority runtime.priority deliverable ↔
      other ∈ deliverable := runtime.priority.mem_sortBy comparePriority deliverable
  constructor
  · refine Delivering.tidy (fun key buffer lookup => ?_) stamped
    rw [buffers] at lookup
    exact after key buffer lookup
  · intro op hop ready
    have out := found op hop (ready_bufferOf ready (agreeing.clocks op hop ready))
    have applied := mem_applied middle runtime.replay ((sorted op).mpr out)
      (by rw [Unapplied, engine]; exact agreeing.unapplied op hop ready)
      (by
        intro other hother new register
        rw [Unapplied, engine] at new
        exact agreeing.uncontested op hop ready other
          (released ((sorted other).mp hother)) new register)
    rw [written]
    refine isStored_putOperationsBatch _ agreeing.twins stamped (fun other hother => ?_) applied
    exact released ((sorted other).mp (applied_subset middle runtime.replay _ hother))

theorem Tidy.pull (tidy : Tidy receiver) (agreeing : Agreeing receiver operations)
    (tenantId repoId : String) (hasMore : Bool) (runtime : CycleRuntime) :
    Tidy (receiverMachine.step receiver (.pull tenantId repoId operations hasMore runtime)).1 ∧
      Prompt receiver
        (receiverMachine.step receiver (.pull tenantId repoId operations hasMore runtime)).1
        (.pull tenantId repoId operations hasMore runtime) := by
  rw [receiverMachine]
  dsimp only
  cases clock : receiver.storage.getVectorClock tenantId repoId with
  | error error =>
    rw [sync_unreadable clock]
    refine ⟨tidy, ?_⟩
    rintro ⟨other, readable⟩
    rw [clock] at readable
    cases readable
  | ok localVc =>
    rcases eq_or_ne operations [] with rfl | nonempty
    · rw [sync_nothing clock]
      exact ⟨tidy, fun _ op hop => by cases hop⟩
    · obtain ⟨still, stored⟩ := tidy.answered agreeing runtime clock nonempty hasMore
      exact ⟨still, fun _ => stored⟩

/-- A pull whose only operation the buffer finds early stores nothing. -/
theorem Tidy.pull_early (tidy : Tidy receiver) (stamped : Stamped op)
    (lookup : receiver.causalBuffers.lookup (op.tenantId, op.repoId) = some buffer)
    (early : ¬ Ready buffer.localVc op) (tenantId repoId : String) (hasMore : Bool)
    (runtime : CycleRuntime) : (receiverMachine.step receiver
      (.pull tenantId repoId [op] hasMore runtime)).1.storage = receiver.storage := by
  obtain ⟨settled, members⟩ := tidy.delivering _ buffer lookup
  have held : buffer.deliver (runtime.delivery 0) op = (buffer.bufferOperation op, []) :=
    CausalDeliveryBuffer.deliver_early _ settled
      (fun other hother => (tidy.stamped other (members other hother).1).positive)
      stamped.positive early
  have current : receiver.bufferOf (op.tenantId, op.repoId) = buffer := by
    rw [ReplicationCoordinator.bufferOf, lookup]
  have delivered : receiver.deliverThroughCausalBuffers runtime.delivery [op] =
      (receiver.setBuffer (op.tenantId, op.repoId) (buffer.bufferOperation op), []) := by
    simp only [ReplicationCoordinator.deliverThroughCausalBuffers, current, held, append_nil]
  have nothing : sortOperationsByPriority runtime.priority [] = [] :=
    (runtime.priority.perm comparePriority []).eq_nil
  rw [receiverMachine]
  dsimp only
  cases clock : receiver.storage.getVectorClock tenantId repoId with
  | error error => rw [sync_unreadable clock]
  | ok localVc =>
    rw [sync_operationBatch clock (cons_ne_nil op []), delivered, nothing,
      (applyDeliverable_frame _ runtime []).2]
    rfl

theorem Tidy.step {event : ReceiverEvent} (tidy : Tidy receiver) (agree : PullsAgree receiver event) :
    Tidy (receiverMachine.step receiver event).1 ∧
      Prompt receiver (receiverMachine.step receiver event).1 event := by
  cases event with
  | push operations => exact ⟨⟨tidy.delivering, tidy.stamped⟩, trivial⟩
  | capture op => exact ⟨⟨tidy.delivering, tidy.stamped⟩, trivial⟩
  | pull tenantId repoId operations hasMore runtime =>
    exact tidy.pull agree tenantId repoId hasMore runtime

end Receiver

/-- While the buffers agree with the snapshot every pull is prompt; an operation about which
they disagree is held back, and the pull that brought it stores nothing. -/
theorem pulls_are_prompt {τ : Type} [IdempotencyTracker τ] (storage : RocksDbOperationLogStorage)
    (engine : ReplayEngine τ) {events : List ReceiverEvent}
    (agree : ∀ transition ∈ receiverMachine.transitions (Receiver.start storage engine) events,
      PullsAgree transition.before transition.event) :
    (∀ transition ∈ receiverMachine.transitions (Receiver.start storage engine) events,
      Prompt transition.before transition.after transition.event) ∧
    ∀ (op : Operation) (buffer : CausalDeliveryBuffer), Stamped op →
      (receiverMachine.final (Receiver.start storage engine) events).causalBuffers.lookup
        (op.tenantId, op.repoId) = some buffer → ¬ Ready buffer.localVc op →
      ∀ tenantId repoId hasMore runtime,
        (receiverMachine.step (receiverMachine.final (Receiver.start storage engine) events)
          (.pull tenantId repoId [op] hasMore runtime)).1.storage =
            (receiverMachine.final (Receiver.start storage engine) events).storage := by
  have keeps : ∀ (receiver : Receiver τ) event, Tidy receiver → PullsAgree receiver event →
      Tidy (receiverMachine.step receiver event).1 :=
    fun _ _ tidy agrees => (tidy.step agrees).1
  constructor
  · intro transition hmem
    have tidy := (receiverMachine.transitions_invariant _ _ keeps (tidy_start storage engine) agree
      transition hmem).1
    have agrees := agree transition hmem
    obtain ⟨early, event, late, _, rfl⟩ := receiverMachine.mem_transitions_iff.mp hmem
    exact (tidy.step agrees).2
  · intro op buffer stamped lookup early tenantId repoId hasMore runtime
    exact (receiverMachine.final_invariant _ _ keeps (tidy_start storage engine) agree).pull_early
      stamped lookup early tenantId repoId hasMore runtime

/-- The operations of one node on three branches. -/
def branchOp (counter : Nat) (branch : String) : Operation :=
  makeOp (BitVec.ofNat 128 counter) "node1" counter [("node1", counter)] (.updateBranch ⟨branch⟩)

/-- An answered pull of `repo1`. -/
def pullOf (op : Operation) : ReceiverEvent := .pull "tenant1" "repo1" [op] false plainCycle

/-- The second operation reaches the storage by a push, past the buffer of the first. -/
theorem pushed_past_buffer_blocks_pull :
    ¬ ∀ (storage : RocksDbOperationLogStorage) (engine : MemoryEngine)
      (events : List ReceiverEvent),
      ∀ transition ∈ receiverMachine.transitions (Receiver.start storage engine) events,
        Prompt transition.before transition.after transition.event := by
  intro claim
  have prompt := claim ⟨.new⟩ ⟨⟨∅⟩⟩
    [pullOf (branchOp 1 "main"), .push [branchOp 2 "dev"], pullOf (branchOp 3 "next")] _
    (receiverMachine.mem_transitions_iff.mpr
      ⟨[pullOf (branchOp 1 "main"), .push [branchOp 2 "dev"]], pullOf (branchOp 3 "next"), [],
        rfl, rfl⟩)
  have snapshot : (receiverMachine.final (Receiver.start ⟨.new⟩ (⟨⟨∅⟩⟩ : MemoryEngine))
      [pullOf (branchOp 1 "main"), .push [branchOp 2 "dev"]]).storage.getVectorClock "tenant1"
        "repo1" = .ok (.ofEntries [("node1", 2)]) := by decide +kernel
  have satisfied : (CausalDeliveryBuffer.new (.ofEntries [("node1", 2)])).dependenciesSatisfied
      (branchOp 3 "next") := by decide
  have ready := (dependenciesSatisfied_iff (by decide)).mp satisfied
  have stored := prompt ⟨_, snapshot⟩ (branchOp 3 "next") mem_cons_self ⟨_, snapshot, ready⟩
  unfold IsStored at stored
  exact absurd stored (by decide +kernel)

/-- A reply of one operation, given to buffers that hold nothing. -/
theorem Agreeing.of_single {τ : Type} [IdempotencyTracker τ] {receiver : Receiver τ}
    {op : Operation} (stamped : Stamped op) (empty : receiver.held = [])
    (satisfied : (receiver.bufferOf (op.tenantId, op.repoId)).dependenciesSatisfied op)
    (unapplied : Unapplied receiver op) : Agreeing receiver [op] := by
  have only : ∀ other ∈ [op] ++ receiver.held, other = op := by
    intro other hother
    rw [empty, append_nil] at hother
    exact mem_singleton.mp hother
  refine ⟨forall_mem_singleton.mpr stamped, fun a ha b hb _ _ _ _ => ?_,
    forall_mem_singleton.mpr fun _ buffer lookup => ?_,
    forall_mem_singleton.mpr fun _ => unapplied,
    forall_mem_singleton.mpr fun _ other hother _ _ => only other hother⟩
  · rw [only a ha, only b hb]
  · rw [ReplicationCoordinator.bufferOf, lookup] at satisfied
    exact (dependenciesSatisfied_iff stamped.positive).mp satisfied

/-- Two pulls, one after the other, store both operations. -/
theorem successive_pulls_prompt :
    (receiverMachine.final (Receiver.start ⟨.new⟩ (⟨⟨∅⟩⟩ : MemoryEngine))
        [pullOf (branchOp 1 "main"), pullOf (branchOp 2 "dev")]).storage.oplogRepo.repoOps
          "tenant1" "repo1" = [branchOp 1 "main", branchOp 2 "dev"] ∧
      ∀ transition ∈ receiverMachine.transitions
          (Receiver.start ⟨.new⟩ (⟨⟨∅⟩⟩ : MemoryEngine))
          [pullOf (branchOp 1 "main"), pullOf (branchOp 2 "dev")],
        Prompt transition.before transition.after transition.event := by
  refine ⟨by decide +kernel, (pulls_are_prompt _ _ ?_).1⟩
  refine forall_mem_cons.mpr ⟨?_, forall_mem_singleton.mpr ?_⟩
  · refine Agreeing.of_single ⟨by decide, by decide, by decide⟩ (by decide) (by decide) ?_
    unfold Unapplied
    decide
  · refine Agreeing.of_single ⟨by decide, by decide, by decide⟩ (by decide +kernel)
      (by decide +kernel) ?_
    unfold Unapplied
    decide +kernel

end RaisinDB.Coordinator
