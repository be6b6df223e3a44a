import RaisinDB.Coordinator.Sync

/-!
# Repeating a cycle whose write failed

The engine remembers the winners of a batch before they are written.  When the
write fails they are neither stored nor applied again: the same batch, given to a
storage that works, stores none of them.
-/

namespace RaisinDB.Coordinator

open RaisinDB.Foundation RaisinDB.Replication List

/-- A tracker whose writes succeed: a marked operation is known from then on. -/
class LawfulTracker (τ : Type) [IdempotencyTracker τ] : Prop where
  marked : ∀ (tracker : τ) (opId : Uuid) (timestampMs : Nat),
    IdempotencyTracker.isApplied (IdempotencyTracker.markApplied tracker opId timestampMs).1 opId =
      .ok true
  kept : ∀ (tracker : τ) (opId other : Uuid) (timestampMs : Nat),
    IdempotencyTracker.isApplied tracker other = .ok true →
      IdempotencyTracker.isApplied (IdempotencyTracker.markApplied tracker opId timestampMs).1
        other = .ok true

instance : LawfulTracker InMemoryIdempotencyTracker where
  marked tracker opId _ := by simp [IdempotencyTracker.isApplied, IdempotencyTracker.markApplied]
  kept tracker opId other _ known := by
    simp only [IdempotencyTracker.isApplied, IdempotencyTracker.markApplied, Except.ok.injEq,
      decide_eq_true_eq] at known ⊢
    exact Finset.mem_insert_of_mem known

/-- One of the two ways in which operations of a peer arrive. -/
inductive Cycle where
  | pull (tenantId repoId : String) (reply : VectorClock → PeerReply)
  | push (operations : List Operation)

section Delivery

variable {σ ε τ : Type} [OperationLogStorage σ ε]

namespace ReplicationCoordinator

def withStorage (self : ReplicationCoordinator σ τ) (storage : σ) : ReplicationCoordinator σ τ :=
  { self with storage := storage }

theorem deliverThroughCausalBuffers_frame (self : ReplicationCoordinator σ τ)
    (delivery : Nat → DeliveryRuntime) (operations : List Operation) :
    (self.deliverThroughCausalBuffers delivery operations).1.replayEngine = self.replayEngine ∧
      (self.deliverThroughCausalBuffers delivery operations).1.storage = self.storage := by
  induction operations generalizing self delivery with
  | nil => exact ⟨rfl, rfl⟩
  | cons op rest ih => exact ih _ _

/-- Delivery sees no more of the storage than its clocks. -/
theorem deliverThroughCausalBuffers_withStorage (self : ReplicationCoordinator σ τ)
    {working : σ} (clocks : ∀ tenantId repoId,
      OperationLogStorage.getVectorClock working tenantId repoId =
        OperationLogStorage.getVectorClock self.storage tenantId repoId)
    (delivery : Nat → DeliveryRuntime) (operations : List Operation) :
    (self.withStorage working).deliverThroughCausalBuffers delivery operations =
      ((self.deliverThroughCausalBuffers delivery operations).1.withStorage working,
        (self.deliverThroughCausalBuffers delivery operations).2) := by
  induction operations generalizing self delivery with
  | nil => rfl
  | cons op rest ih =>
    have buffer : (self.withStorage working).bufferOf (op.tenantId, op.repoId) =
        self.bufferOf (op.tenantId, op.repoId) := by
      simp only [bufferOf, withStorage, clocks]
    have swap : ∀ buffer, (self.withStorage working).setBuffer (op.tenantId, op.repoId) buffer =
        (self.setBuffer (op.tenantId, op.repoId) buffer).withStorage working := fun _ => rfl
    simp only [deliverThroughCausalBuffers, buffer, swap]
    rw [ih (self.setBuffer (op.tenantId, op.repoId) _) clocks]

/-- The same coordinator, seen as one whose storage was exchanged. -/
theorem withStorage_self (self : ReplicationCoordinator σ τ) :
    self.withStorage self.storage = self := rfl

end ReplicationCoordinator

end Delivery

section Retry

variable {σ ε τ : Type} [OperationLogStorage σ ε] [IdempotencyTracker τ]

namespace ReplicationCoordinator

def runCycle (self : ReplicationCoordinator σ τ) (runtime : CycleRuntime) :
    Cycle → ReplicationCoordinator σ τ × CycleOutcome ε
  | .pull tenantId repoId reply => self.syncTenantRepoWithPeer runtime tenantId repoId reply
  | .push operations => self.handlePushFromPeer runtime operations

end ReplicationCoordinator

/-- A storage with the clocks of another one that accepts every write. -/
structure Working (broken working : σ) : Prop where
  clocks : ∀ tenantId repoId, OperationLogStorage.getVectorClock working tenantId repoId =
    OperationLogStorage.getVectorClock broken tenantId repoId
  accepts : ∀ operations, (OperationLogStorage.putOperationsBatch working operations).2 = .ok ()

/-- After the cycle, repeating it on the working storage stores what the cycle would have
stored there at once. -/
def RetryStoresTheSame (coordinator : ReplicationCoordinator σ τ) (cycle : Cycle)
    (first second : CycleRuntime) (working : σ) : Prop :=
  ∀ op, op ∈ (((coordinator.runCycle first cycle).1.withStorage working).runCycle second
      cycle).2.stored ↔
    op ∈ ((coordinator.withStorage working).runCycle first cycle).2.stored

/-! ## What the engine remembers -/

theorem isApplied_markAll [LawfulTracker τ] {engine : ReplayEngine τ} {applied : List Operation}
    {op : Operation} (hop : op ∈ applied) :
    IdempotencyTracker.isApplied (engine.markAll applied).idempotencyTracker op.opId = .ok true := by
  induction applied using reverseRecOn with
  | nil => cases hop
  | append_singleton applied last ih =>
    simp only [ReplayEngine.markAll, foldl_append, foldl_cons, foldl_nil] at ih ⊢
    rcases mem_append.mp hop with earlier | here
    · exact LawfulTracker.kept _ _ _ _ (ih earlier)
    · obtain rfl := mem_singleton.mp here
      exact LawfulTracker.marked _ _ _

namespace ReplicationCoordinator

/-- The batch of a cycle is decided before the storage is asked. -/
theorem attempted_applyDeliverable (self : ReplicationCoordinator σ τ) (runtime : CycleRuntime)
    (deliverable : List Operation) :
    (self.applyDeliverable runtime deliverable).2.attempted =
        (self.replayEngine.replay runtime.replay deliverable).2.applied ∧
      (self.applyDeliverable runtime deliverable).1.replayEngine =
        (self.replayEngine.replay runtime.replay deliverable).1 := by
  unfold applyDeliverable
  dsimp only
  split
  · rename_i empty
    exact ⟨(List.isEmpty_iff.mp empty).symm, rfl⟩
  · split
    · exact ⟨rfl, rfl⟩
    · exact ⟨rfl, rfl⟩

/-- What a cycle can be: nothing handed on, or a replay of the delivered operations. -/
theorem runCycle_cases (self : ReplicationCoordinator σ τ) (runtime : CycleRuntime)
    (cycle : Cycle) :
    (∀ working : σ, (∀ tenantId repoId, OperationLogStorage.getVectorClock working tenantId repoId =
          OperationLogStorage.getVectorClock self.storage tenantId repoId) →
        ∃ result, (self.withStorage working).runCycle runtime cycle =
          (self.withStorage working, ⟨[], .ok (), result⟩)) ∨
    ∃ operations, ∃ order : List Operation → List Operation,
      ∀ working : σ, (∀ tenantId repoId, OperationLogStorage.getVectorClock working tenantId repoId =
          OperationLogStorage.getVectorClock self.storage tenantId repoId) →
        (self.withStorage working).runCycle runtime cycle =
          ((self.withStorage working).deliverThroughCausalBuffers runtime.delivery
            operations).1.applyDeliverable runtime (order
              ((self.withStorage working).deliverThroughCausalBuffers runtime.delivery
                operations).2) := by
  cases cycle with
  | push operations => exact Or.inr ⟨operations, id, fun working _ => rfl⟩
  | pull tenantId repoId reply =>
    cases clock : OperationLogStorage.getVectorClock self.storage tenantId repoId with
    | error error =>
      refine Or.inl fun working clocks => ⟨.error (.storage error), ?_⟩
      simp only [runCycle, syncTenantRepoWithPeer, withStorage, clocks, clock]
    | ok localVc =>
      cases answer : reply localVc with
      | operationBatch operations hasMore =>
        by_cases empty : operations.isEmpty
        · refine Or.inl fun working clocks => ⟨.ok (), ?_⟩
          simp only [runCycle, syncTenantRepoWithPeer, withStorage, clocks, clock, answer,
            empty, if_true]
        · refine Or.inr ⟨operations, sortOperationsByPriority runtime.priority,
            fun working clocks => ?_⟩
          simp only [runCycle, syncTenantRepoWithPeer, withStorage, clocks, clock, answer, empty]
          rfl
      | error message =>
        refine Or.inl fun working clocks => ⟨.error (.protocol message), ?_⟩
        simp only [runCycle, syncTenantRepoWithPeer, withStorage, clocks, clock, answer]
      | unexpected message =>
        refine Or.inl fun working clocks =>
          ⟨.error (.protocol ("Unexpected message: " ++ message)), ?_⟩
        simp only [runCycle, syncTenantRepoWithPeer, withStorage, clocks, clock, answer]
      | unreachable message =>
        refine Or.inl fun working clocks => ⟨.error (.network message), ?_⟩
        simp only [runCycle, syncTenantRepoWithPeer, withStorage, clocks, clock, answer]

/-- What a cycle hands to the storage was new to the engine. -/
theorem attempted_new (self : ReplicationCoordinator σ τ) (runtime : CycleRuntime) (cycle : Cycle)
    {op : Operation} (hop : op ∈ (self.runCycle runtime cycle).2.attempted) :
    IdempotencyTracker.isApplied self.replayEngine.idempotencyTracker op.opId ≠ .ok true := by
  rw [← self.withStorage_self] at hop
  rcases self.runCycle_cases runtime cycle with quiet | ⟨operations, order, replayed⟩
  · obtain ⟨_, nothing⟩ := quiet self.storage fun _ _ => rfl
    rw [nothing] at hop
    cases hop
  · rw [replayed self.storage fun _ _ => rfl, (attempted_applyDeliverable _ _ _).1] at hop
    have new := ((ReplayEngine.replay_winners _ _ _).1).mem hop
    rw [(deliverThroughCausalBuffers_frame _ _ _).1] at new
    exact (ReplayEngine.mem_newOps.mp new).2

/-- What a cycle hands to the storage is known to the engine afterwards, stored or not. -/
theorem attempted_marked [LawfulTracker τ] (self : ReplicationCoordinator σ τ)
    (runtime : CycleRuntime) (cycle : Cycle) {op : Operation}
    (hop : op ∈ (self.runCycle runtime cycle).2.attempted) :
    IdempotencyTracker.isApplied
      (self.runCycle runtime cycle).1.replayEngine.idempotencyTracker op.opId = .ok true := by
  rw [← self.withStorage_self] at hop ⊢
  rcases self.runCycle_cases runtime cycle with quiet | ⟨operations, order, replayed⟩
  · obtain ⟨_, nothing⟩ := quiet self.storage fun _ _ => rfl
    rw [nothing] at hop
    cases hop
  · rw [replayed self.storage fun _ _ => rfl] at hop ⊢
    rw [(attempted_applyDeliverable _ _ _).1] at hop
    rw [(attempted_applyDeliverable _ _ _).2, (ReplayEngine.replay_winners _ _ _).2.1]
    exact isApplied_markAll hop

/-- The same batch is handed to every storage with the same clocks. -/
theorem attempted_withStorage (self : ReplicationCoordinator σ τ) (runtime : CycleRuntime)
    (cycle : Cycle) {working : σ} (clocks : ∀ tenantId repoId,
      OperationLogStorage.getVectorClock working tenantId repoId =
        OperationLogStorage.getVectorClock self.storage tenantId repoId) :
    ((self.withStorage working).runCycle runtime cycle).2.attempted =
      (self.runCycle runtime cycle).2.attempted := by
  rcases self.runCycle_cases runtime cycle with quiet | ⟨operations, order, replayed⟩
  · obtain ⟨_, nothing⟩ := quiet self.storage fun _ _ => rfl
    obtain ⟨_, nothing'⟩ := quiet working clocks
    rw [withStorage_self] at nothing
    rw [nothing, nothing']
  · have own := replayed self.storage fun _ _ => rfl
    rw [withStorage_self] at own
    rw [replayed working clocks, own, (attempted_applyDeliverable _ _ _).1,
      (attempted_applyDeliverable _ _ _).1, self.deliverThroughCausalBuffers_withStorage clocks]
    rfl

/-- A write fails only when there is something to write. -/
theorem attempted_of_failed (self : ReplicationCoordinator σ τ) (runtime : CycleRuntime)
    (cycle : Cycle) {error : ε} (failed : (self.runCycle runtime cycle).2.written = .error error) :
    (self.runCycle runtime cycle).2.attempted ≠ [] := by
  rw [← self.withStorage_self] at failed ⊢
  rcases self.runCycle_cases runtime cycle with quiet | ⟨operations, order, replayed⟩
  · obtain ⟨_, nothing⟩ := quiet self.storage fun _ _ => rfl
    rw [nothing] at failed
    cases failed
  · rw [replayed self.storage fun _ _ => rfl] at failed ⊢
    unfold applyDeliverable at failed ⊢
    dsimp only at failed ⊢
    split at failed
    · cases failed
    · rename_i some
      rw [if_neg some]
      split
      · exact fun none => some (List.isEmpty_iff.mpr none)
      · exact fun none => some (List.isEmpty_iff.mpr none)

/-- A storage that accepts every write stores what it is handed. -/
theorem stored_of_accepts (self : ReplicationCoordinator σ τ) (runtime : CycleRuntime)
    (cycle : Cycle) (accepts : ∀ operations,
      (OperationLogStorage.putOperationsBatch self.storage operations).2 = .ok ()) :
    (self.runCycle runtime cycle).2.stored = (self.runCycle runtime cycle).2.attempted := by
  rw [← self.withStorage_self]
  rcases self.runCycle_cases runtime cycle with quiet | ⟨operations, order, replayed⟩
  · obtain ⟨_, nothing⟩ := quiet self.storage fun _ _ => rfl
    rw [nothing]
    rfl
  · rw [replayed self.storage fun _ _ => rfl]
    have storage := (deliverThroughCausalBuffers_frame (self.withStorage self.storage)
      runtime.delivery operations).2
    unfold applyDeliverable
    dsimp only
    rw [storage]
    split
    · rfl
    · split
      · rename_i failed
        have accepted := congrArg Prod.snd failed
        rw [withStorage_self, accepts] at accepted
        cases accepted
      · rfl

end ReplicationCoordinator

/-- No batch survives a failed write: what one successful cycle would have stored is never
stored by the repeated one. -/
theorem failed_store_swallows [LawfulTracker τ] (coordinator : ReplicationCoordinator σ τ)
    (cycle : Cycle) (first second : CycleRuntime) {working : σ}
    (works : Working coordinator.storage working) {error : ε}
    (failed : (coordinator.runCycle first cycle).2.written = .error error) :
    (∀ op ∈ ((coordinator.withStorage working).runCycle first cycle).2.stored,
      op ∉ (((coordinator.runCycle first cycle).1.withStorage working).runCycle second
        cycle).2.stored) ∧
    ¬ RetryStoresTheSame coordinator cycle first second working := by
  have single := (coordinator.withStorage working).stored_of_accepts first cycle works.accepts
  rw [coordinator.attempted_withStorage first cycle works.clocks] at single
  have retry := ((coordinator.runCycle first cycle).1.withStorage working).stored_of_accepts second
    cycle works.accepts
  have swallowed : ∀ op ∈ ((coordinator.withStorage working).runCycle first cycle).2.stored,
      op ∉ (((coordinator.runCycle first cycle).1.withStorage working).runCycle second
        cycle).2.stored := by
    intro op lost again
    rw [single] at lost
    rw [retry] at again
    exact ReplicationCoordinator.attempted_new _ _ _ again
      (coordinator.attempted_marked first cycle lost)
  refine ⟨swallowed, fun same => ?_⟩
  obtain ⟨op, rest, shape⟩ := exists_cons_of_ne_nil
    (coordinator.attempted_of_failed first cycle failed)
  have lost : op ∈ ((coordinator.withStorage working).runCycle first cycle).2.stored := by
    rw [single, shape]
    exact mem_cons_self
  exact swallowed op lost ((same op).mpr lost)

end Retry

/-- A storage that keeps what it is given while its disk has room. -/
structure BoundedStorage where
  operations : List Operation
  hasRoom : Bool

instance : OperationLogStorage BoundedStorage String where
  getVectorClock _ _ _ := .ok .new
  putOperationsBatch storage operations :=
    if storage.hasRoom then ({ storage with operations := storage.operations ++ operations }, .ok ())
    else (storage, .error "No space left on device")

/-- A runtime that sorts by insertion and walks maps in the order of insertion. -/
def plainCycle : CycleRuntime where
  delivery _ := plainDelivery
  priority := insertionSlice Operation
  replay := plainReplay
  ack := .ok ()

def fullCoordinator : ReplicationCoordinator BoundedStorage InMemoryIdempotencyTracker where
  storage := ⟨[], false⟩
  replayEngine := ⟨⟨∅⟩⟩
  causalBuffers := ∅

def rootPull : Cycle := .pull "tenant1" "repo1" fun _ => .operationBatch [rootOp] false

theorem roomy_works : Working fullCoordinator.storage (⟨[], true⟩ : BoundedStorage) :=
  ⟨fun _ _ => rfl, fun _ => rfl⟩

theorem full_disk_fails :
    (fullCoordinator.runCycle plainCycle (.push [rootOp])).2.written =
      .error "No space left on device" := by decide

/-- The pulled operation is lost when the disk is full once. -/
theorem full_disk_swallows :
    ¬ ∀ (coordinator : ReplicationCoordinator BoundedStorage InMemoryIdempotencyTracker)
      (cycle : Cycle) (first second : CycleRuntime) (working : BoundedStorage),
      Working coordinator.storage working →
        (∃ error, (coordinator.runCycle first cycle).2.written = .error error) →
          RetryStoresTheSame coordinator cycle first second working := by
  intro claim
  have same := claim fullCoordinator rootPull plainCycle plainCycle ⟨[], true⟩ roomy_works
    ⟨"No space left on device", by decide⟩
  have single : rootOp ∈ ((fullCoordinator.withStorage ⟨[], true⟩).runCycle plainCycle
      rootPull).2.stored := by decide
  exact absurd ((same rootOp).mpr single) (by decide)

/-- The same loss, for both ways in. -/
theorem full_disk_swallows_push :
    (∀ op ∈ ((fullCoordinator.withStorage ⟨[], true⟩).runCycle plainCycle
        (.push [rootOp])).2.stored,
      op ∉ (((fullCoordinator.runCycle plainCycle (.push [rootOp])).1.withStorage
        ⟨[], true⟩).runCycle plainCycle (.push [rootOp])).2.stored) ∧
    ¬ RetryStoresTheSame fullCoordinator (.push [rootOp]) plainCycle plainCycle ⟨[], true⟩ :=
  failed_store_swallows fullCoordinator (.push [rootOp]) plainCycle plainCycle roomy_works
    full_disk_fails

end RaisinDB.Coordinator
