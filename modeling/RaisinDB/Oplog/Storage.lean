import RaisinDB.Foundation.Machine
import RaisinDB.Oplog.Scans

/-!
# Batches pushed straight into the log

The storage writes a pushed batch to the log and raises the snapshot entry of
every sender to the highest sequence number of the batch, whether or not the
numbers below it were ever received.
-/

namespace RaisinDB.Oplog

open RaisinDB.Foundation RaisinDB.Replication List

structure RocksDbOperationLogStorage where
  oplogRepo : OpLogRepository

namespace RocksDbOperationLogStorage

def getVectorClock (self : RocksDbOperationLogStorage) (tenantId repoId : String) :
    Except OplogError VectorClock :=
  self.oplogRepo.getVectorClockSnapshot tenantId repoId

/-- The snapshot entry of every operation's node, one by one; failures are logged only. -/
def raiseSnapshots (repo : OpLogRepository) (ops : List Operation) : OpLogRepository :=
  ops.foldl (fun repo op =>
    (repo.incrementVectorClockForNode op.tenantId op.repoId op.clusterNodeId op.opSeq).1) repo

/-- Write the batch, then raise the snapshots again.  Between the two the operations are
applied to the data, which leaves the log alone. -/
def putOperationsBatch (self : RocksDbOperationLogStorage) (ops : List Operation) :
    RocksDbOperationLogStorage × Except OplogError Unit :=
  if ops.isEmpty then (self, .ok ())
  else
    match self.oplogRepo.putOperationsBatch ops with
    | (repo, .error error) => (⟨repo⟩, .error error)
    | (repo, .ok ()) => (⟨raiseSnapshots repo ops⟩, .ok ())

/-- The server's answer to a push: the ids of the batch. -/
def handlePushOperations (self : RocksDbOperationLogStorage) (operations : List Operation) :
    RocksDbOperationLogStorage × Except OplogError (List Uuid) :=
  match self.putOperationsBatch operations with
  | (next, .ok ()) => (next, .ok (operations.map Operation.opId))
  | (next, .error error) => (next, .error error)

theorem handlePushOperations_fst (self : RocksDbOperationLogStorage)
    (operations : List Operation) :
    (self.handlePushOperations operations).1 = (self.putOperationsBatch operations).1 := by
  unfold handlePushOperations
  split
  · rename_i result
    rw [result]
  · rename_i result
    rw [result]

end RocksDbOperationLogStorage

/-! ## Raising a snapshot -/

/-- The logs agree outside the snapshot of one repository. -/
def SameRows (tenantId repoId : String) (before after : OpLogRepository) : Prop :=
  ∀ row : Key × OplogValue, row.1 ≠ vectorClockSnapshotKey tenantId repoId →
    (row ∈ after.db.rows ↔ row ∈ before.db.rows)

theorem SameRows.refl (tenantId repoId : String) (log : OpLogRepository) :
    SameRows tenantId repoId log log := fun _ _ => Iff.rfl

theorem SameRows.trans {tenantId repoId : String} {first second third : OpLogRepository}
    (early : SameRows tenantId repoId first second) (late : SameRows tenantId repoId second third) :
    SameRows tenantId repoId first third :=
  fun row other => (late row other).trans (early row other)

namespace OpLogRepository

theorem getVectorClockSnapshot_update (self : OpLogRepository) (tenantId repoId : String)
    (clock : VectorClock) :
    (self.updateVectorClockSnapshot tenantId repoId clock).getVectorClockSnapshot
      tenantId repoId = .ok clock := by
  rw [getVectorClockSnapshot, updateVectorClockSnapshot, OrderedStore.get_put_self]

theorem sameRows_update (self : OpLogRepository) (tenantId repoId : String)
    (clock : VectorClock) :
    SameRows tenantId repoId self (self.updateVectorClockSnapshot tenantId repoId clock) := by
  intro row other
  rw [updateVectorClockSnapshot, OrderedStore.mem_rows_put]
  constructor
  · rintro (same | ⟨old, _⟩)
    · exact absurd (congrArg Prod.fst same) other
    · exact old
  · exact fun old => Or.inr ⟨old, other⟩

/-- One entry of a readable snapshot is raised, and no other row changes. -/
theorem incrementVectorClockForNode_spec {self : OpLogRepository} {tenantId repoId : String}
    {clock : VectorClock} (readable : self.getVectorClockSnapshot tenantId repoId = .ok clock)
    (clusterNodeId : String) (opSeq : Nat) :
    ∃ next after,
      self.incrementVectorClockForNode tenantId repoId clusterNodeId opSeq = (next, .ok ()) ∧
      next.getVectorClockSnapshot tenantId repoId = .ok after ∧
      (∀ node, after.get node =
        if node = clusterNodeId then max (clock.get clusterNodeId) opSeq else clock.get node) ∧
      SameRows tenantId repoId self next := by
  rw [incrementVectorClockForNode, readable]
  dsimp only
  split
  · rename_i above
    refine ⟨_, clock.set clusterNodeId opSeq, rfl, getVectorClockSnapshot_update _ _ _ _,
      fun node => ?_, sameRows_update _ _ _ _⟩
    rw [VectorClock.get_set, max_eq_right above.le]
  · rename_i below
    refine ⟨self, clock, rfl, readable, fun node => ?_, SameRows.refl _ _ _⟩
    split
    · rename_i same
      rw [same, max_eq_left (not_lt.mp below)]
    · rfl

end OpLogRepository

/-- The snapshot was raised by operations: nothing falls, and every new value is the number
of one of them. -/
structure Raised (before after : VectorClock) (ops : List Operation) : Prop where
  mono : ∀ node, before.get node ≤ after.get node
  origin : ∀ node, after.get node = before.get node ∨
    ∃ op ∈ ops, op.clusterNodeId = node ∧ after.get node = op.opSeq

theorem Raised.refl (clock : VectorClock) (ops : List Operation) : Raised clock clock ops :=
  ⟨fun _ => le_refl _, fun _ => Or.inl rfl⟩

theorem Raised.trans {first second third : VectorClock} {ops : List Operation}
    (early : Raised first second ops) (late : Raised second third ops) :
    Raised first third ops where
  mono node := (early.mono node).trans (late.mono node)
  origin node := by
    rcases late.origin node with same | found
    · rw [same]
      exact early.origin node
    · exact Or.inr found

theorem Raised.of_entry {before after : VectorClock} {ops : List Operation} {op : Operation}
    (hop : op ∈ ops) (entry : ∀ node, after.get node =
      if node = op.clusterNodeId then max (before.get op.clusterNodeId) op.opSeq
      else before.get node) : Raised before after ops where
  mono node := by
    rw [entry]
    split
    · rename_i same
      rw [same]
      exact le_max_left _ _
    · exact le_refl _
  origin node := by
    rw [entry]
    split
    · rename_i same
      rcases le_total (before.get op.clusterNodeId) op.opSeq with below | above
      · exact Or.inr ⟨op, hop, same.symm, max_eq_right below⟩
      · exact Or.inl (by rw [max_eq_left above, same])
    · exact Or.inl rfl

section Batch

variable {tenantId repoId : String} {ops : List Operation}

/-- Every tracked maximum is the number of an operation of the batch. -/
theorem mem_trackMax {clusterNodeId : String} {opSeq : Nat} {entries : List (String × Nat)}
    {entry : String × Nat} (hentry : entry ∈ OpLogRepository.trackMax clusterNodeId opSeq entries) :
    entry = (clusterNodeId, opSeq) ∨ entry ∈ entries := by
  induction entries with
  | nil =>
    unfold OpLogRepository.trackMax at hentry
    split at hentry
    · exact Or.inl (mem_singleton.mp hentry)
    · cases hentry
  | cons head rest ih =>
    unfold OpLogRepository.trackMax at hentry
    split at hentry
    · rename_i same
      rcases mem_cons.mp hentry with rfl | later
      · rcases le_total head.2 opSeq with below | above
        · exact Or.inl (by rw [max_eq_right below, same])
        · exact Or.inr (by rw [max_eq_left above]; exact mem_cons_self)
      · exact Or.inr (mem_cons_of_mem _ later)
    · rcases mem_cons.mp hentry with rfl | later
      · exact Or.inr mem_cons_self
      · exact (ih later).imp id (mem_cons_of_mem _)

/-- The tracked updates of a batch come from its operations. -/
def FromOps (ops : List Operation)
    (updates : List ((String × String) × List (String × Nat))) : Prop :=
  ∀ entry ∈ updates, ∀ update ∈ entry.2, ∃ op ∈ ops,
    entry.1 = (op.tenantId, op.repoId) ∧ update = (op.clusterNodeId, op.opSeq)

theorem FromOps.trackUpdate {op : Operation} (hop : op ∈ ops)
    {updates : List ((String × String) × List (String × Nat))} (from' : FromOps ops updates) :
    FromOps ops (OpLogRepository.trackUpdate op updates) := by
  induction updates with
  | nil =>
    intro entry hentry update hupdate
    obtain rfl := mem_singleton.mp hentry
    rcases mem_trackMax hupdate with rfl | none
    · exact ⟨op, hop, rfl, rfl⟩
    · cases none
  | cons head rest ih =>
    obtain ⟨here, later⟩ := forall_mem_cons.mp from'
    unfold OpLogRepository.trackUpdate
    split
    · rename_i same
      refine forall_mem_cons.mpr ⟨fun update hupdate => ?_, later⟩
      rcases mem_trackMax hupdate with rfl | old
      · exact ⟨op, hop, same, rfl⟩
      · exact here update old
    · exact forall_mem_cons.mpr ⟨here, ih later⟩

theorem fromOps_foldl {batch : List Operation} (inside : batch ⊆ ops)
    {updates : List ((String × String) × List (String × Nat))} (from' : FromOps ops updates) :
    FromOps ops (batch.foldl (fun updates op => OpLogRepository.trackUpdate op updates) updates) := by
  induction batch generalizing updates with
  | nil => exact from'
  | cons op rest ih =>
    obtain ⟨hop, insideRest⟩ := cons_subset.mp inside
    exact ih insideRest (from'.trackUpdate hop)

theorem FromOps.batch (ops : List Operation) :
    FromOps ops (ops.foldl (fun updates op => OpLogRepository.trackUpdate op updates) []) :=
  fromOps_foldl (Subset.refl ops) fun entry hentry => by cases hentry

/-- The snapshot of the repository after raising it with operations of the list. -/
structure SnapshotRaised (tenantId repoId : String) (ops : List Operation)
    (before after : OpLogRepository) (clock final : VectorClock) : Prop where
  snapshot : after.getVectorClockSnapshot tenantId repoId = .ok final
  raised : Raised clock final ops
  rows : SameRows tenantId repoId before after

theorem incrementAll_spec {log : OpLogRepository} {clock : VectorClock}
    (readable : log.getVectorClockSnapshot tenantId repoId = .ok clock)
    (updates : List (String × String × String × Nat))
    (from' : ∀ update ∈ updates, ∃ op ∈ ops,
      update = (tenantId, repoId, op.clusterNodeId, op.opSeq)) :
    ∃ next raised, log.incrementAll updates = (next, .ok ()) ∧
      SnapshotRaised tenantId repoId ops log next clock raised := by
  induction updates generalizing log clock with
  | nil => exact ⟨log, clock, rfl, readable, Raised.refl _ _, SameRows.refl _ _ _⟩
  | cons update rest ih =>
    obtain ⟨⟨op, hop, rfl⟩, later⟩ := forall_mem_cons.mp from'
    obtain ⟨middle, partly, done, readable', entry, rows⟩ :=
      OpLogRepository.incrementVectorClockForNode_spec readable op.clusterNodeId op.opSeq
    obtain ⟨next, raised, result, spec⟩ := ih readable' later
    refine ⟨next, raised, ?_, spec.snapshot, (Raised.of_entry hop entry).trans spec.raised,
      rows.trans spec.rows⟩
    rw [OpLogRepository.incrementAll, done]
    exact result

theorem raiseSnapshots_spec
    (scope : ∀ op ∈ ops, op.tenantId = tenantId ∧ op.repoId = repoId) {batch : List Operation}
    (inside : batch ⊆ ops) {log : OpLogRepository} {clock : VectorClock}
    (readable : log.getVectorClockSnapshot tenantId repoId = .ok clock) :
    ∃ raised, SnapshotRaised tenantId repoId ops log
        (RocksDbOperationLogStorage.raiseSnapshots log batch) clock raised ∧
      ∀ op ∈ batch, op.opSeq ≤ raised.get op.clusterNodeId := by
  induction batch generalizing log clock with
  | nil =>
    exact ⟨clock, ⟨readable, Raised.refl _ _, SameRows.refl _ _ _⟩, fun op hop => by cases hop⟩
  | cons op rest ih =>
    obtain ⟨hop, insideRest⟩ := cons_subset.mp inside
    obtain ⟨middle, partly, done, readable', entry, rows⟩ :=
      OpLogRepository.incrementVectorClockForNode_spec readable op.clusterNodeId op.opSeq
    obtain ⟨raised, spec, covered⟩ := ih insideRest readable'
    have step : RocksDbOperationLogStorage.raiseSnapshots log (op :: rest) =
        RocksDbOperationLogStorage.raiseSnapshots middle rest := by
      rw [RocksDbOperationLogStorage.raiseSnapshots, foldl_cons, (scope op hop).1,
        (scope op hop).2, done]
      rfl
    rw [step]
    refine ⟨raised, ⟨spec.snapshot, (Raised.of_entry hop entry).trans spec.raised,
      rows.trans spec.rows⟩, forall_mem_cons.mpr ⟨?_, covered⟩⟩
    have here := entry op.clusterNodeId
    rw [if_pos rfl] at here
    calc op.opSeq ≤ max (clock.get op.clusterNodeId) op.opSeq := le_max_right _ _
      _ = partly.get op.clusterNodeId := here.symm
      _ ≤ raised.get op.clusterNodeId := spec.raised.mono _

/-- Operations of the list with one key are one operation. -/
def KeysIdentify (ops : List Operation) : Prop :=
  ∀ a ∈ ops, ∀ b ∈ ops, buildOperationKey a = buildOperationKey b → a = b

theorem mem_rows_foldl_putOperation (identify : KeysIdentify ops) {batch : List Operation}
    (inside : batch ⊆ ops) {log : OpLogRepository} {row : Key × OplogValue} :
    row ∈ (batch.foldl OpLogRepository.putOperation log).db.rows ↔
      (∃ op ∈ batch, row = (OplogRow.operation op).entry) ∨
        (row ∈ log.db.rows ∧ ∀ op ∈ batch, row.1 ≠ buildOperationKey op) := by
  induction batch generalizing log with
  | nil => simp
  | cons op rest ih =>
    obtain ⟨hop, insideRest⟩ := cons_subset.mp inside
    rw [foldl_cons, ih insideRest, OpLogRepository.putOperation, OrderedStore.mem_rows_put]
    constructor
    · rintro (⟨other, hother, rfl⟩ | ⟨rfl | ⟨old, different⟩, apart⟩)
      · exact Or.inl ⟨other, mem_cons_of_mem _ hother, rfl⟩
      · exact Or.inl ⟨op, mem_cons_self, rfl⟩
      · exact Or.inr ⟨old, forall_mem_cons.mpr ⟨different, apart⟩⟩
    · rintro (⟨other, hother, rfl⟩ | ⟨old, apart⟩)
      · by_cases later : other ∈ rest
        · exact Or.inl ⟨other, later, rfl⟩
        · obtain rfl : other = op := (mem_cons.mp hother).resolve_right later
          refine Or.inr ⟨Or.inl rfl, fun next hnext same => later ?_⟩
          rw [identify other hop next (insideRest hnext) same]
          exact hnext
      · obtain ⟨different, apartRest⟩ := forall_mem_cons.mp apart
        exact Or.inr ⟨Or.inr ⟨old, different⟩, apartRest⟩

theorem snapshot_foldl_putOperation
    (scope : ∀ op ∈ ops, op.tenantId = tenantId ∧ op.repoId = repoId) {batch : List Operation}
    (inside : batch ⊆ ops) (log : OpLogRepository) :
    (batch.foldl OpLogRepository.putOperation log).getVectorClockSnapshot tenantId repoId =
      log.getVectorClockSnapshot tenantId repoId := by
  induction batch generalizing log with
  | nil => rfl
  | cons op rest ih =>
    obtain ⟨hop, insideRest⟩ := cons_subset.mp inside
    rw [foldl_cons, ih insideRest]
    obtain ⟨rfl, rfl⟩ := scope op hop
    rw [OpLogRepository.getVectorClockSnapshot, OpLogRepository.putOperation,
      OrderedStore.get_put_of_ne _ _ (Ne.symm (OpLogRepository.buildOperationKey_ne_snapshot op))]
    rfl

/-- What a pushed batch does to the log of its repository. -/
structure BatchWritten (tenantId repoId : String) (ops : List Operation)
    (before after : OpLogRepository) (clock final : VectorClock) : Prop where
  snapshot : after.getVectorClockSnapshot tenantId repoId = .ok final
  raised : Raised clock final ops
  covered : ∀ op ∈ ops, op.opSeq ≤ final.get op.clusterNodeId
  rows : ∀ row : Key × OplogValue, row.1 ≠ vectorClockSnapshotKey tenantId repoId →
    (row ∈ after.db.rows ↔ (∃ op ∈ ops, row = (OplogRow.operation op).entry) ∨
      (row ∈ before.db.rows ∧ ∀ op ∈ ops, row.1 ≠ buildOperationKey op))

theorem putOperationsBatch_spec (storage : RocksDbOperationLogStorage)
    (scope : ∀ op ∈ ops, op.tenantId = tenantId ∧ op.repoId = repoId)
    (identify : KeysIdentify ops) {clock : VectorClock}
    (readable : storage.oplogRepo.getVectorClockSnapshot tenantId repoId = .ok clock) :
    ∃ raised, (storage.putOperationsBatch ops).2 = .ok () ∧
      BatchWritten tenantId repoId ops storage.oplogRepo
        (storage.putOperationsBatch ops).1.oplogRepo clock raised := by
  unfold RocksDbOperationLogStorage.putOperationsBatch
  split
  · rename_i empty
    rw [List.isEmpty_iff] at empty
    subst empty
    exact ⟨clock, rfl, readable, Raised.refl _ _, (fun op hop => by cases hop), by simp⟩
  · rename_i nonempty
    have written := snapshot_foldl_putOperation scope (Subset.refl ops) storage.oplogRepo
    have tracked := FromOps.batch ops
    have updates : ∀ update ∈
        (ops.foldl (fun updates op => OpLogRepository.trackUpdate op updates) []).flatMap
          (fun entry => entry.2.map fun update => (entry.1.1, entry.1.2, update.1, update.2)),
          ∃ op ∈ ops, update = (tenantId, repoId, op.clusterNodeId, op.opSeq) := by
      intro update hupdate
      obtain ⟨entry, hentry, hmap⟩ := mem_flatMap.mp hupdate
      obtain ⟨pair, hpair, rfl⟩ := mem_map.mp hmap
      obtain ⟨op, hop, names, rfl⟩ := tracked entry hentry pair hpair
      refine ⟨op, hop, ?_⟩
      rw [names, (scope op hop).1, (scope op hop).2]
    obtain ⟨middle, partly, done, first⟩ :=
      incrementAll_spec (written.trans readable) _ updates
    have result : storage.oplogRepo.putOperationsBatch ops = (middle, .ok ()) := by
      rw [OpLogRepository.putOperationsBatch, if_neg nonempty]
      exact done
    rw [result]
    obtain ⟨raised, second, covered⟩ :=
      raiseSnapshots_spec scope (Subset.refl ops) first.snapshot
    refine ⟨raised, rfl, second.snapshot, first.raised.trans second.raised, covered, ?_⟩
    intro row other
    rw [second.rows row other, first.rows row other,
      mem_rows_foldl_putOperation identify (Subset.refl ops)]

/-- A captured operation is written like a batch of one. -/
theorem appendCaptured_spec (op : Operation) (tenant : op.tenantId = tenantId)
    (repo : op.repoId = repoId) {log : OpLogRepository} {clock : VectorClock}
    (readable : log.getVectorClockSnapshot tenantId repoId = .ok clock) :
    ∃ final, (log.appendCaptured op).2 = .ok () ∧
      BatchWritten tenantId repoId [op] log (log.appendCaptured op).1 clock final := by
  have scope : ∀ other ∈ [op], other.tenantId = tenantId ∧ other.repoId = repoId :=
    forall_mem_singleton.mpr ⟨tenant, repo⟩
  have identify : KeysIdentify [op] := by
    intro a ha b hb _
    rw [mem_singleton.mp ha, mem_singleton.mp hb]
  have written := snapshot_foldl_putOperation scope (Subset.refl [op]) log
  obtain ⟨next, final, done, snapshot, entry, rows⟩ :=
    OpLogRepository.incrementVectorClockForNode_spec (written.trans readable) op.clusterNodeId
      op.opSeq
  have result : log.appendCaptured op = (next, .ok ()) := by
    rw [OpLogRepository.appendCaptured, tenant, repo]
    exact done
  rw [result]
  refine ⟨final, rfl, snapshot, Raised.of_entry mem_cons_self entry,
    forall_mem_singleton.mpr ?_, fun row other => ?_⟩
  · rw [entry, if_pos rfl]
    exact le_max_right _ _
  · rw [rows row other]
    exact mem_rows_foldl_putOperation identify (Subset.refl [op])

end Batch

/-! ## A single operation of a batch -/

namespace OpLogRepository

variable {self : OpLogRepository} {row : Key × OplogValue}

theorem mem_rows_incrementVectorClockForNode (hrow : row ∈ self.db.rows)
    {tenantId repoId : String} (other : row.1 ≠ vectorClockSnapshotKey tenantId repoId)
    (clusterNodeId : String) (opSeq : Nat) :
    row ∈ (self.incrementVectorClockForNode tenantId repoId clusterNodeId opSeq).1.db.rows := by
  unfold incrementVectorClockForNode
  split
  · exact hrow
  · split
    · exact OrderedStore.mem_rows_put.mpr (Or.inr ⟨hrow, other⟩)
    · exact hrow

theorem mem_rows_incrementAll {updates : List (String × String × String × Nat)}
    (hrow : row ∈ self.db.rows)
    (others : ∀ update ∈ updates, row.1 ≠ vectorClockSnapshotKey update.1 update.2.1) :
    row ∈ (self.incrementAll updates).1.db.rows := by
  induction updates generalizing self with
  | nil => exact hrow
  | cons update rest ih =>
    obtain ⟨tenantId, repoId, clusterNodeId, opSeq⟩ := update
    obtain ⟨here, later⟩ := forall_mem_cons.mp others
    have kept := mem_rows_incrementVectorClockForNode hrow here clusterNodeId opSeq
    unfold incrementAll
    split
    · rename_i next result
      rw [result] at kept
      exact ih kept later
    · rename_i next error result
      rw [result] at kept
      exact kept

theorem mem_rows_raiseSnapshots {batch : List Operation} (hrow : row ∈ self.db.rows)
    (others : ∀ op ∈ batch, row.1 ≠ vectorClockSnapshotKey op.tenantId op.repoId) :
    row ∈ (RocksDbOperationLogStorage.raiseSnapshots self batch).db.rows := by
  induction batch generalizing self with
  | nil => exact hrow
  | cons op rest ih =>
    obtain ⟨here, later⟩ := forall_mem_cons.mp others
    exact ih (mem_rows_incrementVectorClockForNode hrow here _ _) later

/-- An operation whose key no other operation of the batch has is written. -/
theorem mem_rows_foldl_of_unique (self : OpLogRepository) {batch : List Operation}
    {op : Operation} (hop : op ∈ batch)
    (unique : ∀ other ∈ batch, buildOperationKey other = buildOperationKey op → other = op) :
    (buildOperationKey op, OplogValue.operation op) ∈ (batch.foldl putOperation self).db.rows := by
  induction batch using reverseRecOn with
  | nil => cases hop
  | append_singleton batch last ih =>
    rw [foldl_append, foldl_cons, foldl_nil, putOperation, OrderedStore.mem_rows_put]
    by_cases same : buildOperationKey last = buildOperationKey op
    · obtain rfl := unique last (mem_append_right _ mem_cons_self) same
      exact Or.inl rfl
    · have earlier : op ∈ batch := by
        rcases mem_append.mp hop with early | here
        · exact early
        · exact absurd (congrArg buildOperationKey (mem_singleton.mp here).symm) same
      exact Or.inr ⟨ih earlier fun other hother => unique other (mem_append_left _ hother),
        fun keys => same keys.symm⟩

end OpLogRepository

/-- A batch stores an operation whose key is its own, whatever becomes of the snapshots. -/
theorem stored_putOperationsBatch (storage : RocksDbOperationLogStorage) {ops : List Operation}
    {op : Operation} (hop : op ∈ ops)
    (unique : ∀ other ∈ ops, buildOperationKey other = buildOperationKey op → other = op)
    (apart : ∀ other ∈ ops,
      buildOperationKey op ≠ vectorClockSnapshotKey other.tenantId other.repoId) :
    op ∈ (storage.putOperationsBatch ops).1.oplogRepo.repoOps op.tenantId op.repoId := by
  have nonempty : ¬ ops.isEmpty := fun none => by
    rw [List.isEmpty_iff.mp none] at hop
    cases hop
  have written := storage.oplogRepo.mem_rows_foldl_of_unique hop unique
  have tracked := FromOps.batch ops
  have raised : (buildOperationKey op, OplogValue.operation op) ∈
      (storage.oplogRepo.putOperationsBatch ops).1.db.rows := by
    rw [OpLogRepository.putOperationsBatch, if_neg nonempty]
    refine OpLogRepository.mem_rows_incrementAll written fun update hupdate => ?_
    obtain ⟨entry, hentry, hmap⟩ := mem_flatMap.mp hupdate
    obtain ⟨pair, hpair, rfl⟩ := mem_map.mp hmap
    obtain ⟨other, hother, names, _⟩ := tracked entry hentry pair hpair
    rw [names]
    exact apart other hother
  refine OpLogRepository.mem_repoOps.mpr ⟨⟨buildOperationKey op, ?_⟩, rfl, rfl⟩
  unfold RocksDbOperationLogStorage.putOperationsBatch
  rw [if_neg nonempty]
  split
  · rename_i repo error result
    rw [result] at raised
    exact raised
  · rename_i repo result
    rw [result] at raised
    exact OpLogRepository.mem_rows_raiseSnapshots raised apart

end RaisinDB.Oplog
