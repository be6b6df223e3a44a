import RaisinDB.Oplog.Recovery
import RaisinDB.Oplog.Storage

/-!
# Capturing operations

A node numbers its operations per repository in memory and writes each one to
the log.  After a restart the number comes from the last key of the log and the
clock from the snapshot.
-/

namespace RaisinDB.Oplog

open RaisinDB.Foundation RaisinDB.Replication List

structure RepoClockState where
  vectorClock : VectorClock
  opSeq : Nat

def RepoClockState.new : RepoClockState := ⟨.new, 0⟩

structure OperationCapture where
  oplogRepo : OpLogRepository
  clusterNodeId : String
  repoStates : Finmap fun _ : String × String => RepoClockState
  enabled : Bool

/-- The arguments of a capture, with the id and the time that the runtime supplies. -/
structure CaptureRequest where
  tenantId : String
  repoId : String
  branch : String
  opType : OpType
  actor : String
  agent : Option String
  message : Option String
  isSystem : Bool
  revision : Option HLC
  opId : Uuid
  timestampMs : Nat
  timestampFits : timestampMs < 2 ^ 64

/-- The operation of a request. -/
def CaptureRequest.operation (request : CaptureRequest) (clusterNodeId : String) (opSeq : Nat)
    (vectorClock : VectorClock) : Operation where
  opId := request.opId
  opSeq := opSeq
  clusterNodeId := clusterNodeId
  timestampMs := request.timestampMs
  vectorClock := vectorClock
  tenantId := request.tenantId
  repoId := request.repoId
  branch := request.branch
  opType := request.opType
  revision := request.revision
  actor := request.actor
  agent := request.agent
  message := request.message
  isSystem := request.isSystem
  acknowledgedBy := ∅

namespace OperationCapture

def new (db : OpLogRepository) (clusterNodeId : String) : OperationCapture where
  oplogRepo := db
  clusterNodeId := clusterNodeId
  repoStates := ∅
  enabled := true

/-- The state of a repository, fresh when it has none. -/
def repoState (self : OperationCapture) (tenantId repoId : String) : RepoClockState :=
  (self.repoStates.lookup (tenantId, repoId)).getD .new

def setRepoState (self : OperationCapture) (tenantId repoId : String) (state : RepoClockState) :
    OperationCapture :=
  { self with repoStates := self.repoStates.insert (tenantId, repoId) state }

def advanceRepoClock (self : OperationCapture) (tenantId repoId : String) :
    OperationCapture × VectorClock × Nat :=
  let state := self.repoState tenantId repoId
  let vectorClock := (state.vectorClock.increment self.clusterNodeId).1
  let opSeq := wrapU64 (state.opSeq + 1)
  (self.setRepoState tenantId repoId ⟨vectorClock, opSeq⟩, vectorClock, opSeq)

def mergeVectorClock (self : OperationCapture) (tenantId repoId : String)
    (remoteVc : VectorClock) : OperationCapture :=
  let state := self.repoState tenantId repoId
  let vectorClock := state.vectorClock.merge remoteVc
  let opSeq := (vectorClock.clock.lookup self.clusterNodeId).getD state.opSeq
  self.setRepoState tenantId repoId ⟨vectorClock, opSeq⟩

/-- The push to the peers that follows a capture leaves this node alone. -/
def captureOperationWithAttribution (self : OperationCapture) (request : CaptureRequest) :
    OperationCapture × Except OplogError Operation :=
  if self.enabled then
    let (next, vectorClock, opSeq) := self.advanceRepoClock request.tenantId request.repoId
    let op := request.operation self.clusterNodeId opSeq vectorClock
    match next.oplogRepo.appendCaptured op with
    | (log, .ok ()) => ({ next with oplogRepo := log }, .ok op)
    | (log, .error error) => ({ next with oplogRepo := log }, .error error)
  else (self, .ok (request.operation self.clusterNodeId 0 .new))

/-- The snapshot, rebuilt from the keys of the log when it is empty. -/
def snapshotOrRebuilt (log : OpLogRepository) (tenantId repoId : String) :
    OpLogRepository × Except OplogError VectorClock :=
  match log.getVectorClockSnapshot tenantId repoId with
  | .error error => (log, .error error)
  | .ok clock =>
      if clock.isEmpty then log.rebuildVectorClockSnapshot tenantId repoId else (log, .ok clock)

def restoreFromOplog (self : OperationCapture) (tenantId repoId : String) :
    OperationCapture × Except OplogError Unit :=
  let highestSeq := self.oplogRepo.getHighestSeq tenantId repoId self.clusterNodeId
  match snapshotOrRebuilt self.oplogRepo tenantId repoId with
  | (log, .error error) => ({ self with oplogRepo := log }, .error error)
  | (log, .ok clock) =>
      let mergedVc :=
        if clock.get self.clusterNodeId < highestSeq then clock.set self.clusterNodeId highestSeq
        else clock
      (({ self with oplogRepo := log }).setRepoState tenantId repoId ⟨mergedVc, highestSeq⟩,
        .ok ())

/-- Restore one repository and write its snapshot if there still is none. -/
def restoreReplicationState (self : OperationCapture) (tenantId repoId : String) :
    OperationCapture × Except OplogError Unit :=
  match self.restoreFromOplog tenantId repoId with
  | (next, .error error) => (next, .error error)
  | (next, .ok ()) =>
      let (log, result) := snapshotOrRebuilt next.oplogRepo tenantId repoId
      ({ next with oplogRepo := log }, result.map fun _ => ())

/-- Restore the listed repositories, stopping at the first failure. -/
def restoreAllReplicationState (self : OperationCapture) :
    List (String × String) → OperationCapture × Except OplogError Unit
  | [] => (self, .ok ())
  | (tenantId, repoId) :: rest =>
      match self.restoreReplicationState tenantId repoId with
      | (next, .error error) => (next, .error error)
      | (next, .ok ()) => next.restoreAllReplicationState rest

/-- A new process on the same log. -/
def restart (self : OperationCapture) (repos : List (String × String)) : OperationCapture :=
  ((new self.oplogRepo self.clusterNodeId).restoreAllReplicationState repos).1

theorem repoState_setRepoState (self : OperationCapture) (tenantId repoId tenantId' repoId' : String)
    (state : RepoClockState) :
    (self.setRepoState tenantId repoId state).repoState tenantId' repoId' =
      if (tenantId', repoId') = (tenantId, repoId) then state
      else self.repoState tenantId' repoId' := by
  rw [repoState, setRepoState]
  split
  · rename_i same
    rw [same, Finmap.lookup_insert, Option.getD_some]
  · rename_i different
    rw [Finmap.lookup_insert_of_ne _ different]
    rfl

end OperationCapture

/-! ## What the log keeps across a restart -/

/-- The entry of a node in the snapshot of a repository. -/
def OpLogRepository.ownEntry (self : OpLogRepository) (tenantId repoId clusterNodeId : String) :
    Nat :=
  match self.getVectorClockSnapshot tenantId repoId with
  | .ok clock => clock.get clusterNodeId
  | .error _ => 0

/-- The snapshots count every stored operation of the node. -/
structure Persisted (log : OpLogRepository) (node : String) : Prop where
  content : log.Content
  bounded : ∀ tenantId repoId, ∀ op ∈ log.repoOps tenantId repoId, op.clusterNodeId = node →
    op.opSeq ≤ log.ownEntry tenantId repoId node

/-- The log was read again: the same operations and the same entries of the node.  Only the
snapshots of some repositories were written. -/
structure Refreshed (node : String) (repos : List (String × String))
    (before after : OpLogRepository) : Prop where
  content : after.Content
  entries : ∀ tenantId repoId, NulFree tenantId → NulFree repoId →
    after.ownEntry tenantId repoId node = before.ownEntry tenantId repoId node
  stored : ∀ tenantId repoId op,
    op ∈ after.repoOps tenantId repoId ↔ op ∈ before.repoOps tenantId repoId
  rows : ∀ entry ∈ after.db.rows, entry ∈ before.db.rows ∨
    ∃ repo ∈ repos, ∃ clock, entry = (OplogRow.snapshot repo.1 repo.2 clock).entry

namespace Refreshed

variable {node : String} {repos : List (String × String)} {first second third : OpLogRepository}

theorem refl (content : first.Content) : Refreshed node repos first first :=
  ⟨content, fun _ _ _ _ => rfl, fun _ _ _ => Iff.rfl, fun _ hentry => Or.inl hentry⟩

theorem trans (early : Refreshed node repos first second)
    (late : Refreshed node repos second third) : Refreshed node repos first third where
  content := late.content
  entries tenantId repoId tenant repo :=
    (late.entries tenantId repoId tenant repo).trans (early.entries tenantId repoId tenant repo)
  stored tenantId repoId op :=
    (late.stored tenantId repoId op).trans (early.stored tenantId repoId op)
  rows entry hentry := by
    rcases late.rows entry hentry with old | written
    · exact early.rows entry old
    · exact Or.inr written

/-- Stored operations have well-formed names, so their entries are the same too. -/
theorem persisted (refreshed : Refreshed node repos first second)
    (persisted : Persisted first node) : Persisted second node where
  content := refreshed.content
  bounded tenantId repoId op stored own := by
    have formed := (refreshed.content.stored_row stored).2
    obtain ⟨_, rfl, rfl⟩ := OpLogRepository.mem_repoOps.mp stored
    rw [refreshed.entries _ _ formed.1 formed.2.1]
    exact persisted.bounded _ _ op ((refreshed.stored _ _ _).mp stored) own

theorem getHighestSeq (refreshed : Refreshed node repos first second) (content : first.Content)
    {tenantId repoId : String} (tenant : NulFree tenantId) (repo : NulFree repoId)
    (names : NulFree node) :
    second.getHighestSeq tenantId repoId node = first.getHighestSeq tenantId repoId node := by
  apply le_antisymm
  · rcases OpLogRepository.getHighestSeq_stored refreshed.content tenant repo names with
      zero | ⟨op, stored, own, seq⟩
    · rw [zero]
      exact Nat.zero_le _
    · rw [← seq]
      exact OpLogRepository.le_getHighestSeq content tenant repo names
        ((refreshed.stored _ _ _).mp stored) own
  · rcases OpLogRepository.getHighestSeq_stored content tenant repo names with
      zero | ⟨op, stored, own, seq⟩
    · rw [zero]
      exact Nat.zero_le _
    · rw [← seq]
      exact OpLogRepository.le_getHighestSeq refreshed.content tenant repo names
        ((refreshed.stored _ _ _).mpr stored) own

end Refreshed

theorem OpLogRepository.ownEntry_eq {log : OpLogRepository} {tenantId repoId : String}
    {clock : VectorClock} (readable : log.getVectorClockSnapshot tenantId repoId = .ok clock)
    (node : String) :
    log.ownEntry tenantId repoId node = clock.get node := by
  rw [ownEntry, readable]

theorem Persisted.getHighestSeq_le {log : OpLogRepository} {node : String}
    (persisted : Persisted log node) {tenantId repoId : String} (tenant : NulFree tenantId)
    (repo : NulFree repoId) (names : NulFree node) :
    log.getHighestSeq tenantId repoId node ≤ log.ownEntry tenantId repoId node := by
  rcases OpLogRepository.getHighestSeq_stored persisted.content tenant repo names with
    zero | ⟨op, stored, own, seq⟩
  · rw [zero]
    exact Nat.zero_le _
  · rw [← seq]
    exact persisted.bounded _ _ op stored own

/-- No entry of the rebuilt clock is above the operations of its node. -/
theorem OpLogRepository.clockOf_le {node : String} {bound : Nat} (ops : List Operation)
    (below : ∀ op ∈ ops, op.clusterNodeId = node → op.opSeq ≤ bound) :
    (clockOf ops).get node ≤ bound := by
  induction ops using reverseRecOn with
  | nil => exact Nat.zero_le _
  | append_singleton ops op ih =>
    have earlier := ih fun other hother => below other (mem_append_left _ hother)
    rw [clockOf, foldl_append, ← clockOf, foldl_cons, foldl_nil]
    split
    · rw [VectorClock.get_set]
      split
      · rename_i same
        exact below op (mem_append_right _ mem_cons_self) same.symm
      · exact earlier
    · exact earlier

/-! ## Restoring -/

/-- Nothing in the log, and no repository of the list, extends the name of the repository. -/
def Isolated (repos : List (String × String)) (log : OpLogRepository)
    (tenantId repoId : String) : Prop :=
  ¬ log.HasExtension tenantId repoId ∧
    ∀ repo ∈ repos, repo.1 = tenantId → ∀ others, others ≠ "" → repo.2 ≠ repoId ++ others

/-- All names of the list can be read back from keys. -/
def NulFreeRepos (repos : List (String × String)) : Prop :=
  ∀ repo ∈ repos, NulFree repo.1 ∧ NulFree repo.2

section Restore

variable {repos : List (String × String)} {node tenantId repoId : String}

theorem Isolated.refreshed {before after : OpLogRepository} (names : NulFreeRepos repos)
    (refreshed : Refreshed node repos before after)
    (isolated : Isolated repos before tenantId repoId) : Isolated repos after tenantId repoId := by
  refine ⟨?_, isolated.2⟩
  rintro ⟨row, formed, stored, tenant, others, nonempty, name⟩
  rcases refreshed.rows _ stored with old | ⟨repo, hrepo, clock, written⟩
  · exact isolated.1 ⟨row, formed, old, tenant, others, nonempty, name⟩
  · cases row with
    | operation op => cases (Prod.mk.inj written).2
    | snapshot tenantId' repoId' clock' =>
      obtain ⟨sameTenant, sameRepo⟩ := OpLogRepository.snapshotKey_inj formed.1 formed.2
        (names repo hrepo).1 (names repo hrepo).2 (Prod.mk.inj written).1
      exact isolated.2 repo hrepo (sameTenant.symm.trans tenant) others nonempty
        (sameRepo.symm.trans name)

/-- An isolated repository gets its snapshot back, whether it is read or rebuilt. -/
theorem snapshotOrRebuilt_spec {log : OpLogRepository} (persisted : Persisted log node)
    (listed : (tenantId, repoId) ∈ repos) (names : NulFreeRepos repos)
    (isolated : log.ownEntry tenantId repoId node = 0 → Isolated repos log tenantId repoId) :
    ∃ after clock, OperationCapture.snapshotOrRebuilt log tenantId repoId = (after, .ok clock) ∧
      clock.get node = log.ownEntry tenantId repoId node ∧ Refreshed node repos log after := by
  obtain ⟨tenant, repo⟩ := names _ listed
  obtain ⟨clock, readable⟩ := persisted.content.readable tenant repo
  have entry := OpLogRepository.ownEntry_eq readable node
  rw [OperationCapture.snapshotOrRebuilt, readable]
  dsimp only
  split
  · rename_i empty
    have zero : log.ownEntry tenantId repoId node = 0 := by
      rw [entry]
      exact VectorClock.get_eq_zero_of_isEmpty empty node
    have own := OpLogRepository.ReadsOwn.of_content persisted.content tenant repo (isolated zero).1
    have rebuilt : (OpLogRepository.clockOf (log.repoOps tenantId repoId)).get node = 0 := by
      refine Nat.le_zero.mp (OpLogRepository.clockOf_le _ fun op stored sameNode => ?_)
      exact (persisted.bounded _ _ op stored sameNode).trans_eq zero
    refine ⟨_, _, own.rebuildVectorClockSnapshot persisted.content, rebuilt.trans zero.symm,
      persisted.content.updateVectorClockSnapshot tenant repo _, fun tenantId' repoId' tenant' repo' => ?_,
      fun _ _ _ => OpLogRepository.mem_repoOps_update persisted.content tenant repo _,
      fun row hrow => ?_⟩
    · by_cases same : (tenantId', repoId') = (tenantId, repoId)
      · obtain ⟨rfl, rfl⟩ := Prod.mk.inj same
        rw [OpLogRepository.ownEntry_eq (OpLogRepository.getVectorClockSnapshot_update _ _ _ _),
          rebuilt, zero]
      · rw [OpLogRepository.ownEntry,
          OpLogRepository.snapshot_update_other tenant' repo' tenant repo same]
        rfl
    · rcases OrderedStore.mem_rows_put.mp hrow with rfl | ⟨old, _⟩
      · exact Or.inr ⟨_, listed, _, rfl⟩
      · exact Or.inl old
  · exact ⟨log, clock, rfl, entry.symm, Refreshed.refl persisted.content⟩

/-- The listed repositories were restored: the number comes from the last key, the clock from
the snapshot. -/
structure Restored (repos listed : List (String × String)) (before after : OperationCapture) :
    Prop where
  log : Refreshed before.clusterNodeId repos before.oplogRepo after.oplogRepo
  node : after.clusterNodeId = before.clusterNodeId
  enabled : after.enabled = before.enabled
  number : ∀ repo ∈ listed, (after.repoState repo.1 repo.2).opSeq =
    before.oplogRepo.getHighestSeq repo.1 repo.2 before.clusterNodeId
  entry : ∀ repo ∈ listed, (after.repoState repo.1 repo.2).vectorClock.get before.clusterNodeId =
    before.oplogRepo.ownEntry repo.1 repo.2 before.clusterNodeId
  others : ∀ tenantId repoId, (tenantId, repoId) ∉ listed →
    after.repoState tenantId repoId = before.repoState tenantId repoId

theorem restoreReplicationState_spec {capture : OperationCapture}
    (persisted : Persisted capture.oplogRepo capture.clusterNodeId)
    (nodeName : NulFree capture.clusterNodeId) (listed : (tenantId, repoId) ∈ repos)
    (names : NulFreeRepos repos)
    (isolated : capture.oplogRepo.ownEntry tenantId repoId capture.clusterNodeId = 0 →
      Isolated repos capture.oplogRepo tenantId repoId) :
    ∃ after, capture.restoreReplicationState tenantId repoId = (after, .ok ()) ∧
      Restored repos [(tenantId, repoId)] capture after := by
  obtain ⟨tenant, repo⟩ := names _ listed
  obtain ⟨middle, clock, read, entry, first⟩ :=
    snapshotOrRebuilt_spec persisted listed names isolated
  have enough : ¬ clock.get capture.clusterNodeId <
      capture.oplogRepo.getHighestSeq tenantId repoId capture.clusterNodeId := by
    rw [not_lt, entry]
    exact persisted.getHighestSeq_le tenant repo nodeName
  have restored : capture.restoreFromOplog tenantId repoId =
      (({ capture with oplogRepo := middle }).setRepoState tenantId repoId
        ⟨clock, capture.oplogRepo.getHighestSeq tenantId repoId capture.clusterNodeId⟩, .ok ()) := by
    rw [OperationCapture.restoreFromOplog, read]
    dsimp only
    rw [if_neg enough]
  obtain ⟨final, clock', read', _, second⟩ :=
    snapshotOrRebuilt_spec (first.persisted persisted) listed names (by
      intro zero
      rw [first.entries _ _ tenant repo] at zero
      exact (isolated zero).refreshed names first)
  have result : capture.restoreReplicationState tenantId repoId =
      ({ ({ capture with oplogRepo := middle }).setRepoState tenantId repoId
          ⟨clock, capture.oplogRepo.getHighestSeq tenantId repoId capture.clusterNodeId⟩ with
        oplogRepo := final }, .ok ()) := by
    rw [OperationCapture.restoreReplicationState, restored]
    change (let (log, result) := OperationCapture.snapshotOrRebuilt middle tenantId repoId
      ({ ({ capture with oplogRepo := middle }).setRepoState tenantId repoId
          ⟨clock, capture.oplogRepo.getHighestSeq tenantId repoId capture.clusterNodeId⟩ with
        oplogRepo := log }, result.map fun _ => ())) = _
    rw [read']
    rfl
  have states := fun tenantId' repoId' =>
    ({ capture with oplogRepo := middle }).repoState_setRepoState tenantId repoId tenantId' repoId'
      ⟨clock, capture.oplogRepo.getHighestSeq tenantId repoId capture.clusterNodeId⟩
  refine ⟨_, result, first.trans second, rfl, rfl, forall_mem_singleton.mpr ?_,
    forall_mem_singleton.mpr ?_, fun tenantId' repoId' other => ?_⟩
  · exact congrArg RepoClockState.opSeq ((states tenantId repoId).trans (if_pos rfl))
  · have same := congrArg RepoClockState.vectorClock ((states tenantId repoId).trans (if_pos rfl))
    exact (congrArg (fun clock : VectorClock => clock.get capture.clusterNodeId) same).trans entry
  · exact (states tenantId' repoId').trans (if_neg fun same => other (mem_singleton.mpr same))

/-- Restoring one repository after another. -/
theorem restoreAllReplicationState_spec (capture : OperationCapture)
    (persisted : Persisted capture.oplogRepo capture.clusterNodeId)
    (nodeName : NulFree capture.clusterNodeId) (names : NulFreeRepos repos)
    {listed : List (String × String)} (inside : listed ⊆ repos)
    (isolated : ∀ repo ∈ listed,
      capture.oplogRepo.ownEntry repo.1 repo.2 capture.clusterNodeId = 0 →
        Isolated repos capture.oplogRepo repo.1 repo.2) :
    Restored repos listed capture (capture.restoreAllReplicationState listed).1 := by
  induction listed generalizing capture with
  | nil =>
    exact ⟨Refreshed.refl persisted.content, rfl, rfl, (fun _ hrepo => by cases hrepo),
      (fun _ hrepo => by cases hrepo), fun _ _ _ => rfl⟩
  | cons repo rest ih =>
    obtain ⟨hrepo, insideRest⟩ := cons_subset.mp inside
    obtain ⟨here, later⟩ := forall_mem_cons.mp isolated
    obtain ⟨next, done, first⟩ :=
      restoreReplicationState_spec persisted nodeName hrepo names here
    have node := first.node
    have step : capture.restoreAllReplicationState (repo :: rest) =
        next.restoreAllReplicationState rest := by
      rw [OperationCapture.restoreAllReplicationState, done]
    rw [step]
    have second := ih next (node ▸ first.log.persisted persisted)
      (node ▸ nodeName) insideRest (by
        intro other hother zero
        obtain ⟨tenant, repo⟩ := names other (insideRest hother)
        rw [node, first.log.entries _ _ tenant repo] at zero
        exact (later other hother zero).refreshed names first.log)
    refine ⟨first.log.trans (node ▸ second.log), second.node.trans node,
      second.enabled.trans first.enabled, fun other hother => ?_, fun other hother => ?_,
      fun tenantId repoId other => ?_⟩
    · obtain ⟨tenant, repo⟩ := names other (inside hother)
      by_cases again : other ∈ rest
      · rw [second.number other again, node,
          first.log.getHighestSeq persisted.content tenant repo nodeName]
      · obtain rfl := (mem_cons.mp hother).resolve_right again
        rw [second.others _ _ again, first.number _ mem_cons_self]
    · obtain ⟨tenant, repo⟩ := names other (inside hother)
      by_cases again : other ∈ rest
      · rw [← node, second.entry other again, node, first.log.entries _ _ tenant repo]
      · obtain rfl := (mem_cons.mp hother).resolve_right again
        rw [second.others _ _ again, first.entry _ mem_cons_self]
    · rw [second.others _ _ fun inRest => other (mem_cons_of_mem _ inRest),
        first.others _ _ fun same => other (mem_cons.mpr (Or.inl (mem_singleton.mp same)))]

end Restore

end RaisinDB.Oplog
