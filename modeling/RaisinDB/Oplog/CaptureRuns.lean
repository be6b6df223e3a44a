import RaisinDB.Foundation.Machine
import RaisinDB.Oplog.Capture

/-!
# Sequence numbers over the life of a node

Captures, deletions and restarts in any order.  The snapshot remembers the last
number that was given out; the number itself is restored from the last key of the
log, which a deletion may have taken away.
-/

namespace RaisinDB.Oplog

open RaisinDB.Foundation RaisinDB.Replication List

/-- What happens to a node. -/
inductive NodeEvent where
  | capture (request : CaptureRequest)
  | mergeVectorClock (tenantId repoId : String) (remoteVc : VectorClock)
  | garbageCollect (tenantId repoId : String) (toDeleteIds : Finset Uuid)
  | deleteOperationsOlderThan (tenantId repoId : String) (cutoffTimestamp : Nat)
  | restart (repos : List (String × String))

namespace OperationCapture

/-- A step of the node; a successful capture returns its operation. -/
def handle (self : OperationCapture) : NodeEvent → OperationCapture × Option Operation
  | .capture request =>
      let (next, result) := self.captureOperationWithAttribution request
      (next, result.toOption)
  | .mergeVectorClock tenantId repoId remoteVc =>
      (self.mergeVectorClock tenantId repoId remoteVc, none)
  | .garbageCollect tenantId repoId toDeleteIds =>
      ({ self with oplogRepo := (self.oplogRepo.garbageCollect tenantId repoId toDeleteIds).1 },
        none)
  | .deleteOperationsOlderThan tenantId repoId cutoffTimestamp =>
      ({ self with
        oplogRepo :=
          (self.oplogRepo.deleteOperationsOlderThan tenantId repoId cutoffTimestamp).1 }, none)
  | .restart repos => (self.restart repos, none)

/-- The snapshot entry of the node itself. -/
def own (self : OperationCapture) (tenantId repoId : String) : Nat :=
  self.oplogRepo.ownEntry tenantId repoId self.clusterNodeId

end OperationCapture

def nodeMachine : Machine OperationCapture NodeEvent (Option Operation) where
  step := OperationCapture.handle

/-- The operations captured along a run from an empty log. -/
def captured (node : String) (events : List NodeEvent) : List Operation :=
  (nodeMachine.outputs (.new .new node) events).reduceOption

/-- Within a repository the numbers increase, and every operation counts itself in its clock. -/
structure SequenceNumbers (ops : List Operation) : Prop where
  increasing : ops.Pairwise fun a b =>
    a.tenantId = b.tenantId → a.repoId = b.repoId → a.opSeq < b.opSeq
  counted : ∀ op ∈ ops, op.opSeq = op.vectorClock.get op.clusterNodeId

/-- The restart can read the names of its repositories back from keys, and those it has to
rebuild are isolated. -/
structure Restorable (capture : OperationCapture) (repos : List (String × String)) : Prop where
  names : NulFreeRepos repos
  isolated : ∀ repo ∈ repos, capture.own repo.1 repo.2 = 0 →
    Isolated repos capture.oplogRepo repo.1 repo.2

/-- Every repository with captured operations is restored, and its newest operation of the
node is still in the log. -/
def NewestKept (capture : OperationCapture) (repos : List (String × String)) : Prop :=
  ∀ tenantId repoId, NulFree tenantId → NulFree repoId → 0 < capture.own tenantId repoId →
    (tenantId, repoId) ∈ repos ∧
      ∃ op ∈ capture.oplogRepo.repoOps tenantId repoId, op.clusterNodeId = capture.clusterNodeId ∧
        op.opSeq = capture.own tenantId repoId

/-- The steps that keep the numbers in order. -/
def Permitted (capture : OperationCapture) : NodeEvent → Prop
  | .capture request => NulFree request.tenantId ∧ NulFree request.repoId ∧
      (capture.repoState request.tenantId request.repoId).opSeq + 1 < 2 ^ 64
  | .restart repos => Restorable capture repos ∧ NewestKept capture repos
  | _ => True

/-- Memory and snapshot agree on the last number of every repository. -/
structure Resumed (capture : OperationCapture) : Prop where
  node : NulFree capture.clusterNodeId
  enabled : capture.enabled = true
  persisted : Persisted capture.oplogRepo capture.clusterNodeId
  number : ∀ tenantId repoId, NulFree tenantId → NulFree repoId →
    capture.own tenantId repoId ≤ (capture.repoState tenantId repoId).opSeq
  entry : ∀ tenantId repoId, NulFree tenantId → NulFree repoId →
    (capture.repoState tenantId repoId).vectorClock.get capture.clusterNodeId =
      (capture.repoState tenantId repoId).opSeq

theorem Resumed.new {node : String} (names : NulFree node) : Resumed (.new .new node) where
  node := names
  enabled := rfl
  persisted := ⟨OpLogRepository.Content.new, fun _ _ op stored => by cases stored⟩
  number _ _ _ _ := Nat.zero_le _
  entry _ _ _ _ := rfl

/-- Memory and log of one repository may be replaced by a pair that agrees. -/
theorem Resumed.setRepoState {capture : OperationCapture} (resumed : Resumed capture)
    {log : OpLogRepository} (persisted : Persisted log capture.clusterNodeId)
    {tenantId repoId : String} {state : RepoClockState}
    (number : NulFree tenantId → NulFree repoId →
      log.ownEntry tenantId repoId capture.clusterNodeId ≤ state.opSeq)
    (entry : NulFree tenantId → NulFree repoId →
      state.vectorClock.get capture.clusterNodeId = state.opSeq)
    (others : ∀ tenantId' repoId', NulFree tenantId' → NulFree repoId' →
      (tenantId', repoId') ≠ (tenantId, repoId) →
        log.ownEntry tenantId' repoId' capture.clusterNodeId = capture.own tenantId' repoId') :
    Resumed { capture.setRepoState tenantId repoId state with oplogRepo := log } := by
  have states := fun tenantId' repoId' =>
    capture.repoState_setRepoState tenantId repoId tenantId' repoId' state
  refine ⟨resumed.node, resumed.enabled, persisted, ?_, ?_⟩
  · intro tenantId' repoId' tenant' repo'
    refine le_of_le_of_eq ?_ (congrArg RepoClockState.opSeq (states tenantId' repoId')).symm
    split
    · rename_i same
      obtain ⟨rfl, rfl⟩ := Prod.mk.inj same
      exact number tenant' repo'
    · rename_i other
      exact (others _ _ tenant' repo' other).le.trans (resumed.number _ _ tenant' repo')
  · intro tenantId' repoId' tenant' repo'
    have found := states tenantId' repoId'
    refine (congrArg (fun state : RepoClockState =>
      state.vectorClock.get capture.clusterNodeId) found).trans
        (Eq.trans ?_ (congrArg RepoClockState.opSeq found).symm)
    split
    · rename_i same
      obtain ⟨rfl, rfl⟩ := Prod.mk.inj same
      exact entry tenant' repo'
    · exact resumed.entry _ _ tenant' repo'

/-! ## Captures -/

section Capture

variable {capture : OperationCapture} {request : CaptureRequest}

/-- The operation that the node captures next for a request. -/
def nextOp (capture : OperationCapture) (request : CaptureRequest) : Operation :=
  request.operation capture.clusterNodeId
    (wrapU64 ((capture.repoState request.tenantId request.repoId).opSeq + 1))
    ((capture.repoState request.tenantId request.repoId).vectorClock.increment
      capture.clusterNodeId).1

theorem capture_eq (enabled : capture.enabled = true) (content : capture.oplogRepo.Content)
    (tenant : NulFree request.tenantId) (repo : NulFree request.repoId) :
    capture.captureOperationWithAttribution request =
      ({ capture.setRepoState request.tenantId request.repoId
          ⟨(nextOp capture request).vectorClock, (nextOp capture request).opSeq⟩ with
        oplogRepo := (capture.oplogRepo.appendCaptured (nextOp capture request)).1 },
        .ok (nextOp capture request)) := by
  obtain ⟨clock, readable⟩ := content.readable tenant repo
  obtain ⟨_, done, _⟩ := appendCaptured_spec (nextOp capture request) rfl rfl readable
  have result : (capture.advanceRepoClock request.tenantId request.repoId).1.oplogRepo.appendCaptured
      (nextOp capture request) =
        ((capture.oplogRepo.appendCaptured (nextOp capture request)).1, .ok ()) :=
    Prod.ext rfl done
  have op : request.operation capture.clusterNodeId
      (capture.advanceRepoClock request.tenantId request.repoId).2.2
      (capture.advanceRepoClock request.tenantId request.repoId).2.1 = nextOp capture request := rfl
  rw [OperationCapture.captureOperationWithAttribution, if_pos enabled]
  dsimp only
  rw [op, result]
  rfl

/-- What a capture with room for another number does. -/
structure Captured (before : OperationCapture) (request : CaptureRequest)
    (after : OperationCapture) : Prop where
  resumed : Resumed after
  number : (nextOp before request).opSeq =
    (before.repoState request.tenantId request.repoId).opSeq + 1
  counted : (nextOp before request).vectorClock.get before.clusterNodeId =
    (nextOp before request).opSeq
  own : after.own request.tenantId request.repoId = (nextOp before request).opSeq
  others : ∀ tenantId repoId, NulFree tenantId → NulFree repoId →
    (tenantId, repoId) ≠ (request.tenantId, request.repoId) →
      after.own tenantId repoId = before.own tenantId repoId

/-- What writing an operation above the snapshot entry does to the log. -/
structure Appended (log : OpLogRepository) (op : Operation) (after : OpLogRepository) : Prop where
  persisted : Persisted after op.clusterNodeId
  own : after.ownEntry op.tenantId op.repoId op.clusterNodeId = op.opSeq
  others : ∀ tenantId repoId, NulFree tenantId → NulFree repoId →
    (tenantId, repoId) ≠ (op.tenantId, op.repoId) →
      after.ownEntry tenantId repoId op.clusterNodeId =
        log.ownEntry tenantId repoId op.clusterNodeId

theorem Persisted.appendCaptured {log : OpLogRepository} {op : Operation}
    (persisted : Persisted log op.clusterNodeId) (formed : (OplogRow.operation op).WellFormed)
    (above : log.ownEntry op.tenantId op.repoId op.clusterNodeId < op.opSeq) :
    Appended log op (log.appendCaptured op).1 := by
  obtain ⟨clock, readable⟩ := persisted.content.readable formed.1 formed.2.1
  have written : (log.appendCaptured op).1 =
      (log.putOperation op).updateVectorClockSnapshot op.tenantId op.repoId
        (clock.set op.clusterNodeId op.opSeq) := by
    rw [OpLogRepository.ownEntry_eq readable] at above
    rw [OpLogRepository.appendCaptured, OpLogRepository.incrementVectorClockForNode,
      OpLogRepository.snapshot_putOperation formed formed.1 formed.2.1, readable]
    dsimp only
    rw [if_pos above]
  have content := persisted.content.putOperation formed
  rw [written]
  have own : ((log.putOperation op).updateVectorClockSnapshot op.tenantId op.repoId
      (clock.set op.clusterNodeId op.opSeq)).ownEntry op.tenantId op.repoId op.clusterNodeId =
        op.opSeq := by
    rw [OpLogRepository.ownEntry_eq (OpLogRepository.getVectorClockSnapshot_update _ _ _ _),
      VectorClock.get_set, if_pos rfl]
  have others : ∀ tenantId repoId, NulFree tenantId → NulFree repoId →
      (tenantId, repoId) ≠ (op.tenantId, op.repoId) →
        ((log.putOperation op).updateVectorClockSnapshot op.tenantId op.repoId
          (clock.set op.clusterNodeId op.opSeq)).ownEntry tenantId repoId op.clusterNodeId =
            log.ownEntry tenantId repoId op.clusterNodeId := by
    intro tenantId repoId tenant repo other
    rw [OpLogRepository.ownEntry,
      OpLogRepository.snapshot_update_other tenant repo formed.1 formed.2.1 other,
      OpLogRepository.snapshot_putOperation formed tenant repo]
    rfl
  refine ⟨⟨content.updateVectorClockSnapshot formed.1 formed.2.1 _, ?_⟩, own, others⟩
  -- the new operation has the number of the snapshot, the old ones lie below the old entry
  intro tenantId repoId other stored sameNode
  have before := OpLogRepository.mem_repoOps_putOperation
    ((OpLogRepository.mem_repoOps_update content formed.1 formed.2.1 _).mp stored)
  obtain ⟨_, rfl, rfl⟩ := OpLogRepository.mem_repoOps.mp stored
  by_cases same : (other.tenantId, other.repoId) = (op.tenantId, op.repoId)
  · obtain ⟨sameTenant, sameRepo⟩ := Prod.mk.inj same
    rw [sameTenant, sameRepo, own]
    rcases before with rfl | old
    · exact le_refl _
    · have bound := persisted.bounded _ _ other old sameNode
      rw [sameTenant, sameRepo] at bound
      exact (bound.trans_lt above).le
  · rcases before with rfl | old
    · exact absurd rfl same
    · have names := (persisted.content.stored_row old).2
      rw [others _ _ names.1 names.2.1 same]
      exact persisted.bounded _ _ other old sameNode

theorem Resumed.captured (resumed : Resumed capture) (tenant : NulFree request.tenantId)
    (repo : NulFree request.repoId)
    (room : (capture.repoState request.tenantId request.repoId).opSeq + 1 < 2 ^ 64) :
    Captured capture request (capture.captureOperationWithAttribution request).1 := by
  have number : (nextOp capture request).opSeq =
      (capture.repoState request.tenantId request.repoId).opSeq + 1 := Nat.mod_eq_of_lt room
  have counted : (nextOp capture request).vectorClock.get capture.clusterNodeId =
      (nextOp capture request).opSeq := by
    rw [nextOp, CaptureRequest.operation, VectorClock.get_increment, if_pos rfl,
      resumed.entry _ _ tenant repo]
  have formed : (OplogRow.operation (nextOp capture request)).WellFormed :=
    ⟨tenant, repo, resumed.node, number ▸ room, request.timestampFits⟩
  have appended := Persisted.appendCaptured resumed.persisted formed
    (number ▸ Nat.lt_succ_of_le (resumed.number _ _ tenant repo))
  rw [capture_eq resumed.enabled resumed.persisted.content tenant repo]
  refine ⟨?_, number, counted, appended.own, appended.others⟩
  exact resumed.setRepoState appended.persisted (fun _ _ => appended.own.le) (fun _ _ => counted)
    appended.others

end Capture

/-! ## Steps without a capture -/

/-- The node goes on from where it was. -/
structure Quiet (before after : OperationCapture) : Prop where
  resumed : Resumed after
  own : ∀ tenantId repoId, NulFree tenantId → NulFree repoId →
    after.own tenantId repoId = before.own tenantId repoId

section Quiet

variable {capture : OperationCapture}

theorem Resumed.merged (resumed : Resumed capture) (tenantId repoId : String)
    (remoteVc : VectorClock) :
    Quiet capture (capture.mergeVectorClock tenantId repoId remoteVc) := by
  -- without an entry of its own the merged clock leaves the number at zero
  have entry : NulFree tenantId → NulFree repoId →
      ((capture.repoState tenantId repoId).vectorClock.merge remoteVc).get capture.clusterNodeId =
        (((capture.repoState tenantId repoId).vectorClock.merge remoteVc).clock.lookup
          capture.clusterNodeId).getD (capture.repoState tenantId repoId).opSeq := by
    intro tenant repo
    have before := resumed.entry _ _ tenant repo
    have grown := VectorClock.le_merge (capture.repoState tenantId repoId).vectorClock remoteVc
      capture.clusterNodeId
    rw [before] at grown
    generalize (capture.repoState tenantId repoId).vectorClock.merge remoteVc = merged at grown ⊢
    rw [VectorClock.get] at grown ⊢
    cases found : merged.clock.lookup capture.clusterNodeId with
    | some counter => rfl
    | none =>
        rw [found, Option.getD_none] at grown
        exact (Nat.le_zero.mp grown).symm
  refine ⟨resumed.setRepoState resumed.persisted (fun tenant repo => ?_) entry
    fun _ _ _ _ _ => rfl, fun _ _ _ _ => rfl⟩
  calc capture.own tenantId repoId
      ≤ (capture.repoState tenantId repoId).opSeq := resumed.number _ _ tenant repo
    _ = (capture.repoState tenantId repoId).vectorClock.get capture.clusterNodeId :=
        (resumed.entry _ _ tenant repo).symm
    _ ≤ ((capture.repoState tenantId repoId).vectorClock.merge remoteVc).get
        capture.clusterNodeId := VectorClock.le_merge _ _ _
    _ = _ := entry tenant repo

/-- A deletion takes operations away and leaves the snapshots. -/
theorem Resumed.shrunk (resumed : Resumed capture) {log : OpLogRepository}
    (shrunk : OpLogRepository.Shrunk capture.oplogRepo log) :
    Quiet capture { capture with oplogRepo := log } := by
  have own : ∀ tenantId repoId, NulFree tenantId → NulFree repoId →
      log.ownEntry tenantId repoId capture.clusterNodeId = capture.own tenantId repoId := by
    intro tenantId repoId tenant repo
    rw [OpLogRepository.ownEntry, shrunk.snapshot _ _ tenant repo]
    rfl
  have content := shrunk.content resumed.persisted.content
  refine ⟨⟨resumed.node, resumed.enabled, ⟨content, ?_⟩, ?_, resumed.entry⟩, own⟩
  · intro tenantId repoId op stored sameNode
    have formed := (content.stored_row stored).2
    obtain ⟨_, rfl, rfl⟩ := OpLogRepository.mem_repoOps.mp stored
    exact (resumed.persisted.bounded _ _ op (shrunk.repoOps stored) sameNode).trans_eq
      (own _ _ formed.1 formed.2.1).symm
  · intro tenantId repoId tenant repo
    exact (own _ _ tenant repo).le.trans (resumed.number _ _ tenant repo)

theorem Resumed.restored (resumed : Resumed capture) {repos : List (String × String)}
    (restorable : Restorable capture repos) :
    Restored repos repos (.new capture.oplogRepo capture.clusterNodeId) (capture.restart repos) :=
  restoreAllReplicationState_spec (.new capture.oplogRepo capture.clusterNodeId)
    resumed.persisted resumed.node restorable.names (Subset.refl repos) restorable.isolated

/-- The last key of a repository has the number of the snapshot when that operation is kept. -/
theorem Resumed.getHighestSeq_eq_iff (resumed : Resumed capture) {tenantId repoId : String}
    (tenant : NulFree tenantId) (repo : NulFree repoId) (some : 0 < capture.own tenantId repoId) :
    capture.oplogRepo.getHighestSeq tenantId repoId capture.clusterNodeId =
        capture.own tenantId repoId ↔
      ∃ op ∈ capture.oplogRepo.repoOps tenantId repoId,
        op.clusterNodeId = capture.clusterNodeId ∧ op.opSeq = capture.own tenantId repoId := by
  have content := resumed.persisted.content
  constructor
  · intro highest
    rcases OpLogRepository.getHighestSeq_stored content tenant repo resumed.node with
      zero | ⟨op, stored, sameNode, seq⟩
    · rw [← highest, zero] at some
      exact absurd some (lt_irrefl 0)
    · exact ⟨op, stored, sameNode, seq.trans highest⟩
  · rintro ⟨op, stored, sameNode, seq⟩
    apply le_antisymm (resumed.persisted.getHighestSeq_le tenant repo resumed.node)
    exact seq.ge.trans (OpLogRepository.le_getHighestSeq content tenant repo resumed.node stored
      sameNode)

theorem Resumed.restarted (resumed : Resumed capture) {repos : List (String × String)}
    (restorable : Restorable capture repos) (kept : NewestKept capture repos) :
    Quiet capture (capture.restart repos) := by
  have restored := resumed.restored restorable
  have node : (capture.restart repos).clusterNodeId = capture.clusterNodeId := restored.node
  have own : ∀ tenantId repoId, NulFree tenantId → NulFree repoId →
      (capture.restart repos).own tenantId repoId = capture.own tenantId repoId := by
    intro tenantId repoId tenant repo
    rw [OperationCapture.own, node]
    exact restored.log.entries _ _ tenant repo
  have state : ∀ tenantId repoId, NulFree tenantId → NulFree repoId →
      ((capture.restart repos).repoState tenantId repoId).opSeq = capture.own tenantId repoId ∧
      ((capture.restart repos).repoState tenantId repoId).vectorClock.get capture.clusterNodeId =
        capture.own tenantId repoId := by
    intro tenantId repoId tenant repo
    by_cases listed : (tenantId, repoId) ∈ repos
    · refine ⟨?_, restored.entry _ listed⟩
      rw [restored.number _ listed]
      rcases Nat.eq_zero_or_pos (capture.own tenantId repoId) with zero | positive
      · have bound := resumed.persisted.getHighestSeq_le tenant repo resumed.node
        exact (Nat.le_zero.mp (bound.trans_eq zero)).trans zero.symm
      · exact (resumed.getHighestSeq_eq_iff tenant repo positive).mpr
          (kept tenantId repoId tenant repo positive).2
    · have zero : capture.own tenantId repoId = 0 := by
        by_contra positive
        exact listed (kept tenantId repoId tenant repo (Nat.pos_of_ne_zero positive)).1
      rw [restored.others _ _ listed, zero]
      exact ⟨rfl, rfl⟩
  refine ⟨⟨node ▸ resumed.node, restored.enabled, ?_, ?_, ?_⟩, own⟩
  · rw [node]
    exact restored.log.persisted resumed.persisted
  · intro tenantId repoId tenant repo
    rw [own _ _ tenant repo, (state _ _ tenant repo).1]
  · intro tenantId repoId tenant repo
    rw [node, (state _ _ tenant repo).1, (state _ _ tenant repo).2]

end Quiet

/-! ## Runs -/

/-- What a run has left: the snapshot entries are the last numbers given out. -/
structure History (ops : List Operation) (capture : OperationCapture) : Prop where
  resumed : Resumed capture
  numbers : SequenceNumbers ops
  below : ∀ op ∈ ops, NulFree op.tenantId ∧ NulFree op.repoId ∧
    op.opSeq ≤ capture.own op.tenantId op.repoId
  attained : ∀ tenantId repoId, NulFree tenantId → NulFree repoId →
    0 < capture.own tenantId repoId →
      ∃ op ∈ ops, op.tenantId = tenantId ∧ op.repoId = repoId ∧
        op.opSeq = capture.own tenantId repoId

theorem History.quiet {ops : List Operation} {before after : OperationCapture}
    (history : History ops before) (quiet : Quiet before after) : History ops after where
  resumed := quiet.resumed
  numbers := history.numbers
  below op hop := by
    obtain ⟨tenant, repo, bound⟩ := history.below op hop
    exact ⟨tenant, repo, bound.trans_eq (quiet.own _ _ tenant repo).symm⟩
  attained tenantId repoId tenant repo some := by
    rw [quiet.own _ _ tenant repo] at some ⊢
    exact history.attained _ _ tenant repo some

theorem History.captured {ops : List Operation} {before after : OperationCapture}
    {request : CaptureRequest} (history : History ops before) (tenant : NulFree request.tenantId)
    (repo : NulFree request.repoId) (captured : Captured before request after) :
    History (ops ++ [nextOp before request]) after := by
  have last := history.resumed.number _ _ tenant repo
  refine ⟨captured.resumed, ⟨?_, ?_⟩, ?_, ?_⟩
  · refine pairwise_append.mpr ⟨history.numbers.increasing, pairwise_singleton _ _, ?_⟩
    intro op hop other hother sameTenant sameRepo
    obtain rfl := mem_singleton.mp hother
    have bound := (history.below op hop).2.2
    rw [sameTenant, sameRepo] at bound
    exact (bound.trans last).trans_lt (captured.number ▸ Nat.lt_succ_self _)
  · refine forall_mem_append.mpr ⟨history.numbers.counted, forall_mem_singleton.mpr ?_⟩
    exact captured.counted.symm
  · refine forall_mem_append.mpr ⟨fun op hop => ?_, forall_mem_singleton.mpr ?_⟩
    · obtain ⟨tenant', repo', bound⟩ := history.below op hop
      refine ⟨tenant', repo', ?_⟩
      by_cases same : (op.tenantId, op.repoId) = (request.tenantId, request.repoId)
      · obtain ⟨sameTenant, sameRepo⟩ := Prod.mk.inj same
        rw [sameTenant, sameRepo] at bound ⊢
        rw [captured.own, captured.number]
        exact (bound.trans last).trans (Nat.le_succ _)
      · exact bound.trans_eq (captured.others _ _ tenant' repo' same).symm
    · exact ⟨tenant, repo, captured.own.ge⟩
  · intro tenantId repoId tenant' repo' some
    by_cases same : (tenantId, repoId) = (request.tenantId, request.repoId)
    · obtain ⟨rfl, rfl⟩ := Prod.mk.inj same
      exact ⟨_, mem_append_right _ mem_cons_self, rfl, rfl, captured.own.symm⟩
    · rw [captured.others _ _ tenant' repo' same] at some ⊢
      obtain ⟨op, hop, found⟩ := history.attained _ _ tenant' repo' some
      exact ⟨op, mem_append_left _ hop, found⟩

theorem handle_capture (capture : OperationCapture) {request : CaptureRequest}
    (enabled : capture.enabled = true) (content : capture.oplogRepo.Content)
    (tenant : NulFree request.tenantId) (repo : NulFree request.repoId) :
    capture.handle (.capture request) =
      ((capture.captureOperationWithAttribution request).1, some (nextOp capture request)) := by
  rw [OperationCapture.handle, capture_eq enabled content tenant repo]
  rfl

theorem History.step {ops : List Operation} {capture : OperationCapture} {event : NodeEvent}
    (history : History ops capture) (permitted : Permitted capture event) :
    History (ops ++ [(capture.handle event).2].reduceOption) (capture.handle event).1 := by
  cases event with
  | capture request =>
      obtain ⟨tenant, repo, room⟩ := permitted
      rw [handle_capture capture history.resumed.enabled history.resumed.persisted.content tenant
        repo]
      exact history.captured tenant repo (history.resumed.captured tenant repo room)
  | mergeVectorClock tenantId repoId remoteVc =>
      exact (append_nil ops).symm ▸ history.quiet (history.resumed.merged tenantId repoId remoteVc)
  | garbageCollect tenantId repoId toDeleteIds =>
      exact (append_nil ops).symm ▸ history.quiet (history.resumed.shrunk
        (OpLogRepository.shrunk_garbageCollect history.resumed.persisted.content toDeleteIds))
  | deleteOperationsOlderThan tenantId repoId cutoffTimestamp =>
      exact (append_nil ops).symm ▸ history.quiet (history.resumed.shrunk
        (OpLogRepository.shrunk_deleteOperationsOlderThan history.resumed.persisted.content
          cutoffTimestamp))
  | restart repos =>
      exact (append_nil ops).symm ▸ history.quiet
        (history.resumed.restarted permitted.1 permitted.2)

theorem history_of_permitted {node : String} (names : NulFree node) {events : List NodeEvent}
    (permitted : ∀ transition ∈ nodeMachine.transitions (.new .new node) events,
      Permitted transition.before transition.event) :
    History (captured node events) (nodeMachine.final (.new .new node) events) := by
  refine nodeMachine.history_invariant
    (fun _ outs capture => History outs.reduceOption capture) _ ?_ ?_ permitted
  · intro early outs capture event history ok
    rw [reduceOption_append]
    exact history.step ok
  · refine ⟨Resumed.new names, ⟨Pairwise.nil, fun op hop => by cases hop⟩,
      (fun op hop => by cases hop), fun _ _ _ _ some => ?_⟩
    exact absurd some (lt_irrefl 0)

/-- A restart that forgets a repository, or finds its newest operation deleted, gives the next
operation a number that is not new. -/
theorem History.reuses {ops : List Operation} {capture : OperationCapture}
    (history : History ops capture) {repos : List (String × String)}
    (restorable : Restorable capture repos) (lost : ¬ NewestKept capture repos) :
    ∃ tenantId repoId, NulFree tenantId ∧ NulFree repoId ∧
      ∀ request : CaptureRequest, request.tenantId = tenantId → request.repoId = repoId →
        ¬ SequenceNumbers (ops ++ [nextOp (capture.restart repos) request]) := by
  unfold NewestKept at lost
  push Not at lost
  obtain ⟨tenantId, repoId, tenant, repo, positive, missing⟩ := lost
  refine ⟨tenantId, repoId, tenant, repo, ?_⟩
  rintro request rfl rfl numbers
  have restored := history.resumed.restored restorable
  have behind : ((capture.restart repos).repoState request.tenantId request.repoId).opSeq <
      capture.own request.tenantId request.repoId := by
    by_cases listed : (request.tenantId, request.repoId) ∈ repos
    · rw [restored.number _ listed]
      refine lt_of_le_of_ne
        (history.resumed.persisted.getHighestSeq_le tenant repo history.resumed.node) ?_
      intro same
      obtain ⟨op, stored, sameNode, seq⟩ :=
        (history.resumed.getHighestSeq_eq_iff tenant repo positive).mp same
      exact missing listed op stored sameNode seq
    · rw [restored.others _ _ listed]
      exact positive
  obtain ⟨op, hop, sameTenant, sameRepo, seq⟩ :=
    history.attained _ _ tenant repo positive
  have above := (pairwise_append.mp numbers.increasing).2.2 op hop _ mem_cons_self sameTenant
    sameRepo
  have next : (nextOp (capture.restart repos) request).opSeq ≤
      capture.own request.tenantId request.repoId :=
    (Nat.mod_le _ _).trans behind
  rw [seq] at above
  exact absurd next (not_le.mpr above)

theorem captured_append (node : String) (early late : List NodeEvent) :
    captured node (early ++ late) =
      captured node early ++
        (nodeMachine.outputs (nodeMachine.final (.new .new node) early) late).reduceOption := by
  rw [captured, nodeMachine.outputs_append, reduceOption_append]
  rfl

/-- Numbers increase while every restart finds the newest operations of the node; after the
first restart that does not, one capture is enough to give a number twice. -/
theorem capture_numbers_increase {node : String} (names : NulFree node) {events : List NodeEvent}
    (permitted : ∀ transition ∈ nodeMachine.transitions (.new .new node) events,
      Permitted transition.before transition.event) :
    SequenceNumbers (captured node events) ∧
      ∀ repos, Restorable (nodeMachine.final (.new .new node) events) repos →
        ¬ NewestKept (nodeMachine.final (.new .new node) events) repos →
          ∃ tenantId repoId, NulFree tenantId ∧ NulFree repoId ∧
            ∀ request : CaptureRequest, request.tenantId = tenantId → request.repoId = repoId →
              ¬ SequenceNumbers
                (captured node (events ++ [.restart repos, .capture request])) := by
  have history := history_of_permitted names permitted
  refine ⟨history.numbers, fun repos restorable lost => ?_⟩
  obtain ⟨tenantId, repoId, tenant, repo, reuses⟩ := history.reuses restorable lost
  refine ⟨tenantId, repoId, tenant, repo, ?_⟩
  rintro request rfl rfl
  have restored := history.resumed.restored restorable
  have outputs : nodeMachine.outputs (nodeMachine.final (.new .new node) events)
      [.restart repos, .capture request] =
        [none, some (nextOp ((nodeMachine.final (.new .new node) events).restart repos)
          request)] := by
    have step := handle_capture ((nodeMachine.final (.new .new node) events).restart repos)
      restored.enabled restored.log.content tenant repo
    exact congrArg (fun result => [none, result]) (congrArg Prod.snd step)
  rw [captured_append, outputs]
  exact reuses request rfl rfl

/-- A write to `repo1` at some time. -/
def branchRequest (timestampMs : Nat) (fits : timestampMs < 2 ^ 64) : CaptureRequest where
  tenantId := "tenant1"
  repoId := "repo1"
  branch := "main"
  opType := .updateBranch ⟨"main"⟩
  actor := "user@example.com"
  agent := none
  message := none
  isSystem := false
  revision := none
  opId := BitVec.ofNat 128 timestampMs
  timestampMs := timestampMs
  timestampFits := fits

/-- Two captures, of which the older one is deleted for its age. -/
def trimmedRun : List NodeEvent :=
  [.capture (branchRequest 1 (by decide)), .capture (branchRequest 2 (by decide)),
    .deleteOperationsOlderThan "tenant1" "repo1" 2]

theorem trimmedRun_permitted :
    ∀ transition ∈ nodeMachine.transitions (.new .new "node1") trimmedRun,
      Permitted transition.before transition.event := by
  refine forall_mem_cons.mpr ⟨?_, forall_mem_cons.mpr ⟨?_, forall_mem_singleton.mpr trivial⟩⟩
  · exact ⟨by decide, by decide, by decide +kernel⟩
  · exact ⟨by decide, by decide, by decide +kernel⟩

/-- The newest operation survives, so the node goes on counting after a restart. -/
theorem trimmed_run_keeps_counting :
    SequenceNumbers (captured "node1" (trimmedRun ++
      [.restart [("tenant1", "repo1")], .capture (branchRequest 200 (by decide))])) := by
  have node : NulFree "node1" := by decide
  have history := history_of_permitted node trimmedRun_permitted
  have scope : ∀ op ∈ captured "node1" trimmedRun,
      op.tenantId = "tenant1" ∧ op.repoId = "repo1" := by decide +kernel
  refine (capture_numbers_increase (by decide) ?_).1
  rw [nodeMachine.transitions_append]
  refine forall_mem_append.mpr ⟨trimmedRun_permitted,
    forall_mem_cons.mpr ⟨⟨⟨?_, ?_⟩, ?_⟩, forall_mem_singleton.mpr ?_⟩⟩
  · exact forall_mem_singleton.mpr ⟨by decide, by decide⟩
  · have counted : 0 < (nodeMachine.final (.new .new "node1") trimmedRun).own "tenant1" "repo1" := by
      decide +kernel
    exact forall_mem_singleton.mpr fun zero => absurd zero counted.ne'
  · intro tenantId repoId tenant repo positive
    obtain ⟨op, hop, rfl, rfl, _⟩ := history.attained _ _ tenant repo positive
    obtain ⟨sameTenant, sameRepo⟩ := scope op hop
    rw [sameTenant, sameRepo]
    exact ⟨by decide, by decide +kernel⟩
  · exact ⟨by decide, by decide, by decide +kernel⟩

/-- Two captures, both deleted for their age, and a capture after a restart. -/
def agedRun : List NodeEvent :=
  [.capture (branchRequest 1 (by decide)), .capture (branchRequest 2 (by decide)),
    .deleteOperationsOlderThan "tenant1" "repo1" 100, .restart [("tenant1", "repo1")],
    .capture (branchRequest 200 (by decide))]

/-- The third operation gets the number of the first, and another entry in its clock. -/
theorem aged_run_reuses_number :
    ¬ ∀ (node : String) (events : List NodeEvent), SequenceNumbers (captured node events) := by
  intro claim
  have numbers := claim "node1" agedRun
  have seqs : (captured "node1" agedRun).map
      (fun op => (op.opSeq, op.vectorClock.get op.clusterNodeId)) = [(1, 1), (2, 2), (1, 3)] := by
    decide +kernel
  have all : ∀ pair ∈ (captured "node1" agedRun).map
      (fun op => (op.opSeq, op.vectorClock.get op.clusterNodeId)), pair.1 = pair.2 :=
    forall_mem_map.mpr numbers.counted
  rw [seqs] at all
  exact absurd (all (1, 3) (by decide)) (by decide)

end RaisinDB.Oplog
