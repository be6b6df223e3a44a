import RaisinDB.Foundation.HashGroups
import RaisinDB.Foundation.OrderedStore
import RaisinDB.Oplog.Keys
import RaisinDB.Replication.Operation

/-!
# The operation log repository

Operations and the clock snapshots of all repositories live in one ordered
column family.  Scans start behind the separator of a repository's prefix but
stop by a test against the prefix without its separator.
-/

namespace RaisinDB.Oplog

open RaisinDB.Foundation RaisinDB.Replication List

/-- A stored value: which of the two serialised types it is decides who can read it. -/
inductive OplogValue where
  | operation (op : Operation)
  | vectorClock (clock : VectorClock)
  deriving DecidableEq

inductive OplogError where
  | deserializeOperation
  | deserializeVectorClock
  deriving DecidableEq

structure OpLogRepository where
  db : OrderedStore Key OplogValue

def deserializeOperation : OplogValue → Except OplogError Operation
  | .operation op => .ok op
  | .vectorClock _ => .error .deserializeOperation

def buildOperationKey (op : Operation) : Key :=
  oplogKey op.tenantId op.repoId op.clusterNodeId op.opSeq op.timestampMs

/-- The loop of a repository scan: stop at a full result or behind the prefix, pass over the
snapshot, hand every other row to the body. -/
def scanRows {σ : Type} (base snapshotKey : Key) (full : σ → Bool)
    (body : σ → Key × OplogValue → Except OplogError σ) :
    List (Key × OplogValue) → σ → Except OplogError σ
  | [], acc => .ok acc
  | row :: rest, acc =>
      if full acc then .ok acc
      else if base.isPrefixOf row.1 then
        if row.1 = snapshotKey then scanRows base snapshotKey full body rest acc
        else
          match body acc row with
          | .ok next => scanRows base snapshotKey full body rest next
          | .error error => .error error
      else .ok acc

namespace OpLogRepository

def new : OpLogRepository := ⟨.empty⟩

/-! ## Snapshots -/

def getVectorClockSnapshot (self : OpLogRepository) (tenantId repoId : String) :
    Except OplogError VectorClock :=
  match self.db.get (vectorClockSnapshotKey tenantId repoId) with
  | some (.vectorClock clock) => .ok clock
  | some (.operation _) => .error .deserializeVectorClock
  | none => .ok .new

def updateVectorClockSnapshot (self : OpLogRepository) (tenantId repoId : String)
    (clock : VectorClock) : OpLogRepository :=
  ⟨self.db.put (vectorClockSnapshotKey tenantId repoId) (.vectorClock clock)⟩

def incrementVectorClockForNode (self : OpLogRepository)
    (tenantId repoId clusterNodeId : String) (opSeq : Nat) :
    OpLogRepository × Except OplogError Unit :=
  match self.getVectorClockSnapshot tenantId repoId with
  | .error error => (self, .error error)
  | .ok clock =>
      if clock.get clusterNodeId < opSeq then
        (self.updateVectorClockSnapshot tenantId repoId (clock.set clusterNodeId opSeq), .ok ())
      else (self, .ok ())

/-! ## Scans -/

/-- Walk the rows of a repository. -/
def scanRepo {σ : Type} (self : OpLogRepository) (tenantId repoId : String) (full : σ → Bool)
    (body : σ → Key × OplogValue → Except OplogError σ) (init : σ) : Except OplogError σ :=
  let start := oplogTenantRepoPrefix tenantId repoId
  scanRows start.dropLast (vectorClockSnapshotKey tenantId repoId) full body
    (self.db.seek start) init

def getAllOperations (self : OpLogRepository) (tenantId repoId : String) :
    Except OplogError (List (String × List Operation)) :=
  self.scanRepo tenantId repoId (fun _ => false)
    (fun operationsByNode row => do
      let op ← deserializeOperation row.2
      return pushGroup op.clusterNodeId op operationsByNode) []

/-- Without a limit the bound is the largest `usize`, beyond any vector's length. -/
def getMissingOperations (self : OpLogRepository) (tenantId repoId : String)
    (vectorClock : VectorClock) (limit : Option Nat) : Except OplogError (List Operation) :=
  self.scanRepo tenantId repoId
    (fun missing => match limit with
      | some maxOperations => maxOperations ≤ missing.length
      | none => false)
    (fun missing row => do
      let op ← deserializeOperation row.2
      if vectorClock.get op.clusterNodeId < op.opSeq then return missing ++ [op]
      else return missing) []

/-- Separator, sequence number, separator and timestamp at the end of a key. -/
def tailLength : Nat := 1 + 8 + 1 + 8

/-- Read node and sequence number from the end of a key and raise the node's entry. -/
def raiseFromKey (prefixLength : Nat) (clock : VectorClock) (key : Key) : VectorClock :=
  if key.length < prefixLength + tailLength then clock
  else
    let nodeEnd := key.length - tailLength
    match decodeU64 ((key.drop (nodeEnd + 1)).take 8) with
    | none => clock
    | some opSeq =>
        let clusterNodeId := fromUtf8Lossy ((key.take nodeEnd).drop prefixLength)
        if clock.get clusterNodeId < opSeq then clock.set clusterNodeId opSeq else clock

def rebuildVectorClockSnapshot (self : OpLogRepository) (tenantId repoId : String) :
    OpLogRepository × Except OplogError VectorClock :=
  let scanned := self.scanRepo tenantId repoId (fun _ => false)
    (fun clock row => return raiseFromKey (oplogTenantRepoPrefix tenantId repoId).length clock row.1)
    .new
  match scanned with
  | .error error => (self, .error error)
  | .ok clock => (self.updateVectorClockSnapshot tenantId repoId clock, .ok clock)

/-- The sequence number in the last key under the node's prefix. -/
def getHighestSeq (self : OpLogRepository) (tenantId repoId nodeId : String) : Nat :=
  let nodePrefix := oplogNodePrefix tenantId repoId nodeId
  let upper := nodePrefix.dropLast ++ [1]
  match (self.db.seekBack upper).head? with
  | some row =>
      if nodePrefix.isPrefixOf row.1 ∧ nodePrefix.length + 8 ≤ row.1.length then
        (decodeU64 ((row.1.drop nodePrefix.length).take 8)).getD 0
      else 0
  | none => 0

/-! ## Writes -/

def putOperation (self : OpLogRepository) (op : Operation) : OpLogRepository :=
  ⟨self.db.put (buildOperationKey op) (.operation op)⟩

/-- The two writes of a captured operation. -/
def appendCaptured (self : OpLogRepository) (op : Operation) :
    OpLogRepository × Except OplogError Unit :=
  (self.putOperation op).incrementVectorClockForNode op.tenantId op.repoId op.clusterNodeId
    op.opSeq

/-- Remember the highest sequence number of a node. -/
def trackMax (clusterNodeId : String) (opSeq : Nat) : List (String × Nat) → List (String × Nat)
  | [] => if 0 < opSeq then [(clusterNodeId, opSeq)] else []
  | entry :: rest =>
      if entry.1 = clusterNodeId then (entry.1, max entry.2 opSeq) :: rest
      else entry :: trackMax clusterNodeId opSeq rest

/-- Remember it under the tenant and the repository. -/
def trackUpdate (op : Operation) :
    List ((String × String) × List (String × Nat)) →
      List ((String × String) × List (String × Nat))
  | [] => [((op.tenantId, op.repoId), trackMax op.clusterNodeId op.opSeq [])]
  | entry :: rest =>
      if entry.1 = (op.tenantId, op.repoId) then
        (entry.1, trackMax op.clusterNodeId op.opSeq entry.2) :: rest
      else entry :: trackUpdate op rest

/-- Raise the snapshots, stopping at the first failure. -/
def incrementAll (self : OpLogRepository) :
    List (String × String × String × Nat) → OpLogRepository × Except OplogError Unit
  | [] => (self, .ok ())
  | (tenantId, repoId, clusterNodeId, opSeq) :: rest =>
      match self.incrementVectorClockForNode tenantId repoId clusterNodeId opSeq with
      | (next, .ok ()) => next.incrementAll rest
      | (next, .error error) => (next, .error error)

/-- The operations are written in one batch before the snapshots.  The maps of updates are
walked in insertion order; the snapshots keep maxima, so another order ends the same. -/
def putOperationsBatch (self : OpLogRepository) (ops : List Operation) :
    OpLogRepository × Except OplogError Unit :=
  if ops.isEmpty then (self, .ok ())
  else
    let updates := ops.foldl (fun updates op => trackUpdate op updates) []
    let written : OpLogRepository := ops.foldl putOperation self
    written.incrementAll (updates.flatMap fun entry =>
      entry.2.map fun update => (entry.1.1, entry.1.2, update.1, update.2))

/-- Delete the listed operations in one batch. -/
def deleteOperations (self : OpLogRepository) (ops : List Operation) : OpLogRepository :=
  ops.foldl (fun repo op => ⟨repo.db.delete (buildOperationKey op)⟩) self

/-- Delete the operations of a repository that a collector selected by id. -/
def garbageCollect (self : OpLogRepository) (tenantId repoId : String)
    (toDeleteIds : Finset Uuid) : OpLogRepository × Except OplogError Nat :=
  match self.getAllOperations tenantId repoId with
  | .error error => (self, .error error)
  | .ok groups =>
      let doomed := (groups.flatMap Prod.snd).filter fun op => op.opId ∈ toDeleteIds
      (self.deleteOperations doomed, .ok toDeleteIds.card)

/-- Delete the operations of a repository from before a point in time. -/
def deleteOperationsOlderThan (self : OpLogRepository) (tenantId repoId : String)
    (cutoffTimestamp : Nat) : OpLogRepository × Except OplogError Nat :=
  match self.getAllOperations tenantId repoId with
  | .error error => (self, .error error)
  | .ok groups =>
      let doomed := (groups.flatMap Prod.snd).filter fun op => op.timestampMs < cutoffTimestamp
      (self.deleteOperations doomed, .ok doomed.length)

end OpLogRepository

end RaisinDB.Oplog
