import RaisinDB.Foundation.Bytes
import RaisinDB.Replication.Operation

/-!
# Decomposition of revisions

A revision with many node changes is replicated as one operation for each change.  The pieces keep
the sequence number, the time and the clock of the whole; their ids are made of its id and of the
index of the change.
-/

namespace RaisinDB.Replication

open RaisinDB.Foundation List

/-- A hash of the standard library over an id and an index. -/
abbrev IndexHash := Uuid → Nat → Nat

variable (hashIndex : IndexHash)

/-- The least significant byte first. -/
def leBytes (value : Nat) : List UInt8 := (bigEndian 8 value).reverse

/-- Eight bytes of the hash and eight bytes of the index. -/
def generateDecomposedOpId (originalOpId : Uuid) (index : Nat) : Uuid :=
  BitVec.ofNat 128 (ofBigEndian (leBytes (hashIndex originalOpId index) ++ leBytes index))

def decomposedOpType (branchHead : HLC) (change : ReplicatedNodeChange) : OpType :=
  match change.kind with
  | .upsert => .upsertNodeSnapshot change.node change.parentId branchHead change.cfOrderKey
  | .delete =>
      .deleteNodeSnapshot change.node.id branchHead (some change.node) change.parentId

/-- One piece; what it does not set it has from the whole. -/
def decomposedOp (originalOp : Operation) (branchHead : HLC) (change : ReplicatedNodeChange)
    (index : Nat) : Operation :=
  { originalOp with
    opId := generateDecomposedOpId hashIndex originalOp.opId index
    opType := decomposedOpType branchHead change
    revision := some branchHead
    acknowledgedBy := ∅ }

def decomposeApplyRevision (originalOp : Operation) (branchHead : HLC)
    (nodeChanges : List ReplicatedNodeChange) : List Operation :=
  nodeChanges.zipIdx.map fun change => decomposedOp hashIndex originalOp branchHead change.1 change.2

def decomposeOperation (op : Operation) : List Operation :=
  match op.opType with
  | .applyRevision branchHead nodeChanges =>
      decomposeApplyRevision hashIndex op branchHead nodeChanges
  | _ => [op]

/-! ## What the pieces share -/

/-- The part of an operation by which the log and the delivery tell it from others. -/
structure SharesStamp (op piece : Operation) : Prop where
  tenant : piece.tenantId = op.tenantId
  repo : piece.repoId = op.repoId
  node : piece.clusterNodeId = op.clusterNodeId
  seq : piece.opSeq = op.opSeq
  time : piece.timestampMs = op.timestampMs
  clock : piece.vectorClock = op.vectorClock

theorem sharesStamp_decomposedOp (op : Operation) (branchHead : HLC)
    (change : ReplicatedNodeChange) (index : Nat) :
    SharesStamp op (decomposedOp hashIndex op branchHead change index) := by
  constructor <;> dsimp only [decomposedOp]

theorem sharesStamp_of_mem {op piece : Operation} (hpiece : piece ∈ decomposeOperation hashIndex op) :
    SharesStamp op piece := by
  unfold decomposeOperation at hpiece
  split at hpiece
  · obtain ⟨change, _, rfl⟩ := mem_map.mp hpiece
    exact sharesStamp_decomposedOp hashIndex op _ change.1 change.2
  · obtain rfl := mem_singleton.mp hpiece
    exact ⟨rfl, rfl, rfl, rfl, rfl, rfl⟩

/-- There is one piece for each change. -/
theorem length_decomposeOperation {op : Operation} {branchHead : HLC}
    {nodeChanges : List ReplicatedNodeChange}
    (revision : op.opType = .applyRevision branchHead nodeChanges) :
    (decomposeOperation hashIndex op).length = nodeChanges.length := by
  rw [decomposeOperation, revision]
  exact (length_map _).trans length_zipIdx

end RaisinDB.Replication
