import RaisinDB.Foundation.SliceSort
import RaisinDB.Replication.ConflictRegister

/-!
# Last-write-wins merging

The winner of a group is selected by a comparator that asks the vector clocks
first and the wall clocks second.  Each question alone is an order; the mix is
not, since wall clocks need not grow along the causal order.  Selection is
therefore independent of the arrival order exactly for groups with one write
that beats each of the others.
-/

namespace RaisinDB.Replication

open RaisinDB.Foundation List

inductive ConflictType where
  | concurrentSchemaUpdate
  deriving DecidableEq

inductive MergeResult where
  | winner (op : Operation)
  | conflict (winner : Operation) (losers : List Operation) (conflictType : ConflictType)
  deriving DecidableEq

/-- The operation that survives the merge, with or without a reported conflict. -/
def MergeResult.winningOp : MergeResult → Operation
  | .winner op => op
  | .conflict best _ _ => best

/-- Causality, then the wall clock, then the node id. -/
def compareOperationsLww (a b : Operation) : Ordering :=
  match a.vectorClock.compare b.vectorClock with
  | .after => .gt
  | .before => .lt
  | .equal | .concurrent =>
      match compare a.timestampMs b.timestampMs with
      | .gt => .gt
      | .lt => .lt
      | .eq => compare a.clusterNodeId b.clusterNodeId

def selectLwwWinner (ops : List Operation) : Option Operation :=
  maxBy compareOperationsLww ops

/-- Relations keep the latest write and report no conflict. -/
def mergeRelationOperations (ops : List Operation) : Option MergeResult :=
  (maxBy compareOperationsLww ops).map .winner

def mergeLastWriteWins (ops : List Operation) : Option MergeResult :=
  match selectLwwWinner ops with
  | none => none
  | some winner =>
      let losers := ops.filter fun op => op.opId ≠ winner.opId
      let hasConcurrent :=
        losers.any fun loser => winner.vectorClock.concurrentWith loser.vectorClock
      if hasConcurrent then some (.conflict winner losers .concurrentSchemaUpdate)
      else some (.winner winner)

/-- Merge one group; the source panics on an empty one. -/
def mergeOperations (ops : List Operation) : Option MergeResult :=
  match ops with
  | [] => none
  | [op] => some (.winner op)
  | first :: _ =>
      match first.opType with
      | .addRelation .. | .removeRelation .. => mergeRelationOperations ops
      | _ => mergeLastWriteWins ops

/-! ## The comparator -/

theorem compareOperationsLww_oriented (a b : Operation) :
    compareOperationsLww b a = (compareOperationsLww a b).swap := by
  have timestamps : compare b.timestampMs a.timestampMs =
      (compare a.timestampMs b.timestampMs).swap := Std.OrientedCmp.eq_swap
  have nodes : compare b.clusterNodeId a.clusterNodeId =
      (compare a.clusterNodeId b.clusterNodeId).swap := Std.OrientedCmp.eq_swap
  unfold compareOperationsLww
  rw [VectorClock.compare_swap a.vectorClock b.vectorClock, timestamps, nodes]
  cases a.vectorClock.compare b.vectorClock <;> cases compare a.timestampMs b.timestampMs <;> rfl

/-- `a` was written before `b`: causally, or concurrently and earlier by the tie-breaks. -/
def EarlierWrite (a b : Operation) : Prop :=
  a.vectorClock.compare b.vectorClock = .before ∨
    (a.vectorClock.compare b.vectorClock ≠ .after ∧
      (a.timestampMs < b.timestampMs ∨
        (a.timestampMs = b.timestampMs ∧ a.clusterNodeId < b.clusterNodeId)))

instance (a b : Operation) : Decidable (EarlierWrite a b) := by
  unfold EarlierWrite
  infer_instance

theorem compareOperationsLww_eq_lt_iff (a b : Operation) :
    compareOperationsLww a b = .lt ↔ EarlierWrite a b := by
  unfold compareOperationsLww EarlierWrite
  have ties : (match compare a.timestampMs b.timestampMs with
      | .gt => Ordering.gt
      | .lt => .lt
      | .eq => compare a.clusterNodeId b.clusterNodeId) = .lt ↔
      a.timestampMs < b.timestampMs ∨
        (a.timestampMs = b.timestampMs ∧ a.clusterNodeId < b.clusterNodeId) := by
    rcases lt_trichotomy a.timestampMs b.timestampMs with less | same | greater
    · simp [compare_lt_iff_lt.mpr less, less]
    · simp [same, compare_lt_iff_lt]
    · simp [compare_gt_iff_gt.mpr greater, not_lt_of_gt greater, ne_of_gt greater]
  cases a.vectorClock.compare b.vectorClock with
  | before => simp
  | after => simp
  | concurrent => simpa using ties
  | equal => simpa using ties

/-! ## The winner of a group -/

/-- Both merge rules return the selection of the comparator. -/
theorem mergeOperations_winningOp (ops : List Operation) :
    (mergeOperations ops).map MergeResult.winningOp = maxBy compareOperationsLww ops := by
  have relation (group : List Operation) :
      (mergeRelationOperations group).map MergeResult.winningOp =
        maxBy compareOperationsLww group := by
    rw [mergeRelationOperations, Option.map_map]
    exact Option.map_id'
  have lastWrite (group : List Operation) :
      (mergeLastWriteWins group).map MergeResult.winningOp =
        maxBy compareOperationsLww group := by
    rw [mergeLastWriteWins, selectLwwWinner]
    cases maxBy compareOperationsLww group with
    | none => rfl
    | some winner => dsimp only; split <;> rfl
  unfold mergeOperations
  split
  · rfl
  · rfl
  · split
    · exact relation _
    · exact relation _
    · exact lastWrite _

theorem mergeOperations_exists {ops : List Operation} (nonempty : ops ≠ []) :
    ∃ result, mergeOperations ops = some result ∧
      maxBy compareOperationsLww ops = some result.winningOp := by
  obtain ⟨best, found⟩ := maxBy_exists compareOperationsLww nonempty
  rw [← mergeOperations_winningOp, Option.map_eq_some_iff] at found
  obtain ⟨result, merged, winning⟩ := found
  refine ⟨result, merged, ?_⟩
  rw [← mergeOperations_winningOp, merged, Option.map_some]

/--
Competing writes with different clocks converge on one winner in every order
of arrival exactly when one of them is later than each of the others.
-/
theorem mergeOperations_converges_iff {ops : List Operation} (nonempty : ops ≠ [])
    (distinct : ops.Pairwise fun a b => a.vectorClock ≠ b.vectorClock)
    (_register : ∀ a ∈ ops, ∀ b ∈ ops, conflictGroupKey a = conflictGroupKey b) :
    (∀ reordered, reordered ~ ops →
        (mergeOperations reordered).map MergeResult.winningOp =
          (mergeOperations ops).map MergeResult.winningOp) ↔
      ∃ last ∈ ops, ∀ op ∈ ops, op ≠ last → EarlierWrite op last := by
  have nodup : ops.Nodup :=
    distinct.imp fun different same => different (congrArg Operation.vectorClock same)
  simp only [mergeOperations_winningOp, ← compareOperationsLww_eq_lt_iff]
  exact maxBy_perm_iff compareOperationsLww_oriented nonempty nodup

/-- Three writes of one branch head: `1` is followed by `2` under a clock set back,
and `3` is concurrent with both. -/
def skewedWrites : List Operation :=
  [makeOp 1 "node1" 10 [("node1", 1)] (.updateBranch ⟨"main"⟩),
    makeOp 2 "node1" 5 [("node1", 2)] (.updateBranch ⟨"main"⟩),
    makeOp 3 "node2" 7 [("node2", 1)] (.updateBranch ⟨"main"⟩)]

/-- Each of the skewed writes loses to another one, so the arrival order decides. -/
theorem mergeOperations_skewed_diverges :
    ¬ ∀ ops : List Operation, ops ≠ [] →
      ops.Pairwise (fun a b => a.vectorClock ≠ b.vectorClock) →
      (∀ a ∈ ops, ∀ b ∈ ops, conflictGroupKey a = conflictGroupKey b) →
      ∀ reordered, reordered ~ ops →
        (mergeOperations reordered).map MergeResult.winningOp =
          (mergeOperations ops).map MergeResult.winningOp := by
  intro converges
  have same := converges skewedWrites (by decide) (by decide) (by decide)
    (skewedWrites.rotate 1) (rotate_perm skewedWrites 1)
  exact absurd same (by decide)

/-- Without the third write the two remaining ones converge on the second. -/
theorem mergeOperations_converges_pair :
    (mergeOperations (skewedWrites.take 2)).map MergeResult.winningOp = skewedWrites[1]? ∧
      ∀ reordered, reordered ~ skewedWrites.take 2 →
        (mergeOperations reordered).map MergeResult.winningOp =
          (mergeOperations (skewedWrites.take 2)).map MergeResult.winningOp := by
  refine ⟨by decide, ?_⟩
  exact (mergeOperations_converges_iff (by decide) (by decide) (by decide)).mpr (by decide)

end RaisinDB.Replication
