import RaisinDB.Oplog.Scans

/-!
# What a restarted node reads

A node resumes from two places of the log: the last key under its prefix and the
clock snapshot of the repository.  Deletions take operations away and leave the
snapshots alone.
-/

namespace RaisinDB.Oplog

open RaisinDB.Foundation RaisinDB.Replication List

namespace OpLogRepository

variable {self : OpLogRepository} {tenantId repoId : String}

/-- A stored operation is found under its own key. -/
theorem Content.stored_row (content : self.Content) {op : Operation}
    (stored : op ∈ self.repoOps tenantId repoId) :
    (buildOperationKey op, .operation op) ∈ self.db.rows ∧
      (OplogRow.operation op).WellFormed := by
  obtain ⟨⟨key, hrow⟩, rfl, rfl⟩ := mem_repoOps.mp stored
  have found : ownOp op.tenantId op.repoId (key, .operation op) = some op := by simp [ownOp]
  obtain ⟨shape, formed⟩ := content.ownOp_row hrow found
  exact ⟨shape ▸ hrow, formed⟩

/-! ## Snapshots under other writes -/

/-- The key of an operation is the key of no snapshot. -/
theorem snapshotKey_ne_operation {op : Operation} (formed : (OplogRow.operation op).WellFormed)
    (tenant : NulFree tenantId) (repo : NulFree repoId) :
    vectorClockSnapshotKey tenantId repoId ≠ buildOperationKey op := by
  intro keys
  have same := keys.symm
  rw [buildOperationKey, oplogKey_eq, vectorClockSnapshotKey_eq] at same
  obtain ⟨rfl, rfl, _⟩ := repoBase_append_inj formed.1 tenant formed.2.1 repo same
  exact buildOperationKey_ne_snapshot op keys.symm

/-- A snapshot under well-formed names is readable. -/
theorem Content.readable (content : self.Content) (tenant : NulFree tenantId)
    (repo : NulFree repoId) : ∃ clock, self.getVectorClockSnapshot tenantId repoId = .ok clock := by
  rw [getVectorClockSnapshot]
  cases found : self.db.get (vectorClockSnapshotKey tenantId repoId) with
  | none => exact ⟨.new, rfl⟩
  | some value =>
    obtain ⟨row, formed, shape⟩ := content _ (OrderedStore.get_eq_some_iff.mp found)
    cases row with
    | snapshot tenantId' repoId' clock =>
      obtain rfl : OplogValue.vectorClock clock = value := congrArg Prod.snd shape
      exact ⟨clock, rfl⟩
    | operation op =>
      exact absurd (congrArg Prod.fst shape).symm (snapshotKey_ne_operation formed tenant repo)

theorem snapshot_putOperation {op : Operation} (formed : (OplogRow.operation op).WellFormed)
    (tenant : NulFree tenantId) (repo : NulFree repoId) :
    (self.putOperation op).getVectorClockSnapshot tenantId repoId =
      self.getVectorClockSnapshot tenantId repoId := by
  rw [getVectorClockSnapshot, putOperation,
    OrderedStore.get_put_of_ne _ _ (snapshotKey_ne_operation formed tenant repo)]
  rfl

theorem snapshotKey_inj {tenantId' repoId' : String} (tenant : NulFree tenantId)
    (repo : NulFree repoId) (tenant' : NulFree tenantId') (repo' : NulFree repoId')
    (same : vectorClockSnapshotKey tenantId repoId = vectorClockSnapshotKey tenantId' repoId') :
    tenantId = tenantId' ∧ repoId = repoId' := by
  rw [vectorClockSnapshotKey_eq, vectorClockSnapshotKey_eq] at same
  obtain ⟨sameTenant, sameRepo, _⟩ := repoBase_append_inj tenant tenant' repo repo' same
  exact ⟨sameTenant, sameRepo⟩

theorem snapshot_update_other {tenantId' repoId' : String} (tenant : NulFree tenantId)
    (repo : NulFree repoId) (tenant' : NulFree tenantId') (repo' : NulFree repoId')
    (different : (tenantId, repoId) ≠ (tenantId', repoId')) (clock : VectorClock) :
    (self.updateVectorClockSnapshot tenantId' repoId' clock).getVectorClockSnapshot
      tenantId repoId = self.getVectorClockSnapshot tenantId repoId := by
  have keys : vectorClockSnapshotKey tenantId repoId ≠ vectorClockSnapshotKey tenantId' repoId' := by
    intro same
    obtain ⟨rfl, rfl⟩ := snapshotKey_inj tenant repo tenant' repo' same
    exact different rfl
  rw [getVectorClockSnapshot, updateVectorClockSnapshot, OrderedStore.get_put_of_ne _ _ keys]
  rfl

/-- A snapshot is no operation, so writing one keeps the stored operations. -/
theorem mem_repoOps_update (content : self.Content) {tenantId' repoId' : String}
    (tenant' : NulFree tenantId') (repo' : NulFree repoId') (clock : VectorClock)
    {op : Operation} :
    op ∈ (self.updateVectorClockSnapshot tenantId' repoId' clock).repoOps tenantId repoId ↔
      op ∈ self.repoOps tenantId repoId := by
  rw [mem_repoOps, mem_repoOps]
  refine and_congr_left fun _ => exists_congr fun key => ?_
  rw [updateVectorClockSnapshot, OrderedStore.mem_rows_put]
  constructor
  · rintro (same | ⟨old, _⟩)
    · cases (Prod.mk.inj same).2
    · exact old
  · intro old
    refine Or.inr ⟨old, fun same => ?_⟩
    obtain ⟨row, formed, shape⟩ := content _ old
    cases row with
    | operation other =>
      exact snapshotKey_ne_operation formed tenant' repo'
        (same.symm.trans (congrArg Prod.fst shape).symm)
    | snapshot tenantId repoId clock => cases (Prod.mk.inj shape).2

/-- A new operation is stored beside the old ones, unless it takes the key of one. -/
theorem mem_repoOps_putOperation {op other : Operation}
    (stored : other ∈ (self.putOperation op).repoOps tenantId repoId) :
    other = op ∨ other ∈ self.repoOps tenantId repoId := by
  obtain ⟨⟨key, hrow⟩, scope⟩ := mem_repoOps.mp stored
  rcases OrderedStore.mem_rows_put.mp hrow with same | ⟨old, _⟩
  · exact Or.inl (OplogValue.operation.inj (Prod.mk.inj same).2)
  · exact Or.inr (mem_repoOps.mpr ⟨⟨key, old⟩, scope⟩)

/-! ## Deletions -/

theorem mem_rows_deleteOperations {ops : List Operation} {row : Key × OplogValue} :
    row ∈ (self.deleteOperations ops).db.rows ↔
      row ∈ self.db.rows ∧ ∀ op ∈ ops, row.1 ≠ buildOperationKey op := by
  induction ops generalizing self with
  | nil => simp [deleteOperations]
  | cons op rest ih =>
    rw [deleteOperations, foldl_cons, ← deleteOperations, ih, OrderedStore.mem_rows_delete,
      forall_mem_cons, and_assoc]

/-- The operations that a scan collects are stored. -/
theorem stored_of_getAllOperations {groups : List (String × List Operation)}
    (collected : self.getAllOperations tenantId repoId = .ok groups) {op : Operation}
    (hop : op ∈ groups.flatMap Prod.snd) : ∃ key, (key, OplogValue.operation op) ∈ self.db.rows := by
  rw [getAllOperations, scanRepo_eq_foldlM] at collected
  obtain ⟨ops, values, rfl⟩ := foldlM_collect collected
  obtain ⟨group, hgroup, hitem⟩ := mem_flatMap.mp hop
  have hops : op ∈ ops :=
    ((groupInto_grouped Operation.clusterNodeId ops).mem_iff op).mpr ⟨group, hgroup, hitem⟩
  have value : OplogValue.operation op ∈
      (self.db.rows.filter fun row => Scanned tenantId repoId row.1).map Prod.snd := by
    rw [values]
    exact mem_map_of_mem hops
  obtain ⟨⟨key, _⟩, hrow, rfl⟩ := mem_map.mp value
  exact ⟨key, mem_of_mem_filter hrow⟩

/-- What a deletion leaves: fewer operations and the same snapshots. -/
structure Shrunk (before after : OpLogRepository) : Prop where
  rows : after.db.rows ⊆ before.db.rows
  snapshot : ∀ tenantId repoId, NulFree tenantId → NulFree repoId →
    after.getVectorClockSnapshot tenantId repoId = before.getVectorClockSnapshot tenantId repoId

theorem Shrunk.refl (log : OpLogRepository) : Shrunk log log :=
  ⟨Subset.refl _, fun _ _ _ _ => rfl⟩

theorem Shrunk.content {before after : OpLogRepository} (shrunk : Shrunk before after)
    (content : before.Content) : after.Content :=
  fun entry hentry => content entry (shrunk.rows hentry)

theorem Shrunk.repoOps {before after : OpLogRepository} (shrunk : Shrunk before after)
    {op : Operation} (stored : op ∈ after.repoOps tenantId repoId) :
    op ∈ before.repoOps tenantId repoId := by
  obtain ⟨⟨key, hrow⟩, scope⟩ := mem_repoOps.mp stored
  exact mem_repoOps.mpr ⟨⟨key, shrunk.rows hrow⟩, scope⟩

theorem shrunk_deleteOperations (content : self.Content) {ops : List Operation}
    (stored : ∀ op ∈ ops, ∃ key, (key, OplogValue.operation op) ∈ self.db.rows) :
    Shrunk self (self.deleteOperations ops) where
  rows _ hrow := (mem_rows_deleteOperations.mp hrow).1
  snapshot tenantId repoId tenant repo := by
    have same : (self.deleteOperations ops).db.get (vectorClockSnapshotKey tenantId repoId) =
        self.db.get (vectorClockSnapshotKey tenantId repoId) := by
      apply Option.ext
      intro value
      rw [OrderedStore.get_eq_some_iff, OrderedStore.get_eq_some_iff, mem_rows_deleteOperations]
      refine ⟨And.left, fun old => ⟨old, fun op hop => ?_⟩⟩
      obtain ⟨key, hrow⟩ := stored op hop
      obtain ⟨row, formed, shape⟩ := content _ hrow
      cases row with
      | operation other =>
        obtain rfl := OplogValue.operation.inj (Prod.mk.inj shape).2
        exact snapshotKey_ne_operation formed tenant repo
      | snapshot tenantId repoId clock => cases (Prod.mk.inj shape).2
    rw [getVectorClockSnapshot, same]
    rfl

theorem shrunk_garbageCollect (content : self.Content) (toDeleteIds : Finset Uuid) :
    Shrunk self (self.garbageCollect tenantId repoId toDeleteIds).1 := by
  rw [garbageCollect]
  split
  · exact Shrunk.refl self
  · rename_i groups collected
    exact shrunk_deleteOperations content fun op hop =>
      stored_of_getAllOperations collected (mem_of_mem_filter hop)

theorem shrunk_deleteOperationsOlderThan (content : self.Content) (cutoffTimestamp : Nat) :
    Shrunk self (self.deleteOperationsOlderThan tenantId repoId cutoffTimestamp).1 := by
  rw [deleteOperationsOlderThan]
  split
  · exact Shrunk.refl self
  · rename_i groups collected
    exact shrunk_deleteOperations content fun op hop =>
      stored_of_getAllOperations collected (mem_of_mem_filter hop)

/-! ## The highest sequence number -/

variable {nodeId : String}

/-- The keys of a node's operations begin with its prefix. -/
theorem buildOperationKey_node {op : Operation} (tenant : op.tenantId = tenantId)
    (repo : op.repoId = repoId) (node : op.clusterNodeId = nodeId) :
    buildOperationKey op =
      oplogNodePrefix tenantId repoId nodeId ++ stampBytes op.opSeq op.timestampMs := by
  rw [buildOperationKey, oplogKey_eq, oplogNodePrefix_eq, tenant, repo, node]
  simp

/-- Under the prefix of a node there are its operations only. -/
theorem Content.node_row (content : self.Content) (tenant : NulFree tenantId)
    (repo : NulFree repoId) (node : NulFree nodeId) {entry : Key × OplogValue}
    (hentry : entry ∈ self.db.rows) (inside : oplogNodePrefix tenantId repoId nodeId <+: entry.1) :
    ∃ op, entry = (buildOperationKey op, .operation op) ∧
      (OplogRow.operation op).WellFormed ∧ op.tenantId = tenantId ∧ op.repoId = repoId ∧
      op.clusterNodeId = nodeId := by
  obtain ⟨row, formed, rfl⟩ := content entry hentry
  obtain ⟨tail, key⟩ := inside
  rw [oplogNodePrefix_eq, append_assoc, cons_append, append_assoc, singleton_append] at key
  cases row with
  | operation op =>
    have same := key.trans (oplogKey_eq _ _ _ _ _)
    obtain ⟨rfl, rfl, rest⟩ := repoBase_append_inj tenant formed.1 repo formed.2.1 same
    obtain ⟨sameNode, _⟩ := split_at_first node formed.2.2.1 rest
    exact ⟨op, rfl, formed, rfl, rfl, (utf8Bytes_injective sameNode).symm⟩
  | snapshot tenantId' repoId' clock =>
    have same := key.trans (vectorClockSnapshotKey_eq _ _)
    obtain ⟨_, _, rest⟩ := repoBase_append_inj tenant formed.1 repo formed.2 same
    exact absurd (rest ▸ mem_append_right _ mem_cons_self) nulFree_snapshot

/-- No stored key is the bound behind the prefix of a node. -/
theorem Content.ne_upper (content : self.Content) (tenant : NulFree tenantId)
    (repo : NulFree repoId) (node : NulFree nodeId) {entry : Key × OplogValue}
    (hentry : entry ∈ self.db.rows) :
    entry.1 ≠ repoBase tenantId repoId ++ sep :: (utf8Bytes nodeId ++ [1]) := by
  intro key
  obtain ⟨row, formed, rfl⟩ := content entry hentry
  cases row with
  | operation op =>
    have same := key.symm.trans (oplogKey_eq _ _ _ _ _)
    obtain ⟨_, _, rest⟩ := repoBase_append_inj tenant formed.1 repo formed.2.1 same
    have inside : sep ∈ utf8Bytes nodeId ++ [1] := rest ▸ mem_append_right _ mem_cons_self
    rcases mem_append.mp inside with early | last
    · exact node early
    · exact absurd (mem_singleton.mp last) (by decide)
  | snapshot tenantId' repoId' clock =>
    have same := key.symm.trans (vectorClockSnapshotKey_eq _ _)
    obtain ⟨_, _, rest⟩ := repoBase_append_inj tenant formed.1 repo formed.2 same
    have inside : (1 : UInt8) ∈ utf8Bytes "vc_snapshot" :=
      rest ▸ mem_append_right _ mem_cons_self
    exact absurd inside (by decide)

theorem Content.node_prefix_of_between (content : self.Content) (tenant : NulFree tenantId)
    (repo : NulFree repoId) (node : NulFree nodeId) {entry : Key × OplogValue}
    (hentry : entry ∈ self.db.rows)
    (lower : oplogNodePrefix tenantId repoId nodeId ≤ entry.1)
    (upper : entry.1 ≤ (oplogNodePrefix tenantId repoId nodeId).dropLast ++ [1]) :
    oplogNodePrefix tenantId repoId nodeId <+: entry.1 := by
  have shape : oplogNodePrefix tenantId repoId nodeId =
      (repoBase tenantId repoId ++ sep :: utf8Bytes nodeId) ++ [sep] := by
    rw [oplogNodePrefix_eq, append_assoc, cons_append]
  have apart := content.ne_upper tenant repo node hentry
  rw [← cons_append, ← append_assoc] at apart
  rw [shape, dropLast_concat] at upper
  rw [shape] at lower ⊢
  generalize repoBase tenantId repoId ++ sep :: utf8Bytes nodeId = base at *
  obtain ⟨tail, key⟩ := prefix_of_between ((le_append base [sep]).trans lower) upper
  rw [← key] at lower upper apart ⊢
  rw [prefix_append_right_inj]
  rw [← not_lt, append_lt_append_left, not_lt] at lower upper
  cases tail with
  | nil => exact absurd lower (by decide)
  | cons byte rest =>
    rw [← not_lt, cons_lt_cons_iff] at upper lower
    push Not at upper lower
    by_cases zero : byte = sep
    · rw [zero]
      exact prefix_append [sep] rest
    · -- a byte above the separator is the bound itself
      have one : byte = 1 := by
        have low : byte ≤ 1 := upper.1
        rw [UInt8.le_iff_toNat_le] at low
        have positive : byte.toNat ≠ 0 := fun same => zero (UInt8.toNat_inj.mp same)
        exact UInt8.toNat_inj.mp (by change byte.toNat = 1; change byte.toNat ≤ 1 at low; omega)
      have none : rest = [] := by
        by_contra some
        obtain ⟨next, others, rfl⟩ := exists_cons_of_ne_nil some
        exact absurd (upper.2 one.symm) (not_le.mpr (nil_lt_cons next others))
      rw [one, none] at apart
      exact absurd rfl apart

theorem decode_node_key {op : Operation} (small : op.opSeq < 2 ^ 64)
    (tenant : op.tenantId = tenantId) (repo : op.repoId = repoId)
    (node : op.clusterNodeId = nodeId) :
    (decodeU64 (((buildOperationKey op).drop
      (oplogNodePrefix tenantId repoId nodeId).length).take 8)).getD 0 = op.opSeq := by
  rw [buildOperationKey_node tenant repo node, drop_left, stampBytes,
    take_left' (length_encodeU64 _), decodeU64_encodeU64 small, Option.getD_some]

/-- The highest sequence number is that of a stored operation of the node, or zero. -/
theorem getHighestSeq_stored (content : self.Content) (tenant : NulFree tenantId)
    (repo : NulFree repoId) (node : NulFree nodeId) :
    self.getHighestSeq tenantId repoId nodeId = 0 ∨
      ∃ op ∈ self.repoOps tenantId repoId, op.clusterNodeId = nodeId ∧
        op.opSeq = self.getHighestSeq tenantId repoId nodeId := by
  rw [getHighestSeq]
  split
  · rename_i row found
    split
    · rename_i inside
      obtain ⟨hrow, _, _⟩ := OrderedStore.seekBack_last found
      obtain ⟨op, rfl, formed, sameTenant, sameRepo, sameNode⟩ :=
        content.node_row tenant repo node hrow ( isPrefixOf_iff_prefix.mp inside.1)
      refine Or.inr ⟨op, mem_repoOps.mpr ⟨⟨_, hrow⟩, sameTenant, sameRepo⟩, sameNode, ?_⟩
      rw [decode_node_key formed.2.2.2.1 sameTenant sameRepo sameNode]
    · exact Or.inl rfl
  · exact Or.inl rfl

theorem le_getHighestSeq (content : self.Content) (tenant : NulFree tenantId)
    (repo : NulFree repoId) (node : NulFree nodeId) {op : Operation}
    (stored : op ∈ self.repoOps tenantId repoId) (own : op.clusterNodeId = nodeId) :
    op.opSeq ≤ self.getHighestSeq tenantId repoId nodeId := by
  obtain ⟨_, sameTenant, sameRepo⟩ := mem_repoOps.mp stored
  obtain ⟨hrow, formed⟩ := content.stored_row stored
  have keyShape := buildOperationKey_node sameTenant sameRepo own
  have lower : oplogNodePrefix tenantId repoId nodeId ≤ buildOperationKey op := by
    rw [keyShape]
    exact le_append _ _
  have below : buildOperationKey op ≤ (oplogNodePrefix tenantId repoId nodeId).dropLast ++ [1] := by
    rw [keyShape, oplogNodePrefix_eq, ← cons_append, ← append_assoc, dropLast_concat, append_assoc]
    refine le_of_lt ((append_lt_append_left _).mpr ?_)
    rw [singleton_append, cons_lt_cons_iff]
    exact Or.inl (by decide)
  rw [getHighestSeq]
  split
  · rename_i row head
    obtain ⟨hlast, within, last⟩ := OrderedStore.seekBack_last head
    have above := last _ hrow below
    have inside := content.node_prefix_of_between tenant repo node hlast (lower.trans above) within
    obtain ⟨top, rfl, topFormed, topTenant, topRepo, topNode⟩ :=
      content.node_row tenant repo node hlast inside
    have topShape := buildOperationKey_node topTenant topRepo topNode
    have long : (oplogNodePrefix tenantId repoId nodeId).length + 8 ≤
        (buildOperationKey top).length := by
      rw [topShape, length_append, length_stampBytes]
      omega
    rw [if_pos ⟨ isPrefixOf_iff_prefix.mpr inside, long⟩,
      decode_node_key topFormed.2.2.2.1 topTenant topRepo topNode]
    by_contra less
    rw [not_le] at less
    rw [keyShape, topShape, ← not_lt, append_lt_append_left] at above
    refine above (lt_append_of_lt ?_ ?_ _ _)
    · rw [length_encodeU64, length_encodeU64]
    · exact bigEndian_lt less (formed.2.2.2.1.trans_eq (by norm_num))
  · rename_i none
    exact absurd below (not_le.mpr (OrderedStore.seekBack_none none hrow))

end OpLogRepository

end RaisinDB.Oplog
