import RaisinDB.Oplog.Repository

/-!
# Repository scans

What a scan reads is decided by keys alone.  A scan reads exactly the rows of its
repository unless the same tenant has a repository whose name extends the
scanned one.
-/

namespace RaisinDB.Oplog

open RaisinDB.Foundation RaisinDB.Replication List

/-! ## Contents of the log -/

/-- A row that the repository writes. -/
inductive OplogRow where
  | operation (op : Operation)
  | snapshot (tenantId repoId : String) (clock : VectorClock)

namespace OplogRow

def tenantId : OplogRow → String
  | .operation op => op.tenantId
  | .snapshot tenantId _ _ => tenantId

def repoId : OplogRow → String
  | .operation op => op.repoId
  | .snapshot _ repoId _ => repoId

def entry : OplogRow → Key × OplogValue
  | .operation op => (buildOperationKey op, .operation op)
  | .snapshot tenantId repoId clock =>
      (vectorClockSnapshotKey tenantId repoId, .vectorClock clock)

/-- Names without NUL bytes and numbers of 64 bits. -/
def WellFormed : OplogRow → Prop
  | .operation op => NulFree op.tenantId ∧ NulFree op.repoId ∧ NulFree op.clusterNodeId ∧
      op.opSeq < 2 ^ 64 ∧ op.timestampMs < 2 ^ 64
  | .snapshot tenantId repoId _ => NulFree tenantId ∧ NulFree repoId

instance (row : OplogRow) : Decidable row.WellFormed := by
  cases row <;> (unfold WellFormed; infer_instance)

theorem WellFormed.tenant {row : OplogRow} (formed : row.WellFormed) : NulFree row.tenantId := by
  cases row with
  | operation op => exact formed.1
  | snapshot tenantId repoId clock => exact formed.1

theorem WellFormed.repo {row : OplogRow} (formed : row.WellFormed) : NulFree row.repoId := by
  cases row with
  | operation op => exact formed.2.1
  | snapshot tenantId repoId clock => exact formed.2

/-- Every key begins with its tenant and its repository. -/
theorem entry_key (row : OplogRow) :
    ∃ rest, row.entry.1 = repoBase row.tenantId row.repoId ++ sep :: rest := by
  cases row with
  | operation op => exact ⟨_, oplogKey_eq _ _ _ _ _⟩
  | snapshot tenantId repoId clock => exact ⟨_, vectorClockSnapshotKey_eq _ _⟩

end OplogRow

/-- Every row of the log was written by the repository for well-formed names. -/
def OpLogRepository.Content (self : OpLogRepository) : Prop :=
  ∀ entry ∈ self.db.rows, ∃ row : OplogRow, row.WellFormed ∧ row.entry = entry

namespace OpLogRepository

theorem Content.new : OpLogRepository.new.Content := by
  intro entry hentry
  cases hentry

theorem Content.put {self : OpLogRepository} (content : self.Content) (row : OplogRow)
    (formed : row.WellFormed) : Content ⟨self.db.put row.entry.1 row.entry.2⟩ := by
  intro entry hentry
  rcases OrderedStore.mem_rows_put.mp hentry with rfl | ⟨old, _⟩
  · exact ⟨row, formed, rfl⟩
  · exact content entry old

theorem Content.putOperation {self : OpLogRepository} (content : self.Content) {op : Operation}
    (formed : (OplogRow.operation op).WellFormed) : (self.putOperation op).Content :=
  content.put (.operation op) formed

theorem Content.updateVectorClockSnapshot {self : OpLogRepository} (content : self.Content)
    {tenantId repoId : String} (tenant : NulFree tenantId) (repo : NulFree repoId)
    (clock : VectorClock) :
    (self.updateVectorClockSnapshot tenantId repoId clock).Content :=
  content.put (.snapshot tenantId repoId clock) ⟨tenant, repo⟩

end OpLogRepository

/-- The operation in a row when it belongs to the tenant's repository. -/
def ownOp (tenantId repoId : String) (entry : Key × OplogValue) : Option Operation :=
  match entry.2 with
  | .operation op => if op.tenantId = tenantId ∧ op.repoId = repoId then some op else none
  | .vectorClock _ => none

/-- The stored operations of a repository, in the order of their keys. -/
def OpLogRepository.repoOps (self : OpLogRepository) (tenantId repoId : String) :
    List Operation :=
  self.db.rows.filterMap (ownOp tenantId repoId)

theorem OpLogRepository.mem_repoOps {self : OpLogRepository} {tenantId repoId : String}
    {op : Operation} :
    op ∈ self.repoOps tenantId repoId ↔
      (∃ key, (key, .operation op) ∈ self.db.rows) ∧ op.tenantId = tenantId ∧
        op.repoId = repoId := by
  rw [repoOps, mem_filterMap]
  constructor
  · rintro ⟨⟨key, value⟩, hrow, own⟩
    cases value with
    | operation stored =>
      simp only [ownOp] at own
      split at own
      · rename_i scope
        obtain rfl := Option.some.inj own
        exact ⟨⟨key, hrow⟩, scope⟩
      · cases own
    | vectorClock clock => cases own
  · rintro ⟨⟨key, hrow⟩, scope⟩
    exact ⟨_, hrow, by simp [ownOp, scope]⟩

/-! ## The loop -/

/-- A scan that is never full folds the body over the rows under the prefix. -/
theorem scanRows_eq_foldlM {σ : Type} (base snapshotKey : Key)
    (body : σ → Key × OplogValue → Except OplogError σ) (rows : List (Key × OplogValue))
    (init : σ) :
    scanRows base snapshotKey (fun _ => false) body rows init =
      ((rows.takeWhile fun row => base.isPrefixOf row.1).filter
        fun row => row.1 ≠ snapshotKey).foldlM body init := by
  induction rows generalizing init with
  | nil => rfl
  | cons row rest ih =>
    unfold scanRows
    simp only [Bool.false_eq_true, if_false]
    by_cases inside : base.isPrefixOf row.1
    · rw [if_pos inside,
        takeWhile_cons_of_pos (p := fun row : Key × OplogValue => base.isPrefixOf row.1) inside]
      by_cases snapshot : row.1 = snapshotKey
      · rw [if_pos snapshot, filter_cons_of_neg (by simpa using snapshot), ih]
      · rw [if_neg snapshot, filter_cons_of_pos (by simpa using snapshot), foldlM_cons]
        cases body init row with
        | ok next => exact ih next
        | error error => rfl
    · rw [if_neg inside,
        takeWhile_cons_of_neg (p := fun row : Key × OplogValue => base.isPrefixOf row.1) inside]
      rfl

/-- A row is read by the scan of a repository. -/
def Scanned (tenantId repoId : String) (key : Key) : Prop :=
  oplogTenantRepoPrefix tenantId repoId ≤ key ∧ repoBase tenantId repoId <+: key ∧
    key ≠ vectorClockSnapshotKey tenantId repoId

instance (tenantId repoId : String) (key : Key) : Decidable (Scanned tenantId repoId key) := by
  unfold Scanned
  infer_instance

theorem OpLogRepository.scanRepo_eq_foldlM {σ : Type} (self : OpLogRepository)
    (tenantId repoId : String) (body : σ → Key × OplogValue → Except OplogError σ) (init : σ) :
    self.scanRepo tenantId repoId (fun _ => false) body init =
      (self.db.rows.filter fun row => Scanned tenantId repoId row.1).foldlM body init := by
  have base : (oplogTenantRepoPrefix tenantId repoId).dropLast = repoBase tenantId repoId := by
    rw [oplogTenantRepoPrefix_eq, dropLast_concat]
  have interval : ∀ a b : Key, oplogTenantRepoPrefix tenantId repoId ≤ a → a < b →
      (repoBase tenantId repoId).isPrefixOf b → (repoBase tenantId repoId).isPrefixOf a := by
    intro a b lower less inside
    rw [ isPrefixOf_iff_prefix] at inside ⊢
    obtain ⟨tail, rfl⟩ := inside
    refine prefix_of_between (le_trans ?_ lower) less.le
    rw [oplogTenantRepoPrefix_eq]
    exact le_append _ _
  have window := self.db.seek_takeWhile (oplogTenantRepoPrefix tenantId repoId)
    (fun key => (repoBase tenantId repoId).isPrefixOf key) interval
  rw [scanRepo, base, scanRows_eq_foldlM, window, filter_filter]
  congr 1
  refine filter_congr fun row _ => ?_
  simp only [Scanned, isPrefixOf_iff_prefix, ← Bool.decide_and]
  exact decide_eq_decide.mpr ⟨fun ⟨a, b, c⟩ => ⟨b, c, a⟩, fun ⟨b, c, a⟩ => ⟨a, b, c⟩⟩

/-! ## Isolated scans -/

/-- The scan reads the operations of the repository and no other row. -/
def OpLogRepository.ReadsOwn (self : OpLogRepository) (tenantId repoId : String) : Prop :=
  ∀ row ∈ self.db.rows, Scanned tenantId repoId row.1 ↔ (ownOp tenantId repoId row).isSome

theorem foldlM_own {σ : Type} {tenantId repoId : String} {rows : List (Key × OplogValue)}
    {body : σ → Key × OplogValue → Except OplogError σ} {step : σ → Operation → σ}
    (agree : ∀ acc, ∀ row ∈ rows, ∀ op, ownOp tenantId repoId row = some op →
      body acc row = .ok (step acc op)) (init : σ) :
    (rows.filter fun row => (ownOp tenantId repoId row).isSome).foldlM body init =
      .ok ((rows.filterMap (ownOp tenantId repoId)).foldl step init) := by
  induction rows generalizing init with
  | nil => rfl
  | cons row rest ih =>
    have later : ∀ acc, ∀ other ∈ rest, ∀ op, ownOp tenantId repoId other = some op →
        body acc other = .ok (step acc op) :=
      fun acc other hother => agree acc other (mem_cons_of_mem _ hother)
    cases own : ownOp tenantId repoId row with
    | none =>
      rw [filter_cons_of_neg (by simp [own]), filterMap_cons_none own]
      exact ih later init
    | some op =>
      rw [filter_cons_of_pos (by simp [own]), filterMap_cons_some own, foldlM_cons,
        agree init row mem_cons_self op own]
      exact ih later _

/-- Rows of a repository are values of operations. -/
theorem value_of_ownOp {tenantId repoId : String} {row : Key × OplogValue} {op : Operation}
    (own : ownOp tenantId repoId row = some op) :
    row.2 = .operation op ∧ op.tenantId = tenantId ∧ op.repoId = repoId := by
  obtain ⟨key, value⟩ := row
  cases value with
  | operation stored =>
    simp only [ownOp] at own
    split at own
    · rename_i scope
      obtain rfl := Option.some.inj own
      exact ⟨rfl, scope⟩
    · cases own
  | vectorClock clock => cases own

theorem foldl_append_filter (ops : List Operation) (keep : Operation → Prop)
    [DecidablePred keep] (acc : List Operation) :
    ops.foldl (fun acc op => if keep op then acc ++ [op] else acc) acc =
      acc ++ ops.filter keep := by
  induction ops generalizing acc with
  | nil => simp
  | cons op rest ih =>
    rw [foldl_cons, ih]
    by_cases kept : keep op <;> simp [kept]

namespace OpLogRepository

variable {self : OpLogRepository} {tenantId repoId : String}

/-- A scan that reads its own rows folds over the operations of the repository. -/
theorem ReadsOwn.scanRepo (own : self.ReadsOwn tenantId repoId) {σ : Type}
    (body : σ → Key × OplogValue → Except OplogError σ) (step : σ → Operation → σ)
    (agree : ∀ acc, ∀ row ∈ self.db.rows, ∀ op, ownOp tenantId repoId row = some op →
      body acc row = .ok (step acc op)) (init : σ) :
    self.scanRepo tenantId repoId (fun _ => false) body init =
      .ok ((self.repoOps tenantId repoId).foldl step init) := by
  have same : (self.db.rows.filter fun row => Scanned tenantId repoId row.1) =
      self.db.rows.filter fun row => (ownOp tenantId repoId row).isSome :=
    filter_congr fun row hrow => by
      rw [Bool.eq_iff_iff, decide_eq_true_iff]
      exact own row hrow
  rw [scanRepo_eq_foldlM, same, foldlM_own agree init, repoOps]

theorem ReadsOwn.getMissingOperations (own : self.ReadsOwn tenantId repoId)
    (clock : VectorClock) :
    self.getMissingOperations tenantId repoId clock none =
      .ok ((self.repoOps tenantId repoId).filter fun op =>
        clock.get op.clusterNodeId < op.opSeq) := by
  have scan := own.scanRepo
    (fun (missing : List Operation) row => do
      let op ← deserializeOperation row.2
      if clock.get op.clusterNodeId < op.opSeq then return missing ++ [op]
      else return missing)
    (fun missing op =>
      if clock.get op.clusterNodeId < op.opSeq then missing ++ [op] else missing)
    (by
      intro missing row _ op found
      rw [(value_of_ownOp found).1]
      change (if _ then _ else _) = _
      split <;> rfl) []
  rw [foldl_append_filter _ fun op : Operation => clock.get op.clusterNodeId < op.opSeq,
    nil_append] at scan
  exact scan

theorem ReadsOwn.getAllOperations (own : self.ReadsOwn tenantId repoId) :
    self.getAllOperations tenantId repoId =
      .ok (groupInto Operation.clusterNodeId (self.repoOps tenantId repoId)) := by
  refine own.scanRepo _ _ ?_ []
  intro groups row _ op found
  rw [(value_of_ownOp found).1]
  rfl

/-- The key of an operation tells its node and its sequence number. -/
theorem raiseFromKey_own {op : Operation} (small : op.opSeq < 2 ^ 64) (clock : VectorClock) :
    raiseFromKey (oplogTenantRepoPrefix op.tenantId op.repoId).length clock (buildOperationKey op) =
      if clock.get op.clusterNodeId < op.opSeq then clock.set op.clusterNodeId op.opSeq
      else clock := by
  have key : buildOperationKey op =
      (oplogTenantRepoPrefix op.tenantId op.repoId ++ utf8Bytes op.clusterNodeId) ++
        sep :: stampBytes op.opSeq op.timestampMs := by
    rw [buildOperationKey, oplogKey_eq, oplogTenantRepoPrefix_eq]
    simp
  generalize oplogTenantRepoPrefix op.tenantId op.repoId = start at key ⊢
  have nodeEnd : (buildOperationKey op).length - tailLength =
      (start ++ utf8Bytes op.clusterNodeId).length := by
    rw [key]
    generalize start ++ utf8Bytes op.clusterNodeId = front
    simp [tailLength]
  have node : ((buildOperationKey op).take (start ++ utf8Bytes op.clusterNodeId).length).drop
      start.length = utf8Bytes op.clusterNodeId := by
    rw [key, take_left, drop_left]
  have seq : ((buildOperationKey op).drop
      ((start ++ utf8Bytes op.clusterNodeId).length + 1)).take 8 = encodeU64 op.opSeq := by
    rw [key, ← drop_drop, drop_left, drop_one, tail_cons, stampBytes]
    exact take_left' (length_encodeU64 _)
  have long : ¬ (buildOperationKey op).length < start.length + tailLength := by
    rw [key]
    simp [tailLength]
  rw [raiseFromKey, if_neg long]
  dsimp only
  rw [nodeEnd, seq, node, decodeU64_encodeU64 small, fromUtf8Lossy_utf8Bytes]

/-- The clock with the highest sequence number of every node. -/
def clockOf (ops : List Operation) : VectorClock :=
  ops.foldl (fun clock op =>
    if clock.get op.clusterNodeId < op.opSeq then clock.set op.clusterNodeId op.opSeq
    else clock) .new

theorem Content.ownOp_row (content : self.Content) {row : Key × OplogValue}
    (hrow : row ∈ self.db.rows) {op : Operation} (own : ownOp tenantId repoId row = some op) :
    row = (buildOperationKey op, .operation op) ∧ (OplogRow.operation op).WellFormed := by
  obtain ⟨value, _⟩ := value_of_ownOp own
  obtain ⟨stored, formed, rfl⟩ := content row hrow
  cases stored with
  | operation other =>
    obtain rfl := OplogValue.operation.inj value
    exact ⟨rfl, formed⟩
  | snapshot tenantId repoId clock => cases value

theorem ReadsOwn.rebuildVectorClockSnapshot (own : self.ReadsOwn tenantId repoId)
    (content : self.Content) :
    self.rebuildVectorClockSnapshot tenantId repoId =
      (self.updateVectorClockSnapshot tenantId repoId (clockOf (self.repoOps tenantId repoId)),
        .ok (clockOf (self.repoOps tenantId repoId))) := by
  have scan := own.scanRepo
    (fun (clock : VectorClock) row =>
      return raiseFromKey (oplogTenantRepoPrefix tenantId repoId).length clock row.1)
    (fun clock op =>
      if clock.get op.clusterNodeId < op.opSeq then clock.set op.clusterNodeId op.opSeq
      else clock)
    (by
      intro clock row hrow op found
      obtain ⟨rfl, formed⟩ := content.ownOp_row hrow found
      obtain ⟨_, rfl, rfl⟩ := value_of_ownOp found
      exact congrArg Except.ok (raiseFromKey_own formed.2.2.2.1 clock)) .new
  rw [OpLogRepository.rebuildVectorClockSnapshot, scan]
  rfl

/-! ## Names that extend a name -/

/-- Some row belongs to a repository of the tenant whose name extends the given one. -/
def HasExtension (self : OpLogRepository) (tenantId repoId : String) : Prop :=
  ∃ row : OplogRow, row.WellFormed ∧ row.entry ∈ self.db.rows ∧ row.tenantId = tenantId ∧
    ∃ others, others ≠ "" ∧ row.repoId = repoId ++ others

/-- The key of an operation is no snapshot key: it has a separator behind the node. -/
theorem buildOperationKey_ne_snapshot (op : Operation) :
    buildOperationKey op ≠ vectorClockSnapshotKey op.tenantId op.repoId := by
  intro same
  rw [buildOperationKey, oplogKey_eq, vectorClockSnapshotKey_eq, append_right_inj,
    cons_inj_right] at same
  exact nulFree_snapshot (same ▸ mem_append_right _ mem_cons_self)

theorem scanned_own (op : Operation) :
    Scanned op.tenantId op.repoId (buildOperationKey op) := by
  refine ⟨?_, ?_, buildOperationKey_ne_snapshot op⟩
  · rw [buildOperationKey, oplogKey_eq, oplogTenantRepoPrefix_eq,
      ← singleton_append (l := utf8Bytes op.clusterNodeId ++ _), ← append_assoc]
    exact le_append _ _
  · rw [buildOperationKey, oplogKey_eq]
    exact prefix_append _ _

theorem ReadsOwn.of_content (content : self.Content) (tenant : NulFree tenantId)
    (repo : NulFree repoId) (none : ¬ self.HasExtension tenantId repoId) :
    self.ReadsOwn tenantId repoId := by
  intro entry hentry
  constructor
  · rintro ⟨_, inside, notSnapshot⟩
    obtain ⟨row, formed, rfl⟩ := content entry hentry
    obtain ⟨rest, key⟩ := row.entry_key
    rw [key, repoBase_prefix_iff tenant formed.tenant repo] at inside
    obtain ⟨sameTenant, others, name⟩ := inside
    have noOthers : others = "" := by
      by_contra nonempty
      exact none ⟨row, formed, hentry, sameTenant.symm, others, nonempty, name⟩
    rw [noOthers, String.append_empty] at name
    cases row with
    | operation op =>
      have scope : op.tenantId = tenantId ∧ op.repoId = repoId := ⟨sameTenant.symm, name⟩
      simp [OplogRow.entry, ownOp, scope]
    | snapshot tenantId' repoId' clock =>
      refine absurd ?_ notSnapshot
      rw [show tenantId = tenantId' from sameTenant, show repoId = repoId' from name.symm]
      rfl
  · intro own
    obtain ⟨op, found⟩ := Option.isSome_iff_exists.mp own
    obtain ⟨rfl, _⟩ := content.ownOp_row hentry found
    obtain ⟨_, rfl, rfl⟩ := value_of_ownOp found
    exact scanned_own op

theorem append_ne_self {text others : String} (nonempty : others ≠ "") :
    text ++ others ≠ text := by
  intro same
  have length := congrArg (fun text => (String.toList text).length) same
  simp only [String.toList_append, length_append] at length
  exact nonempty (String.toList_inj.mp (eq_nil_of_length_eq_zero (by omega)))

/-- The scan of a repository reads the rows of the repositories that extend its name. -/
theorem scanned_extension {row : OplogRow} (formed : row.WellFormed) (tenant : NulFree tenantId)
    (repo : NulFree repoId) (sameTenant : row.tenantId = tenantId) {others : String}
    (nonempty : others ≠ "") (name : row.repoId = repoId ++ others) :
    Scanned tenantId repoId row.entry.1 := by
  obtain ⟨rest, key⟩ := row.entry_key
  have bytes : utf8Bytes row.repoId = utf8Bytes repoId ++ utf8Bytes others := by
    rw [name, utf8Bytes, String.toList_append]
    exact flatMap_append
  refine ⟨?_, ?_, ?_⟩
  · -- the byte behind the shared name is not the separator, hence greater
    have some : utf8Bytes others ≠ [] := by
      intro empty
      exact nonempty (utf8Bytes_injective (empty.trans (by decide : [] = utf8Bytes "")))
    obtain ⟨byte, tail, shape⟩ := exists_cons_of_ne_nil some
    have positive : sep < byte := by
      refine lt_of_le_of_ne UInt8.zero_le fun same => formed.repo ?_
      rw [bytes, shape, same]
      exact mem_append_right _ mem_cons_self
    rw [key, repoBase, bytes, shape, sameTenant, oplogTenantRepoPrefix_eq, repoBase]
    simp only [append_assoc, cons_append]
    refine le_of_lt ((append_lt_append_left _).mpr ?_)
    rw [cons_lt_cons_self, append_lt_append_left, cons_lt_cons_iff]
    exact Or.inl positive
  · rw [key, repoBase_prefix_iff tenant formed.tenant repo]
    exact ⟨sameTenant.symm, others, name⟩
  · intro same
    rw [key, vectorClockSnapshotKey_eq] at same
    obtain ⟨_, sameRepo, _⟩ := repoBase_append_inj formed.tenant tenant formed.repo repo same
    exact append_ne_self nonempty (name.symm.trans sameRepo)

/-- A successful collection has deserialised every row it was given. -/
theorem foldlM_collect {rows : List (Key × OplogValue)} {init groups : List (String × List Operation)}
    (collected : rows.foldlM (fun operationsByNode row => do
      let op ← deserializeOperation row.2
      return pushGroup op.clusterNodeId op operationsByNode) init = .ok groups) :
    ∃ ops : List Operation, rows.map Prod.snd = ops.map .operation ∧
      groups = ops.foldl (fun acc op => pushGroup op.clusterNodeId op acc) init := by
  induction rows generalizing init with
  | nil => exact ⟨[], rfl, (Except.ok.inj collected).symm⟩
  | cons row rest ih =>
    obtain ⟨key, value⟩ := row
    rw [foldlM_cons] at collected
    cases value with
    | operation op =>
      obtain ⟨ops, values, result⟩ := ih collected
      exact ⟨op :: ops, by rw [map_cons, values]; rfl, result⟩
    | vectorClock clock => cases collected

end OpLogRepository

/-- The scans of a repository see its stored operations and nothing else. -/
structure IsolatedScans (log : OpLogRepository) (tenantId repoId : String) : Prop where
  missing : ∀ clock : VectorClock, log.getMissingOperations tenantId repoId clock none =
    .ok ((log.repoOps tenantId repoId).filter fun op => clock.get op.clusterNodeId < op.opSeq)
  all : log.getAllOperations tenantId repoId =
    .ok (groupInto Operation.clusterNodeId (log.repoOps tenantId repoId))
  rebuilt : log.rebuildVectorClockSnapshot tenantId repoId =
    (log.updateVectorClockSnapshot tenantId repoId
        (OpLogRepository.clockOf (log.repoOps tenantId repoId)),
      .ok (OpLogRepository.clockOf (log.repoOps tenantId repoId)))

theorem not_isolatedScans_of_extension {log : OpLogRepository} {tenantId repoId : String}
    (tenant : NulFree tenantId) (repo : NulFree repoId)
    (extension : log.HasExtension tenantId repoId) : ¬ IsolatedScans log tenantId repoId := by
  intro isolated
  obtain ⟨row, formed, stored, sameTenant, others, nonempty, name⟩ := extension
  have scanned := OpLogRepository.scanned_extension formed tenant repo sameTenant nonempty name
  have all := isolated.all
  rw [OpLogRepository.getAllOperations, OpLogRepository.scanRepo_eq_foldlM] at all
  obtain ⟨ops, values, groups⟩ := OpLogRepository.foldlM_collect all
  have read : row.entry.2 ∈ ops.map OplogValue.operation := by
    rw [← values]
    exact mem_map_of_mem (mem_filter.mpr ⟨stored, by simpa using scanned⟩)
  obtain ⟨op, hop, value⟩ := mem_map.mp read
  cases row with
  | operation other =>
    obtain rfl := OplogValue.operation.inj value
    have grouped := groupInto_grouped Operation.clusterNodeId ops
    rw [groupInto, ← groups] at grouped
    have own : op ∈ log.repoOps tenantId repoId :=
      ((groupInto_grouped _ _).mem_iff op).mpr ((grouped.mem_iff op).mp hop)
    have sameRepo := (OpLogRepository.mem_repoOps.mp own).2.2
    exact OpLogRepository.append_ne_self nonempty (name.symm.trans sameRepo)
  | snapshot tenantId repoId clock => cases value

/-- Scans are isolated exactly while no repository of the tenant extends the name. -/
theorem isolatedScans_iff {log : OpLogRepository} {tenantId repoId : String}
    (content : log.Content) (tenant : NulFree tenantId) (repo : NulFree repoId) :
    IsolatedScans log tenantId repoId ↔ ¬ log.HasExtension tenantId repoId := by
  constructor
  · exact fun isolated extension =>
      not_isolatedScans_of_extension tenant repo extension isolated
  · intro none
    have own := OpLogRepository.ReadsOwn.of_content content tenant repo none
    exact ⟨own.getMissingOperations, own.getAllOperations,
      own.rebuildVectorClockSnapshot content⟩

def mainOp : Operation := makeOp 1 "node1" 10 [("node1", 1)] (.updateBranch ⟨"main"⟩)

/-- An operation of a repository whose name extends `repo1`. -/
def extendingOp : Operation := { mainOp with opId := 2, repoId := "repo10" }

/-- The log of a node after one operation of each repository. -/
def extendedLog : OpLogRepository :=
  ((OpLogRepository.new.putOperation mainOp).putOperation extendingOp).updateVectorClockSnapshot
    "tenant1" "repo10" (.withInitial "node1" 1)

theorem extendedLog_content : extendedLog.Content :=
  ((OpLogRepository.Content.new.putOperation (by decide)).putOperation
    (by decide)).updateVectorClockSnapshot (by decide) (by decide) _

/-- The snapshot of `repo10` makes every scan of `repo1` fail. -/
theorem scan_reads_extending_repository :
    ¬ ∀ (log : OpLogRepository) (tenantId repoId : String), log.Content → NulFree tenantId →
      NulFree repoId → IsolatedScans log tenantId repoId := by
  intro claim
  have isolated := claim extendedLog "tenant1" "repo1" extendedLog_content (by decide) (by decide)
  have failed : extendedLog.getAllOperations "tenant1" "repo1" = .error .deserializeOperation := by
    decide
  rw [isolated.all] at failed
  cases failed

/-- The scans of `repo10` do not see `repo1`. -/
theorem isolatedScans_extending : IsolatedScans extendedLog "tenant1" "repo10" := by
  refine (isolatedScans_iff extendedLog_content (by decide) (by decide)).mpr ?_
  rintro ⟨row, formed, stored, sameTenant, others, nonempty, name⟩
  have scanned := OpLogRepository.scanned_extension formed (by decide) (by decide) sameTenant
    nonempty name
  have only : ∀ entry ∈ extendedLog.db.rows, Scanned "tenant1" "repo10" entry.1 →
      entry.2 = .operation extendingOp := by decide
  have value := only row.entry stored scanned
  cases row with
  | operation op =>
      obtain rfl := OplogValue.operation.inj value
      exact OpLogRepository.append_ne_self nonempty name.symm
  | snapshot tenantId repoId clock => cases value

end RaisinDB.Oplog
