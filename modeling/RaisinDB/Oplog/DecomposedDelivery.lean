import RaisinDB.Oplog.Storage
import RaisinDB.Replication.CausalRuns
import RaisinDB.Replication.Decomposition

/-!
# Storage and delivery of the pieces of a revision

The log finds an operation by its sequence number and its time, and the delivery buffer expects the
next counter of a node.  The pieces of a revision have both in common, so that one of them is kept
and one of them is delivered.
-/

namespace RaisinDB.Replication

open RaisinDB.Foundation List

/-! ## A counter is delivered once -/

/-- The operation is the one of its node with that counter. -/
def Operation.Carries (node : String) (counter : Nat) (op : Operation) : Prop :=
  op.clusterNodeId = node ∧ op.ownCounter = counter

instance (node : String) (counter : Nat) (op : Operation) : Decidable (op.Carries node counter) := by
  unfold Operation.Carries
  infer_instance

namespace CausalDeliveryBuffer

variable {node : String} {counter : Nat}

/-- Each operation delivered in a round was in the buffer and was found ready. -/
theorem mem_foldl_deliverReady (ready : List Uuid) (cascade : Cascade) {op : Operation}
    (hop : op ∈ (ready.foldl deliverReady cascade).deliverable) :
    op ∈ cascade.deliverable ∨ (op ∈ cascade.buffer.waiting ∧ op.opId ∈ ready) := by
  induction ready generalizing cascade with
  | nil => exact Or.inl hop
  | cons opId rest ih =>
    rw [foldl_cons] at hop
    rcases ih _ hop with before | ⟨waits, later⟩
    · unfold deliverReady at before
      split at before
      · next found deps present =>
        rcases mem_append.mp before with old | here
        · exact Or.inl old
        · obtain rfl := mem_singleton.mp here
          have key := cascade.buffer.keyed _ (AList.mem_lookup_iff.mp present)
          dsimp only at key
          refine Or.inr ⟨mem_waiting.mpr ⟨deps, ?_⟩, ?_⟩
          · rw [key]
            exact present
          · rw [key]
            exact mem_cons_self
      · exact Or.inl before
    · refine Or.inr ⟨?_, mem_cons_of_mem _ later⟩
      unfold deliverReady at waits
      split at waits
      · next found deps present =>
        have key := cascade.buffer.keyed _ (AList.mem_lookup_iff.mp present)
        dsimp only at key
        rw [← key] at waits
        exact waiting_release_subset _ _ waits
      · exact waits

theorem localVc_foldl_deliverReady (ready : List Uuid) (cascade : Cascade) (node : String) :
    cascade.buffer.localVc.get node ≤
      (ready.foldl deliverReady cascade).buffer.localVc.get node := by
  induction ready generalizing cascade with
  | nil => exact le_refl _
  | cons opId rest ih =>
    refine le_trans ?_ (ih _)
    unfold deliverReady
    split
    · exact VectorClock.le_merge _ _ _
    · exact le_refl _

/-- What the clock has counted is not the next operation of its node. -/
theorem not_satisfied_of_counted {self : CausalDeliveryBuffer} {op : Operation}
    (carries : op.Carries node counter) (positive : 0 < counter)
    (counted : counter ≤ self.localVc.get node) : self.dependenciesSatisfied op = false := by
  obtain ⟨rfl, rfl⟩ := carries
  rw [Bool.eq_false_iff]
  intro satisfied
  have ready := (dependenciesSatisfied_iff positive).mp satisfied
  have next := ready.next
  omega

theorem not_carries_of_mem_readyOps {hash : HashOrder BufferedEntry} {self : CausalDeliveryBuffer}
    (positive : 0 < counter) (counted : counter ≤ self.localVc.get node) {op : Operation}
    (waits : op ∈ self.waiting) (found : op.opId ∈ readyOps hash self) :
    ¬ op.Carries node counter := by
  intro carries
  obtain ⟨⟨key, other, deps⟩, hentry, same⟩ := mem_map.mp found
  obtain ⟨stored, satisfied⟩ := mem_filter.mp hentry
  obtain ⟨deps', present⟩ := mem_waiting.mp waits
  dsimp only at same satisfied
  have entry := AList.mem_lookup_iff.mpr ((hash.mem_order _ _).mp stored)
  rw [same, present] at entry
  obtain rfl : op = other := (Prod.mk.inj (Option.some.inj entry)).1
  rw [not_satisfied_of_counted carries positive counted] at satisfied
  cases satisfied

/-- No round releases an operation whose counter the clock has reached. -/
theorem releaseRounds_carries (hash : HashOrder BufferedEntry) (fuel : Nat) (cascade : Cascade)
    (positive : 0 < counter) (counted : counter ≤ cascade.buffer.localVc.get node) :
    counter ≤ (releaseRounds hash fuel cascade).buffer.localVc.get node ∧
      ∀ op ∈ (releaseRounds hash fuel cascade).deliverable,
        op ∈ cascade.deliverable ∨ ¬ op.Carries node counter := by
  induction fuel generalizing cascade with
  | zero => exact ⟨counted, fun op hop => Or.inl hop⟩
  | succ fuel ih =>
    have round : ∀ op ∈ ((readyOps hash cascade.buffer).foldl deliverReady
        { cascade with deliveredAny := false }).deliverable,
        op ∈ cascade.deliverable ∨ ¬ op.Carries node counter := by
      intro op hop
      rcases mem_foldl_deliverReady _ _ hop with old | ⟨waits, found⟩
      · exact Or.inl old
      · exact Or.inr (not_carries_of_mem_readyOps positive counted waits found)
    have moved := counted.trans (localVc_foldl_deliverReady (readyOps hash cascade.buffer)
      { cascade with deliveredAny := false } node)
    unfold releaseRounds
    dsimp only
    split
    · exact ⟨counted, fun op hop => Or.inl hop⟩
    · split
      · obtain ⟨later, released⟩ := ih _ moved
        refine ⟨later, fun op hop => ?_⟩
        rcases released op hop with here | other
        · exact round op here
        · exact Or.inr other
      · exact ⟨moved, round⟩

theorem checkBufferedOps_carries (runtime : DeliveryRuntime) (self : CausalDeliveryBuffer)
    (positive : 0 < counter) (counted : counter ≤ self.localVc.get node) :
    counter ≤ (self.checkBufferedOps runtime).1.localVc.get node ∧
      ∀ op ∈ (self.checkBufferedOps runtime).2, ¬ op.Carries node counter := by
  obtain ⟨later, released⟩ := releaseRounds_carries runtime.buffered
    (self.bufferedOps.keys.length + 1) ⟨self, [], false⟩ positive counted
  refine ⟨later, fun op hop => ?_⟩
  have member := (runtime.sorter.perm compareDelivery _).mem_iff.mp hop
  exact (released op member).resolve_left (not_mem_nil)

/-- Once the counter is reached, no call returns an operation that carries it. -/
theorem outputs_carries (positive : 0 < counter) {calls : List DeliverCall}
    (carries : ∀ call ∈ calls, call.op.Carries node counter) {self : CausalDeliveryBuffer}
    (counted : counter ≤ self.localVc.get node) :
    ∀ op ∈ (deliveryMachine.outputs self calls).flatten, ¬ op.Carries node counter := by
  induction calls generalizing self with
  | nil =>
    intro op hop
    cases hop
  | cons call rest ih =>
    obtain ⟨here, later⟩ := forall_mem_cons.mp carries
    have step : deliveryMachine.step self call =
        (self.bufferOperation call.op).checkBufferedOps call.runtime := by
      change self.deliver call.runtime call.op = _
      rw [deliver, not_satisfied_of_counted here positive counted]
      rfl
    obtain ⟨moved, released⟩ := checkBufferedOps_carries call.runtime
      (self.bufferOperation call.op) positive counted
    intro op hop
    rw [Machine.outputs, Machine.transitions, map_cons, flatten_cons, step] at hop
    rcases mem_append.mp hop with early | late
    · exact released op early
    · exact ih later moved op late

end CausalDeliveryBuffer

end RaisinDB.Replication

namespace RaisinDB.Oplog

open RaisinDB.Foundation RaisinDB.Replication List

variable {hashIndex : IndexHash} {log : OpLogRepository} {buffer : CausalDeliveryBuffer}
  {calls : List DeliverCall} {op : Operation}

/-- The pieces of an operation are different, the log holds all of them after they were put in one
batch, and delivering them one by one returns all of them in their order. -/
structure DecomposedWithoutLoss (hashIndex : IndexHash) (log : OpLogRepository)
    (buffer : CausalDeliveryBuffer) (calls : List DeliverCall) (op : Operation) : Prop where
  distinct : (decomposeOperation hashIndex op).Nodup
  stored : ∀ piece ∈ decomposeOperation hashIndex op,
    (buildOperationKey piece, OplogValue.operation piece) ∈
      (log.putOperationsBatch (decomposeOperation hashIndex op)).1.db.rows
  delivered : decomposeOperation hashIndex op <+ (deliveryMachine.outputs buffer calls).flatten

/-- A single piece is kept whatever becomes of the snapshot. -/
theorem stored_single {piece : Operation} :
    (buildOperationKey piece, OplogValue.operation piece) ∈
      (log.putOperationsBatch [piece]).1.db.rows := by
  have written := log.mem_rows_foldl_of_unique (mem_singleton_self piece)
    fun other hother _ => mem_singleton.mp hother
  rw [OpLogRepository.putOperationsBatch, if_neg (by simp)]
  refine OpLogRepository.mem_rows_incrementAll written fun update hupdate => ?_
  obtain ⟨entry, hentry, hmap⟩ := mem_flatMap.mp hupdate
  obtain ⟨pair, hpair, rfl⟩ := mem_map.mp hmap
  obtain ⟨other, hother, names, _⟩ := FromOps.batch [piece] entry hentry pair hpair
  obtain rfl := mem_singleton.mp hother
  rw [names]
  exact OpLogRepository.buildOperationKey_ne_snapshot _

theorem delivered_single {piece : Operation} (ready : Ready buffer.localVc piece)
    (positive : 0 < piece.ownCounter) {call : DeliverCall} (given : call.op = piece) :
    [piece] <+ (deliveryMachine.outputs buffer [call]).flatten := by
  have step : (deliveryMachine.step buffer call).2 =
      piece :: ((buffer.updateLocalClock piece).checkBufferedOps call.runtime).2 := by
    change (buffer.deliver call.runtime call.op).2 = _
    rw [CausalDeliveryBuffer.deliver, given,
      if_pos ((dependenciesSatisfied_iff positive).mpr ready)]
  rw [Machine.outputs, Machine.transitions, map_cons, flatten_cons, step]
  exact (nil_sublist _).cons_cons piece

/-- Pieces that are delivered one after the other are no more than one. -/
theorem length_le_one_of_delivered (ready : Ready buffer.localVc op)
    (given : givenOps calls = decomposeOperation hashIndex op)
    (delivered : decomposeOperation hashIndex op <+ (deliveryMachine.outputs buffer calls).flatten) :
    (decomposeOperation hashIndex op).length ≤ 1 := by
  have positive : 0 < op.ownCounter := by
    have next := ready.next
    omega
  have carries : ∀ piece ∈ decomposeOperation hashIndex op,
      piece.Carries op.clusterNodeId op.ownCounter := by
    intro piece hpiece
    have shares := sharesStamp_of_mem hashIndex hpiece
    refine ⟨shares.node, ?_⟩
    rw [Operation.ownCounter, shares.clock, shares.node]
    rfl
  rcases calls with _ | ⟨call, rest⟩
  · rw [← given]
    exact Nat.zero_le _
  · have each : ∀ next ∈ call :: rest, next.op.Carries op.clusterNodeId op.ownCounter := by
      intro next hnext
      refine carries _ ?_
      rw [← given]
      exact mem_map.mpr ⟨next, hnext, rfl⟩
    have first := each call mem_cons_self
    have hcall : call.op ∈ decomposeOperation hashIndex op := by
      rw [← given]
      exact mem_map.mpr ⟨call, mem_cons_self, rfl⟩
    have shares := sharesStamp_of_mem hashIndex hcall
    have readyFirst : Ready buffer.localVc call.op := by
      constructor
      · rw [first.2, first.1]
        exact ready.next
      · intro node other
        rw [shares.clock]
        exact ready.others node (shares.node ▸ other)
    have counted : op.ownCounter ≤
        (buffer.updateLocalClock call.op).localVc.get op.clusterNodeId := by
      rw [CausalDeliveryBuffer.localVc_updateLocalClock, ← first.1, readyFirst.get_merge,
        if_pos rfl]
      exact ge_of_eq first.2
    obtain ⟨moved, released⟩ := CausalDeliveryBuffer.checkBufferedOps_carries call.runtime
      (buffer.updateLocalClock call.op) positive counted
    have step : deliveryMachine.step buffer call =
        (((buffer.updateLocalClock call.op).checkBufferedOps call.runtime).1,
          call.op :: ((buffer.updateLocalClock call.op).checkBufferedOps call.runtime).2) := by
      change buffer.deliver call.runtime call.op = _
      rw [CausalDeliveryBuffer.deliver,
        if_pos ((dependenciesSatisfied_iff (first.2 ▸ positive)).mpr readyFirst)]
    have later := CausalDeliveryBuffer.outputs_carries positive
      (fun next hnext => each next (mem_cons_of_mem _ hnext)) moved
    have others : ∀ next ∈ ((buffer.updateLocalClock call.op).checkBufferedOps call.runtime).2 ++
        (deliveryMachine.outputs ((buffer.updateLocalClock call.op).checkBufferedOps
          call.runtime).1 rest).flatten, ¬ next.Carries op.clusterNodeId op.ownCounter := by
      intro next hnext
      rcases mem_append.mp hnext with early | late
      · exact released next early
      · exact later next late
    have whole : countP (fun piece => decide (piece.Carries op.clusterNodeId op.ownCounter))
        (decomposeOperation hashIndex op) = (decomposeOperation hashIndex op).length :=
      countP_eq_length.mpr fun piece hpiece => by simpa using carries piece hpiece
    have count := delivered.countP_le
      (p := fun piece => decide (piece.Carries op.clusterNodeId op.ownCounter))
    rw [whole, Machine.outputs, Machine.transitions, map_cons, flatten_cons, step, cons_append,
      countP_cons, countP_eq_zero.mpr] at count
    · refine count.trans ?_
      split <;> decide
    · intro next hnext
      exact fun carried => others next hnext (of_decide_eq_true carried)

/-- A revision survives its decomposition when it has one change and no more. -/
theorem decomposed_without_loss (hashIndex : IndexHash) (log : OpLogRepository)
    (buffer : CausalDeliveryBuffer) (calls : List DeliverCall) (op : Operation) (branchHead : HLC)
    (nodeChanges : List ReplicatedNodeChange) (some : nodeChanges ≠ [])
    (revision : op.opType = .applyRevision branchHead nodeChanges)
    (ready : Ready buffer.localVc op)
    (given : givenOps calls = decomposeOperation hashIndex op) :
    DecomposedWithoutLoss hashIndex log buffer calls op ↔ nodeChanges.length = 1 := by
  have count := length_decomposeOperation hashIndex revision
  constructor
  · intro kept
    have atMost := length_le_one_of_delivered ready given kept.delivered
    have atLeast := length_pos_of_ne_nil some
    omega
  · intro one
    obtain ⟨piece, pieces⟩ := length_eq_one_iff.mp (count.trans one)
    have shares := sharesStamp_of_mem hashIndex (pieces ▸ mem_singleton_self piece)
    have readyPiece : Ready buffer.localVc piece := by
      constructor
      · rw [Operation.ownCounter, shares.clock, shares.node]
        exact ready.next
      · intro node other
        rw [shares.clock]
        exact ready.others node (shares.node ▸ other)
    have positive : 0 < piece.ownCounter := by
      have next := readyPiece.next
      omega
    constructor
    · rw [pieces]
      exact nodup_singleton piece
    · rw [pieces]
      intro other hother
      obtain rfl := mem_singleton.mp hother
      exact stored_single
    · rw [pieces] at given ⊢
      obtain ⟨call, rfl⟩ : ∃ call, calls = [call] := length_eq_one_iff.mp (by
        rw [← length_map DeliverCall.op]
        exact congrArg length given)
      exact delivered_single readyPiece positive (cons.inj given).1

/-! ## A revision of two nodes -/

def upsertChange (id : String) : ReplicatedNodeChange := ⟨⟨id⟩, none, .upsert, ""⟩

/-- The first operation of a node, with the given changes. -/
def revisionOp (changes : List ReplicatedNodeChange) : Operation :=
  makeOp 7 "node1" 1000 [("node1", 1)] (.applyRevision ⟨1000, 0⟩ changes)

theorem ready_revisionOp (changes : List ReplicatedNodeChange) :
    Ready (CausalDeliveryBuffer.new .new).localVc (revisionOp changes) where
  next := rfl
  others node other := by
    have entry : (revisionOp changes).vectorClock = VectorClock.ofEntries [("node1", 1)] := rfl
    have absent : (VectorClock.ofEntries [("node1", 1)]).get node = 0 := by
      rw [VectorClock.get, VectorClock.ofEntries, Finmap.dlookup_list_toFinmap, map_cons,
        dlookup_cons_ne _ _ other]
      rfl
    rw [entry, absent]
    exact Nat.zero_le _

theorem single_change_kept :
    DecomposedWithoutLoss (fun _ _ => 0) .new (.new .new)
        ((decomposeOperation (fun _ _ => 0) (revisionOp [upsertChange "a"])).map
          (DeliverCall.mk plainDelivery)) (revisionOp [upsertChange "a"]) ↔
      [upsertChange "a"].length = 1 :=
  decomposed_without_loss _ _ _ _ _ ⟨1000, 0⟩ [upsertChange "a"] (by decide) rfl
    (ready_revisionOp _) (by decide)

/-- Of two changes the log keeps the second. -/
theorem second_change_replaces_first :
    ¬ ∀ (hashIndex : IndexHash) (log : OpLogRepository) (buffer : CausalDeliveryBuffer)
      (calls : List DeliverCall) (op : Operation) (branchHead : HLC)
      (nodeChanges : List ReplicatedNodeChange), nodeChanges ≠ [] →
      op.opType = .applyRevision branchHead nodeChanges → Ready buffer.localVc op →
      givenOps calls = decomposeOperation hashIndex op →
      DecomposedWithoutLoss hashIndex log buffer calls op := by
  intro claim
  have kept := claim (fun _ _ => 0) .new (.new .new)
    ((decomposeOperation (fun _ _ => 0) (revisionOp [upsertChange "a", upsertChange "b"])).map
      (DeliverCall.mk plainDelivery)) (revisionOp [upsertChange "a", upsertChange "b"]) ⟨1000, 0⟩
    [upsertChange "a", upsertChange "b"] (by decide) rfl (ready_revisionOp _) (by decide)
  have first := kept.stored _ mem_cons_self
  revert first
  decide +kernel

end RaisinDB.Oplog
