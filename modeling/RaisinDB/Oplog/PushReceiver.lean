import RaisinDB.Oplog.Storage

/-!
# One sender, one receiver, pushes in any order

The sender numbers its operations from one.  The receiver starts empty and
changes its log only by pushes, of which any may be lost, late or repeated.  Its
snapshot passes over an operation that it never got exactly when some push
reaches beyond a number that neither it nor the snapshot covers.
-/

namespace RaisinDB.Oplog

open RaisinDB.Foundation RaisinDB.Replication List

/-- A node and the operations of one repository that it has captured, by sequence number. -/
structure Sender where
  tenantId : String
  repoId : String
  nodeId : String
  count : Nat
  op : Nat → Operation
  small : count < 2 ^ 64
  tenant : ∀ k, (op k).tenantId = tenantId
  repo : ∀ k, (op k).repoId = repoId
  node : ∀ k, (op k).clusterNodeId = nodeId
  numbered : ∀ k, (op k).opSeq = k
  counted : ∀ k, (op k).vectorClock.get nodeId = k

/-- The batch of a push, by sequence numbers. -/
structure Push (sender : Sender) where
  numbers : List Nat
  inRange : ∀ k ∈ numbers, 1 ≤ k ∧ k ≤ sender.count

def Push.ops {sender : Sender} (push : Push sender) : List Operation :=
  push.numbers.map sender.op

namespace Sender

variable (sender : Sender)

/-- The log of the sender itself, written by captures. -/
def log : OpLogRepository :=
  (range' 1 sender.count).foldl (fun log k => (log.appendCaptured (sender.op k)).1) .new

/-- The row of an operation. -/
def row (k : Nat) : Key × OplogValue := (OplogRow.operation (sender.op k)).entry

/-- The receiver's machine: an event is a push that arrived. -/
def pushMachine :
    Machine RocksDbOperationLogStorage (Push sender) (Except OplogError (List Uuid)) where
  step storage push := storage.handlePushOperations push.ops

/-- The storage has the operation. -/
def Stored (storage : RocksDbOperationLogStorage) (k : Nat) : Prop :=
  sender.op k ∈ storage.oplogRepo.repoOps sender.tenantId sender.repoId

/-- Every operation that the snapshot counts is stored, and a pull with the snapshot returns
every operation that is not. -/
def NothingLost (storage : RocksDbOperationLogStorage) : Prop :=
  ∃ clock, storage.getVectorClock sender.tenantId sender.repoId = .ok clock ∧
    (∀ k, 1 ≤ k → k ≤ sender.count → k ≤ clock.get sender.nodeId → sender.Stored storage k) ∧
    ∃ missing, sender.log.getMissingOperations sender.tenantId sender.repoId clock none =
        .ok missing ∧
      ∀ k, 1 ≤ k → k ≤ sender.count → ¬ sender.Stored storage k → sender.op k ∈ missing

/-- The push reaches no further than the numbers that it or the snapshot covers. -/
def GapFree (storage : RocksDbOperationLogStorage) (push : Push sender) : Prop :=
  ∃ clock, storage.getVectorClock sender.tenantId sender.repoId = .ok clock ∧
    ∀ k ∈ push.numbers, ∀ j, clock.get sender.nodeId < j → j ≤ k → j ∈ push.numbers

variable {sender}

theorem op_injective {k j : Nat} (same : sender.op k = sender.op j) : k = j := by
  rw [← sender.numbered k, same, sender.numbered]

theorem row_injective {k j : Nat} (same : sender.row k = sender.row j) : k = j :=
  op_injective (OplogValue.operation.inj (congrArg Prod.snd same))

/-- Among the sender's operations the key tells the sequence number. -/
theorem key_injective {k j : Nat} (hk : k ≤ sender.count) (hj : j ≤ sender.count)
    (same : buildOperationKey (sender.op k) = buildOperationKey (sender.op j)) : k = j := by
  rw [buildOperationKey, buildOperationKey, oplogKey_eq, oplogKey_eq, sender.tenant,
    sender.tenant, sender.repo, sender.repo, sender.node, sender.node, append_right_inj,
    cons_inj_right, append_right_inj, cons_inj_right] at same
  have seqs := append_inj_left same (by rw [length_encodeU64, length_encodeU64])
  rw [sender.numbered, sender.numbered] at seqs
  exact encodeU64_injective (hk.trans_lt sender.small) (hj.trans_lt sender.small) seqs

theorem row_key_ne_snapshot (k : Nat) :
    (sender.row k).1 ≠ vectorClockSnapshotKey sender.tenantId sender.repoId := by
  have different := OpLogRepository.buildOperationKey_ne_snapshot (sender.op k)
  rw [sender.tenant, sender.repo] at different
  exact different

/-! ## What a receiver can hold -/

variable (sender) in
/-- Behind the snapshot the log has rows of the sender only, none above the snapshot entry. -/
structure Received (log : OpLogRepository) (clock : VectorClock) : Prop where
  snapshot : log.getVectorClockSnapshot sender.tenantId sender.repoId = .ok clock
  rows : ∀ row ∈ log.db.rows,
    row.1 ≠ vectorClockSnapshotKey sender.tenantId sender.repoId →
      ∃ k, 1 ≤ k ∧ k ≤ sender.count ∧ k ≤ clock.get sender.nodeId ∧ row = sender.row k

theorem Received.new : sender.Received .new .new where
  snapshot := rfl
  rows row hrow := by cases hrow

/-- Under the key of a readable snapshot there is no operation. -/
theorem Received.operation_key {log : OpLogRepository} {clock : VectorClock}
    (received : sender.Received log clock) {key : Key} {op : Operation}
    (hrow : (key, OplogValue.operation op) ∈ log.db.rows) :
    key ≠ vectorClockSnapshotKey sender.tenantId sender.repoId := by
  rintro rfl
  have readable := received.snapshot
  rw [OpLogRepository.getVectorClockSnapshot, OrderedStore.get_eq_some_iff.mpr hrow] at readable
  cases readable

theorem Received.stored_iff {log : OpLogRepository} {clock : VectorClock}
    (received : sender.Received log clock) (k : Nat) :
    sender.Stored ⟨log⟩ k ↔ sender.row k ∈ log.db.rows := by
  rw [Stored, OpLogRepository.mem_repoOps]
  constructor
  · rintro ⟨⟨key, hrow⟩, _⟩
    obtain ⟨j, _, _, _, shape⟩ := received.rows _ hrow (received.operation_key hrow)
    have same : sender.op k = sender.op j :=
      OplogValue.operation.inj (congrArg Prod.snd shape)
    rw [op_injective same, ← shape]
    exact hrow
  · exact fun hrow => ⟨⟨_, hrow⟩, sender.tenant k, sender.repo k⟩

theorem Received.readsOwn {log : OpLogRepository} {clock : VectorClock}
    (received : sender.Received log clock) :
    log.ReadsOwn sender.tenantId sender.repoId := by
  intro row hrow
  by_cases snapshot : row.1 = vectorClockSnapshotKey sender.tenantId sender.repoId
  · refine ⟨fun scanned => absurd snapshot scanned.2.2, fun own => ?_⟩
    obtain ⟨op, found⟩ := Option.isSome_iff_exists.mp own
    obtain ⟨key, value⟩ := row
    obtain rfl := (value_of_ownOp found).1
    exact absurd snapshot (received.operation_key hrow)
  · obtain ⟨k, _, _, _, rfl⟩ := received.rows row hrow snapshot
    have scanned := OpLogRepository.scanned_own (sender.op k)
    rw [sender.tenant, sender.repo] at scanned
    refine ⟨fun _ => ?_, fun _ => scanned⟩
    simp [row, OplogRow.entry, ownOp, sender.tenant, sender.repo]

variable (sender) in
/-- What a batch of the sender's operations does to a log. -/
structure Advanced (before after : OpLogRepository) (numbers : List Nat)
    (clock final : VectorClock) : Prop where
  received : sender.Received after final
  rows : ∀ k, sender.row k ∈ after.db.rows ↔ k ∈ numbers ∨ sender.row k ∈ before.db.rows
  mono : clock.get sender.nodeId ≤ final.get sender.nodeId
  covered : ∀ k ∈ numbers, k ≤ final.get sender.nodeId
  origin : final.get sender.nodeId = clock.get sender.nodeId ∨
    final.get sender.nodeId ∈ numbers

theorem Received.advance {before after : OpLogRepository} {clock final : VectorClock}
    (received : sender.Received before clock) (numbers : List Nat)
    (inRange : ∀ k ∈ numbers, 1 ≤ k ∧ k ≤ sender.count)
    (written : BatchWritten sender.tenantId sender.repoId (numbers.map sender.op) before after
      clock final) :
    sender.Advanced before after numbers clock final := by
  have covered : ∀ k ∈ numbers, k ≤ final.get sender.nodeId := by
    intro k hk
    have reached := written.covered _ (mem_map_of_mem hk)
    rw [sender.numbered, sender.node] at reached
    exact reached
  refine ⟨⟨written.snapshot, fun row hrow other => ?_⟩, fun k => ?_, written.raised.mono _,
    covered, ?_⟩
  · rcases (written.rows row other).mp hrow with ⟨op, hop, rfl⟩ | ⟨old, _⟩
    · obtain ⟨k, hk, rfl⟩ := mem_map.mp hop
      obtain ⟨positive, bounded⟩ := inRange k hk
      exact ⟨k, positive, bounded, covered k hk, rfl⟩
    · obtain ⟨k, positive, bounded, below, shape⟩ := received.rows row old other
      exact ⟨k, positive, bounded, below.trans (written.raised.mono _), shape⟩
  · rw [written.rows _ (row_key_ne_snapshot k)]
    constructor
    · rintro (⟨op, hop, same⟩ | ⟨old, _⟩)
      · obtain ⟨j, hj, rfl⟩ := mem_map.mp hop
        rw [row_injective same]
        exact Or.inl hj
      · exact Or.inr old
    · rintro (hk | old)
      · exact Or.inl ⟨_, mem_map_of_mem hk, rfl⟩
      · by_cases hk : k ∈ numbers
        · exact Or.inl ⟨_, mem_map_of_mem hk, rfl⟩
        · refine Or.inr ⟨old, fun op hop same => hk ?_⟩
          obtain ⟨j, hj, rfl⟩ := mem_map.mp hop
          obtain ⟨i, _, bounded, _, shape⟩ := received.rows _ old (row_key_ne_snapshot k)
          obtain rfl := row_injective shape
          rw [key_injective bounded (inRange j hj).2 same]
          exact hj
  · rcases written.raised.origin sender.nodeId with same | ⟨op, hop, _, reached⟩
    · exact Or.inl same
    · obtain ⟨j, hj, rfl⟩ := mem_map.mp hop
      rw [sender.numbered] at reached
      rw [reached]
      exact Or.inr hj

theorem keysIdentify (push : Push sender) : KeysIdentify push.ops := by
  intro a ha b hb same
  obtain ⟨k, hk, rfl⟩ := mem_map.mp ha
  obtain ⟨j, hj, rfl⟩ := mem_map.mp hb
  rw [key_injective (push.inRange k hk).2 (push.inRange j hj).2 same]

theorem Received.push {log : OpLogRepository} {clock : VectorClock}
    (received : sender.Received log clock) (push : Push sender) :
    ∃ final, sender.Advanced log
      (sender.pushMachine.step ⟨log⟩ push).1.oplogRepo push.numbers clock final := by
  have scope : ∀ op ∈ push.ops, op.tenantId = sender.tenantId ∧ op.repoId = sender.repoId := by
    intro op hop
    obtain ⟨k, _, rfl⟩ := mem_map.mp hop
    exact ⟨sender.tenant k, sender.repo k⟩
  obtain ⟨final, done, written⟩ := putOperationsBatch_spec ⟨log⟩ scope (keysIdentify push)
    received.snapshot
  have step : (sender.pushMachine.step ⟨log⟩ push).1 =
      (RocksDbOperationLogStorage.putOperationsBatch ⟨log⟩ push.ops).1 :=
    RocksDbOperationLogStorage.handlePushOperations_fst _ _
  rw [step]
  exact ⟨final, received.advance push.numbers push.inRange written⟩

/-! ## The sender's own log -/

theorem capture_range (bound : Nat) (hbound : bound ≤ sender.count) :
    ∃ clock,
      sender.Received
        ((range' 1 bound).foldl (fun log k => (log.appendCaptured (sender.op k)).1) .new) clock ∧
      ∀ k, 1 ≤ k → k ≤ bound → sender.row k ∈
        ((range' 1 bound).foldl (fun log k => (log.appendCaptured (sender.op k)).1)
          OpLogRepository.new).db.rows := by
  induction bound with
  | zero => exact ⟨.new, Received.new, fun k positive below => by omega⟩
  | succ bound ih =>
      obtain ⟨clock, received, stored⟩ := ih (Nat.le_of_succ_le hbound)
      rw [range'_concat, foldl_append, one_mul]
      generalize foldl _ OpLogRepository.new (range' 1 bound) = log at received stored ⊢
      obtain ⟨final, _, written⟩ := appendCaptured_spec (sender.op (1 + bound))
        (sender.tenant (1 + bound)) (sender.repo (1 + bound)) received.snapshot
      have advanced := received.advance [1 + bound]
        (forall_mem_singleton.mpr ⟨by omega, by omega⟩) written
      refine ⟨final, advanced.received, fun k positive below => ?_⟩
      rw [foldl_cons, foldl_nil, advanced.rows]
      rcases Nat.lt_or_ge k (bound + 1) with lower | top
      · exact Or.inr (stored k positive (Nat.le_of_lt_succ lower))
      · exact Or.inl (mem_singleton.mpr (by omega))

/-- A pull returns the operations above the snapshot entry. -/
theorem log_getMissingOperations (sender : Sender) (clock : VectorClock) :
    ∃ missing, sender.log.getMissingOperations sender.tenantId sender.repoId clock none =
        .ok missing ∧
      ∀ k, 1 ≤ k → k ≤ sender.count →
        (sender.op k ∈ missing ↔ clock.get sender.nodeId < k) := by
  obtain ⟨_, received, stored⟩ := sender.capture_range sender.count le_rfl
  refine ⟨_, received.readsOwn.getMissingOperations clock, fun k positive bounded => ?_⟩
  rw [mem_filter, decide_eq_true_iff, sender.node, sender.numbered]
  have own := (received.stored_iff k).mpr (stored k positive bounded)
  exact ⟨And.right, fun above => ⟨own, above⟩⟩

/-! ## Runs -/

/-- The snapshot entry counts stored operations only. -/
def Complete (sender : Sender) (log : OpLogRepository) (clock : VectorClock) : Prop :=
  ∀ k, 1 ≤ k → k ≤ sender.count → k ≤ clock.get sender.nodeId → sender.row k ∈ log.db.rows

theorem Received.nothingLost_iff {log : OpLogRepository} {clock : VectorClock}
    (received : sender.Received log clock) :
    sender.NothingLost ⟨log⟩ ↔ sender.Complete log clock := by
  constructor
  · rintro ⟨other, readable, stored, _⟩ k positive bounded below
    obtain rfl : other = clock := Except.ok.inj (readable.symm.trans received.snapshot)
    exact (received.stored_iff k).mp (stored k positive bounded below)
  · intro complete
    obtain ⟨missing, pulled, returned⟩ := log_getMissingOperations sender clock
    have stored : ∀ k, 1 ≤ k → k ≤ sender.count → k ≤ clock.get sender.nodeId →
        sender.Stored ⟨log⟩ k := fun k positive bounded below =>
      (received.stored_iff k).mpr (complete k positive bounded below)
    refine ⟨clock, received.snapshot, stored, missing, pulled, fun k positive bounded lost => ?_⟩
    rw [returned k positive bounded]
    by_contra covered
    exact lost (stored k positive bounded (not_lt.mp covered))

theorem Received.gapFree_iff {log : OpLogRepository} {clock : VectorClock}
    (received : sender.Received log clock) (push : Push sender) :
    sender.GapFree ⟨log⟩ push ↔
      ∀ k ∈ push.numbers, ∀ j, clock.get sender.nodeId < j → j ≤ k → j ∈ push.numbers := by
  constructor
  · rintro ⟨other, readable, closed⟩
    obtain rfl : other = clock := Except.ok.inj (readable.symm.trans received.snapshot)
    exact closed
  · exact fun closed => ⟨clock, received.snapshot, closed⟩

/-- A push without a gap keeps the snapshot complete. -/
theorem Advanced.complete {before after : OpLogRepository} {clock final : VectorClock}
    {numbers : List Nat}
    (advanced : sender.Advanced before after numbers clock final)
    (complete : sender.Complete before clock)
    (closed : ∀ k ∈ numbers, ∀ j, clock.get sender.nodeId < j → j ≤ k → j ∈ numbers) :
    sender.Complete after final := by
  intro k positive bounded below
  rw [advanced.rows]
  rcases Nat.lt_or_ge (clock.get sender.nodeId) k with above | covered
  · rcases advanced.origin with same | top
    · exact absurd (same ▸ below) (not_le.mpr above)
    · exact Or.inl (closed _ top k above below)
  · exact Or.inr (complete k positive bounded covered)

/-- When the snapshot is complete after a push, the push had no gap. -/
theorem Advanced.closed {before after : OpLogRepository} {clock final : VectorClock}
    {numbers : List Nat} (received : sender.Received before clock)
    (inRange : ∀ k ∈ numbers, 1 ≤ k ∧ k ≤ sender.count)
    (advanced : sender.Advanced before after numbers clock final)
    (complete : sender.Complete after final) :
    ∀ k ∈ numbers, ∀ j, clock.get sender.nodeId < j → j ≤ k → j ∈ numbers := by
  intro k hk j above below
  have stored := complete j (Nat.one_le_of_lt above) (below.trans (inRange k hk).2)
    (below.trans (advanced.covered k hk))
  rcases (advanced.rows j).mp stored with here | old
  · exact here
  · obtain ⟨i, _, _, bounded, shape⟩ := received.rows _ old (row_key_ne_snapshot j)
    obtain rfl := row_injective shape
    exact absurd bounded (not_le.mpr above)

theorem received_final (pushes : List (Push sender)) {log : OpLogRepository} {clock : VectorClock}
    (received : sender.Received log clock) :
    ∃ final, sender.Received (sender.pushMachine.final ⟨log⟩ pushes).oplogRepo final := by
  induction pushes generalizing log clock with
  | nil => exact ⟨clock, received⟩
  | cons push rest ih =>
      obtain ⟨final, advanced⟩ := received.push push
      exact ih advanced.received

end Sender

/-- Nothing is lost along a run of pushes exactly when no push leaves a gap behind the
snapshot that it finds. -/
theorem pushes_lose_nothing_iff (sender : Sender) (pushes : List (Push sender)) :
    (∀ early late, pushes = early ++ late →
      sender.NothingLost (sender.pushMachine.final ⟨.new⟩ early)) ↔
    ∀ transition ∈ sender.pushMachine.transitions ⟨.new⟩ pushes,
      sender.GapFree transition.before transition.event := by
  constructor
  · intro kept transition hmem
    obtain ⟨early, push, late, rfl, rfl⟩ := sender.pushMachine.mem_transitions_iff.mp hmem
    obtain ⟨clock, received⟩ := sender.received_final early Sender.Received.new
    obtain ⟨final, advanced⟩ := received.push push
    have after := kept (early ++ [push]) late (by rw [append_assoc, singleton_append])
    rw [sender.pushMachine.final_append] at after
    exact (received.gapFree_iff push).mpr (Sender.Advanced.closed received push.inRange advanced
      (advanced.received.nothingLost_iff.mp after))
  · rintro closed early late rfl
    rw [sender.pushMachine.transitions_append] at closed
    have start : ∃ clock, sender.Received OpLogRepository.new clock ∧
        sender.Complete OpLogRepository.new clock :=
      ⟨.new, Sender.Received.new, fun k positive _ below =>
        absurd (VectorClock.get_new sender.nodeId ▸ positive.trans below) (by decide)⟩
    obtain ⟨clock, received, complete⟩ := sender.pushMachine.final_invariant
      (fun storage => ∃ clock, sender.Received storage.oplogRepo clock ∧
        sender.Complete storage.oplogRepo clock) sender.GapFree
      (by
        rintro storage push ⟨clock, received, complete⟩ ok
        obtain ⟨final, advanced⟩ := received.push push
        exact ⟨final, advanced.received,
          advanced.complete complete ((received.gapFree_iff push).mp ok)⟩)
      start (fun transition hmem => closed transition (mem_append_left _ hmem))
    exact received.nothingLost_iff.mpr complete

theorem two_fits : 2 < 2 ^ 64 := by decide

/-- A sender with two operations. -/
def pairSender : Sender where
  tenantId := "tenant1"
  repoId := "repo1"
  nodeId := "node1"
  count := 2
  op k := makeOp (BitVec.ofNat 128 k) "node1" k [("node1", k)] (.updateBranch ⟨"main"⟩)
  small := two_fits
  tenant _ := rfl
  repo _ := rfl
  node _ := rfl
  numbered k := by rw [makeOp, VectorClock.get_ofEntries_singleton]
  counted k := by rw [makeOp, VectorClock.get_ofEntries_singleton]

/-- The second operation without the first. -/
def secondPush : Push pairSender := ⟨[2], by decide⟩

/-- When the first push is dropped, the second one moves the snapshot past it. -/
theorem dropped_push_is_lost :
    ¬ ∀ (sender : Sender) (pushes early late : List (Push sender)), pushes = early ++ late →
      sender.NothingLost (sender.pushMachine.final ⟨.new⟩ early) := by
  intro claim
  obtain ⟨final, advanced⟩ := Sender.Received.new.push secondPush
  have kept := claim pairSender [secondPush] [secondPush] [] rfl
  have complete := advanced.received.nothingLost_iff.mp kept
  have first := Sender.Advanced.closed Sender.Received.new secondPush.inRange advanced complete 2
    mem_cons_self 1 (by decide) (by decide)
  exact absurd (mem_singleton.mp first) (by decide)

end RaisinDB.Oplog
