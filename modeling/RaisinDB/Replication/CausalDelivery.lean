import RaisinDB.Foundation.HashGroups
import RaisinDB.Foundation.Machine
import RaisinDB.Foundation.SliceSort
import RaisinDB.Replication.Operation

/-!
# The causal delivery buffer

An operation is held back until the local clock has counted what it depends on
and its own counter is the next one of its node.  Each delivery may release
buffered operations; the released ones are sorted before they are returned.
-/

namespace RaisinDB.Replication

open RaisinDB.Foundation List

/-- The counter an operation carries for its own node. -/
def Operation.ownCounter (op : Operation) : Nat := op.vectorClock.get op.clusterNodeId

/-- Unchecked `u64` decrement. -/
def predU64 (counter : Nat) : Nat := if counter = 0 then 2 ^ 64 - 1 else counter - 1

/-- A buffered operation with the nodes it waited for when it came. -/
abbrev BufferedEntry := Sigma fun _ : Uuid => Operation × Finset String

structure CausalDeliveryBuffer where
  bufferedOps : AList (fun _ : Uuid => Operation × Finset String)
  localVc : VectorClock
  /-- Operations are stored under their own ids. -/
  keyed : ∀ entry ∈ bufferedOps.entries, entry.2.1.opId = entry.1

/-- What one call leaves to the library: the sort and the order of the hash map. -/
structure DeliveryRuntime where
  sorter : SliceSort Operation
  buffered : HashOrder BufferedEntry

/-- The order in which released operations are returned. -/
def compareDelivery (a b : Operation) : Ordering :=
  if a.vectorClock.happensBefore b.vectorClock then .lt
  else if a.vectorClock.happensAfter b.vectorClock then .gt
  else compare a.timestampMs b.timestampMs

namespace CausalDeliveryBuffer

def new (initialVc : VectorClock) : CausalDeliveryBuffer :=
  ⟨∅, initialVc, fun entry hmem => by cases hmem⟩

def dependenciesSatisfied (self : CausalDeliveryBuffer) (op : Operation) : Bool :=
  decide (∀ node ∈ op.vectorClock.clock.keys,
    if node = op.clusterNodeId then
      self.localVc.get node = predU64 (op.vectorClock.get node)
    else op.vectorClock.get node ≤ self.localVc.get node)

/-- The nodes of whose history the clock has not counted enough. -/
def dependsOn (self : CausalDeliveryBuffer) (op : Operation) : Finset String :=
  op.vectorClock.clock.keys.filter fun node =>
    self.localVc.get node < op.vectorClock.get node

def bufferOperation (self : CausalDeliveryBuffer) (op : Operation) : CausalDeliveryBuffer where
  bufferedOps := self.bufferedOps.insert op.opId (op, self.dependsOn op)
  localVc := self.localVc
  keyed entry hmem := by
    rw [AList.entries_insert] at hmem
    rcases mem_cons.mp hmem with rfl | old
    · rfl
    · exact self.keyed entry ((kerase_sublist _ _).subset old)

def remove (self : CausalDeliveryBuffer) (opId : Uuid) : CausalDeliveryBuffer where
  bufferedOps := self.bufferedOps.erase opId
  localVc := self.localVc
  keyed entry hmem := self.keyed entry ((kerase_sublist _ _).subset hmem)

def updateLocalClock (self : CausalDeliveryBuffer) (op : Operation) : CausalDeliveryBuffer :=
  { self with localVc := self.localVc.merge op.vectorClock }

def readyOps (hash : HashOrder BufferedEntry) (self : CausalDeliveryBuffer) : List Uuid :=
  ((hash.order self.bufferedOps.entries).filter fun entry =>
    self.dependenciesSatisfied entry.2.1).map Sigma.fst

/-- The buffer, the operations released so far and the flag of the current round. -/
structure Cascade where
  buffer : CausalDeliveryBuffer
  deliverable : List Operation
  deliveredAny : Bool

def deliverReady (cascade : Cascade) (opId : Uuid) : Cascade :=
  match cascade.buffer.bufferedOps.lookup opId with
  | some (op, _) =>
      { buffer := (cascade.buffer.remove opId).updateLocalClock op
        deliverable := cascade.deliverable ++ [op]
        deliveredAny := true }
  | none => cascade

/-- The rounds of the release loop, at most `fuel` of them. -/
def releaseRounds (hash : HashOrder BufferedEntry) : Nat → Cascade → Cascade
  | 0, cascade => cascade
  | fuel + 1, cascade =>
      let ready := readyOps hash cascade.buffer
      if ready.isEmpty then cascade
      else
        let next := ready.foldl deliverReady { cascade with deliveredAny := false }
        if next.deliveredAny then releaseRounds hash fuel next else next

/-- Every round that goes on empties the buffer by one or more, which bounds the rounds. -/
def checkBufferedOps (runtime : DeliveryRuntime) (self : CausalDeliveryBuffer) :
    CausalDeliveryBuffer × List Operation :=
  let cascade :=
    releaseRounds runtime.buffered (self.bufferedOps.keys.length + 1) ⟨self, [], false⟩
  (cascade.buffer, runtime.sorter.sortBy compareDelivery cascade.deliverable)

def deliver (runtime : DeliveryRuntime) (self : CausalDeliveryBuffer) (op : Operation) :
    CausalDeliveryBuffer × List Operation :=
  if self.dependenciesSatisfied op then
    let (after, released) := (self.updateLocalClock op).checkBufferedOps runtime
    (after, op :: released)
  else (self.bufferOperation op).checkBufferedOps runtime

/-- The operations in the buffer. -/
def waiting (self : CausalDeliveryBuffer) : List Operation :=
  self.bufferedOps.entries.map fun entry => entry.2.1

end CausalDeliveryBuffer

/-! ## Readiness -/

/-- The clock has counted everything before the operation and nothing from it on. -/
structure Ready (clock : VectorClock) (op : Operation) : Prop where
  next : op.ownCounter = clock.get op.clusterNodeId + 1
  others : ∀ node, node ≠ op.clusterNodeId → op.vectorClock.get node ≤ clock.get node

theorem dependenciesSatisfied_iff {buffer : CausalDeliveryBuffer} {op : Operation}
    (positive : 0 < op.ownCounter) :
    buffer.dependenciesSatisfied op ↔ Ready buffer.localVc op := by
  unfold CausalDeliveryBuffer.dependenciesSatisfied
  rw [decide_eq_true_iff]
  have own : predU64 op.ownCounter = op.ownCounter - 1 := if_neg (by omega)
  constructor
  · intro satisfied
    constructor
    · have here := satisfied op.clusterNodeId (VectorClock.mem_keys_of_get_pos positive)
      rw [if_pos rfl] at here
      change _ = predU64 op.ownCounter at here
      omega
    · intro node other
      by_cases present : node ∈ op.vectorClock.clock.keys
      · have here := satisfied node present
        rwa [if_neg other] at here
      · rw [VectorClock.get_eq_zero_of_notMem present]
        exact Nat.zero_le _
  · intro ready node _
    split
    · rename_i same
      rw [same]
      change _ = predU64 op.ownCounter
      have := ready.next
      omega
    · rename_i other
      exact ready.others node other

namespace Ready

/-- Counting a ready operation moves the clock at its own node only. -/
theorem get_merge {clock : VectorClock} {op : Operation} (ready : Ready clock op)
    (node : String) :
    (clock.merge op.vectorClock).get node =
      if node = op.clusterNodeId then op.ownCounter else clock.get node := by
  rw [VectorClock.get_merge]
  split
  · rename_i same
    subst same
    have := ready.next
    change max _ op.ownCounter = op.ownCounter
    omega
  · rename_i other
    exact max_eq_left (ready.others node other)

/-- Operations of different nodes that are ready together stay ready. -/
theorem merge {clock : VectorClock} {first second : Operation} (ready : Ready clock first)
    (other : Ready clock second) (apart : first.clusterNodeId ≠ second.clusterNodeId) :
    Ready (clock.merge first.vectorClock) second where
  next := by
    rw [ready.get_merge, if_neg (Ne.symm apart)]
    exact other.next
  others node hne := (other.others node hne).trans (VectorClock.le_merge clock first.vectorClock node)

/-- Whatever happens before a ready operation has been counted, unless it is a twin. -/
theorem counted_of_before {clock : VectorClock} {early late : Operation}
    (ready : Ready clock late)
    (before : early.vectorClock.compare late.vectorClock = .before)
    (apart : early.clusterNodeId = late.clusterNodeId → early.ownCounter ≠ late.ownCounter) :
    early.ownCounter ≤ clock.get early.clusterNodeId := by
  have below := ((VectorClock.compare_eq_before_iff _ _).mp before).1 early.clusterNodeId
  by_cases same : early.clusterNodeId = late.clusterNodeId
  · have different := apart same
    have next := ready.next
    rw [same] at below
    have own : early.ownCounter ≤ late.ownCounter := by
      unfold Operation.ownCounter
      rw [same]
      exact below
    rw [same]
    omega
  · exact below.trans (ready.others early.clusterNodeId same)

end Ready

/-! ## Releasing buffered operations -/

namespace CausalDeliveryBuffer

/-- Remove an operation from the buffer and count it. -/
def release (self : CausalDeliveryBuffer) (op : Operation) : CausalDeliveryBuffer :=
  (self.remove op.opId).updateLocalClock op

theorem mem_waiting {self : CausalDeliveryBuffer} {op : Operation} :
    op ∈ self.waiting ↔ ∃ deps, self.bufferedOps.lookup op.opId = some (op, deps) := by
  constructor
  · intro hmem
    obtain ⟨⟨opId, stored, deps⟩, hentry, rfl⟩ := mem_map.mp hmem
    have key := self.keyed _ hentry
    dsimp only at key ⊢
    exact ⟨deps, by rw [key]; exact AList.mem_lookup_iff.mpr hentry⟩
  · rintro ⟨deps, found⟩
    exact mem_map.mpr ⟨⟨op.opId, op, deps⟩, AList.mem_lookup_iff.mp found, rfl⟩

@[simp] theorem mem_waiting_new (clock : VectorClock) (op : Operation) :
    op ∉ (new clock).waiting := by
  simp [new, waiting]

@[simp] theorem localVc_updateLocalClock (self : CausalDeliveryBuffer) (op : Operation) :
    (self.updateLocalClock op).localVc = self.localVc.merge op.vectorClock := rfl

@[simp] theorem localVc_release (self : CausalDeliveryBuffer) (op : Operation) :
    (self.release op).localVc = self.localVc.merge op.vectorClock := rfl

theorem mem_waiting_bufferOperation {self : CausalDeliveryBuffer} {op query : Operation} :
    query ∈ (self.bufferOperation op).waiting ↔
      query = op ∨ (query ∈ self.waiting ∧ query.opId ≠ op.opId) := by
  rw [mem_waiting, mem_waiting]
  change (∃ deps, (self.bufferedOps.insert op.opId (op, self.dependsOn op)).lookup query.opId =
    some (query, deps)) ↔ _
  by_cases same : query.opId = op.opId
  · rw [same, AList.lookup_insert]
    constructor
    · rintro ⟨deps, found⟩
      exact Or.inl (Prod.mk.inj (Option.some.inj found)).1.symm
    · rintro (rfl | ⟨_, different⟩)
      · exact ⟨_, rfl⟩
      · exact absurd rfl different
  · rw [AList.lookup_insert_ne same]
    constructor
    · intro found
      exact Or.inr ⟨found, same⟩
    · rintro (rfl | ⟨found, _⟩)
      · exact absurd rfl same
      · exact found

theorem mem_waiting_release {self : CausalDeliveryBuffer} {op query : Operation} :
    query ∈ (self.release op).waiting ↔ query ∈ self.waiting ∧ query.opId ≠ op.opId := by
  rw [mem_waiting, mem_waiting]
  change (∃ deps, (self.bufferedOps.erase op.opId).lookup query.opId = some (query, deps)) ↔ _
  by_cases same : query.opId = op.opId
  · rw [same, AList.lookup_erase]
    simp
  · rw [AList.lookup_erase_ne same]
    simp [same]

theorem waiting_release_subset (self : CausalDeliveryBuffer) (op : Operation) :
    (self.release op).waiting ⊆ self.waiting :=
  fun _ hmem => (mem_waiting_release.mp hmem).1

theorem size_release {self : CausalDeliveryBuffer} {op : Operation} (hop : op ∈ self.waiting) :
    (self.release op).bufferedOps.keys.length + 1 = self.bufferedOps.keys.length := by
  obtain ⟨deps, found⟩ := mem_waiting.mp hop
  have present : op.opId ∈ self.bufferedOps.keys := by
    rw [← AList.mem_keys, ← AList.lookup_isSome, found]
    rfl
  change (self.bufferedOps.erase op.opId).keys.length + 1 = _
  rw [AList.keys_erase]
  exact length_erase_add_one present

end CausalDeliveryBuffer

/-- No two operations share a node and a counter of that node. -/
def TwinFree (ops : List Operation) : Prop :=
  ∀ a ∈ ops, ∀ b ∈ ops, a.clusterNodeId = b.clusterNodeId → a.ownCounter = b.ownCounter → a = b

instance (ops : List Operation) : Decidable (TwinFree ops) := by
  unfold TwinFree
  infer_instance

theorem TwinFree.subset {small large : List Operation} (twinFree : TwinFree large)
    (inside : small ⊆ large) : TwinFree small :=
  fun a ha b hb => twinFree a (inside ha) b (inside hb)

/-- Buffered operations leave one by one, each of them ready at its turn. -/
inductive Releases : CausalDeliveryBuffer → List Operation → CausalDeliveryBuffer → Prop
  | done (buffer : CausalDeliveryBuffer) : Releases buffer [] buffer
  | next {buffer after : CausalDeliveryBuffer} {op : Operation} {rest : List Operation}
      (present : op ∈ buffer.waiting) (ready : Ready buffer.localVc op)
      (later : Releases (buffer.release op) rest after) : Releases buffer (op :: rest) after

namespace Releases

variable {buffer middle after : CausalDeliveryBuffer} {early late released : List Operation}

theorem trans (first : Releases buffer early middle) (second : Releases middle late after) :
    Releases buffer (early ++ late) after := by
  induction first with
  | done => exact second
  | next present ready _ ih => exact .next present ready (ih second)

theorem size (releases : Releases buffer released after) :
    after.bufferedOps.keys.length + released.length = buffer.bufferedOps.keys.length := by
  induction releases with
  | done => rfl
  | next present _ _ ih =>
    rw [← CausalDeliveryBuffer.size_release present, length_cons, ← ih]
    omega

theorem waiting_subset (releases : Releases buffer released after) :
    after.waiting ⊆ buffer.waiting := by
  induction releases with
  | done => exact Subset.refl _
  | next _ _ _ ih => exact Subset.trans ih (CausalDeliveryBuffer.waiting_release_subset _ _)

theorem released_subset (releases : Releases buffer released after) :
    released ⊆ buffer.waiting := by
  induction releases with
  | done => exact nil_subset _
  | next present _ _ ih =>
    refine cons_subset.mpr ⟨present, ?_⟩
    exact Subset.trans ih (CausalDeliveryBuffer.waiting_release_subset _ _)

theorem clock_mono (releases : Releases buffer released after) (node : String) :
    buffer.localVc.get node ≤ after.localVc.get node := by
  induction releases with
  | done => exact le_refl _
  | next _ _ _ ih => exact (VectorClock.le_merge _ _ node).trans ih

end Releases

/-! ## The release loop -/

namespace CausalDeliveryBuffer

/-- What the loop needs of a buffer: own counters that count, and no twins. -/
structure Proper (buffer : CausalDeliveryBuffer) : Prop where
  positive : ∀ op ∈ buffer.waiting, 0 < op.ownCounter
  twinFree : TwinFree buffer.waiting

theorem Proper.of_subset {large small : CausalDeliveryBuffer} (proper : large.Proper)
    (inside : small.waiting ⊆ large.waiting) : small.Proper :=
  ⟨fun op hop => proper.positive op (inside hop), proper.twinFree.subset inside⟩

/-- No operation in the buffer is ready. -/
def Settled (self : CausalDeliveryBuffer) : Prop :=
  ∀ op ∈ self.waiting, ¬ Ready self.localVc op

theorem nodup_readyOps (hash : HashOrder BufferedEntry) (self : CausalDeliveryBuffer) :
    (readyOps hash self).Nodup := by
  have keys : ((hash.order self.bufferedOps.entries).map Sigma.fst).Nodup :=
    ((hash.perm _).map Sigma.fst).nodup_iff.mpr self.bufferedOps.keys_nodup
  exact keys.sublist (filter_sublist.map Sigma.fst)

theorem mem_readyOps {hash : HashOrder BufferedEntry} {self : CausalDeliveryBuffer}
    (positive : ∀ op ∈ self.waiting, 0 < op.ownCounter) {opId : Uuid} :
    opId ∈ readyOps hash self ↔
      ∃ op, op.opId = opId ∧ op ∈ self.waiting ∧ Ready self.localVc op := by
  simp only [readyOps, mem_map, mem_filter, hash.mem_order]
  constructor
  · rintro ⟨⟨key, op, deps⟩, ⟨hentry, satisfied⟩, rfl⟩
    have hop : op ∈ self.waiting := mem_map.mpr ⟨_, hentry, rfl⟩
    exact ⟨op, self.keyed _ hentry, hop, (dependenciesSatisfied_iff (positive op hop)).mp satisfied⟩
  · rintro ⟨op, rfl, hop, ready⟩
    obtain ⟨deps, found⟩ := mem_waiting.mp hop
    exact ⟨⟨op.opId, op, deps⟩, ⟨AList.mem_lookup_iff.mp found,
      (dependenciesSatisfied_iff (positive op hop)).mpr ready⟩, rfl⟩

theorem deliverReady_of_waiting {cascade : Cascade} {op : Operation}
    (hop : op ∈ cascade.buffer.waiting) :
    deliverReady cascade op.opId =
      ⟨cascade.buffer.release op, cascade.deliverable ++ [op], true⟩ := by
  obtain ⟨deps, found⟩ := mem_waiting.mp hop
  rw [deliverReady, found]
  rfl

/-- One round releases every operation found ready at its start. -/
theorem foldl_deliverReady {ready : List Uuid} (distinct : ready.Nodup) (cascade : Cascade)
    (proper : cascade.buffer.Proper)
    (allReady : ∀ opId ∈ ready, ∃ op, op.opId = opId ∧ op ∈ cascade.buffer.waiting ∧
      Ready cascade.buffer.localVc op) :
    ∃ released, Releases cascade.buffer released (ready.foldl deliverReady cascade).buffer ∧
      (ready.foldl deliverReady cascade).deliverable = cascade.deliverable ++ released ∧
      released.length = ready.length ∧
      (ready ≠ [] → (ready.foldl deliverReady cascade).deliveredAny = true) := by
  induction ready generalizing cascade with
  | nil => exact ⟨[], .done _, (append_nil _).symm, rfl, fun absurd => (absurd rfl).elim⟩
  | cons opId rest ih =>
    obtain ⟨fresh, distinctRest⟩ := nodup_cons.mp distinct
    obtain ⟨⟨op, rfl, hop, ready⟩, later⟩ := forall_mem_cons.mp allReady
    rw [foldl_cons, deliverReady_of_waiting hop]
    have stillReady : ∀ other ∈ rest, ∃ next, next.opId = other ∧
        next ∈ (cascade.buffer.release op).waiting ∧
        Ready (cascade.buffer.release op).localVc next := by
      intro other hother
      obtain ⟨next, rfl, hnext, readyNext⟩ := later other hother
      have different : next.opId ≠ op.opId := fun same => fresh (same ▸ hother)
      refine ⟨next, rfl, mem_waiting_release.mpr ⟨hnext, different⟩,
        ready.merge readyNext fun sameNode => different ?_⟩
      -- two ready operations of one node carry the same counter
      have sameCounter : op.ownCounter = next.ownCounter := by
        rw [ready.next, readyNext.next, sameNode]
      rw [proper.twinFree op hop next hnext sameNode sameCounter]
    obtain ⟨released, releases, deliverable, count, flag⟩ :=
      ih distinctRest ⟨cascade.buffer.release op, cascade.deliverable ++ [op], true⟩
        (proper.of_subset (waiting_release_subset _ op)) stillReady
    refine ⟨op :: released, .next hop ready releases, ?_, ?_, fun _ => ?_⟩
    · rw [deliverable, append_assoc, singleton_append]
    · rw [length_cons, length_cons, count]
    · cases rest with
      | nil => rfl
      | cons => exact flag (cons_ne_nil _ _)

/-- With enough fuel the loop stops only when nothing in the buffer is ready. -/
theorem releaseRounds_spec (hash : HashOrder BufferedEntry) {fuel : Nat} (cascade : Cascade)
    (enough : cascade.buffer.bufferedOps.keys.length < fuel) (proper : cascade.buffer.Proper) :
    ∃ released, Releases cascade.buffer released (releaseRounds hash fuel cascade).buffer ∧
      (releaseRounds hash fuel cascade).deliverable = cascade.deliverable ++ released ∧
      (releaseRounds hash fuel cascade).buffer.Settled := by
  induction fuel generalizing cascade with
  | zero => exact absurd enough (Nat.not_lt_zero _)
  | succ fuel ih =>
    have membership := @mem_readyOps hash cascade.buffer proper.positive
    unfold releaseRounds
    dsimp only
    split
    · rename_i none
      rw [List.isEmpty_iff] at none
      refine ⟨[], .done _, (append_nil _).symm, fun op hop ready => ?_⟩
      have hmem := membership.mpr ⟨op, rfl, hop, ready⟩
      rw [none] at hmem
      cases hmem
    · rename_i some
      have nonempty : readyOps hash cascade.buffer ≠ [] := by simpa using some
      obtain ⟨early, releases, deliverable, count, flag⟩ :=
        foldl_deliverReady (nodup_readyOps hash cascade.buffer)
          { cascade with deliveredAny := false } proper fun opId hmem => membership.mp hmem
      rw [if_pos (flag nonempty)]
      have shrunk := releases.size
      have positive : 0 < early.length := by
        rw [count]
        exact length_pos_of_ne_nil nonempty
      obtain ⟨late, releasesLate, deliverableLate, settled⟩ :=
        ih ((readyOps hash cascade.buffer).foldl deliverReady
            { cascade with deliveredAny := false })
          (by dsimp only at shrunk; omega) (proper.of_subset releases.waiting_subset)
      refine ⟨early ++ late, releases.trans releasesLate, ?_, settled⟩
      rw [deliverableLate, deliverable, append_assoc]

theorem checkBufferedOps_spec (runtime : DeliveryRuntime) (self : CausalDeliveryBuffer)
    (proper : self.Proper) :
    ∃ released, Releases self released (self.checkBufferedOps runtime).1 ∧
      (self.checkBufferedOps runtime).2 = runtime.sorter.sortBy compareDelivery released ∧
      (self.checkBufferedOps runtime).1.Settled := by
  obtain ⟨released, releases, deliverable, settled⟩ :=
    releaseRounds_spec runtime.buffered ⟨self, [], false⟩ (Nat.lt_succ_self _) proper
  refine ⟨released, releases, ?_, settled⟩
  rw [checkBufferedOps, deliverable, nil_append]

/-- Nothing leaves a buffer in which nothing is ready. -/
theorem Settled.checkBufferedOps {self : CausalDeliveryBuffer} (settled : self.Settled)
    (positive : ∀ op ∈ self.waiting, 0 < op.ownCounter) (runtime : DeliveryRuntime) :
    self.checkBufferedOps runtime = (self, []) := by
  have none : readyOps runtime.buffered self = [] := by
    rw [eq_nil_iff_forall_not_mem]
    intro opId hmem
    obtain ⟨op, _, hop, ready⟩ := (mem_readyOps positive).mp hmem
    exact settled op hop ready
  have nothing : runtime.sorter.sortBy compareDelivery [] = [] :=
    (runtime.sorter.perm compareDelivery []).eq_nil
  simp only [CausalDeliveryBuffer.checkBufferedOps, releaseRounds, none, isEmpty_nil, if_true,
    nothing]

/-! ## One call -/

theorem Settled.bufferOperation {self : CausalDeliveryBuffer} {op : Operation}
    (settled : self.Settled) (early : ¬ Ready self.localVc op) :
    (self.bufferOperation op).Settled := by
  intro query hmem
  rcases mem_waiting_bufferOperation.mp hmem with rfl | ⟨old, _⟩
  · exact early
  · exact settled query old

/-- An operation that comes early is buffered and releases nothing. -/
theorem deliver_early (runtime : DeliveryRuntime) {self : CausalDeliveryBuffer} {op : Operation}
    (settled : self.Settled) (positives : ∀ other ∈ self.waiting, 0 < other.ownCounter)
    (positive : 0 < op.ownCounter) (early : ¬ Ready self.localVc op) :
    self.deliver runtime op = (self.bufferOperation op, []) := by
  rw [deliver, if_neg (mt (dependenciesSatisfied_iff positive).mp early)]
  refine (settled.bufferOperation early).checkBufferedOps ?_ runtime
  intro query hmem
  rcases mem_waiting_bufferOperation.mp hmem with rfl | ⟨old, _⟩
  · exact positive
  · exact positives query old

/-- A call either buffers the operation and returns nothing, or returns it and whatever it
releases. -/
theorem deliver_cases (runtime : DeliveryRuntime) {self : CausalDeliveryBuffer}
    {op : Operation} (proper : self.Proper) (settled : self.Settled)
    (positive : 0 < op.ownCounter) :
    (¬ Ready self.localVc op ∧ self.deliver runtime op = (self.bufferOperation op, [])) ∨
    (Ready self.localVc op ∧ ∃ released after,
      Releases (self.updateLocalClock op) released after ∧ after.Settled ∧
      self.deliver runtime op =
        (after, op :: runtime.sorter.sortBy compareDelivery released)) := by
  by_cases ready : Ready self.localVc op
  · refine Or.inr ⟨ready, ?_⟩
    obtain ⟨released, releases, sorted, stable⟩ :=
      checkBufferedOps_spec runtime (self.updateLocalClock op) ⟨proper.positive, proper.twinFree⟩
    refine ⟨released, _, releases, stable, ?_⟩
    rw [deliver, if_pos ((dependenciesSatisfied_iff positive).mpr ready), ← sorted]
  · exact Or.inl ⟨ready, deliver_early runtime settled proper.positive positive ready⟩

end CausalDeliveryBuffer

/-! ## Sequences of calls -/

structure DeliverCall where
  runtime : DeliveryRuntime
  op : Operation

def deliveryMachine : Machine CausalDeliveryBuffer DeliverCall (List Operation) where
  step buffer call := buffer.deliver call.runtime call.op

/-- The operations handed to the buffer, in order. -/
def givenOps (calls : List DeliverCall) : List Operation := calls.map DeliverCall.op

/-- The operations returned by a run that starts from an empty buffer. -/
def deliveries (initialVc : VectorClock) (calls : List DeliverCall) : List Operation :=
  (deliveryMachine.outputs (.new initialVc) calls).flatten

/-- The buffer a run ends with. -/
def bufferAfter (initialVc : VectorClock) (calls : List DeliverCall) : CausalDeliveryBuffer :=
  deliveryMachine.final (.new initialVc) calls

theorem bufferAfter_append (initialVc : VectorClock) (early : List DeliverCall)
    (call : DeliverCall) :
    bufferAfter initialVc (early ++ [call]) =
      (deliveryMachine.step (bufferAfter initialVc early) call).1 :=
  deliveryMachine.final_append _ early [call]

theorem deliveries_append (initialVc : VectorClock) (early : List DeliverCall)
    (call : DeliverCall) :
    deliveries initialVc (early ++ [call]) =
      deliveries initialVc early ++ (deliveryMachine.step (bufferAfter initialVc early) call).2 := by
  rw [deliveries, deliveryMachine.outputs_append, flatten_append]
  exact congrArg _ (append_nil _)

theorem givenOps_append (early : List DeliverCall) (call : DeliverCall) :
    givenOps (early ++ [call]) = givenOps early ++ [call.op] := by
  rw [givenOps, map_append, map_singleton, givenOps]

end RaisinDB.Replication
