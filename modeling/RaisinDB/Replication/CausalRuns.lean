import RaisinDB.Replication.CausalDelivery

/-!
# Runs of the causal delivery buffer

A run is followed by a ledger: which counters the clock has counted and which
operations were returned for them.  From it follow that nothing is returned
twice, that the returned set is the causal closure of what was given, and, where
the final sort may rely on its comparator, that causes come before effects.
-/

namespace RaisinDB.Replication

open RaisinDB.Foundation List

/-! ## The causal closure -/

/-- The operation cannot be delivered before this counter of the node. -/
def Operation.Needs (op : Operation) (node : String) (counter : Nat) : Prop :=
  if node = op.clusterNodeId then counter < op.ownCounter
  else counter ≤ op.vectorClock.get node

/-- Everything the operation needs beyond the start clock is itself deliverable. -/
inductive Deliverable (start : VectorClock) (all : List Operation) : Operation → Prop
  | intro {op : Operation} (cause : String → Nat → Operation) (present : op ∈ all)
      (uncounted : start.get op.clusterNodeId < op.ownCounter)
      (past : ∀ node counter, start.get node < counter → op.Needs node counter →
        Deliverable start all (cause node counter))
      (matched : ∀ node counter, start.get node < counter → op.Needs node counter →
        (cause node counter).clusterNodeId = node ∧ (cause node counter).ownCounter = counter) :
      Deliverable start all op

theorem Deliverable.mem {start : VectorClock} {all : List Operation} {op : Operation}
    (deliverable : Deliverable start all op) : op ∈ all := by
  cases deliverable with
  | intro _ present _ _ _ => exact present

/-! ## The ledger -/

/-- The counters beyond the start clock and the delivered operations, one for each. -/
structure Ledger (start : VectorClock) (all delivered : List Operation)
    (clock : VectorClock) : Prop where
  base : ∀ node, start.get node ≤ clock.get node
  counted : ∀ op ∈ delivered, start.get op.clusterNodeId < op.ownCounter ∧
    op.ownCounter ≤ clock.get op.clusterNodeId
  covered : ∀ node counter, start.get node < counter → counter ≤ clock.get node →
    ∃ op ∈ delivered, op.clusterNodeId = node ∧ op.ownCounter = counter
  distinct : (delivered.map Operation.opId).Nodup
  deliverable : ∀ op ∈ delivered, Deliverable start all op

namespace Ledger

variable {start clock : VectorClock} {all delivered : List Operation}

theorem empty (start : VectorClock) (all : List Operation) : Ledger start all [] start where
  base _ := le_refl _
  counted op hop := by cases hop
  covered node counter above below := absurd (above.trans_le below) (lt_irrefl _)
  distinct := nodup_nil
  deliverable op hop := by cases hop

theorem of_perm {reordered : List Operation} (ledger : Ledger start all delivered clock)
    (perm : reordered ~ delivered) : Ledger start all reordered clock where
  base := ledger.base
  counted op hop := ledger.counted op (perm.mem_iff.mp hop)
  covered node counter above below := by
    obtain ⟨op, hop, matched⟩ := ledger.covered node counter above below
    exact ⟨op, perm.mem_iff.mpr hop, matched⟩
  distinct := (perm.map Operation.opId).nodup_iff.mpr ledger.distinct
  deliverable op hop := ledger.deliverable op (perm.mem_iff.mp hop)

theorem notMem_of_ready (ledger : Ledger start all delivered clock) {op : Operation}
    (ready : Ready clock op) : op ∉ delivered := by
  intro hop
  have counted := (ledger.counted op hop).2
  have next := ready.next
  omega

/-- What a ready operation needs has been delivered. -/
theorem deliverable_of_ready (ledger : Ledger start all delivered clock) {op : Operation}
    (hop : op ∈ all) (ready : Ready clock op) : Deliverable start all op := by
  have needed : ∀ node counter, start.get node < counter → op.Needs node counter →
      ∃ cause ∈ delivered, cause.clusterNodeId = node ∧ cause.ownCounter = counter := by
    intro node counter above needs
    apply ledger.covered node counter above
    unfold Operation.Needs at needs
    split at needs
    · rename_i same
      have next := ready.next
      rw [same]
      omega
    · rename_i other
      exact needs.trans (ready.others node other)
  classical
  let cause := fun node counter =>
    if found : ∃ cause ∈ delivered, cause.clusterNodeId = node ∧ cause.ownCounter = counter
    then found.choose else op
  have chosen : ∀ node counter, start.get node < counter → op.Needs node counter →
      cause node counter ∈ delivered ∧ (cause node counter).clusterNodeId = node ∧
        (cause node counter).ownCounter = counter := by
    intro node counter above needs
    have found := needed node counter above needs
    have value : cause node counter = found.choose := dif_pos found
    rw [value]
    exact found.choose_spec
  refine .intro cause hop ?_ ?_ ?_
  · have next := ready.next
    have base := ledger.base op.clusterNodeId
    omega
  · intro node counter above needs
    exact ledger.deliverable _ (chosen node counter above needs).1
  · intro node counter above needs
    exact (chosen node counter above needs).2

/-- Delivering a ready operation adds one line to the ledger. -/
theorem deliver (ledger : Ledger start all delivered clock) (identify : IdsIdentify all)
    {op : Operation} (hop : op ∈ all) (ready : Ready clock op) :
    Ledger start all (delivered ++ [op]) (clock.merge op.vectorClock) where
  base node := (ledger.base node).trans (VectorClock.le_merge _ _ node)
  counted query hquery := by
    rcases mem_append.mp hquery with old | new
    · obtain ⟨above, below⟩ := ledger.counted query old
      exact ⟨above, below.trans (VectorClock.le_merge _ _ _)⟩
    · rw [mem_singleton.mp new, ready.get_merge, if_pos rfl]
      have next := ready.next
      have base := ledger.base op.clusterNodeId
      exact ⟨by omega, le_refl _⟩
  covered node counter above below := by
    rw [ready.get_merge] at below
    by_cases here : node = op.clusterNodeId ∧ counter = op.ownCounter
    · exact ⟨op, by simp, here.1.symm, here.2.symm⟩
    · have counted : counter ≤ clock.get node := by
        split at below
        · rename_i same
          have next := ready.next
          have different : counter ≠ op.ownCounter := fun last => here ⟨same, last⟩
          rw [same]
          omega
        · exact below
      obtain ⟨old, hold, matched⟩ := ledger.covered node counter above counted
      exact ⟨old, mem_append_left _ hold, matched⟩
  distinct := by
    rw [map_append, map_singleton, ← concat_eq_append]
    refine ledger.distinct.concat ?_
    intro known
    obtain ⟨old, hold, sameId⟩ := mem_map.mp known
    have inside := (ledger.deliverable old hold).mem
    exact ledger.notMem_of_ready ready (identify old inside op hop sameId ▸ hold)
  deliverable query hquery := by
    rcases mem_append.mp hquery with old | new
    · exact ledger.deliverable query old
    · rw [mem_singleton.mp new]
      exact ledger.deliverable_of_ready hop ready

theorem releases (buffer : CausalDeliveryBuffer) {after : CausalDeliveryBuffer}
    {released : List Operation}
    (ledger : Ledger start all delivered buffer.localVc) (identify : IdsIdentify all)
    (inside : buffer.waiting ⊆ all) (releases : Releases buffer released after) :
    Ledger start all (delivered ++ released) after.localVc := by
  induction releases generalizing delivered with
  | done => rwa [append_nil]
  | next present ready _ ih =>
    have next := ih (ledger.deliver identify (inside present) ready)
      (Subset.trans (CausalDeliveryBuffer.waiting_release_subset _ _) inside)
    rwa [append_assoc, singleton_append] at next

end Ledger

/-! ## Causes before effects -/

/-- Every operation comes after all operations of the sequence that happen before it. -/
def CausallyOrdered (all delivered : List Operation) : Prop :=
  ∀ early op late, delivered = early ++ op :: late → ∀ cause ∈ all,
    cause.vectorClock.happensBefore op.vectorClock → cause ∈ early

theorem happensBefore_iff (a b : VectorClock) :
    a.happensBefore b ↔ a.compare b = .before := by
  simp [VectorClock.happensBefore]

/-- An element of a joined list lies in the first part or in the second. -/
theorem split_cases {base block early late : List Operation} {op : Operation}
    (split : base ++ block = early ++ op :: late) :
    (∃ others, base = early ++ op :: others) ∨
      ∃ first, early = base ++ first ∧ block = first ++ op :: late := by
  rcases append_eq_append_iff.mp split with ⟨first, outer, inner⟩ | ⟨others, outer, inner⟩
  · exact Or.inr ⟨first, outer, inner⟩
  · cases others with
    | nil => exact Or.inr ⟨[], by simpa using outer.symm, by simpa using inner.symm⟩
    | cons head rest =>
      obtain ⟨rfl, _⟩ := cons.inj inner
      exact Or.inl ⟨rest, outer⟩

namespace CausallyOrdered

variable {start clock : VectorClock} {all delivered : List Operation}

theorem nil (all : List Operation) : CausallyOrdered all [] := by
  intro early op late split
  exact absurd split.symm (by simp)

/-- The causes of a ready operation have been delivered. -/
theorem deliver (ordered : CausallyOrdered all delivered)
    (ledger : Ledger start all delivered clock) (twinFree : TwinFree all)
    (uncounted : ∀ op ∈ all, start.get op.clusterNodeId < op.ownCounter) {op : Operation}
    (hop : op ∈ all) (ready : Ready clock op) : CausallyOrdered all (delivered ++ [op]) := by
  intro early query late split cause hcause before
  rcases split_cases split with ⟨others, old⟩ | ⟨first, rfl, new⟩
  · exact ordered early query others old cause hcause before
  · obtain ⟨rfl, isNew⟩ : first = [] ∧ [op] = query :: late := by
      cases first with
      | nil => exact ⟨rfl, new⟩
      | cons head rest => simp at new
    obtain ⟨rfl, _⟩ := cons.inj isNew
    rw [append_nil]
    have precedes := (happensBefore_iff _ _).mp before
    have counted := ready.counted_of_before precedes fun sameNode sameCounter => by
      rw [twinFree cause hcause op hop sameNode sameCounter, VectorClock.compare_self] at precedes
      cases precedes
    obtain ⟨known, hknown, node, counter⟩ :=
      ledger.covered _ _ (uncounted cause hcause) counted
    have inside := (ledger.deliverable known hknown).mem
    rwa [twinFree known inside cause hcause node counter] at hknown

theorem releases (buffer : CausalDeliveryBuffer) {after : CausalDeliveryBuffer}
    {released : List Operation}
    (ordered : CausallyOrdered all delivered)
    (ledger : Ledger start all delivered buffer.localVc) (identify : IdsIdentify all)
    (twinFree : TwinFree all)
    (uncounted : ∀ op ∈ all, start.get op.clusterNodeId < op.ownCounter)
    (inside : buffer.waiting ⊆ all) (releases : Releases buffer released after) :
    CausallyOrdered all (delivered ++ released) := by
  induction releases generalizing delivered with
  | done => rwa [append_nil]
  | next present ready _ ih =>
    have next := ih
      (ordered.deliver ledger twinFree uncounted (inside present) ready)
      (ledger.deliver identify (inside present) ready)
      (Subset.trans (CausalDeliveryBuffer.waiting_release_subset _ _) inside)
    rwa [append_assoc, singleton_append] at next

/-- A sort that may rely on the comparator keeps causes before effects. -/
theorem sorted {released : List Operation} (ordered : CausallyOrdered all (delivered ++ released))
    (sorter : SliceSort Operation) (order : TotalOrderOn compareDelivery released) :
    CausallyOrdered all (delivered ++ sorter.sortBy compareDelivery released) := by
  intro early op late split cause hcause before
  rcases split_cases split with ⟨others, old⟩ | ⟨first, rfl, inner⟩
  · refine ordered early op (others ++ released) ?_ cause hcause before
    rw [old, append_assoc, cons_append]
  · have perm := sorter.perm compareDelivery released
    have hop : op ∈ released := perm.mem_iff.mp (inner ▸ by simp)
    obtain ⟨sooner, later, chain⟩ := append_of_mem hop
    have delivered := ordered (delivered ++ sooner) op later
      (by rw [chain, append_assoc]) cause hcause before
    rcases mem_append.mp delivered with base | soon
    · exact mem_append_left _ base
    · have hmem : cause ∈ first ++ op :: late := by
        rw [← inner, perm.mem_iff, chain]
        exact mem_append_left _ soon
      rcases mem_append.mp hmem with front | back
      · exact mem_append_right _ front
      · -- the comparator would have put the cause in front
        have after : compareDelivery op cause = .gt := by
          have precedes := (happensBefore_iff _ _).mp before
          have reverse : op.vectorClock.compare cause.vectorClock = .after := by
            rw [VectorClock.compare_eq_after_iff]
            exact precedes
          simp [compareDelivery, VectorClock.happensBefore, VectorClock.happensAfter, reverse]
        rcases mem_cons.mp back with rfl | behind
        · have same := (happensBefore_iff _ _).mp before
          rw [VectorClock.compare_self] at same
          cases same
        · have pairs := sorter.pairwise_not_gt order
          rw [inner, pairwise_append] at pairs
          exact absurd after ((pairwise_cons.mp pairs.2.1).1 cause behind)

end CausallyOrdered

/-! ## Runs -/

/-- Two waiting operations with one id are one entry of the map. -/
theorem CausalDeliveryBuffer.waiting_unique {buffer : CausalDeliveryBuffer} {a b : Operation}
    (ha : a ∈ buffer.waiting) (hb : b ∈ buffer.waiting) (same : a.opId = b.opId) : a = b := by
  obtain ⟨depsA, foundA⟩ := mem_waiting.mp ha
  obtain ⟨depsB, foundB⟩ := mem_waiting.mp hb
  rw [same, foundB] at foundA
  exact (Prod.mk.inj (Option.some.inj foundA)).1.symm

/-- What leaves the buffer is returned. -/
theorem Releases.kept {buffer after : CausalDeliveryBuffer} {released : List Operation}
    (releases : Releases buffer released after) {op : Operation} (hop : op ∈ buffer.waiting) :
    op ∈ released ∨ op ∈ after.waiting := by
  induction releases with
  | done => exact Or.inr hop
  | @next buffer after first rest present _ _ ih =>
    by_cases same : op.opId = first.opId
    · rw [CausalDeliveryBuffer.waiting_unique hop present same]
      exact Or.inl mem_cons_self
    · rcases ih (CausalDeliveryBuffer.mem_waiting_release.mpr ⟨hop, same⟩) with later | left
      · exact Or.inl (mem_cons_of_mem _ later)
      · exact Or.inr left

/-- Ids and stamps tell the operations of a sequence apart. -/
structure WellStamped (all : List Operation) : Prop where
  identify : IdsIdentify all
  twinFree : TwinFree all
  positive : ∀ op ∈ all, 0 < op.ownCounter

/-- The state of a run: what was given has been returned or waits. -/
structure DeliveryRun (initialVc : VectorClock) (all given delivered : List Operation)
    (buffer : CausalDeliveryBuffer) : Prop where
  ledger : Ledger initialVc all delivered buffer.localVc
  settled : buffer.Settled
  inside : buffer.waiting ⊆ all
  kept : ∀ op ∈ given, op ∈ delivered ∨ op ∈ buffer.waiting

/-- The comparator is a total preorder on whatever buffered operations a call unlocks. -/
def SortsReleased (buffer : CausalDeliveryBuffer) (op : Operation) : Prop :=
  Ready buffer.localVc op → ∀ released : List Operation,
    (∀ next ∈ released,
      Deliverable (buffer.localVc.merge op.vectorClock) buffer.waiting next) →
    TotalOrderOn compareDelivery released

theorem Releases.deliverable {all released : List Operation}
    {buffer after : CausalDeliveryBuffer} (releases : Releases buffer released after)
    (identify : IdsIdentify all) (inside : buffer.waiting ⊆ all) :
    ∀ next ∈ released, Deliverable buffer.localVc buffer.waiting next := by
  have ledger := (Ledger.empty buffer.localVc buffer.waiting).releases buffer
    (fun a ha b hb => identify a (inside ha) b (inside hb)) (Subset.refl _) releases
  intro next hnext
  exact ledger.deliverable next hnext

namespace DeliveryRun

variable {initialVc : VectorClock} {all given delivered : List Operation}
  {buffer : CausalDeliveryBuffer}

theorem start (initialVc : VectorClock) (all : List Operation) :
    DeliveryRun initialVc all [] [] (.new initialVc) where
  ledger := Ledger.empty initialVc all
  settled op hop := absurd hop (CausalDeliveryBuffer.mem_waiting_new initialVc op)
  inside op hop := absurd hop (CausalDeliveryBuffer.mem_waiting_new initialVc op)
  kept op hop := by cases hop

theorem proper (run : DeliveryRun initialVc all given delivered buffer)
    (stamped : WellStamped all) : buffer.Proper :=
  ⟨fun op hop => stamped.positive op (run.inside hop), stamped.twinFree.subset run.inside⟩

theorem buffered (run : DeliveryRun initialVc all given delivered buffer)
    (stamped : WellStamped all) {op : Operation} (hop : op ∈ all)
    (early : ¬ Ready buffer.localVc op) :
    DeliveryRun initialVc all (given ++ [op]) delivered (buffer.bufferOperation op) where
  ledger := run.ledger
  settled := run.settled.bufferOperation early
  inside query hquery := by
    rcases CausalDeliveryBuffer.mem_waiting_bufferOperation.mp hquery with rfl | ⟨old, _⟩
    · exact hop
    · exact run.inside old
  kept query hquery := by
    rw [CausalDeliveryBuffer.mem_waiting_bufferOperation]
    rcases mem_append.mp hquery with old | new
    · rcases run.kept query old with delivered | waits
      · exact Or.inl delivered
      · by_cases same : query.opId = op.opId
        · exact Or.inr (Or.inl (stamped.identify query (run.inside waits) op hop same))
        · exact Or.inr (Or.inr ⟨waits, same⟩)
    · exact Or.inr (Or.inl (mem_singleton.mp new))

theorem released (run : DeliveryRun initialVc all given delivered buffer)
    (stamped : WellStamped all) {op : Operation} (hop : op ∈ all)
    (ready : Ready buffer.localVc op) {after : CausalDeliveryBuffer}
    {released sorted : List Operation}
    (releases : Releases (buffer.updateLocalClock op) released after)
    (settled : after.Settled) (perm : sorted ~ released) :
    DeliveryRun initialVc all (given ++ [op]) (delivered ++ op :: sorted) after where
  ledger := by
    have next := (run.ledger.deliver stamped.identify hop ready).releases
      (buffer.updateLocalClock op) stamped.identify run.inside releases
    rw [append_assoc, singleton_append] at next
    exact next.of_perm ((perm.cons op).append_left delivered)
  settled := settled
  inside := Subset.trans releases.waiting_subset run.inside
  kept query hquery := by
    rw [mem_append, mem_cons]
    rcases mem_append.mp hquery with old | new
    · rcases run.kept query old with known | waits
      · exact Or.inl (Or.inl known)
      · rcases releases.kept waits with left | stays
        · exact Or.inl (Or.inr (Or.inr (perm.mem_iff.mpr left)))
        · exact Or.inr stays
    · exact Or.inl (Or.inr (Or.inl (mem_singleton.mp new)))

/-- One call keeps the run going. -/
theorem deliver (run : DeliveryRun initialVc all given delivered buffer)
    (stamped : WellStamped all) (call : DeliverCall) (hop : call.op ∈ all) :
    DeliveryRun initialVc all (given ++ [call.op])
      (delivered ++ (deliveryMachine.step buffer call).2) (deliveryMachine.step buffer call).1 := by
  change DeliveryRun _ _ _ (delivered ++ (buffer.deliver call.runtime call.op).2)
    (buffer.deliver call.runtime call.op).1
  rcases CausalDeliveryBuffer.deliver_cases call.runtime (run.proper stamped) run.settled
      (stamped.positive call.op hop) with
    ⟨early, result⟩ | ⟨ready, released, after, releases, settled, result⟩
  · rw [result, append_nil]
    exact run.buffered stamped hop early
  · rw [result]
    exact run.released stamped hop ready releases settled (call.runtime.sorter.perm _ _)

/-- Everything in the causal closure of the given operations has been returned. -/
theorem complete (run : DeliveryRun initialVc all given delivered buffer)
    (twinFree : TwinFree all) (whole : all ⊆ given) {op : Operation}
    (deliverable : Deliverable initialVc all op) : op ∈ delivered := by
  induction deliverable with
  | @intro op cause present uncounted _ matched ih =>
    have counted : ∀ node counter, initialVc.get node < counter → op.Needs node counter →
        counter ≤ buffer.localVc.get node := by
      intro node counter above needs
      have known := (run.ledger.counted _ (ih node counter above needs)).2
      obtain ⟨sameNode, sameCounter⟩ := matched node counter above needs
      rwa [sameNode, sameCounter] at known
    rcases run.kept op (whole present) with delivered | waits
    · exact delivered
    · -- all it needs is counted, so an operation that waits has itself been counted
      have others : ∀ node, node ≠ op.clusterNodeId →
          op.vectorClock.get node ≤ buffer.localVc.get node := by
        intro node other
        by_cases above : initialVc.get node < op.vectorClock.get node
        · exact counted node _ above (by simp [Operation.Needs, other])
        · exact (not_lt.mp above).trans (run.ledger.base node)
      have previous : op.ownCounter ≤ buffer.localVc.get op.clusterNodeId + 1 := by
        by_cases above : initialVc.get op.clusterNodeId < op.ownCounter - 1
        · have := counted op.clusterNodeId _ above (by simp [Operation.Needs]; omega)
          omega
        · have := run.ledger.base op.clusterNodeId
          omega
      have notNext : op.ownCounter ≠ buffer.localVc.get op.clusterNodeId + 1 :=
        fun next => run.settled op waits ⟨next, others⟩
      obtain ⟨known, hknown, sameNode, sameCounter⟩ :=
        run.ledger.covered op.clusterNodeId op.ownCounter uncounted (by omega)
      have inside := (run.ledger.deliverable known hknown).mem
      rwa [twinFree known inside op present sameNode sameCounter] at hknown

theorem mem_delivered_iff (run : DeliveryRun initialVc all given delivered buffer)
    (twinFree : TwinFree all) (whole : all ⊆ given) (op : Operation) :
    op ∈ delivered ↔ Deliverable initialVc all op :=
  ⟨run.ledger.deliverable op, run.complete twinFree whole⟩

end DeliveryRun

theorem flatten_append_singleton (outs : List (List Operation)) (out : List Operation) :
    (outs ++ [out]).flatten = outs.flatten ++ out := by
  rw [flatten_append, flatten_singleton]

/-- Every run from an empty buffer is followed by its ledger. -/
theorem deliveryRun_of_calls (initialVc : VectorClock) {all : List Operation}
    (stamped : WellStamped all) {calls : List DeliverCall} (inside : givenOps calls ⊆ all) :
    DeliveryRun initialVc all (givenOps calls) (deliveries initialVc calls)
      (bufferAfter initialVc calls) := by
  refine deliveryMachine.history_invariant
    (fun early outs buffer =>
      DeliveryRun initialVc all (givenOps early) outs.flatten buffer)
    (fun _ call => call.op ∈ all) ?_ (DeliveryRun.start initialVc all) ?_
  · intro early outs buffer call run hop
    rw [givenOps_append, flatten_append_singleton]
    exact run.deliver stamped call hop
  · intro transition hmem
    exact inside (mem_map_of_mem (deliveryMachine.event_mem hmem))

theorem CausallyOrdered.call {initialVc : VectorClock} {all given delivered : List Operation}
    {buffer : CausalDeliveryBuffer} (ordered : CausallyOrdered all delivered)
    (run : DeliveryRun initialVc all given delivered buffer) (stamped : WellStamped all)
    (uncounted : ∀ op ∈ all, initialVc.get op.clusterNodeId < op.ownCounter)
    (call : DeliverCall) (hop : call.op ∈ all) (sorts : SortsReleased buffer call.op) :
    CausallyOrdered all (delivered ++ (deliveryMachine.step buffer call).2) := by
  change CausallyOrdered all (delivered ++ (buffer.deliver call.runtime call.op).2)
  rcases CausalDeliveryBuffer.deliver_cases call.runtime (run.proper stamped) run.settled
      (stamped.positive call.op hop) with
    ⟨_, result⟩ | ⟨ready, released, after, releases, _, result⟩
  · rwa [result, append_nil]
  · have direct := ordered.deliver run.ledger stamped.twinFree uncounted hop ready
    have ledger := run.ledger.deliver stamped.identify hop ready
    have chain := direct.releases (buffer.updateLocalClock call.op) ledger
      stamped.identify stamped.twinFree uncounted run.inside releases
    have total := sorts ready released (releases.deliverable stamped.identify run.inside)
    have result' := chain.sorted call.runtime.sorter total
    rw [result]
    rwa [append_assoc, singleton_append] at result'

theorem causallyOrdered_of_calls {initialVc : VectorClock} {all : List Operation}
    (stamped : WellStamped all)
    (uncounted : ∀ op ∈ all, initialVc.get op.clusterNodeId < op.ownCounter)
    {calls : List DeliverCall} (inside : givenOps calls ⊆ all)
    (sorts : ∀ call ∈ deliveryMachine.transitions (.new initialVc) calls,
      SortsReleased call.before call.event.op) :
    CausallyOrdered all (deliveries initialVc calls) := by
  have both := deliveryMachine.history_invariant
    (fun early outs buffer =>
      DeliveryRun initialVc all (givenOps early) outs.flatten buffer ∧
        CausallyOrdered all outs.flatten)
    (fun buffer call => call.op ∈ all ∧ SortsReleased buffer call.op)
    (by
      rintro early outs buffer call ⟨run, ordered⟩ ⟨hop, total⟩
      rw [givenOps_append, flatten_append_singleton]
      exact ⟨run.deliver stamped call hop, ordered.call run stamped uncounted call hop total⟩)
    ⟨DeliveryRun.start initialVc all, CausallyOrdered.nil all⟩
    (fun transition hmem =>
      ⟨inside (mem_map_of_mem (deliveryMachine.event_mem hmem)), sorts transition hmem⟩)
  exact both.2

/-- Safe and complete causal delivery of a sequence of calls. -/
structure CausalDelivery (initialVc : VectorClock) (calls : List DeliverCall) : Prop where
  once : ((deliveries initialVc calls).map Operation.opId).Nodup
  ordered : CausallyOrdered (givenOps calls) (deliveries initialVc calls)
  settled : ∀ early late, calls = early ++ late → ∀ op ∈ (bufferAfter initialVc early).waiting,
    (bufferAfter initialVc early).dependenciesSatisfied op = false
  anyOrder : ∀ reordered, givenOps reordered ~ givenOps calls →
    ∀ op, op ∈ deliveries initialVc reordered ↔ op ∈ deliveries initialVc calls

/--
Delivery is causal when ids and stamps tell the operations apart, the initial
clock has counted none of them, and the comparator orders what each call unlocks.
-/
theorem deliver_causal {initialVc : VectorClock} {calls : List DeliverCall}
    (identify : IdsIdentify (givenOps calls)) (twinFree : TwinFree (givenOps calls))
    (uncounted : ∀ op ∈ givenOps calls, initialVc.get op.clusterNodeId < op.ownCounter)
    (sorts : ∀ call ∈ deliveryMachine.transitions (.new initialVc) calls,
      SortsReleased call.before call.event.op) : CausalDelivery initialVc calls := by
  have stamped : WellStamped (givenOps calls) :=
    ⟨identify, twinFree, fun op hop => (Nat.zero_le _).trans_lt (uncounted op hop)⟩
  have run := deliveryRun_of_calls initialVc stamped (Subset.refl (givenOps calls))
  refine ⟨run.ledger.distinct,
    causallyOrdered_of_calls stamped uncounted (Subset.refl _) sorts, ?_, ?_⟩
  · rintro early late rfl op hop
    have inside : givenOps early ⊆ givenOps (early ++ late) := by
      rw [givenOps, givenOps, map_append]
      exact subset_append_left _ _
    have reached := deliveryRun_of_calls initialVc stamped inside
    rw [Bool.eq_false_iff]
    intro satisfied
    exact reached.settled op hop
      ((dependenciesSatisfied_iff (stamped.positive op (reached.inside hop))).mp satisfied)
  · intro reordered perm op
    have other := deliveryRun_of_calls initialVc stamped perm.subset
    rw [run.mem_delivered_iff twinFree (Subset.refl _),
      other.mem_delivered_iff twinFree perm.symm.subset]

/-! ### A comparator that goes round -/

def rootOp : Operation :=
  makeOp 1 "node1" 1 [("node1", 1)] (.updateBranch ⟨"main"⟩)

/-- A write of a node whose wall clock runs ahead. -/
def causeOp : Operation :=
  makeOp 2 "node2" 40 [("node1", 1), ("node2", 1)] (.updateUser "u")

def effectOp : Operation :=
  makeOp 3 "node3" 5 [("node1", 1), ("node2", 1), ("node3", 1)] (.deleteUser "u")

/-- Writes of 19 more nodes, concurrent with both and between them by the wall clocks. -/
def bystanders : List Operation :=
  (range 19).map fun i =>
    let node := String.ofList (replicate (i + 3) 'n')
    makeOp (.ofNat 128 (i + 4)) node (39 - i) [("node1", 1), (node, 1)] (.updateTenant "t")

/-- The library's sort, on a map that is iterated in the order of the calls. -/
def libraryDelivery : DeliveryRuntime :=
  ⟨runSlice Operation, HashOrder.inserted BufferedEntry⟩

def plainDelivery : DeliveryRuntime :=
  ⟨insertionSlice Operation, HashOrder.inserted BufferedEntry⟩

/-- The 21 operations that the root unlocks run strictly down by the comparator, each against the
next: the sort turns them round, and the effect is returned before its cause. -/
theorem deliver_effect_before_cause :
    ¬ ∀ (initialVc : VectorClock) (calls : List DeliverCall),
      (∀ op ∈ givenOps calls, 0 < op.ownCounter) → CausalDelivery initialVc calls := by
  intro claim
  have causal := claim .new
    ((effectOp :: bystanders.reverse ++ [causeOp, rootOp]).map (DeliverCall.mk libraryDelivery))
    (by decide +kernel)
  have early := causal.ordered [rootOp] effectOp (bystanders.reverse ++ [causeOp])
    (by decide +kernel) causeOp (by decide +kernel) (by decide +kernel)
  exact absurd early (by decide +kernel)

/-- The cause waits for the root, and both are returned by the second call. -/
theorem deliver_causal_cascade :
    CausalDelivery .new [⟨plainDelivery, causeOp⟩, ⟨plainDelivery, rootOp⟩] := by
  refine deliver_causal (by decide) (by decide) (by decide) ?_
  have sorts : ∀ buffer : CausalDeliveryBuffer, TotalOrderOn compareDelivery buffer.waiting →
      ∀ op, SortsReleased buffer op :=
    fun buffer order op _ released inside =>
      order.subset fun next hnext => (inside next hnext).mem
  refine forall_mem_cons.mpr ⟨sorts _ (by decide) _, forall_mem_cons.mpr ⟨?_, ?_⟩⟩
  · exact sorts _ (by decide) _
  · intro call hmem
    cases hmem

end RaisinDB.Replication
