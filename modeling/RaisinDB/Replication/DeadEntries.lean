import RaisinDB.Replication.CausalRuns

/-!
# Dead entries of the causal delivery buffer

An entry leaves the buffer only by becoming ready.  An operation that the clock
has already counted is never ready again, so one that arrives stale stays for
good.  Runs without stale arrivals keep every entry alive.
-/

namespace RaisinDB.Replication

open RaisinDB.Foundation List

/-! ## Live entries -/

/-- Every entry still waits for a counter of its own node. -/
def CausalDeliveryBuffer.Alive (buffer : CausalDeliveryBuffer) : Prop :=
  ∀ op ∈ buffer.waiting, buffer.localVc.get op.clusterNodeId < op.ownCounter

/-- The clock has not counted the operation. -/
def Uncounted (buffer : CausalDeliveryBuffer) (op : Operation) : Prop :=
  buffer.localVc.get op.clusterNodeId < op.ownCounter

/-- No other operation waits with the stamp of this one. -/
def NoTwinWaits (buffer : CausalDeliveryBuffer) (op : Operation) : Prop :=
  ∀ other ∈ buffer.waiting, other.clusterNodeId = op.clusterNodeId →
    other.ownCounter = op.ownCounter → other = op

namespace CausalDeliveryBuffer

theorem map_opId_waiting (self : CausalDeliveryBuffer) :
    self.waiting.map Operation.opId = self.bufferedOps.keys := by
  rw [waiting, map_map]
  exact map_congr_left self.keyed

theorem nodup_waiting (self : CausalDeliveryBuffer) : self.waiting.Nodup :=
  Nodup.of_map Operation.opId (self.map_opId_waiting ▸ self.bufferedOps.keys_nodup)

theorem length_waiting (self : CausalDeliveryBuffer) :
    self.waiting.length = self.bufferedOps.keys.length := by
  rw [← self.map_opId_waiting, length_map]

/-- Counting a ready operation leaves the entries alive that are no twins of it. -/
theorem Alive.count {self after : CausalDeliveryBuffer} (alive : self.Alive) {op : Operation}
    (ready : Ready self.localVc op) (clock : after.localVc = self.localVc.merge op.vectorClock)
    (inside : after.waiting ⊆ self.waiting)
    (apart : ∀ other ∈ after.waiting, other.clusterNodeId = op.clusterNodeId →
      other.ownCounter ≠ op.ownCounter) : after.Alive := by
  intro other hother
  have above := alive other (inside hother)
  rw [clock, ready.get_merge]
  split
  · rename_i same
    have different := apart other hother same
    have next := ready.next
    rw [same] at above
    omega
  · exact above

end CausalDeliveryBuffer

theorem Releases.alive {buffer after : CausalDeliveryBuffer} {released : List Operation}
    (releases : Releases buffer released after) (proper : buffer.Proper)
    (alive : buffer.Alive) : after.Alive := by
  induction releases with
  | done => exact alive
  | @next buffer after op rest present ready _ ih =>
      have inside := buffer.waiting_release_subset op
      refine ih (proper.of_subset inside) (alive.count ready rfl inside ?_)
      intro other hother sameNode sameCounter
      obtain ⟨old, different⟩ := CausalDeliveryBuffer.mem_waiting_release.mp hother
      exact different (congrArg _ (proper.twinFree other old op present sameNode sameCounter))

theorem Releases.counted {buffer after : CausalDeliveryBuffer} {released : List Operation}
    (releases : Releases buffer released after) :
    ∀ op ∈ released, op.ownCounter ≤ after.localVc.get op.clusterNodeId := by
  induction releases with
  | done => intro op hop; cases hop
  | next _ ready later ih =>
      refine forall_mem_cons.mpr ⟨?_, ih⟩
      refine le_trans ?_ (later.clock_mono _)
      rw [CausalDeliveryBuffer.localVc_release, ready.get_merge, if_pos rfl]

/-- The state of a run without dead entries. -/
structure TidyRun (given delivered : List Operation) (buffer : CausalDeliveryBuffer) : Prop where
  proper : buffer.Proper
  settled : buffer.Settled
  alive : buffer.Alive
  inside : buffer.waiting ⊆ given
  counted : ∀ op ∈ delivered, op.ownCounter ≤ buffer.localVc.get op.clusterNodeId

namespace TidyRun

variable {given delivered : List Operation} {buffer : CausalDeliveryBuffer}

theorem start (initialVc : VectorClock) : TidyRun [] [] (.new initialVc) := by
  have none := CausalDeliveryBuffer.mem_waiting_new initialVc
  exact ⟨⟨fun op hop => absurd hop (none op), fun op hop => absurd hop (none op)⟩,
    fun op hop => absurd hop (none op), fun op hop => absurd hop (none op),
    fun op hop => absurd hop (none op), fun op hop => by cases hop⟩

theorem bufferOperation (run : TidyRun given delivered buffer) {op : Operation}
    (positive : 0 < op.ownCounter) (single : NoTwinWaits buffer op)
    (uncounted : Uncounted buffer op) (early : ¬ Ready buffer.localVc op) :
    TidyRun (given ++ [op]) delivered (buffer.bufferOperation op) := by
  have cases {query : Operation} (hquery : query ∈ (buffer.bufferOperation op).waiting) :
      query = op ∨ query ∈ buffer.waiting :=
    (CausalDeliveryBuffer.mem_waiting_bufferOperation.mp hquery).imp id And.left
  refine ⟨⟨fun query hquery => ?_, fun a ha b hb sameNode sameCounter => ?_⟩,
    run.settled.bufferOperation early, fun query hquery => ?_, fun query hquery => ?_,
    run.counted⟩
  · rcases cases hquery with rfl | old
    · exact positive
    · exact run.proper.positive query old
  · rcases cases ha with rfl | oldA <;> rcases cases hb with rfl | oldB
    · rfl
    · exact (single b oldB sameNode.symm sameCounter.symm).symm
    · exact single a oldA sameNode sameCounter
    · exact run.proper.twinFree a oldA b oldB sameNode sameCounter
  · rcases cases hquery with rfl | old
    · exact uncounted
    · exact run.alive query old
  · rcases cases hquery with rfl | old
    · exact mem_append_right _ (mem_singleton_self _)
    · exact mem_append_left _ (run.inside old)

theorem release (run : TidyRun given delivered buffer) {op : Operation}
    (single : NoTwinWaits buffer op) (ready : Ready buffer.localVc op)
    {after : CausalDeliveryBuffer} {released sorted : List Operation}
    (releases : Releases (buffer.updateLocalClock op) released after)
    (settled : after.Settled) (perm : sorted ~ released) :
    TidyRun (given ++ [op]) (delivered ++ op :: sorted) after := by
  have proper : (buffer.updateLocalClock op).Proper := ⟨run.proper.positive, run.proper.twinFree⟩
  have alive : (buffer.updateLocalClock op).Alive := by
    refine run.alive.count ready rfl (Subset.refl _) fun other hother sameNode sameCounter => ?_
    exact run.settled other hother (single other hother sameNode sameCounter ▸ ready)
  refine ⟨proper.of_subset releases.waiting_subset, settled, releases.alive proper alive,
    fun query hquery => ?_, fun query hquery => ?_⟩
  · exact mem_append_left _ (run.inside (releases.waiting_subset hquery))
  · rw [mem_append, mem_cons] at hquery
    rcases hquery with old | rfl | new
    · refine (run.counted query old).trans (le_trans ?_ (releases.clock_mono _))
      exact VectorClock.le_merge _ _ _
    · refine le_trans ?_ (releases.clock_mono _)
      rw [CausalDeliveryBuffer.localVc_updateLocalClock, ready.get_merge, if_pos rfl]
    · exact releases.counted query (perm.mem_iff.mp new)

/-- One fresh call keeps the run tidy. -/
theorem deliver (run : TidyRun given delivered buffer) (call : DeliverCall)
    (single : NoTwinWaits buffer call.op) (uncounted : Uncounted buffer call.op) :
    TidyRun (given ++ [call.op]) (delivered ++ (deliveryMachine.step buffer call).2)
      (deliveryMachine.step buffer call).1 := by
  change TidyRun _ (delivered ++ (buffer.deliver call.runtime call.op).2)
    (buffer.deliver call.runtime call.op).1
  have positive : 0 < call.op.ownCounter := (Nat.zero_le _).trans_lt uncounted
  rcases CausalDeliveryBuffer.deliver_cases call.runtime run.proper run.settled positive with
    ⟨early, result⟩ | ⟨ready, released, after, releases, settled, result⟩
  · rw [result, append_nil]
    exact run.bufferOperation positive single uncounted early
  · rw [result]
    exact run.release single ready releases settled (call.runtime.sorter.perm _ _)

/-- A stale call leaves a dead entry behind. -/
theorem uncounted_of_alive (run : TidyRun given delivered buffer) (call : DeliverCall)
    (positive : 0 < call.op.ownCounter) (alive : (deliveryMachine.step buffer call).1.Alive) :
    Uncounted buffer call.op := by
  by_contra stale
  have early : ¬ Ready buffer.localVc call.op := fun ready => stale (by
    have next := ready.next
    unfold Uncounted
    omega)
  have alive' : (buffer.deliver call.runtime call.op).1.Alive := alive
  rcases CausalDeliveryBuffer.deliver_cases call.runtime run.proper run.settled positive with
    ⟨_, result⟩ | ⟨ready, _⟩
  · rw [result] at alive'
    exact stale (alive' call.op (CausalDeliveryBuffer.mem_waiting_bufferOperation.mpr (Or.inl rfl)))
  · exact early ready

/-- Entries are alive, so none of them was delivered. -/
theorem size_le (run : TidyRun given delivered buffer) :
    buffer.bufferedOps.keys.length ≤ (given.toFinset \ delivered.toFinset).card := by
  rw [← buffer.length_waiting, ← toFinset_card_of_nodup buffer.nodup_waiting]
  apply Finset.card_le_card
  intro op hop
  rw [mem_toFinset] at hop
  rw [Finset.mem_sdiff, mem_toFinset, mem_toFinset]
  refine ⟨run.inside hop, fun delivered => ?_⟩
  exact absurd (run.counted op delivered) (not_le.mpr (run.alive op hop))

end TidyRun

/-! ## Runs without stale arrivals -/

theorem tidyRun_of_calls (initialVc : VectorClock) {calls : List DeliverCall}
    (single : ∀ call ∈ deliveryMachine.transitions (.new initialVc) calls,
      NoTwinWaits call.before call.event.op)
    (uncounted : ∀ call ∈ deliveryMachine.transitions (.new initialVc) calls,
      Uncounted call.before call.event.op) :
    TidyRun (givenOps calls) (deliveries initialVc calls) (bufferAfter initialVc calls) := by
  refine deliveryMachine.history_invariant
    (fun early outs buffer => TidyRun (givenOps early) outs.flatten buffer)
    (fun buffer call => NoTwinWaits buffer call.op ∧ Uncounted buffer call.op) ?_
    (TidyRun.start initialVc) fun call hmem => ⟨single call hmem, uncounted call hmem⟩
  rintro early outs buffer call run ⟨alone, fresh⟩
  rw [givenOps_append, flatten_append_singleton]
  exact run.deliver call alone fresh

/-- No entry of the buffer is left behind along the run. -/
structure NoDeadEntries (initialVc : VectorClock) (calls : List DeliverCall) : Prop where
  alive : ∀ early late, calls = early ++ late → (bufferAfter initialVc early).Alive
  redelivery : ∀ early call late, calls = early ++ call :: late →
    call.op ∈ deliveries initialVc early →
    (bufferAfter initialVc (early ++ [call])).bufferedOps =
      (bufferAfter initialVc early).bufferedOps
  bounded : ∀ early late, calls = early ++ late →
    (bufferAfter initialVc early).bufferedOps.keys.length ≤
      ((givenOps early).toFinset \ (deliveries initialVc early).toFinset).card

/-- What holds of every step of a run holds of every step of its beginning. -/
theorem forall_transitions_of_append {initialVc : VectorClock} {early late : List DeliverCall}
    {Holds : CausalDeliveryBuffer → Operation → Prop}
    (holds : ∀ call ∈ deliveryMachine.transitions (.new initialVc) (early ++ late),
      Holds call.before call.event.op) :
    ∀ call ∈ deliveryMachine.transitions (.new initialVc) early,
      Holds call.before call.event.op := by
  rw [deliveryMachine.transitions_append] at holds
  exact (forall_mem_append.mp holds).1

theorem noDeadEntries_of_uncounted {initialVc : VectorClock} {calls : List DeliverCall}
    (single : ∀ call ∈ deliveryMachine.transitions (.new initialVc) calls,
      NoTwinWaits call.before call.event.op)
    (uncounted : ∀ call ∈ deliveryMachine.transitions (.new initialVc) calls,
      Uncounted call.before call.event.op) : NoDeadEntries initialVc calls := by
  have tidy : ∀ early late, calls = early ++ late →
      TidyRun (givenOps early) (deliveries initialVc early) (bufferAfter initialVc early) := by
    rintro early late rfl
    exact tidyRun_of_calls initialVc (forall_transitions_of_append single)
      (forall_transitions_of_append uncounted)
  refine ⟨fun early late split => (tidy early late split).alive, ?_,
    fun early late split => (tidy early late split).size_le⟩
  intro early call late split delivered
  have fresh : Uncounted (bufferAfter initialVc early) call.op :=
    uncounted _ (deliveryMachine.mem_transitions_iff.mpr ⟨early, call, late, split, rfl⟩)
  have counted := (tidy early _ split).counted call.op delivered
  exact absurd fresh (not_lt.mpr counted)

/-- Entries that are alive after every call were uncounted when they came. -/
theorem uncounted_of_noDeadEntries {initialVc : VectorClock} {calls : List DeliverCall}
    (positive : ∀ op ∈ givenOps calls, 0 < op.ownCounter)
    (single : ∀ call ∈ deliveryMachine.transitions (.new initialVc) calls,
      NoTwinWaits call.before call.event.op) (noDead : NoDeadEntries initialVc calls) :
    ∀ call ∈ deliveryMachine.transitions (.new initialVc) calls,
      Uncounted call.before call.event.op := by
  -- along the beginnings of the run: a tidy beginning forces its next call to be fresh
  suffices tidy : ∀ early late, calls = early ++ late →
      TidyRun (givenOps early) (deliveries initialVc early) (bufferAfter initialVc early) by
    intro transition hmem
    obtain ⟨early, call, late, split, rfl⟩ := deliveryMachine.mem_transitions_iff.mp hmem
    refine (tidy early _ split).uncounted_of_alive call ?_ ?_
    · exact positive _ (split ▸ mem_map_of_mem (mem_append_right _ mem_cons_self))
    · have alive := noDead.alive (early ++ [call]) late (by simpa using split)
      rwa [bufferAfter_append] at alive
  intro early
  induction early using reverseRecOn with
  | nil => exact fun _ _ => TidyRun.start initialVc
  | append_singleton early call ih =>
      intro late split
      have split' : calls = early ++ call :: late := by simpa using split
      have run := ih _ split'
      have alive := noDead.alive (early ++ [call]) late split
      have alone : NoTwinWaits (bufferAfter initialVc early) call.op :=
        single _ (deliveryMachine.mem_transitions_iff.mpr ⟨early, call, late, split', rfl⟩)
      rw [bufferAfter_append] at alive
      have fresh := run.uncounted_of_alive call
        (positive _ (split' ▸ mem_map_of_mem (mem_append_right _ mem_cons_self))) alive
      rw [givenOps_append, deliveries_append, bufferAfter_append]
      exact run.deliver call alone fresh

/-- While no twins wait, the buffer holds dead entries exactly after stale arrivals. -/
theorem deliver_no_dead_entries_iff {initialVc : VectorClock} {calls : List DeliverCall}
    (positive : ∀ op ∈ givenOps calls, 0 < op.ownCounter)
    (single : ∀ call ∈ deliveryMachine.transitions (.new initialVc) calls,
      NoTwinWaits call.before call.event.op) :
    NoDeadEntries initialVc calls ↔
      ∀ call ∈ deliveryMachine.transitions (.new initialVc) calls,
        Uncounted call.before call.event.op :=
  ⟨uncounted_of_noDeadEntries positive single, noDeadEntries_of_uncounted single⟩

/-- An operation delivered twice is buffered the second time and never leaves. -/
theorem deliver_twice_leaves_dead_entry :
    ¬ ∀ (initialVc : VectorClock) (calls : List DeliverCall),
      (∀ op ∈ givenOps calls, 0 < op.ownCounter) → NoDeadEntries initialVc calls := by
  intro claim
  have noDead := claim .new [⟨plainDelivery, rootOp⟩, ⟨plainDelivery, rootOp⟩] (by decide)
  have alive := noDead.alive [⟨plainDelivery, rootOp⟩, ⟨plainDelivery, rootOp⟩] [] rfl
  exact absurd (alive rootOp (by decide)) (by decide)

/-- The cascade of the root and its effect leaves nothing behind. -/
theorem deliver_no_dead_entries_cascade :
    NoDeadEntries .new [⟨plainDelivery, causeOp⟩, ⟨plainDelivery, rootOp⟩] := by
  refine (deliver_no_dead_entries_iff (by decide) ?_).mpr ?_
  · refine forall_mem_cons.mpr ⟨?_, forall_mem_cons.mpr ⟨?_, fun call hmem => by cases hmem⟩⟩
    · unfold NoTwinWaits; decide
    · unfold NoTwinWaits; decide
  · refine forall_mem_cons.mpr ⟨?_, forall_mem_cons.mpr ⟨?_, fun call hmem => by cases hmem⟩⟩
    · unfold Uncounted; decide
    · unfold Uncounted; decide

end RaisinDB.Replication
