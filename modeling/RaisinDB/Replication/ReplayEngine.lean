import RaisinDB.Foundation.HashGroups
import RaisinDB.Foundation.Machine
import RaisinDB.Replication.Crdt

/-!
# The replay engine

A batch is filtered by the idempotency tracker, sorted, grouped by register and
merged; the winners are applied and remembered.  Losers are not remembered, so a
later batch that brings a loser without its winner applies it.
-/

namespace RaisinDB.Replication

open RaisinDB.Foundation List

/-! ## Idempotency tracking -/

class IdempotencyTracker (τ : Type) where
  isApplied : τ → Uuid → Except String Bool
  /-- The tracker afterwards, and whether the write succeeded. -/
  markApplied : τ → Uuid → Nat → τ × Except String Unit

structure InMemoryIdempotencyTracker where
  appliedOps : Finset Uuid
  deriving DecidableEq

instance : IdempotencyTracker InMemoryIdempotencyTracker where
  isApplied tracker opId := .ok (opId ∈ tracker.appliedOps)
  markApplied tracker opId _ := (⟨insert opId tracker.appliedOps⟩, .ok ())

/-! ## The engine -/

structure ConflictInfo where
  winner : Operation
  losers : List Operation
  conflictType : ConflictType
  target : OperationTarget
  deriving DecidableEq

structure ReplayResult where
  applied : List Operation
  conflicts : List ConflictInfo
  skipped : List Operation
  deriving DecidableEq

structure ReplayEngine (τ : Type) where
  idempotencyTracker : τ

/-- What one call leaves to the library: the sort and the order of the hash map. -/
structure ReplayRuntime where
  sorter : SliceSort Operation
  groups : HashOrder (String × List Operation)

/-- Causality, then the wall clock, then the node id. -/
def compareCausal (a b : Operation) : Ordering :=
  if a.vectorClock.happensBefore b.vectorClock then .lt
  else if a.vectorClock.happensAfter b.vectorClock then .gt
  else
    match compare a.timestampMs b.timestampMs with
    | .lt => .lt
    | .gt => .gt
    | .eq => compare a.clusterNodeId b.clusterNodeId

def causalSort (sorter : SliceSort Operation) (operations : List Operation) : List Operation :=
  sorter.sortBy compareCausal operations

def groupByConflictKey (operations : List Operation) : List (String × List Operation) :=
  groupInto conflictGroupKey operations

/-- Push the winner of one group, and its conflict when there is one. -/
def mergeGroup (acc : List Operation × List ConflictInfo) (group : String × List Operation) :
    List Operation × List ConflictInfo :=
  match group.2.head?, mergeOperations group.2 with
  | some _, some (.winner op) => (acc.1 ++ [op], acc.2)
  | some first, some (.conflict winner losers conflictType) =>
      (acc.1 ++ [winner], acc.2 ++ [⟨winner, losers, conflictType, first.target⟩])
  -- the source panics here; groups are never empty, so this is out of reach
  | _, _ => acc

namespace ReplayEngine

variable {τ : Type} [IdempotencyTracker τ]

/-- The operations not yet applied, and those that were. -/
def filterApplied (self : ReplayEngine τ) (operations : List Operation) :
    List Operation × List Operation :=
  operations.foldl (fun acc op =>
    match IdempotencyTracker.isApplied self.idempotencyTracker op.opId with
    | .ok true => (acc.1, acc.2 ++ [op])
    | .ok false => (acc.1 ++ [op], acc.2)
    -- an unreadable tracker reapplies
    | .error _ => (acc.1 ++ [op], acc.2)) ([], [])

/-- A failed write to the tracker is logged and otherwise ignored. -/
def markAll (self : ReplayEngine τ) (applied : List Operation) : ReplayEngine τ :=
  ⟨applied.foldl (fun tracker op =>
    (IdempotencyTracker.markApplied tracker op.opId op.timestampMs).1) self.idempotencyTracker⟩

def replay (runtime : ReplayRuntime) (self : ReplayEngine τ) (operations : List Operation) :
    ReplayEngine τ × ReplayResult :=
  let (newOps, skipped) := self.filterApplied operations
  if newOps.isEmpty then (self, ⟨[], [], skipped⟩)
  else
    let sortedOps := causalSort runtime.sorter newOps
    let groupedOps := runtime.groups.order (groupByConflictKey sortedOps)
    let (applied, conflicts) := groupedOps.foldl mergeGroup ([], [])
    (self.markAll applied, ⟨applied, conflicts, skipped⟩)

end ReplayEngine

/-! ## What one call does -/

/-- The engine that remembers the applied ids in memory. -/
abbrev MemoryEngine := ReplayEngine InMemoryIdempotencyTracker

namespace MemoryEngine

def tracked (engine : MemoryEngine) : Finset Uuid := engine.idempotencyTracker.appliedOps

/-- The operations of a batch that the engine has not applied yet. -/
def fresh (engine : MemoryEngine) (operations : List Operation) : List Operation :=
  operations.filter fun op => op.opId ∉ engine.tracked

theorem mem_fresh {engine : MemoryEngine} {operations : List Operation} {op : Operation} :
    op ∈ engine.fresh operations ↔ op ∈ operations ∧ op.opId ∉ engine.tracked := by
  simp [fresh]

theorem filterApplied_eq (engine : MemoryEngine) (operations : List Operation) :
    engine.filterApplied operations =
      (engine.fresh operations, operations.filter fun op => op.opId ∈ engine.tracked) := by
  induction operations using reverseRecOn with
  | nil => rfl
  | append_singleton operations op ih =>
    unfold ReplayEngine.filterApplied at ih ⊢
    rw [foldl_append, foldl_cons, foldl_nil, ih]
    have answer : IdempotencyTracker.isApplied engine.idempotencyTracker op.opId =
        .ok (decide (op.opId ∈ engine.tracked)) := rfl
    rw [answer]
    by_cases known : op.opId ∈ engine.tracked <;> simp [fresh, known]

theorem tracked_markAll (engine : MemoryEngine) (applied : List Operation) (opId : Uuid) :
    opId ∈ tracked (engine.markAll applied) ↔
      opId ∈ engine.tracked ∨ ∃ op ∈ applied, op.opId = opId := by
  induction applied using reverseRecOn with
  | nil => simp [ReplayEngine.markAll, tracked]
  | append_singleton applied op ih =>
    have step : tracked (engine.markAll (applied ++ [op])) =
        insert op.opId (tracked (engine.markAll applied)) := by
      simp only [ReplayEngine.markAll, tracked, foldl_append, foldl_cons, foldl_nil]
      rfl
    rw [step, Finset.mem_insert, ih]
    simp only [mem_append, mem_singleton]
    constructor
    · rintro (rfl | known | ⟨other, hmem, rfl⟩)
      · exact Or.inr ⟨op, Or.inr rfl, rfl⟩
      · exact Or.inl known
      · exact Or.inr ⟨other, Or.inl hmem, rfl⟩
    · rintro (known | ⟨other, hmem | rfl, rfl⟩)
      · exact Or.inr (Or.inl known)
      · exact Or.inr (Or.inr ⟨other, hmem, rfl⟩)
      · exact Or.inl rfl

end MemoryEngine

/-- Merging keeps one winner for each group. -/
theorem foldl_mergeGroup_applied (groups : List (String × List Operation))
    (nonempty : ∀ group ∈ groups, group.2 ≠ []) (acc : List Operation × List ConflictInfo) :
    (groups.foldl mergeGroup acc).1 =
      acc.1 ++ groups.filterMap fun group => maxBy compareOperationsLww group.2 := by
  induction groups generalizing acc with
  | nil => simp
  | cons group rest ih =>
    obtain ⟨here, later⟩ := forall_mem_cons.mp nonempty
    obtain ⟨result, merged, winning⟩ := mergeOperations_exists here
    obtain ⟨first, others, shape⟩ := exists_cons_of_ne_nil here
    have pushed : (mergeGroup acc group).1 = acc.1 ++ [result.winningOp] := by
      rw [mergeGroup, merged, shape, head?_cons]
      cases result <;> rfl
    rw [foldl_cons, ih later, pushed, filterMap_cons, winning]
    exact append_assoc acc.1 [result.winningOp] _

/-- The winners of a batch: one operation for each register of a fresh operation. -/
structure Winners (operations applied : List Operation) : Prop where
  distinct : (applied.map conflictGroupKey).Nodup
  covers : ∀ op ∈ operations, ∃ winner ∈ applied, conflictGroupKey winner = conflictGroupKey op
  selected : ∀ winner ∈ applied, ∃ group : List Operation,
    (∀ op, op ∈ group ↔
      op ∈ operations ∧ conflictGroupKey op = conflictGroupKey winner) ∧
    maxBy compareOperationsLww group = some winner

namespace Winners

theorem mem {operations applied : List Operation} (winners : Winners operations applied)
    {winner : Operation} (hmem : winner ∈ applied) : winner ∈ operations := by
  obtain ⟨group, content, best⟩ := winners.selected winner hmem
  exact ((content winner).mp (maxBy_mem best)).1

theorem unique {operations applied : List Operation} (winners : Winners operations applied)
    {first second : Operation} (hfirst : first ∈ applied) (hsecond : second ∈ applied)
    (same : conflictGroupKey first = conflictGroupKey second) : first = second :=
  inj_on_of_nodup_map winners.distinct hfirst hsecond same

end Winners

theorem winners_of_grouped {operations : List Operation}
    {groups : List (String × List Operation)}
    (grouped : Grouped conflictGroupKey operations groups) :
    Winners operations (groups.filterMap fun group => maxBy compareOperationsLww group.2) := by
  have key {group : String × List Operation} (hgroup : group ∈ groups) {winner : Operation}
      (best : maxBy compareOperationsLww group.2 = some winner) :
      conflictGroupKey winner = group.1 :=
    ((grouped.content group hgroup winner).mp (maxBy_mem best)).2
  refine ⟨?_, fun op hop => ?_, fun winner hwinner => ?_⟩
  · -- the keys of the winners are the keys of the map
    have keys : (groups.filterMap fun group => maxBy compareOperationsLww group.2).map
        conflictGroupKey = groups.map Prod.fst := by
      rw [map_filterMap, ← filterMap_eq_map]
      apply filterMap_congr
      intro group hgroup
      obtain ⟨best, found⟩ := maxBy_exists compareOperationsLww (grouped.nonempty group hgroup)
      rw [found, Option.map_some, key hgroup found]
      rfl
    rw [keys]
    exact grouped.distinct
  · obtain ⟨group, hgroup, same⟩ := mem_map.mp (grouped.complete op hop)
    obtain ⟨best, found⟩ := maxBy_exists compareOperationsLww (grouped.nonempty group hgroup)
    exact ⟨best, mem_filterMap.mpr ⟨group, hgroup, found⟩, (key hgroup found).trans same⟩
  · obtain ⟨group, hgroup, found⟩ := mem_filterMap.mp hwinner
    refine ⟨group.2, fun op => ?_, found⟩
    rw [grouped.content group hgroup op, key hgroup found]

namespace ReplayEngine

variable {τ : Type} [IdempotencyTracker τ]

/-- The operations of a batch that the tracker does not know as applied. -/
def newOps (self : ReplayEngine τ) (operations : List Operation) : List Operation :=
  operations.filter fun op =>
    IdempotencyTracker.isApplied self.idempotencyTracker op.opId ≠ .ok true

theorem mem_newOps {self : ReplayEngine τ} {operations : List Operation} {op : Operation} :
    op ∈ self.newOps operations ↔
      op ∈ operations ∧ IdempotencyTracker.isApplied self.idempotencyTracker op.opId ≠ .ok true := by
  simp [newOps]

theorem filterApplied_fst (self : ReplayEngine τ) (operations : List Operation) :
    (self.filterApplied operations).1 = self.newOps operations := by
  induction operations using reverseRecOn with
  | nil => rfl
  | append_singleton operations op ih =>
    unfold filterApplied at ih ⊢
    rw [foldl_append, foldl_cons, foldl_nil]
    rw [newOps, filter_append, ← newOps, ← ih]
    split
    · rename_i known
      simp [known]
    · rename_i unknown
      simp [unknown]
    · rename_i unreadable
      simp [unreadable]

/-- A call merges the operations that the tracker does not know and marks the winners. -/
theorem replay_winners (runtime : ReplayRuntime) (self : ReplayEngine τ)
    (operations : List Operation) :
    Winners (self.newOps operations) (self.replay runtime operations).2.applied ∧
      (self.replay runtime operations).1 = self.markAll (self.replay runtime operations).2.applied ∧
      (self.replay runtime operations).2.skipped = (self.filterApplied operations).2 := by
  unfold replay
  have shape := self.filterApplied_fst operations
  generalize self.filterApplied operations = parts at shape ⊢
  obtain ⟨found, known⟩ := parts
  obtain rfl : found = self.newOps operations := shape
  dsimp only
  split
  · rename_i empty
    rw [List.isEmpty_iff] at empty
    rw [empty]
    exact ⟨⟨nodup_nil, by simp, by simp⟩, rfl, rfl⟩
  · have sorted : Grouped conflictGroupKey (causalSort runtime.sorter (self.newOps operations))
        (runtime.groups.order (groupByConflictKey
          (causalSort runtime.sorter (self.newOps operations)))) :=
      (groupInto_grouped _ _).of_perm (runtime.groups.perm _)
    have grouped : Grouped conflictGroupKey (self.newOps operations) _ :=
      sorted.of_items_perm (runtime.sorter.perm compareCausal _)
    have applied := foldl_mergeGroup_applied _ grouped.nonempty ([], [])
    rw [nil_append] at applied
    refine ⟨?_, rfl, rfl⟩
    rw [applied]
    exact winners_of_grouped grouped

end ReplayEngine

/-- Everything a call does to the in-memory engine. -/
structure ReplaySpec (engine : MemoryEngine) (operations : List Operation)
    (after : MemoryEngine) (result : ReplayResult) : Prop where
  skipped : result.skipped = operations.filter fun op => op.opId ∈ engine.tracked
  winners : Winners (engine.fresh operations) result.applied
  tracked : ∀ opId, opId ∈ after.tracked ↔
    opId ∈ engine.tracked ∨ ∃ op ∈ result.applied, op.opId = opId

theorem replay_spec (runtime : ReplayRuntime) (engine : MemoryEngine)
    (operations : List Operation) :
    ReplaySpec engine operations (engine.replay runtime operations).1
      (engine.replay runtime operations).2 := by
  obtain ⟨winners, after, skipped⟩ := engine.replay_winners runtime operations
  have split := MemoryEngine.filterApplied_eq engine operations
  rw [← engine.filterApplied_fst, split] at winners
  rw [split] at skipped
  refine ⟨skipped, winners, fun opId => ?_⟩
  rw [after]
  exact MemoryEngine.tracked_markAll engine _ opId

/-! ## Sequences of calls -/

structure ReplayCall where
  runtime : ReplayRuntime
  operations : List Operation

def replayMachine : Machine MemoryEngine ReplayCall ReplayResult where
  step engine call := engine.replay call.runtime call.operations

abbrev ReplayTransition := Transition MemoryEngine ReplayCall ReplayResult

/-- `a` was in the batch that applied `b` in its place. -/
structure LostTo (call : ReplayTransition) (a b : Operation) : Prop where
  present : a ∈ call.event.operations
  dropped : a ∉ call.output.applied
  applied : b ∈ call.output.applied
  register : conflictGroupKey a = conflictGroupKey b

/-- What lost in the first call is not applied by the second. -/
structure StaysOut (first second : ReplayTransition) : Prop where
  losers : ∀ a b, LostTo first a b → a ∈ second.event.operations →
    (∀ newer ∈ second.event.operations, conflictGroupKey newer = conflictGroupKey b →
      compareOperationsLww newer b ≠ .gt) →
    a ∉ second.output.applied
  repeated : second.event.operations = first.event.operations → second.output.applied = []

/-- No two operations that the engine still has to apply compete. -/
def Uncontested (engine : MemoryEngine) (operations : List Operation) : Prop :=
  ∀ a ∈ engine.fresh operations, ∀ b ∈ engine.fresh operations,
    conflictGroupKey a = conflictGroupKey b → a.opId = b.opId

instance (engine : MemoryEngine) (operations : List Operation) :
    Decidable (Uncontested engine operations) := by
  unfold Uncontested
  infer_instance

namespace ReplaySpec

variable {engine after : MemoryEngine} {operations : List Operation} {result : ReplayResult}

theorem tracked_mono (spec : ReplaySpec engine operations after result) {opId : Uuid}
    (known : opId ∈ engine.tracked) : opId ∈ after.tracked :=
  (spec.tracked opId).mpr (Or.inl known)

theorem notMem_applied (spec : ReplaySpec engine operations after result) {op : Operation}
    (known : op.opId ∈ engine.tracked) : op ∉ result.applied := fun hmem =>
  (MemoryEngine.mem_fresh.mp (spec.winners.mem hmem)).2 known

/-- An uncontested batch is remembered as a whole. -/
theorem tracked_of_uncontested (spec : ReplaySpec engine operations after result)
    (uncontested : Uncontested engine operations) {op : Operation} (hop : op ∈ operations) :
    op.opId ∈ after.tracked := by
  rw [spec.tracked]
  by_cases known : op.opId ∈ engine.tracked
  · exact Or.inl known
  · have hfresh := MemoryEngine.mem_fresh.mpr ⟨hop, known⟩
    obtain ⟨winner, hwinner, register⟩ := spec.winners.covers op hfresh
    exact Or.inr ⟨winner, hwinner, uncontested winner (spec.winners.mem hwinner) op hfresh register⟩

theorem applied_of_known (spec : ReplaySpec engine operations after result)
    (known : ∀ op ∈ operations, op.opId ∈ engine.tracked) : result.applied = [] := by
  rw [eq_nil_iff_forall_not_mem]
  intro op hmem
  have hfresh := MemoryEngine.mem_fresh.mp (spec.winners.mem hmem)
  exact hfresh.2 (known op hfresh.1)

/-- In a contested batch some operation loses to one that is not older. -/
theorem exists_loser (spec : ReplaySpec engine operations after result)
    (identify : IdsIdentify operations) (contested : ¬ Uncontested engine operations) :
    ∃ a b, a ∈ operations ∧ a ∉ result.applied ∧ b ∈ result.applied ∧
      conflictGroupKey a = conflictGroupKey b ∧ compareOperationsLww a b ≠ .gt ∧
      a.opId ∉ after.tracked := by
  simp only [Uncontested, not_forall] at contested
  obtain ⟨x, hx, y, hy, register, different⟩ := contested
  obtain ⟨winner, hwinner, sameRegister⟩ := spec.winners.covers x hx
  obtain ⟨group, content, best⟩ := spec.winners.selected winner hwinner
  have inGroupX : x ∈ group := (content x).mpr ⟨hx, sameRegister.symm⟩
  have inGroupY : y ∈ group := (content y).mpr ⟨hy, (sameRegister.trans register).symm⟩
  have other : ∃ other ∈ group, other ≠ winner := by
    by_cases isX : x = winner
    · refine ⟨y, inGroupY, fun isY => different ?_⟩
      rw [isX, isY]
    · exact ⟨x, inGroupX, isX⟩
  obtain ⟨_, hother, hne⟩ := other
  obtain ⟨a, ha, lost, notNewer⟩ := maxBy_beats compareOperationsLww_oriented best hother hne
  obtain ⟨hfresh, registerA⟩ := (content a).mp ha
  obtain ⟨hmem, unknown⟩ := MemoryEngine.mem_fresh.mp hfresh
  have dropped : a ∉ result.applied := fun applied =>
    lost (spec.winners.unique applied hwinner registerA)
  refine ⟨a, winner, hmem, dropped, hwinner, registerA, notNewer, ?_⟩
  rw [spec.tracked]
  rintro (known | ⟨op, happlied, sameId⟩)
  · exact unknown known
  · have inBatch := (MemoryEngine.mem_fresh.mp (spec.winners.mem happlied)).1
    exact dropped (identify op inBatch a hmem sameId ▸ happlied)

end ReplaySpec

/-- A single unknown operation is always applied. -/
theorem replay_singleton (runtime : ReplayRuntime) {engine : MemoryEngine} {op : Operation}
    (unknown : op.opId ∉ engine.tracked) :
    op ∈ (engine.replay runtime [op]).2.applied := by
  have spec := replay_spec runtime engine [op]
  have hfresh : op ∈ engine.fresh [op] := MemoryEngine.mem_fresh.mpr ⟨by simp, unknown⟩
  obtain ⟨winner, hwinner, _⟩ := spec.winners.covers op hfresh
  have inBatch := (MemoryEngine.mem_fresh.mp (spec.winners.mem hwinner)).1
  rwa [mem_singleton.mp inBatch] at hwinner

/--
Losers stay out of every run of uncontested calls.  A contested call can always
be followed by one that applies a loser.
-/
theorem replay_losers_stay_out (engine : MemoryEngine) :
    (∀ calls : List ReplayCall,
      (∀ call ∈ replayMachine.transitions engine calls,
        Uncontested call.before call.event.operations) →
      (replayMachine.transitions engine calls).Pairwise StaysOut) ∧
    ∀ call : ReplayCall, IdsIdentify call.operations →
      ¬ Uncontested engine call.operations →
      ∃ a ∈ call.operations, ∀ runtime,
        ¬ (replayMachine.transitions engine [call, ⟨runtime, [a]⟩]).Pairwise StaysOut := by
  constructor
  · intro calls permitted
    refine replayMachine.transitions_pairwise
      (fun first engine => ∀ op ∈ first.event.operations, op.opId ∈ engine.tracked)
      (fun engine call => Uncontested engine call.operations) ?_ ?_ ?_ permitted
    · intro engine call uncontested op hop
      exact (replay_spec call.runtime engine call.operations).tracked_of_uncontested
        uncontested hop
    · intro first engine call marked op hop
      exact (replay_spec call.runtime engine call.operations).tracked_mono (marked op hop)
    · intro first engine call marked
      have spec := replay_spec call.runtime engine call.operations
      refine ⟨fun a b lost _ _ => spec.notMem_applied (marked a lost.present), fun same => ?_⟩
      exact spec.applied_of_known fun op hop => marked op (same ▸ hop)
  · intro call identify contested
    obtain ⟨a, b, hmem, dropped, happlied, register, notNewer, unknown⟩ :=
      (replay_spec call.runtime engine call.operations).exists_loser identify contested
    refine ⟨a, hmem, fun runtime staysOut => ?_⟩
    have related := (pairwise_cons.mp staysOut).1 _ mem_cons_self
    refine related.losers a b ⟨hmem, dropped, happlied, register⟩ (mem_singleton_self a) ?_
      (replay_singleton runtime unknown)
    intro newer hnewer _
    rw [mem_singleton.mp hnewer]
    exact notNewer

/-- Insertion sort and insertion order. -/
def plainReplay : ReplayRuntime := ⟨insertionSlice Operation, HashOrder.inserted _⟩

/-- Two concurrent writes of one branch head. -/
def competingWrites : List Operation :=
  [makeOp 1 "node1" 10 [("node1", 1)] (.updateBranch ⟨"main"⟩),
    makeOp 2 "node2" 20 [("node2", 1)] (.updateBranch ⟨"main"⟩)]

/-- The earlier of two competing writes is applied by the second delivery of both. -/
theorem replay_twice_applies_loser :
    ¬ ∀ (engine : MemoryEngine) (calls : List ReplayCall),
      (replayMachine.transitions engine calls).Pairwise StaysOut := by
  intro claim
  have related := (pairwise_cons.mp
    (claim ⟨⟨∅⟩⟩ [⟨plainReplay, competingWrites⟩, ⟨plainReplay, competingWrites⟩])).1 _
    mem_cons_self
  exact absurd (related.repeated rfl) (by decide)

/-- Two writes of different registers, delivered twice. -/
theorem replay_losers_stay_out_uncontested :
    (replayMachine.transitions ⟨⟨∅⟩⟩
      [⟨plainReplay, [makeOp 1 "node1" 10 [("node1", 1)] (.updateBranch ⟨"main"⟩),
          makeOp 2 "node2" 20 [("node2", 1)] (.updateBranch ⟨"dev"⟩)]⟩,
        ⟨plainReplay, [makeOp 2 "node2" 20 [("node2", 1)] (.updateBranch ⟨"dev"⟩)]⟩]).Pairwise
      StaysOut := by
  refine (replay_losers_stay_out _).1 _ ?_
  refine forall_mem_cons.mpr ⟨?_, forall_mem_cons.mpr ⟨?_, ?_⟩⟩
  · decide
  · decide
  · intro call hmem
    cases hmem

/-! ## Losers and their stored entities -/

/-- Every operation dropped from the batch was beaten in its register by an applied
operation that writes the same stored entity. -/
def DroppedForSameEntity (operations : List Operation) (result : ReplayResult) : Prop :=
  ∀ op ∈ operations, op ∉ result.applied → op ∉ result.skipped →
    ∃ winner ∈ result.applied, conflictGroupKey op = conflictGroupKey winner ∧
      SameStoredEntity op winner

namespace ReplaySpec

variable {engine after : MemoryEngine} {operations : List Operation} {result : ReplayResult}

theorem mem_skipped (spec : ReplaySpec engine operations after result) {op : Operation} :
    op ∈ result.skipped ↔ op ∈ operations ∧ op.opId ∈ engine.tracked := by
  simp [spec.skipped]

/-- What the batch drops writes the entity of the operation applied for its register. -/
theorem same_as_winner (spec : ReplaySpec engine operations after result)
    (dropped : DroppedForSameEntity operations result) {op winner : Operation}
    (hop : op ∈ engine.fresh operations) (hwinner : winner ∈ result.applied)
    (key : conflictGroupKey op = conflictGroupKey winner) : SameStoredEntity op winner := by
  by_cases applied : op ∈ result.applied
  · rw [spec.winners.unique applied hwinner key]
    exact SameStoredEntity.refl winner
  · obtain ⟨hmem, unknown⟩ := MemoryEngine.mem_fresh.mp hop
    obtain ⟨other, hother, otherKey, same⟩ := dropped op hmem applied
      fun skipped => unknown (spec.mem_skipped.mp skipped).2
    rwa [spec.winners.unique hother hwinner (otherKey.symm.trans key)] at same

theorem droppedForSameEntity_iff (spec : ReplaySpec engine operations after result) :
    DroppedForSameEntity operations result ↔
      ∀ a ∈ engine.fresh operations, ∀ b ∈ engine.fresh operations, ¬ Collides a b := by
  constructor
  · intro dropped a ha b hb collides
    have key := conflictGroupKey_of_collides collides
    obtain ⟨winner, hwinner, keyA⟩ := spec.winners.covers a ha
    have sameA := spec.same_as_winner dropped ha hwinner keyA.symm
    have sameB := spec.same_as_winner dropped hb hwinner (key.symm.trans keyA.symm)
    have slots : a.slot = b.slot :=
      (sameA.slot_eq keyA.symm).trans (sameB.slot_eq (key.symm.trans keyA.symm)).symm
    exact (sameStoredEntity_of_key_iff a b).mp (fun _ => sameA.of_common sameB slots) collides
  · intro free op hop notApplied notSkipped
    have hfresh : op ∈ engine.fresh operations :=
      MemoryEngine.mem_fresh.mpr ⟨hop, fun known => notSkipped (spec.mem_skipped.mpr ⟨hop, known⟩)⟩
    obtain ⟨winner, hwinner, key⟩ := spec.winners.covers op hfresh
    refine ⟨winner, hwinner, key.symm, ?_⟩
    exact (sameStoredEntity_of_key_iff op winner).mpr
      (free op hfresh winner (spec.winners.mem hwinner)) key.symm

end ReplaySpec

/--
One register text means one stored entity exactly for pairs that do not collide,
and a batch drops operations only for their own entity exactly when no two
operations it still has to apply collide.
-/
theorem replay_drops_same_entity_iff (a b : Operation) (engine : MemoryEngine)
    (call : ReplayCall) :
    ((conflictGroupKey a = conflictGroupKey b → SameStoredEntity a b) ↔ ¬ Collides a b) ∧
    (DroppedForSameEntity call.operations (replayMachine.step engine call).2 ↔
      ∀ x ∈ engine.fresh call.operations, ∀ y ∈ engine.fresh call.operations,
        ¬ Collides x y) :=
  ⟨sameStoredEntity_of_key_iff a b,
    (replay_spec call.runtime engine call.operations).droppedForSameEntity_iff⟩

/-- One node written on `main` and then on `dev`. -/
def mainWrite : Operation :=
  makeOp 1 "node1" 10 [("node1", 1)] (.upsertNodeSnapshot ⟨"page"⟩ none ⟨1, 0⟩ "a")

def devWrite : Operation :=
  { makeOp 2 "node1" 20 [("node1", 2)] (.upsertNodeSnapshot ⟨"page"⟩ none ⟨2, 0⟩ "a") with
    branch := "dev" }

/-- The snapshot on one branch competes with, and drops, the snapshot on the other. -/
theorem conflictGroupKey_mixes_branches :
    (¬ ∀ a b : Operation, conflictGroupKey a = conflictGroupKey b → SameStoredEntity a b) ∧
      ¬ ∀ (engine : MemoryEngine) (call : ReplayCall),
        DroppedForSameEntity call.operations (replayMachine.step engine call).2 := by
  have apart : ¬ SameStoredEntity mainWrite devWrite := by decide
  refine ⟨fun pairs => apart (pairs mainWrite devWrite (by decide)), fun batches => ?_⟩
  have applied : (replayMachine.step ⟨⟨∅⟩⟩ ⟨plainReplay, [mainWrite, devWrite]⟩).2.applied =
      [devWrite] := by decide
  obtain ⟨winner, hwinner, _, same⟩ := batches ⟨⟨∅⟩⟩ ⟨plainReplay, [mainWrite, devWrite]⟩
    mainWrite (by decide) (by decide) (by decide)
  rw [applied, mem_singleton] at hwinner
  exact apart (hwinner ▸ same)

end RaisinDB.Replication
