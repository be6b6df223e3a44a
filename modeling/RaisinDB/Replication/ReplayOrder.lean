import RaisinDB.Replication.CausalSort

/-!
# The order of replayed operations

A batch is sorted by causality, then regrouped through a hash map, and the winners are emitted in
the order of that map.  So the sort decides which operation of a register wins, but not where the
winner stands.
-/

namespace RaisinDB.Replication

open RaisinDB.Foundation List

/-! ## Times that grow along causality -/

/-- Whatever precedes has the smaller timestamp. -/
def Growing (operations : List Operation) : Prop :=
  ∀ a ∈ operations, ∀ b ∈ operations, Precedes a b → a.timestampMs < b.timestampMs

instance (operations : List Operation) : Decidable (Growing operations) :=
  inferInstanceAs (Decidable (∀ a ∈ operations, ∀ b ∈ operations, _))

variable {operations : List Operation} {a b : Operation}

theorem Growing.subset {fewer : List Operation} (growing : Growing operations)
    (inside : fewer ⊆ operations) : Growing fewer :=
  fun a ha b hb => growing a (inside ha) b (inside hb)

theorem Growing.wallKey_lt (growing : Growing operations) (ha : a ∈ operations)
    (hb : b ∈ operations) (early : Precedes a b) : wallKey a < wallKey b :=
  Prod.Lex.toLex_lt_toLex.mpr (.inl (growing a ha b hb early))

/-- The comparator is that of the wall clock then. -/
theorem Growing.lt_iff (growing : Growing operations) (ha : a ∈ operations)
    (hb : b ∈ operations) : compareCausal a b = .lt ↔ wallKey a < wallKey b := by
  rw [compareCausal_lt_iff]
  constructor
  · exact fun either => either.elim (growing.wallKey_lt ha hb) And.right
  · intro smaller
    by_cases early : Precedes a b
    · exact .inl early
    · exact .inr ⟨⟨early, fun late => (growing.wallKey_lt hb ha late).not_gt smaller⟩, smaller⟩

theorem Growing.le_of_ne_gt (growing : Growing operations) (ha : a ∈ operations)
    (hb : b ∈ operations) (notGreater : compareCausal a b ≠ .gt) : wallKey a ≤ wallKey b := by
  by_contra greater
  have less := (growing.lt_iff hb ha).mpr (not_le.mp greater)
  rw [compareCausal_oriented a b, Ordering.swap_eq_lt] at less
  exact notGreater less

theorem Growing.eq_of_wallKey (growing : Growing operations) (ha : a ∈ operations)
    (hb : b ∈ operations) (same : wallKey a = wallKey b) : compareCausal a b = .eq :=
  (compareCausal_eq_iff a b).mpr ⟨⟨fun early => (growing.wallKey_lt ha hb early).ne same,
    fun late => (growing.wallKey_lt hb ha late).ne same.symm⟩, same⟩

theorem Growing.totalOrderOn (growing : Growing operations) :
    TotalOrderOn compareCausal operations := by
  rw [totalOrderOn_iff]
  rintro ⟨a, ha, b, hb, c, -, early, -, -, lower, upper⟩
  exact (growing.wallKey_lt ha hb early).not_ge (lower.trans upper)

/-! ## The last write of a register -/

def SameRegister (a b : Operation) : Prop := conflictGroupKey a = conflictGroupKey b

instance (a b : Operation) : Decidable (SameRegister a b) := inferInstanceAs (Decidable (_ = _))

/-- By the wall clock no operation of its register is later, and none that comes after it in the
batch is as late. -/
def LastWrite (operations : List Operation) (op : Operation) : Prop :=
  ∃ before after, operations = before ++ op :: after ∧
    (∀ other ∈ before, SameRegister other op → wallKey other ≤ wallKey op) ∧
    ∀ other ∈ after, SameRegister other op → wallKey other < wallKey op

theorem LastWrite.mem (last : LastWrite operations a) : a ∈ operations := by
  obtain ⟨before, after, rfl, -⟩ := last
  exact mem_append_right _ mem_cons_self

theorem LastWrite.wallKey_le (last : LastWrite operations a) (mem : b ∈ operations)
    (same : SameRegister b a) : wallKey b ≤ wallKey a := by
  obtain ⟨before, after, rfl, lower, upper⟩ := last
  rcases mem_append.mp mem with early | late
  · exact lower b early same
  · rcases mem_cons.mp late with rfl | late
    · exact le_rfl
    · exact (upper b late same).le

/-- A register has one last write. -/
theorem LastWrite.unique (first : LastWrite operations a) (second : LastWrite operations b)
    (same : SameRegister a b) : a = b := by
  obtain ⟨before, after, shape, lower, upper⟩ := first
  obtain ⟨before', after', shape', lower', upper'⟩ := second
  rw [shape] at shape'
  rcases append_eq_append_iff.mp shape' with ⟨between, inBefore, inAfter⟩ |
    ⟨between, inBefore, inAfter⟩
  · cases between with
    | nil => exact (cons.inj inAfter).1
    | cons head tail =>
        obtain ⟨rfl, rest⟩ := cons.inj inAfter
        have later := lower' a (inBefore ▸ mem_append_right _ mem_cons_self) same
        have earlier := upper b (rest ▸ mem_append_right _ mem_cons_self) same.symm
        exact absurd later earlier.not_ge
  · cases between with
    | nil => exact (cons.inj inAfter).1.symm
    | cons head tail =>
        obtain ⟨rfl, rest⟩ := cons.inj inAfter
        have later := lower b (inBefore ▸ mem_append_right _ mem_cons_self) same.symm
        have earlier := upper' a (rest ▸ mem_append_right _ mem_cons_self) same
        exact absurd later earlier.not_ge

/-- Of the sorted operations of a register, the last one is its last write. -/
theorem lastWrite_of_sorted (sorter : SliceSort Operation) (growing : Growing operations)
    {op : Operation}
    (last : ((causalSort sorter operations).filter fun other => SameRegister other op).getLast? =
      some op) : LastWrite operations op := by
  have order := growing.totalOrderOn
  obtain ⟨front, shape⟩ := getLast?_eq_some_iff.mp last
  have inSorted : op ∈ causalSort sorter operations := by
    have inFiltered : op ∈ (causalSort sorter operations).filter
        fun other => SameRegister other op := by
      rw [shape]
      exact mem_append_right _ mem_cons_self
    exact mem_of_mem_filter inFiltered
  have member : op ∈ operations := (sorter.mem_sortBy compareCausal operations op).mp inSorted
  have sorted := (sorter.pairwise_not_gt order).filter fun other => SameRegister other op
  change ((causalSort sorter operations).filter _).Pairwise _ at sorted
  rw [shape] at sorted
  -- no operation of the register is later
  have latest : ∀ other ∈ operations, SameRegister other op → wallKey other ≤ wallKey op := by
    intro other hother same
    have inFiltered : other ∈ front ++ [op] := by
      rw [← shape]
      exact mem_filter.mpr ⟨(sorter.mem_sortBy compareCausal operations other).mpr hother,
        decide_eq_true same⟩
    rcases mem_append.mp inFiltered with earlier | itself
    · exact growing.le_of_ne_gt hother member
        ((pairwise_append.mp sorted).2.2 other earlier op mem_cons_self)
    · rw [mem_singleton.mp itself]
  -- among those as late, the sort keeps the order of arrival
  have ties := congrArg (filter fun other => SameRegister other op)
    (sorter.stable compareCausal operations order op member)
  rw [filter_filter, filter_filter] at ties
  have arrived : operations.filter (fun other =>
      decide (SameRegister other op) && decide (compareCausal op other = .eq)) =
      (front.filter fun other => compareCausal op other = .eq) ++ [op] := by
    have both : (causalSort sorter operations).filter (fun other =>
        decide (SameRegister other op) && decide (compareCausal op other = .eq)) =
        ((causalSort sorter operations).filter fun other => SameRegister other op).filter
          fun other => compareCausal op other = .eq := by
      rw [filter_filter]
      exact filter_congr fun other _ => Bool.and_comm _ _
    rw [← ties]
    refine both.trans ?_
    rw [shape, filter_append]
    simp [compareCausal_self]
  obtain ⟨before, rest, split, -, tail⟩ := filter_eq_append_iff.mp arrived
  obtain ⟨between, after, split', -, -, none⟩ := filter_eq_cons_iff.mp tail
  refine ⟨before ++ between, after, by rw [split, split', append_assoc], ?_, ?_⟩
  · refine fun other hother same => latest other ?_ same
    rw [split, split', ← append_assoc]
    exact mem_append_left _ hother
  · intro other hother same
    have inside : other ∈ operations := by
      rw [split, split']
      exact mem_append_right _ (mem_append_right _ (mem_cons_of_mem _ hother))
    refine (latest other inside same).lt_of_ne fun equal => ?_
    have tie := growing.eq_of_wallKey member inside equal.symm
    have absent := filter_eq_nil_iff.mp none other hother
    exact absent (by simp [same, tie])

/-! ## What is applied -/

section Engine

variable {τ : Type} [IdempotencyTracker τ] {engine : ReplayEngine τ}

/-- The winners in the order of the groups. -/
theorem applied_eq (runtime : ReplayRuntime) (engine : ReplayEngine τ)
    (operations : List Operation) :
    (engine.replay runtime operations).2.applied =
      (runtime.groups.order (groupByConflictKey
        (causalSort runtime.sorter (engine.newOps operations)))).filterMap
          fun group => maxBy compareOperationsLww group.2 := by
  unfold ReplayEngine.replay
  have shape := engine.filterApplied_fst operations
  generalize engine.filterApplied operations = parts at shape ⊢
  obtain ⟨found, known⟩ := parts
  obtain rfl : found = engine.newOps operations := shape
  dsimp only
  split
  · next empty =>
    rw [List.isEmpty_iff] at empty
    have sorted : causalSort runtime.sorter (engine.newOps operations) = [] := by
      rw [empty]
      exact (runtime.sorter.perm compareCausal []).eq_nil
    have groups : groupByConflictKey ([] : List Operation) = [] := rfl
    rw [sorted, groups, (runtime.groups.perm []).eq_nil]
    rfl
  · have grouped := (groupInto_grouped conflictGroupKey
      (causalSort runtime.sorter (engine.newOps operations))).of_perm (runtime.groups.perm _)
    exact (foldl_mergeGroup_applied _ grouped.nonempty ([], [])).trans (nil_append _)

/-- The last writes of the registers are applied, and nothing else. -/
theorem mem_applied_iff (runtime : ReplayRuntime) (growing : Growing (engine.newOps operations))
    {op : Operation} :
    op ∈ (engine.replay runtime operations).2.applied ↔
      LastWrite (engine.newOps operations) op := by
  have winner : ∀ op ∈ (engine.replay runtime operations).2.applied,
      LastWrite (engine.newOps operations) op := by
    intro op member
    rw [applied_eq] at member
    obtain ⟨group, inGroups, best⟩ := mem_filterMap.mp member
    have content := groupInto_content ((runtime.groups.mem_order _ _).mp inGroups)
    have register : conflictGroupKey op = group.1 := by
      have inside := maxBy_mem best
      rw [content] at inside
      exact of_decide_eq_true (mem_filter.mp inside).2
    have comparator : compareOperationsLww = compareCausal := by
      funext a b
      exact (compareCausal_eq a b).symm
    have sorted := (runtime.sorter.pairwise_not_gt growing.totalOrderOn).filter
      fun other => decide (conflictGroupKey other = group.1)
    change ((causalSort runtime.sorter (engine.newOps operations)).filter _).Pairwise _ at sorted
    rw [content, comparator, maxBy_of_sorted sorted, ← register] at best
    exact lastWrite_of_sorted runtime.sorter growing best
  refine ⟨winner op, fun last => ?_⟩
  obtain ⟨winners, -, -⟩ := engine.replay_winners runtime operations
  obtain ⟨other, applied, same⟩ := winners.covers op last.mem
  rw [last.unique (winner other applied) same.symm]
  exact applied

/-- The groups of a hash map in the opposite order. -/
def reversedOrder (α : Type) : HashOrder α := ⟨reverse, reverse_perm⟩

theorem applied_reversed (sorter : SliceSort Operation) (engine : ReplayEngine τ)
    (operations : List Operation) :
    (engine.replay ⟨sorter, reversedOrder _⟩ operations).2.applied =
      (engine.replay ⟨sorter, .inserted _⟩ operations).2.applied.reverse := by
  rw [applied_eq, applied_eq]
  exact filterMap_reverse

/-- Of a list where neither it nor its reverse has a later element that precedes an earlier one,
no element precedes another. -/
theorem not_precedes_of_both {applied : List Operation}
    (forward : applied.Pairwise fun first later => ¬ Precedes later first)
    (backward : applied.reverse.Pairwise fun first later => ¬ Precedes later first)
    (ha : a ∈ applied) (hb : b ∈ applied) : ¬ Precedes a b := by
  rw [pairwise_reverse] at backward
  exact forward.forall_of_forall_of_flip (fun op _ => precedes_irrefl op) backward hb ha

/-- Under every sort and every order of the groups, what is applied is in causal order exactly
where no last write of a register precedes that of another. -/
theorem applied_in_causal_order_iff (engine : ReplayEngine τ) (operations : List Operation)
    (growing : Growing operations) :
    (∀ runtime, (engine.replay runtime operations).2.applied.Pairwise
        fun first later => ¬ Precedes later first) ↔
      ∀ a b, LastWrite (engine.newOps operations) a → LastWrite (engine.newOps operations) b →
        ¬ Precedes a b := by
  have fresh : Growing (engine.newOps operations) :=
    growing.subset fun op member => (ReplayEngine.mem_newOps.mp member).1
  constructor
  · intro ordered a b first second
    have forward := ordered ⟨insertionSlice _, .inserted _⟩
    have backward := ordered ⟨insertionSlice _, reversedOrder _⟩
    rw [applied_reversed] at backward
    exact not_precedes_of_both forward backward ((mem_applied_iff _ fresh).mpr first)
      ((mem_applied_iff _ fresh).mpr second)
  · intro none runtime
    refine pairwise_of_forall_mem_list fun first hfirst later hlater => ?_
    exact none later first ((mem_applied_iff runtime fresh).mp hlater)
      ((mem_applied_iff runtime fresh).mp hfirst)

/-- Engines of one state apply the same operations of a batch, in whatever order they get it. -/
theorem replay_converges (engine : ReplayEngine τ) {batch reordered : List Operation}
    (perm : reordered ~ batch) (growing : Growing batch)
    (distinct : ∀ a ∈ batch, ∀ b ∈ batch, SameRegister a b → wallKey a = wallKey b → a = b)
    (runtime other : ReplayRuntime) (op : Operation) :
    op ∈ (engine.replay runtime batch).2.applied ↔
      op ∈ (engine.replay other reordered).2.applied := by
  have moved {first second : List Operation} (runtime other : ReplayRuntime) (one : first ~ batch)
      (two : second ~ batch) (applied : op ∈ (engine.replay runtime first).2.applied) :
      op ∈ (engine.replay other second).2.applied := by
    have fresh {ops : List Operation} (same : ops ~ batch) : engine.newOps ops ⊆ batch :=
      fun op new => same.subset (ReplayEngine.mem_newOps.mp new).1
    have renewed : ∀ op, op ∈ engine.newOps first ↔ op ∈ engine.newOps second := fun op => by
      rw [ReplayEngine.mem_newOps, ReplayEngine.mem_newOps, one.mem_iff, two.mem_iff]
    have last := (mem_applied_iff runtime (growing.subset (fresh one))).mp applied
    obtain ⟨winner, won, same⟩ :=
      (engine.replay_winners other second).1.covers op ((renewed op).mp last.mem)
    have last' := (mem_applied_iff other (growing.subset (fresh two))).mp won
    have equal := le_antisymm (last.wallKey_le ((renewed winner).mpr last'.mem) same)
      (last'.wallKey_le ((renewed op).mp last.mem) same.symm)
    rwa [← distinct winner (fresh two last'.mem) op (fresh one last.mem) same equal]
  exact ⟨moved _ _ (.refl _) perm, moved _ _ perm (.refl _)⟩

end Engine

/-- A write of one register, and a later one of another. -/
def causalWrites : List Operation :=
  [makeOp 1 "node1" 1 [("node1", 1)] (.updateBranch ⟨"main"⟩),
    makeOp 2 "node1" 2 [("node1", 2)] (.updateBranch ⟨"dev"⟩)]

/-- Two writes of one register. -/
def repeatedWrites : List Operation :=
  [makeOp 1 "node1" 1 [("node1", 1)] (.updateBranch ⟨"main"⟩),
    makeOp 2 "node1" 2 [("node1", 2)] (.updateBranch ⟨"main"⟩)]

def emptyEngine : MemoryEngine := ⟨⟨∅⟩⟩

theorem one_register_in_order :
    (emptyEngine.replay ⟨insertionSlice _, reversedOrder _⟩ repeatedWrites).2.applied.Pairwise
      fun first later => ¬ Precedes later first := by
  refine (applied_in_causal_order_iff emptyEngine repeatedWrites (by decide)).mpr ?_ _
  intro a b first second
  have registers : ∀ a ∈ repeatedWrites, ∀ b ∈ repeatedWrites, SameRegister a b := by decide
  have inA := (ReplayEngine.mem_newOps.mp first.mem).1
  have inB := (ReplayEngine.mem_newOps.mp second.mem).1
  rw [first.unique second (registers a inA b inB)]
  exact precedes_irrefl b

theorem replays_converge_reversed :
    makeOp 2 "node1" 2 [("node1", 2)] (.updateBranch ⟨"main"⟩) ∈
        (emptyEngine.replay ⟨insertionSlice _, .inserted _⟩ repeatedWrites).2.applied ↔
      makeOp 2 "node1" 2 [("node1", 2)] (.updateBranch ⟨"main"⟩) ∈
        (emptyEngine.replay ⟨insertionSlice _, reversedOrder _⟩ repeatedWrites.reverse).2.applied :=
  replay_converges emptyEngine (reverse_perm _) (by decide) (by decide) _ _ _

theorem later_register_first :
    Growing causalWrites ∧
      ¬ (emptyEngine.replay ⟨insertionSlice _, reversedOrder _⟩ causalWrites).2.applied.Pairwise
        fun first later => ¬ Precedes later first := by
  decide

end RaisinDB.Replication
