import RaisinDB.Foundation.SortOutcomes
import RaisinDB.Replication.ReplayEngine

/-!
# Sorting by causality

The comparator follows causality where it can and the wall clock elsewhere.  An operation that is
concurrent to two others, and lies between them by the wall clock against their causality, closes
a cycle, and then the sort promises nothing.  The same comparator orders the merged logs of peers.
-/

namespace RaisinDB.Replication

open RaisinDB.Foundation List

/-! ## The comparator -/

def Precedes (a b : Operation) : Prop := a.vectorClock.happensBefore b.vectorClock

instance (a b : Operation) : Decidable (Precedes a b) := inferInstanceAs (Decidable (_ = true))

/-- Neither operation precedes the other. -/
def Unordered (a b : Operation) : Prop := ¬ Precedes a b ∧ ¬ Precedes b a

instance (a b : Operation) : Decidable (Unordered a b) := inferInstanceAs (Decidable (_ ∧ _))

/-- The wall clock, then the node id. -/
def wallKey (op : Operation) : ℕ ×ₗ String := toLex (op.timestampMs, op.clusterNodeId)

theorem precedes_iff {a b : Operation} :
    Precedes a b ↔ a.vectorClock.compare b.vectorClock = .before := by
  rw [Precedes, VectorClock.happensBefore, decide_eq_true_eq]

theorem precedes_irrefl (op : Operation) : ¬ Precedes op op := by
  rw [precedes_iff, VectorClock.compare_self]
  exact nofun

theorem Precedes.trans {a b c : Operation} (early : Precedes a b) (late : Precedes b c) :
    Precedes a c :=
  precedes_iff.mpr (VectorClock.before_trans (precedes_iff.mp early) (precedes_iff.mp late))

theorem Unordered.symm {a b : Operation} (unordered : Unordered a b) : Unordered b a :=
  ⟨unordered.2, unordered.1⟩

theorem compareCausal_eq (a b : Operation) : compareCausal a b = compareOperationsLww a b := by
  unfold compareCausal compareOperationsLww VectorClock.happensBefore VectorClock.happensAfter
  cases a.vectorClock.compare b.vectorClock <;> cases compare a.timestampMs b.timestampMs <;> simp

theorem compareCausal_oriented (a b : Operation) :
    compareCausal b a = (compareCausal a b).swap := by
  rw [compareCausal_eq, compareCausal_eq, compareOperationsLww_oriented]

theorem compareCausal_lt_iff (a b : Operation) :
    compareCausal a b = .lt ↔ Precedes a b ∨ (Unordered a b ∧ wallKey a < wallKey b) := by
  have after : a.vectorClock.compare b.vectorClock = .after ↔ Precedes b a := by
    rw [VectorClock.compare_eq_after_iff, precedes_iff]
  rw [compareCausal_eq, compareOperationsLww_eq_lt_iff, EarlierWrite, ← precedes_iff, ne_eq,
    after, wallKey, wallKey, Prod.Lex.toLex_lt_toLex, Unordered]
  by_cases early : Precedes a b
  · exact iff_of_true (.inl early) (.inl early)
  · simp [early]

theorem compareCausal_isLE_iff (a b : Operation) :
    (compareCausal a b).isLE ↔ ¬ compareCausal b a = .lt := by
  rw [compareCausal_oriented a b]
  cases compareCausal a b <;> simp

theorem compareCausal_self (op : Operation) : compareCausal op op = .eq := by
  have oriented := compareCausal_oriented op op
  cases compared : compareCausal op op <;> simp [compared] at oriented ⊢

theorem compareCausal_gt_of_precedes {a b : Operation} (early : Precedes a b) :
    compareCausal b a = .gt := by
  rw [compareCausal_oriented a b, (compareCausal_lt_iff a b).mpr (.inl early)]
  rfl

theorem compareCausal_eq_iff (a b : Operation) :
    compareCausal a b = .eq ↔ Unordered a b ∧ wallKey a = wallKey b := by
  have less := compareCausal_lt_iff a b
  have greater := compareCausal_lt_iff b a
  rw [compareCausal_oriented a b, Ordering.swap_eq_lt] at greater
  constructor
  · intro tie
    rw [tie] at less greater
    have notLess := less.not.mp nofun
    have notGreater := greater.not.mp nofun
    have unordered : Unordered a b :=
      ⟨fun early => notLess (.inl early), fun late => notGreater (.inl late)⟩
    exact ⟨unordered, le_antisymm
      (not_lt.mp fun smaller => notGreater (.inr ⟨unordered.symm, smaller⟩))
      (not_lt.mp fun smaller => notLess (.inr ⟨unordered, smaller⟩))⟩
  · rintro ⟨unordered, same⟩
    have notLess : ¬ compareCausal a b = .lt := by
      rw [less, same]
      exact fun either => either.elim unordered.1 fun both => lt_irrefl _ both.2
    have notGreater : ¬ compareCausal a b = .gt := by
      rw [greater, same]
      exact fun either => either.elim unordered.2 fun both => lt_irrefl _ both.2
    cases compared : compareCausal a b with
    | lt => exact absurd compared notLess
    | eq => rfl
    | gt => exact absurd compared notGreater

/-! ## Cycles and ties -/

/-- By the wall clock, `c` lies between `b` and `a`, though `a` precedes `b` and `c` is unordered
to both. -/
def Straddles (a b c : Operation) : Prop :=
  Precedes a b ∧ Unordered a c ∧ Unordered b c ∧ wallKey b ≤ wallKey c ∧ wallKey c ≤ wallKey a

instance (a b c : Operation) : Decidable (Straddles a b c) :=
  inferInstanceAs (Decidable (_ ∧ _ ∧ _ ∧ _ ∧ _))

def Straddled (operations : List Operation) : Prop :=
  ∃ a ∈ operations, ∃ b ∈ operations, ∃ c ∈ operations, Straddles a b c

instance (operations : List Operation) : Decidable (Straddled operations) :=
  inferInstanceAs (Decidable (∃ a ∈ operations, ∃ b ∈ operations, ∃ c ∈ operations, _))

/-- Two operations, neither before the other, of one node and one time. -/
def Tied (operations : List Operation) : Prop :=
  ∃ a ∈ operations, ∃ b ∈ operations, a ≠ b ∧ Unordered a b ∧ wallKey a = wallKey b

instance (operations : List Operation) : Decidable (Tied operations) :=
  inferInstanceAs (Decidable (∃ a ∈ operations, ∃ b ∈ operations, _))

/-- What is not after another is before it, or unordered and not later by the wall clock. -/
theorem not_later {a b : Operation} (notBefore : ¬ compareCausal b a = .lt) :
    Precedes a b ∨ (Unordered a b ∧ wallKey a ≤ wallKey b) := by
  rw [compareCausal_lt_iff] at notBefore
  by_cases early : Precedes a b
  · exact .inl early
  · have unordered : Unordered a b := ⟨early, fun late => notBefore (.inl late)⟩
    exact .inr ⟨unordered, not_lt.mp fun smaller => notBefore (.inr ⟨unordered.symm, smaller⟩)⟩

/-- The comparator is a total order exactly where nothing is straddled. -/
theorem totalOrderOn_iff (operations : List Operation) :
    TotalOrderOn compareCausal operations ↔ ¬ Straddled operations := by
  constructor
  · rintro order ⟨a, ha, b, hb, c, hc, early, first, second, lower, upper⟩
    have toC : (compareCausal b c).isLE := by
      rw [compareCausal_isLE_iff, compareCausal_lt_iff]
      exact fun either => either.elim second.2 fun both => both.2.not_ge lower
    have fromC : (compareCausal c a).isLE := by
      rw [compareCausal_isLE_iff, compareCausal_lt_iff]
      exact fun either => either.elim first.1 fun both => both.2.not_ge upper
    have back := order.trans b hb c hc a ha toC fromC
    rw [compareCausal_gt_of_precedes early] at back
    cases back
  · intro none
    refine ⟨fun a _ b _ => compareCausal_oriented a b, fun a ha b hb c hc below above => ?_⟩
    rw [compareCausal_isLE_iff] at below above ⊢
    have toB := not_later below
    have toC := not_later above
    rw [compareCausal_lt_iff]
    rintro (back | ⟨unordered, smaller⟩)
    · -- `c` precedes `a`, so neither of the two steps is causal
      rcases toB with early | ⟨first, lower⟩
      · exact above ((compareCausal_lt_iff c b).mpr (.inl (back.trans early)))
      rcases toC with early | ⟨second, upper⟩
      · exact below ((compareCausal_lt_iff b a).mpr (.inl (early.trans back)))
      exact none ⟨c, hc, a, ha, b, hb, back, second.symm, first, lower, upper⟩
    · rcases toB with early | ⟨first, lower⟩
      · rcases toC with late | ⟨second, upper⟩
        · exact unordered.2 (early.trans late)
        · exact none ⟨a, ha, b, hb, c, hc, early, unordered.symm, second, upper, smaller.le⟩
      · rcases toC with late | ⟨second, upper⟩
        · exact none ⟨b, hb, c, hc, a, ha, late, first.symm, unordered, smaller.le, lower⟩
        · exact absurd (smaller.trans_le (lower.trans upper)) (lt_irrefl _)

theorem not_tied_iff (operations : List Operation) :
    ¬ Tied operations ↔
      ∀ a ∈ operations, ∀ b ∈ operations, compareCausal a b = .eq → a = b := by
  constructor
  · intro none a ha b hb tie
    by_contra different
    exact none ⟨a, ha, b, hb, different, (compareCausal_eq_iff a b).mp tie⟩
  · rintro all ⟨a, ha, b, hb, different, tie⟩
    exact different (all a ha b hb ((compareCausal_eq_iff a b).mpr tie))

/-- Where the comparator is no total order, causality is at stake. -/
theorem exists_precedes {operations : List Operation}
    (loose : ¬ TotalOrderOn compareCausal operations) :
    ∃ a ∈ operations, ∃ b ∈ operations, Precedes a b := by
  rw [totalOrderOn_iff, not_not] at loose
  obtain ⟨a, ha, b, hb, c, hc, early, -⟩ := loose
  exact ⟨a, ha, b, hb, early⟩

/-! ## The sort -/

/-- The same operations, none before one that precedes it. -/
structure LinearExtension (operations sorted : List Operation) : Prop where
  perm : sorted ~ operations
  ordered : sorted.Pairwise fun first later => ¬ Precedes later first

theorem linearExtension_iff (operations : List Operation) :
    (∀ sorter, LinearExtension operations (causalSort sorter operations)) ↔
      ¬ Straddled operations := by
  rw [← totalOrderOn_iff, ← SliceSort.respects_iff precedes_irrefl
    (fun a b => compareCausal_gt_of_precedes) exists_precedes]
  exact ⟨fun all sorter => (all sorter).ordered,
    fun all sorter => ⟨sorter.perm compareCausal operations, all sorter⟩⟩

theorem deterministic_iff {operations : List Operation} (nodup : operations.Nodup) :
    (∀ sorter shuffled, shuffled ~ operations →
        causalSort sorter shuffled = causalSort sorter operations) ↔
      ¬ Straddled operations ∧ ¬ Tied operations := by
  rw [← totalOrderOn_iff, not_tied_iff]
  exact SliceSort.deterministic_iff (fun op _ => compareCausal_self op) nodup

end RaisinDB.Replication
