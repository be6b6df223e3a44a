import RaisinDB.Foundation.SliceSort

/-!
# What a sort with a comparator decides

A sort that keeps its contract may answer an input with any arrangement of it as soon as the
comparator is no total order there.  So what holds of every sort, that it respects a relation or
that it forgets the order of arrival, holds exactly where the comparator is a total order.
-/

namespace RaisinDB.Foundation

open List

variable {α : Type} {cmp : α → α → Ordering} {items : List α}

/-- A list that is its own reverse, without repetition, has no two elements. -/
theorem eq_of_reverse_eq (nodup : items.Nodup) (same : items.reverse = items) {a b : α}
    (ha : a ∈ items) (hb : b ∈ items) : a = b := by
  cases items with
  | nil => cases ha
  | cons first rest =>
      cases reversed : rest.reverse with
      | nil =>
          rw [reverse_eq_nil_iff.mp reversed, mem_singleton] at ha hb
          rw [ha, hb]
      | cons last others =>
          rw [reverse_cons, reversed, cons_append] at same
          have inside : last ∈ rest := by
            rw [← mem_reverse, reversed]
            exact mem_cons_self
          exact absurd ((cons.inj same).1 ▸ inside) (nodup_cons.mp nodup).1

namespace TotalOrderOn

theorem of_perm {shuffled : List α} (order : TotalOrderOn cmp items) (perm : shuffled ~ items) :
    TotalOrderOn cmp shuffled := order.subset perm.subset

/-- On at most one element every reflexive comparator is a total order. -/
theorem of_all_eq (reflexive : ∀ a ∈ items, cmp a a = .eq)
    (single : ∀ a ∈ items, ∀ b ∈ items, a = b) : TotalOrderOn cmp items where
  oriented a ha b hb := by
    rw [single b hb a ha, reflexive a ha]
    rfl
  trans a ha b hb c hc _ _ := by
    rw [single c hc a ha, reflexive a ha]
    rfl

end TotalOrderOn

namespace SliceSort

open Classical in
/-- A sort whose answer to one input is the given arrangement. -/
noncomputable def rearranging (items arranged : List α) (perm : arranged ~ items)
    (loose : ¬ TotalOrderOn cmp items) : SliceSort α where
  sortBy cmp' items' :=
    if cmp' = cmp ∧ items' = items then arranged else insertionSort cmp' items'
  perm cmp' items' := by
    split
    · next same => exact same.2 ▸ perm
    · exact insertionSort_perm cmp' items'
  sorted cmp' items' order := by
    have elsewhere : ¬ (cmp' = cmp ∧ items' = items) := fun same =>
      loose (same.1 ▸ same.2 ▸ order)
    rw [if_neg elsewhere]
    exact (insertionSlice α).sorted cmp' items' order
  stable cmp' items' order := by
    have elsewhere : ¬ (cmp' = cmp ∧ items' = items) := fun same =>
      loose (same.1 ▸ same.2 ▸ order)
    rw [if_neg elsewhere]
    exact (insertionSlice α).stable cmp' items' order

theorem rearranging_sortBy {arranged : List α} (perm : arranged ~ items)
    (loose : ¬ TotalOrderOn cmp items) :
    (rearranging items arranged perm loose).sortBy cmp items = arranged := by
  unfold rearranging
  exact if_pos ⟨rfl, rfl⟩

/-- Without ties, the result is one for all sorts and all orders of arrival. -/
theorem sortBy_eq (sorter sorter' : SliceSort α) (order : TotalOrderOn cmp items)
    (strict : ∀ a ∈ items, ∀ b ∈ items, cmp a b = .eq → a = b) {shuffled : List α}
    (perm : shuffled ~ items) : sorter.sortBy cmp shuffled = sorter'.sortBy cmp items := by
  have first := sorter.sorted cmp shuffled (order.of_perm perm)
  have second := sorter'.sorted cmp items order
  have whole := ((sorter.perm cmp shuffled).trans perm).trans (sorter'.perm cmp items).symm
  refine Perm.eq_of_pairwise (fun a b ha hb below above => ?_) first second whole
  have inA : a ∈ items := perm.mem_iff.mp ((sorter.mem_sortBy cmp shuffled a).mp ha)
  have inB : b ∈ items := (sorter'.mem_sortBy cmp items b).mp hb
  refine strict a inA b inB ?_
  rw [order.oriented a inA b inB] at above
  cases compared : cmp a b <;> simp [compared] at below above ⊢

/-- The order of arrival never matters exactly where the comparator is a total order without
ties. -/
theorem deterministic_iff (reflexive : ∀ a ∈ items, cmp a a = .eq) (nodup : items.Nodup) :
    (∀ (sorter : SliceSort α) (shuffled : List α), shuffled ~ items →
        sorter.sortBy cmp shuffled = sorter.sortBy cmp items) ↔
      TotalOrderOn cmp items ∧ ∀ a ∈ items, ∀ b ∈ items, cmp a b = .eq → a = b := by
  constructor
  · intro same
    have order : TotalOrderOn cmp items := by
      by_contra loose
      have loose' : ¬ TotalOrderOn cmp items.reverse := fun order =>
        loose (order.of_perm (reverse_perm items).symm)
      -- the sort that reverses what it need not sort tells the two arrivals apart
      have reversed := same (reversingSlice α) items.reverse (reverse_perm items)
      have here : (reversingSlice α).sortBy cmp items = items.reverse := if_neg loose
      have there : (reversingSlice α).sortBy cmp items.reverse = items.reverse.reverse :=
        if_neg loose'
      rw [here, there, reverse_reverse] at reversed
      exact loose (.of_all_eq reflexive fun a ha b hb =>
        eq_of_reverse_eq nodup reversed.symm ha hb)
    refine ⟨order, fun a ha b hb tie => ?_⟩
    have reversed := same (insertionSlice α) items.reverse (reverse_perm items)
    have arrival := (insertionSlice α).stable cmp items order a ha
    have arrival' := (insertionSlice α).stable cmp items.reverse
      (order.of_perm (reverse_perm items)) a (mem_reverse.mpr ha)
    rw [reversed, arrival, filter_reverse] at arrival'
    exact eq_of_reverse_eq (nodup.filter _) arrival'.symm
      (mem_filter.mpr ⟨ha, decide_eq_true (reflexive a ha)⟩)
      (mem_filter.mpr ⟨hb, decide_eq_true tie⟩)
  · rintro ⟨order, strict⟩ sorter shuffled perm
    exact sorter.sortBy_eq sorter order strict perm

/-- A relation that the comparator knows is respected by every sort exactly where the comparator
is a total order. -/
theorem respects_iff {before : α → α → Prop} (irreflexive : ∀ a, ¬ before a a)
    (known : ∀ a b, before a b → cmp b a = .gt)
    (matters : ¬ TotalOrderOn cmp items → ∃ a ∈ items, ∃ b ∈ items, before a b) :
    (∀ sorter : SliceSort α,
        (sorter.sortBy cmp items).Pairwise fun first later => ¬ before later first) ↔
      TotalOrderOn cmp items := by
  constructor
  · intro respected
    by_contra loose
    obtain ⟨a, ha, b, hb, earlier⟩ := matters loose
    obtain ⟨front, back, split⟩ := append_of_mem hb
    have perm : b :: (front ++ back) ~ items := split ▸ perm_middle.symm
    have sorted := respected (rearranging items (b :: (front ++ back)) perm loose)
    rw [rearranging_sortBy] at sorted
    have inside := perm.mem_iff.mpr ha
    rcases mem_cons.mp inside with same | other
    · exact irreflexive b (same ▸ earlier)
    · exact (pairwise_cons.mp sorted).1 a other earlier
  · intro order sorter
    exact (sorter.pairwise_not_gt order).imp fun notGreater earlier =>
      notGreater (known _ _ earlier)

end SliceSort

/-- Of a sorted list the last element is selected. -/
theorem maxBy_of_sorted (sorted : items.Pairwise fun a b => cmp a b ≠ .gt) :
    maxBy cmp items = items.getLast? := by
  cases items with
  | nil => rfl
  | cons first rest =>
      rw [maxBy_cons]
      induction rest generalizing first with
      | nil => rfl
      | cons next rest ih =>
          obtain ⟨above, later⟩ := pairwise_cons.mp sorted
          have replaced : better cmp first next = next := if_neg (above next mem_cons_self)
          rw [foldl_cons, replaced, ih next later, getLast?_cons_cons]

end RaisinDB.Foundation
