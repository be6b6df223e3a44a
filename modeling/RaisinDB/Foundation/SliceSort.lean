import Mathlib

/-!
# Sorting and selecting with a caller's comparator

A library sort takes a comparator it cannot check.  Its contract says what the
result is only when the comparator is a total order on the elements at hand;
otherwise the result is some permutation of the input.  `SliceSort` is that
contract, `insertionSort` one implementation of it, and `maxBy` the left fold
that keeps the later of two equal elements.
-/

namespace RaisinDB.Foundation

open List

variable {α : Type}

/-- The comparator is a total order, up to ties, on the elements of the list. -/
structure TotalOrderOn (cmp : α → α → Ordering) (items : List α) : Prop where
  oriented : ∀ a ∈ items, ∀ b ∈ items, cmp b a = (cmp a b).swap
  trans : ∀ a ∈ items, ∀ b ∈ items, ∀ c ∈ items,
    (cmp a b).isLE → (cmp b c).isLE → (cmp a c).isLE

namespace TotalOrderOn

theorem subset {cmp : α → α → Ordering} {small large : List α}
    (order : TotalOrderOn cmp large) (inside : small ⊆ large) :
    TotalOrderOn cmp small where
  oriented a ha b hb := order.oriented a (inside ha) b (inside hb)
  trans a ha b hb c hc := order.trans a (inside ha) b (inside hb) c (inside hc)

end TotalOrderOn

instance (cmp : α → α → Ordering) (items : List α) :
    Decidable (TotalOrderOn cmp items) :=
  decidable_of_iff
    ((∀ a ∈ items, ∀ b ∈ items, cmp b a = (cmp a b).swap) ∧
      ∀ a ∈ items, ∀ b ∈ items, ∀ c ∈ items,
        (cmp a b).isLE → (cmp b c).isLE → (cmp a c).isLE)
    ⟨fun both => ⟨both.1, both.2⟩, fun order => ⟨order.oriented, order.trans⟩⟩

/--
The documented contract of a stable comparator sort.  Nothing beyond `perm` is
promised when the comparator is no total order on the input.
-/
structure SliceSort (α : Type) where
  sortBy : (α → α → Ordering) → List α → List α
  perm : ∀ cmp items, sortBy cmp items ~ items
  sorted : ∀ cmp items, TotalOrderOn cmp items →
    (sortBy cmp items).Pairwise (fun a b => (cmp a b).isLE)
  stable : ∀ cmp items, TotalOrderOn cmp items → ∀ pivot ∈ items,
    (sortBy cmp items).filter (fun item => cmp pivot item = .eq) =
      items.filter (fun item => cmp pivot item = .eq)

namespace SliceSort

theorem mem_sortBy (sorter : SliceSort α) (cmp : α → α → Ordering)
    (items : List α) (item : α) : item ∈ sorter.sortBy cmp items ↔ item ∈ items :=
  (sorter.perm cmp items).mem_iff

/-- Under a total order, what the comparator puts strictly first comes first. -/
theorem pairwise_not_gt (sorter : SliceSort α) {cmp : α → α → Ordering}
    {items : List α} (order : TotalOrderOn cmp items) :
    (sorter.sortBy cmp items).Pairwise (fun a b => cmp a b ≠ .gt) := by
  refine (sorter.sorted cmp items order).imp ?_
  intro a b hle hgt
  simp [hgt] at hle

end SliceSort

/-! ## Insertion sort -/

/-- Insert into a list held in descending order: shift past what is larger. -/
def insertDescending (cmp : α → α → Ordering) (item : α) : List α → List α
  | [] => [item]
  | top :: rest =>
      if cmp item top = .lt then top :: insertDescending cmp item rest
      else item :: top :: rest

/-- Insert the elements one by one behind the larger part of the sorted prefix. -/
def insertionSort (cmp : α → α → Ordering) (items : List α) : List α :=
  (items.foldl (fun sorted item => insertDescending cmp item sorted) []).reverse

theorem insertDescending_perm (cmp : α → α → Ordering) (item : α) (sorted : List α) :
    insertDescending cmp item sorted ~ item :: sorted := by
  induction sorted with
  | nil => exact Perm.refl _
  | cons top rest ih =>
    unfold insertDescending
    split
    · exact (ih.cons top).trans (Perm.swap item top rest)
    · exact Perm.refl _

theorem foldl_insertDescending_perm (cmp : α → α → Ordering) (items sorted : List α) :
    items.foldl (fun acc item => insertDescending cmp item acc) sorted ~
      items ++ sorted := by
  induction items generalizing sorted with
  | nil => exact Perm.refl _
  | cons item rest ih =>
    calc rest.foldl (fun acc next => insertDescending cmp next acc)
            (insertDescending cmp item sorted)
        ~ rest ++ insertDescending cmp item sorted := ih _
      _ ~ rest ++ item :: sorted :=
          (insertDescending_perm cmp item sorted).append_left rest
      _ ~ item :: (rest ++ sorted) := perm_middle

theorem insertionSort_perm (cmp : α → α → Ordering) (items : List α) :
    insertionSort cmp items ~ items := by
  have folded := foldl_insertDescending_perm cmp items []
  rw [append_nil] at folded
  exact (reverse_perm _).trans folded

/-- Descending order: each element is at most every element before it. -/
def Descending (cmp : α → α → Ordering) (sorted : List α) : Prop :=
  sorted.Pairwise (fun a b => (cmp b a).isLE)

theorem insertDescending_descending {cmp : α → α → Ordering} {pool : List α}
    (order : TotalOrderOn cmp pool) {item : α} (hitem : item ∈ pool)
    {sorted : List α} (inside : sorted ⊆ pool) (descending : Descending cmp sorted) :
    Descending cmp (insertDescending cmp item sorted) := by
  induction sorted with
  | nil => exact pairwise_singleton _ _
  | cons top rest ih =>
    obtain ⟨htop, insideRest⟩ := cons_subset.mp inside
    obtain ⟨belowTop, descendingRest⟩ := pairwise_cons.mp descending
    unfold insertDescending
    split
    · rename_i smaller
      refine pairwise_cons.mpr ⟨?_, ih insideRest descendingRest⟩
      intro b hb
      rcases mem_cons.mp ((insertDescending_perm cmp item rest).mem_iff.mp hb) with
        rfl | hb
      · simp [smaller]
      · exact belowTop b hb
    · rename_i larger
      have topBelow : (cmp top item).isLE := by
        rw [order.oriented item hitem top htop]
        cases hcmp : cmp item top <;> simp_all
      refine pairwise_cons.mpr ⟨?_, descending⟩
      intro b hb
      rcases mem_cons.mp hb with rfl | hb
      · exact topBelow
      · exact order.trans b (insideRest hb) top htop item hitem (belowTop b hb) topBelow

/-- Two ties of one pivot are never strictly ordered between themselves. -/
theorem TotalOrderOn.not_lt_of_ties {cmp : α → α → Ordering} {pool : List α}
    (order : TotalOrderOn cmp pool) {pivot a b : α} (hpivot : pivot ∈ pool)
    (ha : a ∈ pool) (hb : b ∈ pool) (tieA : cmp pivot a = .eq) (tieB : cmp pivot b = .eq) :
    cmp a b ≠ .lt := by
  intro smaller
  have pivotBelow : (cmp b pivot).isLE := by
    rw [order.oriented pivot hpivot b hb, tieB]
    rfl
  have below := order.trans b hb pivot hpivot a ha pivotBelow (by rw [tieA]; rfl)
  rw [order.oriented a ha b hb, smaller] at below
  exact absurd below (by decide)

/-- Insertion puts an element next to, and never behind, the ties already there. -/
theorem insertDescending_filter {cmp : α → α → Ordering} {pool : List α}
    (order : TotalOrderOn cmp pool) {item pivot : α} (hitem : item ∈ pool)
    (hpivot : pivot ∈ pool) {sorted : List α} (inside : sorted ⊆ pool) :
    (insertDescending cmp item sorted).filter (fun next => cmp pivot next = .eq) =
      (item :: sorted).filter (fun next => cmp pivot next = .eq) := by
  induction sorted with
  | nil => rfl
  | cons top rest ih =>
    obtain ⟨htop, insideRest⟩ := cons_subset.mp inside
    unfold insertDescending
    split
    · rename_i smaller
      have apart := fun tieItem tieTop =>
        order.not_lt_of_ties hpivot hitem htop tieItem tieTop smaller
      by_cases tieItem : cmp pivot item = .eq <;> by_cases tieTop : cmp pivot top = .eq
      · exact absurd tieTop (apart tieItem)
      · simpa [filter_cons, tieItem, tieTop] using ih insideRest
      · simpa [filter_cons, tieItem, tieTop] using ih insideRest
      · simpa [filter_cons, tieItem, tieTop] using ih insideRest
    · rfl

/-- One pass over the input keeps the accumulator descending and every tie class
in reverse order of arrival. -/
theorem foldl_insertDescending_spec {cmp : α → α → Ordering} {pool : List α}
    (order : TotalOrderOn cmp pool) {items sorted : List α} (hitems : items ⊆ pool)
    (hsorted : sorted ⊆ pool) (descending : Descending cmp sorted) :
    Descending cmp (items.foldl (fun acc item => insertDescending cmp item acc) sorted) ∧
      ∀ pivot ∈ pool,
        (items.foldl (fun acc item => insertDescending cmp item acc) sorted).filter
            (fun next => cmp pivot next = .eq) =
          (items.reverse ++ sorted).filter (fun next => cmp pivot next = .eq) := by
  induction items generalizing sorted with
  | nil => exact ⟨descending, fun _ _ => rfl⟩
  | cons item rest ih =>
    obtain ⟨hitem, hrest⟩ := cons_subset.mp hitems
    have inserted := insertDescending_perm cmp item sorted
    have insideNext : insertDescending cmp item sorted ⊆ pool := by
      intro x hx
      rcases mem_cons.mp (inserted.mem_iff.mp hx) with rfl | hx
      · exact hitem
      · exact hsorted hx
    obtain ⟨descendingAll, ties⟩ := ih hrest insideNext
      (insertDescending_descending order hitem hsorted descending)
    refine ⟨descendingAll, fun pivot hpivot => ?_⟩
    rw [foldl_cons, ties pivot hpivot, filter_append,
      insertDescending_filter order hitem hpivot hsorted]
    simp only [reverse_cons, append_assoc, singleton_append, filter_append]

/-- Insertion sort meets the contract of a stable comparator sort. -/
def insertionSlice (α : Type) : SliceSort α where
  sortBy := insertionSort
  perm := insertionSort_perm
  sorted cmp items order := by
    rw [insertionSort, pairwise_reverse]
    exact (foldl_insertDescending_spec order (Subset.refl items)
      (nil_subset items) Pairwise.nil).1
  stable cmp items order pivot hpivot := by
    have ties := (foldl_insertDescending_spec order (Subset.refl items)
      (nil_subset items) Pairwise.nil).2 pivot hpivot
    rw [insertionSort, filter_reverse, ties, append_nil, filter_reverse, reverse_reverse]

/-- A run in which each element is strictly less than its predecessor is one throughout. -/
theorem TotalOrderOn.pairwise_of_run {cmp : α → α → Ordering} {items : List α}
    (order : TotalOrderOn cmp items) (run : items.IsChain fun a b => cmp b a = .lt) :
    items.Pairwise fun a b => cmp b a = .lt := by
  induction items with
  | nil => exact .nil
  | cons first rest ih =>
    have later := ih (order.subset (subset_cons_self first rest)) run.of_cons
    refine pairwise_cons.mpr ⟨fun other hmem => ?_, later⟩
    cases rest with
    | nil => cases hmem
    | cons second rest =>
      have next := (isChain_cons_cons.mp run).1
      rcases mem_cons.mp hmem with rfl | inRest
      · exact next
      · have less := (pairwise_cons.mp later).1 other inRest
        have ordered := order.trans other (by simp [inRest]) second (by simp) first (by simp)
          (by rw [less]; rfl) (by rw [next]; rfl)
        have above := order.oriented second (by simp) first (by simp)
        cases step : cmp other first with
        | lt => rfl
        | gt => simp [step] at ordered
        | eq =>
          have back := order.trans first (by simp) other (by simp [inRest]) second (by simp)
            (by rw [order.oriented other (by simp [inRest]) first (by simp), step]; rfl)
            (by rw [less]; rfl)
          simp [above, next] at back

/-- What the library does with more than 20 elements that run strictly down: it turns the run
round and looks at no other pair.  Up to 20 elements are sorted by insertion. -/
def runSlice (α : Type) : SliceSort α where
  sortBy cmp items :=
    if 20 < items.length ∧ items.IsChain (fun a b => cmp b a = .lt) then items.reverse
    else insertionSort cmp items
  perm cmp items := by
    split
    · exact reverse_perm items
    · exact insertionSort_perm cmp items
  sorted cmp items order := by
    split
    · rename_i run
      refine pairwise_reverse.mpr ((order.pairwise_of_run run.2).imp fun less => ?_)
      rw [less]
      rfl
    · exact (insertionSlice α).sorted cmp items order
  stable cmp items order pivot hpivot := by
    split
    · rename_i run
      rw [filter_reverse]
      have ties := (order.pairwise_of_run run.2).filter fun item => cmp pivot item = .eq
      match found : items.filter fun item => cmp pivot item = .eq with
      | [] => rfl
      | [_] => rfl
      | a :: b :: rest =>
        rw [found] at ties
        have inside : ∀ item ∈ a :: b :: rest, item ∈ items ∧ cmp pivot item = .eq :=
          fun item hmem => (mem_filter.mp (found ▸ hmem)).imp_right of_decide_eq_true
        obtain ⟨ha, tieA⟩ := inside a (by simp)
        obtain ⟨hb, tieB⟩ := inside b (by simp)
        exact absurd ((pairwise_cons.mp ties).1 b mem_cons_self)
          (order.not_lt_of_ties hpivot hb ha tieB tieA)
    · exact (insertionSlice α).stable cmp items order pivot hpivot

/-- A sort that takes the contract at its word: input it need not sort is reversed. -/
def reversingSlice (α : Type) : SliceSort α where
  sortBy cmp items :=
    if TotalOrderOn cmp items then insertionSort cmp items else items.reverse
  perm cmp items := by
    split
    · exact insertionSort_perm cmp items
    · exact reverse_perm items
  sorted cmp items order := by
    rw [if_pos order]
    exact (insertionSlice α).sorted cmp items order
  stable cmp items order := by
    rw [if_pos order]
    exact (insertionSlice α).stable cmp items order

/-! ## The later of the greatest elements -/

/-- One step of `maxBy`: the newcomer wins unless the best is strictly greater. -/
def better (cmp : α → α → Ordering) (best next : α) : α :=
  if cmp best next = .gt then best else next

/-- Left fold that replaces the best element unless it is strictly greater. -/
def maxBy (cmp : α → α → Ordering) : List α → Option α
  | [] => none
  | first :: rest => some (rest.foldl (better cmp) first)

theorem maxBy_cons (cmp : α → α → Ordering) (first : α) (rest : List α) :
    maxBy cmp (first :: rest) = some (rest.foldl (better cmp) first) := rfl

theorem better_mem (cmp : α → α → Ordering) (first next : α) (rest : List α) :
    better cmp first next ∈ first :: next :: rest := by
  unfold better
  split <;> simp

theorem foldl_better_mem (cmp : α → α → Ordering) (first : α) (rest : List α) :
    rest.foldl (better cmp) first ∈ first :: rest := by
  induction rest generalizing first with
  | nil => exact mem_singleton_self first
  | cons next rest ih =>
    rw [foldl_cons]
    rcases mem_cons.mp (ih (better cmp first next)) with same | later
    · rw [same]
      exact better_mem cmp first next rest
    · exact mem_cons_of_mem _ (mem_cons_of_mem _ later)

theorem maxBy_mem {cmp : α → α → Ordering} {items : List α} {best : α}
    (found : maxBy cmp items = some best) : best ∈ items := by
  cases items with
  | nil => cases found
  | cons first rest =>
    rw [maxBy_cons] at found
    rw [← Option.some.inj found]
    exact foldl_better_mem cmp first rest

theorem maxBy_exists (cmp : α → α → Ordering) {items : List α} (nonempty : items ≠ []) :
    ∃ best, maxBy cmp items = some best := by
  cases items with
  | nil => exact absurd rfl nonempty
  | cons first rest => exact ⟨_, maxBy_cons cmp first rest⟩

section Oriented

variable {cmp : α → α → Ordering} (oriented : ∀ a b, cmp b a = (cmp a b).swap)

include oriented

/-- The selected element is at least some other element, whatever the order of play. -/
theorem foldl_better_beats (first : α) (rest : List α) :
    (∀ a ∈ first :: rest, a = rest.foldl (better cmp) first) ∨
      ∃ a ∈ first :: rest, a ≠ rest.foldl (better cmp) first ∧
        cmp a (rest.foldl (better cmp) first) ≠ .gt := by
  induction rest generalizing first with
  | nil => exact Or.inl (by simp)
  | cons next rest ih =>
    rw [foldl_cons]
    rcases ih (better cmp first next) with all | ⟨a, ha, hne, hle⟩
    · have here := all _ mem_cons_self
      by_cases greater : cmp first next = .gt
      · have kept : better cmp first next = first := if_pos greater
        rw [kept] at all here ⊢
        by_cases same : next = rest.foldl (better cmp) first
        · refine Or.inl (forall_mem_cons.mpr ⟨here, ?_⟩)
          exact forall_mem_cons.mpr ⟨same, (forall_mem_cons.mp all).2⟩
        · refine Or.inr ⟨next, by simp, same, ?_⟩
          rw [← here, oriented first next, greater]
          decide
      · have taken : better cmp first next = next := if_neg greater
        rw [taken] at all here ⊢
        by_cases same : first = rest.foldl (better cmp) next
        · exact Or.inl (forall_mem_cons.mpr ⟨same, all⟩)
        · refine Or.inr ⟨first, by simp, same, ?_⟩
          rw [← here]
          exact greater
    · refine Or.inr ⟨a, ?_, hne, hle⟩
      rcases mem_cons.mp ha with rfl | ha
      · exact better_mem cmp first next rest
      · exact mem_cons_of_mem _ (mem_cons_of_mem _ ha)

theorem maxBy_beats {items : List α} {best other : α} (found : maxBy cmp items = some best)
    (hother : other ∈ items) (hne : other ≠ best) :
    ∃ a ∈ items, a ≠ best ∧ cmp a best ≠ .gt := by
  cases items with
  | nil => cases found
  | cons first rest =>
    rw [maxBy_cons] at found
    have result := Option.some.inj found
    rcases foldl_better_beats oriented first rest with all | beaten
    · exact absurd ((all other hother).trans result) hne
    · rwa [result] at beaten

/-- The top element of a play survives its first round. -/
theorem better_of_top {first next top : α} {rest : List α}
    (htop : top ∈ first :: next :: rest)
    (strict : ∀ a ∈ first :: next :: rest, a ≠ top → cmp a top = .lt) :
    top ∈ better cmp first next :: rest := by
  have hfirst := strict first (by simp)
  have hnext := strict next (by simp)
  by_cases isFirst : first = top
  · by_cases isNext : next = first
    · simp [better, isFirst, isNext]
    · have wins : cmp first next = .gt := by
        rw [oriented next first, isFirst, hnext (isFirst ▸ isNext)]
        rfl
      rw [better, if_pos wins, isFirst]
      exact mem_cons_self
  · by_cases isNext : next = top
    · have loses : cmp first next ≠ .gt := by
        rw [isNext, hfirst isFirst]
        decide
      rw [better, if_neg loses, isNext]
      exact mem_cons_self
    · rcases mem_cons.mp htop with same | later
      · exact absurd same.symm isFirst
      · rcases mem_cons.mp later with same | later
        · exact absurd same.symm isNext
        · exact mem_cons_of_mem _ later

/-- An element strictly above all others is selected from every order of play. -/
theorem foldl_better_of_top {top first : α} {rest : List α} (htop : top ∈ first :: rest)
    (strict : ∀ a ∈ first :: rest, a ≠ top → cmp a top = .lt) :
    rest.foldl (better cmp) first = top := by
  induction rest generalizing first with
  | nil => exact (mem_singleton.mp htop).symm
  | cons next rest ih =>
    rw [foldl_cons]
    apply ih (better_of_top oriented htop strict)
    intro a ha
    rcases mem_cons.mp ha with rfl | ha
    · exact strict _ (better_mem cmp first next rest)
    · exact strict a (mem_cons_of_mem _ (mem_cons_of_mem _ ha))

theorem maxBy_of_top {items : List α} {top : α} (htop : top ∈ items)
    (strict : ∀ a ∈ items, a ≠ top → cmp a top = .lt) : maxBy cmp items = some top := by
  cases items with
  | nil => cases htop
  | cons first rest => rw [maxBy_cons, foldl_better_of_top oriented htop strict]

/--
The selection does not depend on the order of play exactly when one element is
strictly above every other.  A pairwise tie or a cycle at the top breaks it.
-/
theorem maxBy_perm_iff [DecidableEq α] {items : List α} (nonempty : items ≠ [])
    (nodup : items.Nodup) :
    (∀ reordered, reordered ~ items → maxBy cmp reordered = maxBy cmp items) ↔
      ∃ top ∈ items, ∀ a ∈ items, a ≠ top → cmp a top = .lt := by
  constructor
  · intro stable
    obtain ⟨best, found⟩ := maxBy_exists cmp nonempty
    have hbest := maxBy_mem found
    refine ⟨best, hbest, fun a ha hne => ?_⟩
    by_contra notLess
    -- play `best` against `a` first: `best` is out after one round
    have hrest : a ∈ items.erase best := (mem_erase_of_ne hne).mpr ha
    have perm : best :: a :: (items.erase best).erase a ~ items :=
      ((perm_cons_erase hrest).symm.cons best).trans (perm_cons_erase hbest).symm
    have lost : better cmp best a = a := by
      rw [better, if_neg]
      rw [oriented a best]
      intro greater
      exact notLess (Ordering.swap_eq_gt.mp greater)
    have replay := stable _ perm
    rw [maxBy_cons, foldl_cons, lost, found] at replay
    have inside := foldl_better_mem cmp a ((items.erase best).erase a)
    rw [Option.some.inj replay] at inside
    have distinct : (best :: a :: (items.erase best).erase a).Nodup :=
      perm.nodup_iff.mpr nodup
    exact (nodup_cons.mp distinct).1 inside
  · rintro ⟨top, htop, strict⟩ reordered perm
    rw [maxBy_of_top oriented htop strict]
    apply maxBy_of_top oriented (perm.mem_iff.mpr htop)
    exact fun a ha => strict a (perm.mem_iff.mp ha)

end Oriented

end RaisinDB.Foundation
