import Mathlib

/-!
# An ordered key-value store

Rows are kept in the order of their keys.  Besides point reads and writes the
store gives iterators that start at a key and run forwards or backwards.
-/

namespace RaisinDB.Foundation

open List

/-- Rows with strictly increasing keys. -/
structure OrderedStore (κ ν : Type) [LinearOrder κ] where
  rows : List (κ × ν)
  sorted : rows.Pairwise fun a b => a.1 < b.1

namespace OrderedStore

variable {κ ν : Type} [LinearOrder κ]

def empty : OrderedStore κ ν := ⟨[], Pairwise.nil⟩

def get (store : OrderedStore κ ν) (key : κ) : Option ν :=
  (store.rows.find? fun row => row.1 = key).map Prod.snd

/-- Replace the row of the key, or put a new one where the order wants it. -/
def insertRow (key : κ) (value : ν) : List (κ × ν) → List (κ × ν)
  | [] => [(key, value)]
  | row :: rest =>
      if key < row.1 then (key, value) :: row :: rest
      else if row.1 = key then (key, value) :: rest
      else row :: insertRow key value rest

theorem mem_insertRow {key : κ} {value : ν} {rows : List (κ × ν)}
    (sorted : rows.Pairwise fun a b => a.1 < b.1) {row : κ × ν} :
    row ∈ insertRow key value rows ↔ row = (key, value) ∨ (row ∈ rows ∧ row.1 ≠ key) := by
  induction rows with
  | nil => simp [insertRow]
  | cons head rest ih =>
    obtain ⟨below, sortedRest⟩ := pairwise_cons.mp sorted
    have apart {smaller : κ} (less : smaller < head.1) :
        ∀ other ∈ head :: rest, other.1 ≠ smaller := by
      intro other hother same
      rcases mem_cons.mp hother with rfl | later
      · exact absurd same (ne_of_gt less)
      · exact absurd same (ne_of_gt (less.trans (below other later)))
    unfold insertRow
    split
    · rename_i less
      rw [mem_cons]
      constructor
      · rintro (rfl | old)
        · exact Or.inl rfl
        · exact Or.inr ⟨old, apart less row old⟩
      · exact fun either => either.imp id And.left
    · split
      · rename_i same
        rw [mem_cons, mem_cons]
        constructor
        · rintro (rfl | old)
          · exact Or.inl rfl
          · exact Or.inr ⟨Or.inr old, same ▸ ne_of_gt (below row old)⟩
        · rintro (rfl | ⟨rfl | old, different⟩)
          · exact Or.inl rfl
          · exact absurd same different
          · exact Or.inr old
      · rename_i different
        rw [mem_cons, ih sortedRest, mem_cons]
        constructor
        · rintro (rfl | rfl | ⟨old, hne⟩)
          · exact Or.inr ⟨Or.inl rfl, different⟩
          · exact Or.inl rfl
          · exact Or.inr ⟨Or.inr old, hne⟩
        · rintro (rfl | ⟨rfl | old, hne⟩)
          · exact Or.inr (Or.inl rfl)
          · exact Or.inl rfl
          · exact Or.inr (Or.inr ⟨old, hne⟩)

theorem sorted_insertRow {key : κ} {value : ν} {rows : List (κ × ν)}
    (sorted : rows.Pairwise fun a b => a.1 < b.1) :
    (insertRow key value rows).Pairwise fun a b => a.1 < b.1 := by
  induction rows with
  | nil => exact pairwise_singleton _ _
  | cons head rest ih =>
    obtain ⟨below, sortedRest⟩ := pairwise_cons.mp sorted
    unfold insertRow
    split
    · rename_i less
      refine pairwise_cons.mpr ⟨fun row hrow => ?_, sorted⟩
      rcases mem_cons.mp hrow with rfl | later
      · exact less
      · exact less.trans (below row later)
    · split
      · rename_i same
        exact pairwise_cons.mpr ⟨fun row hrow => same ▸ below row hrow, sortedRest⟩
      · rename_i notLess different
        refine pairwise_cons.mpr ⟨fun row hrow => ?_, ih sortedRest⟩
        rcases (mem_insertRow sortedRest).mp hrow with rfl | ⟨old, _⟩
        · exact lt_of_le_of_ne (not_lt.mp notLess) different
        · exact below row old

def put (store : OrderedStore κ ν) (key : κ) (value : ν) : OrderedStore κ ν :=
  ⟨insertRow key value store.rows, sorted_insertRow store.sorted⟩

def delete (store : OrderedStore κ ν) (key : κ) : OrderedStore κ ν :=
  ⟨store.rows.filter fun row => row.1 ≠ key, store.sorted.filter _⟩

/-- The rows from the key on, forwards. -/
def seek (store : OrderedStore κ ν) (key : κ) : List (κ × ν) :=
  store.rows.dropWhile fun row => row.1 < key

/-- The rows from the key down, backwards. -/
def seekBack (store : OrderedStore κ ν) (key : κ) : List (κ × ν) :=
  (store.rows.takeWhile fun row => row.1 ≤ key).reverse

/-! ## Point access -/

theorem nodup_keys (store : OrderedStore κ ν) : (store.rows.map Prod.fst).Nodup :=
  pairwise_map.mpr (store.sorted.imp fun less => ne_of_lt less)

theorem value_unique (store : OrderedStore κ ν) {key : κ} {first second : ν}
    (hfirst : (key, first) ∈ store.rows) (hsecond : (key, second) ∈ store.rows) :
    first = second :=
  (Prod.mk.inj (inj_on_of_nodup_map store.nodup_keys hfirst hsecond rfl)).2

theorem get_eq_some_iff {store : OrderedStore κ ν} {key : κ} {value : ν} :
    store.get key = some value ↔ (key, value) ∈ store.rows := by
  rw [get, Option.map_eq_some_iff]
  constructor
  · rintro ⟨⟨key', value'⟩, found, rfl⟩
    obtain rfl : key' = key := by simpa using find?_some found
    exact mem_of_find?_eq_some found
  · intro hrow
    have exists' : ∃ row, store.rows.find? (fun row => row.1 = key) = some row := by
      rw [← Option.isSome_iff_exists, find?_isSome]
      exact ⟨_, hrow, by simp⟩
    obtain ⟨⟨key', value'⟩, found⟩ := exists'
    obtain rfl : key' = key := by simpa using find?_some found
    exact ⟨_, found, store.value_unique (mem_of_find?_eq_some found) hrow⟩

@[simp] theorem mem_rows_empty (row : κ × ν) : row ∉ (empty : OrderedStore κ ν).rows :=
  not_mem_nil

theorem mem_rows_put {store : OrderedStore κ ν} {key : κ} {value : ν} {row : κ × ν} :
    row ∈ (store.put key value).rows ↔ row = (key, value) ∨ (row ∈ store.rows ∧ row.1 ≠ key) :=
  mem_insertRow store.sorted

theorem mem_rows_delete {store : OrderedStore κ ν} {key : κ} {row : κ × ν} :
    row ∈ (store.delete key).rows ↔ row ∈ store.rows ∧ row.1 ≠ key := by
  simp [delete]

theorem rows_foldl_delete (store : OrderedStore κ ν) (keys : List κ) :
    (keys.foldl delete store).rows = store.rows.filter fun row => row.1 ∉ keys := by
  induction keys generalizing store with
  | nil => simp
  | cons key keys ih =>
    rw [foldl_cons, ih, delete, filter_filter]
    refine filter_congr fun row _ => ?_
    simp only [mem_cons, not_or, Bool.decide_and, Bool.and_comm]

theorem get_put_self (store : OrderedStore κ ν) (key : κ) (value : ν) :
    (store.put key value).get key = some value :=
  get_eq_some_iff.mpr (mem_rows_put.mpr (Or.inl rfl))

theorem get_put_of_ne (store : OrderedStore κ ν) {key query : κ} (value : ν)
    (different : query ≠ key) : (store.put key value).get query = store.get query := by
  apply Option.ext
  intro found
  rw [get_eq_some_iff, get_eq_some_iff, mem_rows_put]
  constructor
  · rintro (same | ⟨old, _⟩)
    · exact absurd (Prod.mk.inj same).1 different
    · exact old
  · exact fun old => Or.inr ⟨old, different⟩

/-- A store is the set of its rows. -/
theorem eq_of_mem_iff {first second : OrderedStore κ ν}
    (same : ∀ row, row ∈ first.rows ↔ row ∈ second.rows) : first = second := by
  have perm : first.rows.Perm second.rows :=
    (perm_ext_iff_of_nodup (Nodup.of_map Prod.fst first.nodup_keys)
      (Nodup.of_map Prod.fst second.nodup_keys)).mpr same
  have equal : first.rows = second.rows :=
    perm.eq_of_pairwise (fun a b _ _ less more => absurd (less.trans more) (lt_irrefl a.1))
      first.sorted second.sorted
  obtain ⟨rows, sorted⟩ := first
  obtain ⟨rows', sorted'⟩ := second
  dsimp only at equal
  subst equal
  rfl

/-- Writing rows of different keys. -/
theorem mem_rows_foldl_put {store : OrderedStore κ ν} {batch : List (κ × ν)}
    (nodup : (batch.map Prod.fst).Nodup) {row : κ × ν} :
    row ∈ (batch.foldl (fun store row => store.put row.1 row.2) store).rows ↔
      row ∈ batch ∨ (row ∈ store.rows ∧ row.1 ∉ batch.map Prod.fst) := by
  induction batch generalizing store with
  | nil => simp
  | cons first batch ih =>
    obtain ⟨fresh, nodup⟩ := nodup_cons.mp nodup
    rw [foldl_cons, ih nodup, mem_rows_put, mem_cons, map_cons, mem_cons, not_or]
    constructor
    · rintro (later | ⟨rfl | ⟨old, different⟩, absent⟩)
      · exact Or.inl (Or.inr later)
      · exact Or.inl (Or.inl rfl)
      · exact Or.inr ⟨old, different, absent⟩
    · rintro ((rfl | later) | ⟨old, different, absent⟩)
      · exact Or.inr ⟨Or.inl rfl, fresh⟩
      · exact Or.inl later
      · exact Or.inr ⟨Or.inr ⟨old, different⟩, absent⟩

end OrderedStore

/-! ## Iterators -/

/-- Along a list on which the predicate only ever goes off, a cut is a filter. -/
theorem takeWhile_eq_filter {α : Type} {keep : α → Bool} {items : List α}
    (cut : items.Pairwise fun a b => keep b → keep a) :
    items.takeWhile keep = items.filter keep := by
  induction items with
  | nil => rfl
  | cons head rest ih =>
    obtain ⟨here, later⟩ := pairwise_cons.mp cut
    by_cases kept : keep head
    · rw [takeWhile_cons_of_pos kept, filter_cons_of_pos kept, ih later]
    · have none : rest.filter keep = [] := by
        rw [filter_eq_nil_iff]
        exact fun item hitem kept' => kept (here item hitem kept')
      rw [takeWhile_cons_of_neg kept, filter_cons_of_neg kept, none]

theorem dropWhile_eq_filter {α : Type} {skip : α → Bool} {items : List α}
    (cut : items.Pairwise fun a b => skip b → skip a) :
    items.dropWhile skip = items.filter fun item => !skip item := by
  induction items with
  | nil => rfl
  | cons head rest ih =>
    obtain ⟨here, later⟩ := pairwise_cons.mp cut
    by_cases skipped : skip head
    · rw [dropWhile_cons_of_pos skipped, ih later, filter_cons_of_neg (by simp [skipped])]
    · have all : rest.filter (fun item => !skip item) = rest := by
        rw [filter_eq_self]
        intro item hitem
        simpa using fun kept => skipped (here item hitem kept)
      rw [dropWhile_cons_of_neg skipped, filter_cons_of_pos (by simp [skipped]), all]

namespace OrderedStore

variable {κ ν : Type} [LinearOrder κ]

theorem seek_eq_filter (store : OrderedStore κ ν) (key : κ) :
    store.seek key = store.rows.filter fun row => key ≤ row.1 := by
  rw [seek, dropWhile_eq_filter]
  · exact filter_congr fun row _ => by simp only [← decide_not, not_lt]
  · exact store.sorted.imp fun less below => by
      simp only [decide_eq_true_eq] at below ⊢
      exact less.trans below

/-- The rows a forward iterator gives until the keys leave an interval. -/
theorem seek_takeWhile (store : OrderedStore κ ν) (key : κ) (keep : κ → Bool)
    (interval : ∀ a b, key ≤ a → a < b → keep b → keep a) :
    (store.seek key).takeWhile (fun row => keep row.1) =
      store.rows.filter fun row => key ≤ row.1 ∧ keep row.1 := by
  rw [seek_eq_filter, takeWhile_eq_filter, filter_filter]
  · exact filter_congr fun row _ => by simp [and_comm]
  · refine pairwise_filter.mpr (store.sorted.imp ?_)
    intro a b less lower _ kept
    exact interval a.1 b.1 (by simpa using lower) less kept

theorem seekBack_eq_filter (store : OrderedStore κ ν) (key : κ) :
    store.seekBack key = (store.rows.filter fun row => row.1 ≤ key).reverse := by
  rw [seekBack, takeWhile_eq_filter]
  exact store.sorted.imp fun less below => by
    simp only [decide_eq_true_eq] at below ⊢
    exact less.le.trans below

theorem mem_seekBack {store : OrderedStore κ ν} {key : κ} {row : κ × ν} :
    row ∈ store.seekBack key ↔ row ∈ store.rows ∧ row.1 ≤ key := by
  simp [seekBack_eq_filter]

/-- The first row of a backward iterator is the last row that is not beyond the key. -/
theorem seekBack_last {store : OrderedStore κ ν} {key : κ} {row : κ × ν}
    (found : (store.seekBack key).head? = some row) :
    row ∈ store.rows ∧ row.1 ≤ key ∧
      ∀ other ∈ store.rows, other.1 ≤ key → other.1 ≤ row.1 := by
  obtain ⟨hrow, below⟩ := mem_seekBack.mp (mem_of_head? found)
  refine ⟨hrow, below, fun other hother within => ?_⟩
  have hmem := mem_seekBack.mpr ⟨hother, within⟩
  have sorted : (store.seekBack key).Pairwise fun a b => b.1 < a.1 := by
    rw [seekBack_eq_filter, pairwise_reverse]
    exact store.sorted.filter _
  obtain ⟨rest, shape⟩ := head?_eq_some_iff.mp found
  rw [shape] at hmem sorted
  rcases mem_cons.mp hmem with rfl | later
  · exact le_refl _
  · exact ((pairwise_cons.mp sorted).1 other later).le

theorem seekBack_none {store : OrderedStore κ ν} {key : κ}
    (found : (store.seekBack key).head? = none) {row : κ × ν} (hrow : row ∈ store.rows) :
    key < row.1 := by
  by_contra below
  have hmem := mem_seekBack.mpr ⟨hrow, not_lt.mp below⟩
  rw [head?_eq_none_iff.mp found] at hmem
  cases hmem

end OrderedStore

end RaisinDB.Foundation
