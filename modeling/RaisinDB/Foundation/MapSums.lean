import Mathlib

/-!
# Sums over a map

A measure of the values of a map is summed over its entries.  An entry that is put in or taken out
changes the sum by its own measure.
-/

namespace RaisinDB.Foundation

open List

variable {κ ν : Type} [DecidableEq κ]

/-- The sum of a measure over the values of a map. -/
def sumOf (measure : ν → Nat) (map : AList fun _ : κ => ν) : Nat :=
  (map.entries.map fun entry => measure entry.2).sum

theorem sum_kerase (measure : ν → Nat) {key : κ} {value : ν}
    {entries : List (Sigma fun _ : κ => ν)} (found : entries.dlookup key = some value) :
    (entries.map fun entry => measure entry.2).sum =
      measure value + ((entries.kerase key).map fun entry => measure entry.2).sum := by
  induction entries with
  | nil => cases found
  | cons entry rest ih =>
      obtain ⟨name, held⟩ := entry
      by_cases same : key = name
      · subst same
        rw [dlookup_cons_eq] at found
        cases found
        have dropped : ((⟨key, value⟩ : Sigma fun _ : κ => ν) :: rest).kerase key = rest :=
          kerase_cons_eq rfl
        rw [dropped, map_cons, sum_cons]
      · rw [dlookup_cons_ne rest ⟨name, held⟩ same] at found
        have kept : ((⟨name, held⟩ : Sigma fun _ : κ => ν) :: rest).kerase key =
            ⟨name, held⟩ :: rest.kerase key := kerase_cons_ne same
        rw [kept, map_cons, sum_cons, map_cons, sum_cons, ih found]
        omega

theorem sumOf_erase (measure : ν → Nat) {map : AList fun _ : κ => ν} {key : κ} {value : ν}
    (found : map.lookup key = some value) :
    sumOf measure map = measure value + sumOf measure (map.erase key) :=
  sum_kerase measure found

theorem sumOf_insert (measure : ν → Nat) (map : AList fun _ : κ => ν) (key : κ) (value : ν) :
    sumOf measure (map.insert key value) = measure value + sumOf measure (map.erase key) := by
  rw [sumOf, AList.entries_insert, map_cons, sum_cons]
  rfl

theorem sumOf_erase_none (measure : ν → Nat) {map : AList fun _ : κ => ν} {key : κ}
    (absent : map.lookup key = none) : sumOf measure (map.erase key) = sumOf measure map := by
  have same : (map.erase key).entries = map.entries :=
    kerase_of_notMem_keys (AList.lookup_eq_none.mp absent)
  rw [sumOf, same, sumOf]

end RaisinDB.Foundation
