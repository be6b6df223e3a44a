import Mathlib.Data.List.Nodup

/-!
# Maps that keep their order

A map as the list of its entries in the order in which their keys came, each key once.  A new value
of a key takes the place of its old one.
-/

namespace RaisinDB.Foundation

open List

variable {κ ν : Type*}

structure IndexMap (κ ν : Type*) where
  entries : List (κ × ν)
  distinct : (entries.map Prod.fst).Nodup

namespace IndexMap

def empty : IndexMap κ ν := ⟨[], nodup_nil⟩

def keys (map : IndexMap κ ν) : List κ := map.entries.map Prod.fst

def values (map : IndexMap κ ν) : List ν := map.entries.map Prod.snd

variable [DecidableEq κ]

def find (key : κ) : List (κ × ν) → Option ν
  | [] => none
  | (name, value) :: rest => if name = key then some value else find key rest

def get (map : IndexMap κ ν) (key : κ) : Option ν := find key map.entries

def put (key : κ) (value : ν) : List (κ × ν) → List (κ × ν)
  | [] => [(key, value)]
  | (name, old) :: rest =>
      if name = key then (key, value) :: rest else (name, old) :: put key value rest

theorem put_of_fresh {key : κ} {entries : List (κ × ν)} (fresh : key ∉ entries.map Prod.fst)
    (value : ν) : put key value entries = entries ++ [(key, value)] := by
  induction entries with
  | nil => rfl
  | cons entry rest ih =>
      obtain ⟨name, old⟩ := entry
      rw [map_cons, mem_cons, not_or] at fresh
      rw [put, if_neg (Ne.symm fresh.1), ih fresh.2, cons_append]

theorem keys_put_of_mem {key : κ} {entries : List (κ × ν)} (mem : key ∈ entries.map Prod.fst)
    (value : ν) : (put key value entries).map Prod.fst = entries.map Prod.fst := by
  induction entries with
  | nil => cases mem
  | cons entry rest ih =>
      obtain ⟨name, old⟩ := entry
      by_cases here : name = key
      · rw [put, if_pos here, map_cons, map_cons, here]
      · have later : key ∈ rest.map Prod.fst := (mem_cons.mp mem).resolve_left (Ne.symm here)
        rw [put, if_neg here, map_cons, map_cons, ih later]

theorem distinct_put {entries : List (κ × ν)} (distinct : (entries.map Prod.fst).Nodup) (key : κ)
    (value : ν) : ((put key value entries).map Prod.fst).Nodup := by
  by_cases met : key ∈ entries.map Prod.fst
  · rw [keys_put_of_mem met]
    exact distinct
  · rw [put_of_fresh met, map_append]
    refine nodup_append.mpr ⟨distinct, nodup_singleton key, ?_⟩
    intro name mem other mem' same
    have new : name = key := same.trans (mem_singleton.mp mem')
    exact met (new ▸ mem)

def insert (map : IndexMap κ ν) (key : κ) (value : ν) : IndexMap κ ν :=
  ⟨put key value map.entries, distinct_put map.distinct key value⟩

def insertAll (map : IndexMap κ ν) (entries : List (κ × ν)) : IndexMap κ ν :=
  entries.foldl (fun map entry => map.insert entry.1 entry.2) map

/-- Entries with new keys are kept as they come. -/
theorem entries_insertAll (map : IndexMap κ ν) {entries : List (κ × ν)}
    (fresh : (map.keys ++ entries.map Prod.fst).Nodup) :
    (map.insertAll entries).entries = map.entries ++ entries := by
  induction entries generalizing map with
  | nil => exact (append_nil _).symm
  | cons entry rest ih =>
      have new : entry.1 ∉ map.entries.map Prod.fst := fun mem =>
        (nodup_append.mp fresh).2.2 entry.1 mem entry.1 mem_cons_self rfl
      have added : (map.insert entry.1 entry.2).entries = map.entries ++ [entry] :=
        put_of_fresh new entry.2
      have later : ((map.insert entry.1 entry.2).keys ++ rest.map Prod.fst).Nodup := by
        rw [keys, added, map_append, map_singleton, append_assoc, singleton_append]
        exact fresh
      rw [insertAll, foldl_cons]
      exact (ih _ later).trans (by rw [added, append_assoc, singleton_append])

end IndexMap

end RaisinDB.Foundation
