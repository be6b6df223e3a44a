import Mathlib

/-!
# Grouping through a hash map

Elements are pushed into a hash map from keys to lists and the map is then read
in whatever order the hasher gives.  `Grouped` states what survives every such
order: one group for each key, holding exactly the elements of that key.
-/

namespace RaisinDB.Foundation

open List

variable {α κ : Type}

/-- One iteration order of a hash map: some permutation of its entries. -/
structure HashOrder (α : Type) where
  order : List α → List α
  perm : ∀ entries, order entries ~ entries

namespace HashOrder

theorem mem_order (hash : HashOrder α) (entries : List α) (entry : α) :
    entry ∈ hash.order entries ↔ entry ∈ entries :=
  (hash.perm entries).mem_iff

/-- Entries in the order in which they were first inserted. -/
def inserted (α : Type) : HashOrder α := ⟨id, fun _ => Perm.refl _⟩

end HashOrder

/-- Every key of an element has one group, made of the elements of that key. -/
structure Grouped (key : α → κ) (items : List α) (groups : List (κ × List α)) : Prop where
  distinct : (groups.map Prod.fst).Nodup
  nonempty : ∀ group ∈ groups, group.2 ≠ []
  complete : ∀ item ∈ items, key item ∈ groups.map Prod.fst
  content : ∀ group ∈ groups, ∀ item, item ∈ group.2 ↔ item ∈ items ∧ key item = group.1

theorem Grouped.of_perm {key : α → κ} {items : List α} {groups reordered : List (κ × List α)}
    (grouped : Grouped key items groups) (perm : reordered ~ groups) :
    Grouped key items reordered where
  distinct := (perm.map Prod.fst).nodup_iff.mpr grouped.distinct
  nonempty group hmem := grouped.nonempty group (perm.mem_iff.mp hmem)
  complete item hmem := (perm.map Prod.fst).mem_iff.mpr (grouped.complete item hmem)
  content group hmem := grouped.content group (perm.mem_iff.mp hmem)

/-- The order of arrival does not matter either. -/
theorem Grouped.of_items_perm {key : α → κ} {items arrived : List α}
    {groups : List (κ × List α)} (grouped : Grouped key arrived groups)
    (perm : arrived ~ items) : Grouped key items groups where
  distinct := grouped.distinct
  nonempty := grouped.nonempty
  complete item hmem := grouped.complete item (perm.mem_iff.mpr hmem)
  content group hmem item := by rw [grouped.content group hmem, perm.mem_iff]

/-- The groups hold the elements and nothing else. -/
theorem Grouped.mem_iff {key : α → κ} {items : List α} {groups : List (κ × List α)}
    (grouped : Grouped key items groups) (item : α) :
    item ∈ items ↔ ∃ group ∈ groups, item ∈ group.2 := by
  constructor
  · intro hitem
    obtain ⟨group, hgroup, same⟩ := mem_map.mp (grouped.complete item hitem)
    exact ⟨group, hgroup, (grouped.content group hgroup item).mpr ⟨hitem, same.symm⟩⟩
  · rintro ⟨group, hgroup, hitem⟩
    exact ((grouped.content group hgroup item).mp hitem).1

variable [DecidableEq κ]

/-- `entry(key).or_default().push(item)` -/
def pushGroup (target : κ) (item : α) : List (κ × List α) → List (κ × List α)
  | [] => [(target, [item])]
  | group :: rest =>
      if group.1 = target then (group.1, group.2 ++ [item]) :: rest
      else group :: pushGroup target item rest

/-- Push all elements, each under its own key. -/
def groupInto (key : α → κ) (items : List α) : List (κ × List α) :=
  items.foldl (fun groups item => pushGroup (key item) item groups) []

theorem mem_keys_pushGroup (target query : κ) (item : α) (groups : List (κ × List α)) :
    query ∈ (pushGroup target item groups).map Prod.fst ↔
      query = target ∨ query ∈ groups.map Prod.fst := by
  induction groups with
  | nil => simp [pushGroup]
  | cons group rest ih =>
    unfold pushGroup
    split
    · rename_i here
      simp only [map_cons, mem_cons, ← here]
      tauto
    · rw [map_cons, mem_cons, ih, map_cons, mem_cons]
      tauto

/-- Where a group comes from: it took the new element or it was there before. -/
theorem mem_pushGroup {target : κ} {item : α} {groups : List (κ × List α)}
    (distinct : (groups.map Prod.fst).Nodup) {group : κ × List α}
    (hmem : group ∈ pushGroup target item groups) :
    (group.1 ≠ target ∧ group ∈ groups) ∨
      (group.1 = target ∧ target ∉ groups.map Prod.fst ∧ group.2 = [item]) ∨
      ∃ older ∈ groups, older.1 = target ∧ group = (target, older.2 ++ [item]) := by
  induction groups with
  | nil =>
    obtain rfl := mem_singleton.mp hmem
    exact Or.inr (Or.inl ⟨rfl, by simp, rfl⟩)
  | cons head rest ih =>
    obtain ⟨fresh, distinctRest⟩ := nodup_cons.mp distinct
    unfold pushGroup at hmem
    split at hmem
    · rename_i here
      rcases mem_cons.mp hmem with rfl | later
      · exact Or.inr (Or.inr ⟨head, mem_cons_self, here, by rw [here]⟩)
      · refine Or.inl ⟨fun same => fresh ?_, mem_cons_of_mem _ later⟩
        rw [here, ← same]
        exact mem_map_of_mem later
    · rename_i elsewhere
      rcases mem_cons.mp hmem with rfl | later
      · exact Or.inl ⟨elsewhere, mem_cons_self⟩
      · rcases ih distinctRest later with ⟨hne, old⟩ | ⟨same, absent, single⟩ |
          ⟨older, old, same, grown⟩
        · exact Or.inl ⟨hne, mem_cons_of_mem _ old⟩
        · refine Or.inr (Or.inl ⟨same, ?_, single⟩)
          rw [map_cons, mem_cons, not_or]
          exact ⟨Ne.symm elsewhere, absent⟩
        · exact Or.inr (Or.inr ⟨older, mem_cons_of_mem _ old, same, grown⟩)

theorem nodup_keys_pushGroup (target : κ) (item : α) {groups : List (κ × List α)}
    (distinct : (groups.map Prod.fst).Nodup) :
    ((pushGroup target item groups).map Prod.fst).Nodup := by
  induction groups with
  | nil => simp [pushGroup]
  | cons group rest ih =>
    obtain ⟨fresh, distinctRest⟩ := nodup_cons.mp distinct
    unfold pushGroup
    split
    · exact distinct
    · rename_i elsewhere
      refine nodup_cons.mpr ⟨?_, ih distinctRest⟩
      rw [mem_keys_pushGroup, not_or]
      exact ⟨elsewhere, fresh⟩

/-- One push keeps the groups right for the longer input. -/
theorem Grouped.pushGroup {key : α → κ} {items : List α} {groups : List (κ × List α)}
    (grouped : Grouped key items groups) (next : α) :
    Grouped key (items ++ [next]) (pushGroup (key next) next groups) where
  distinct := nodup_keys_pushGroup (key next) next grouped.distinct
  nonempty group hmem := by
    rcases mem_pushGroup grouped.distinct hmem with ⟨_, old⟩ | ⟨_, _, single⟩ |
      ⟨older, _, _, rfl⟩
    · exact grouped.nonempty group old
    · simp [single]
    · simp
  complete item hmem := by
    rw [mem_keys_pushGroup]
    rcases mem_append.mp hmem with early | last
    · exact Or.inr (grouped.complete item early)
    · exact Or.inl (by rw [mem_singleton.mp last])
  content group hmem item := by
    rw [mem_append, mem_singleton]
    rcases mem_pushGroup grouped.distinct hmem with ⟨hne, old⟩ | ⟨same, absent, single⟩ |
      ⟨older, old, same, rfl⟩
    · rw [grouped.content group old]
      constructor
      · rintro ⟨early, hkey⟩
        exact ⟨Or.inl early, hkey⟩
      · rintro ⟨early | rfl, hkey⟩
        · exact ⟨early, hkey⟩
        · exact absurd hkey.symm hne
    · rw [single, mem_singleton, same]
      constructor
      · rintro rfl
        exact ⟨Or.inr rfl, rfl⟩
      · rintro ⟨early | rfl, hkey⟩
        · exact absurd (hkey ▸ grouped.complete item early) absent
        · rfl
    · rw [mem_append, mem_singleton, grouped.content older old, same]
      constructor
      · rintro (⟨early, hkey⟩ | rfl)
        · exact ⟨Or.inl early, hkey⟩
        · exact ⟨Or.inr rfl, rfl⟩
      · rintro ⟨early | rfl, hkey⟩
        · exact Or.inl ⟨early, hkey⟩
        · exact Or.inr rfl

theorem groupInto_append (key : α → κ) (items : List α) (next : α) :
    groupInto key (items ++ [next]) = pushGroup (key next) next (groupInto key items) := by
  rw [groupInto, foldl_append, foldl_cons, foldl_nil, groupInto]

theorem groupInto_grouped (key : α → κ) (items : List α) :
    Grouped key items (groupInto key items) := by
  induction items using reverseRecOn with
  | nil => exact ⟨nodup_nil, by simp [groupInto], by simp, by simp [groupInto]⟩
  | append_singleton items next ih =>
    rw [groupInto_append]
    exact ih.pushGroup next

/-- A group keeps its elements in the order of the input. -/
theorem groupInto_content {key : α → κ} {items : List α} {group : κ × List α}
    (hmem : group ∈ groupInto key items) :
    group.2 = items.filter fun item => key item = group.1 := by
  induction items using reverseRecOn generalizing group with
  | nil => cases hmem
  | append_singleton items next ih =>
    have grouped := groupInto_grouped key items
    rw [groupInto_append] at hmem
    rw [filter_append]
    rcases mem_pushGroup grouped.distinct hmem with ⟨hne, old⟩ | ⟨same, absent, single⟩ |
      ⟨older, old, same, rfl⟩
    · rw [ih old, filter_cons_of_neg (by simpa using Ne.symm hne), filter_nil, append_nil]
    · have none_before : items.filter (fun item => key item = group.1) = [] := by
        rw [filter_eq_nil_iff]
        intro item hitem here
        exact absent (same ▸ of_decide_eq_true here ▸ grouped.complete item hitem)
      rw [single, none_before, filter_cons_of_pos (by simp [same]), filter_nil, nil_append]
    · rw [ih old, filter_cons_of_pos (by simp), filter_nil, same]

end RaisinDB.Foundation
