import RaisinDB.Foundation.HashGroups

/-!
# Joins of two lists

A join puts every left row beside its matches on the right and keeps, on the sides that it
preserves, the rows without a match.  The loop that finds the matches of a left row as positions on
the right computes the join, and so does the one that looks them up in a hash table.
-/

namespace RaisinDB.Foundation

open List

variable {α β γ κ : Type}

section Join

variable (merge : α → β → γ) (padLeft : α → γ) (padRight : β → γ)

/-- What one left row adds to the join. -/
def beside (keepLeft : Bool) (found : List β) (a : α) : List γ :=
  if keepLeft && found.isEmpty then [padLeft a] else found.map (merge a)

def unmatched (matched : α → β → Bool) (left : List α) (right : List β) : List β :=
  right.filter fun b => !left.any fun a => matched a b

/-- The join by a relation, that preserves the sides it is told to. -/
def joinBy (keepLeft keepRight : Bool) (matched : α → β → Bool) (left : List α) (right : List β) :
    List γ :=
  (left.flatMap fun a => beside merge padLeft keepLeft (right.filter (matched a)) a) ++
    if keepRight then (unmatched matched left right).map padRight else []

variable {merge padLeft padRight} {keepLeft keepRight : Bool} {matched matched' : α → β → Bool}
  {left : List α} {right : List β}

theorem joinBy_congr (same : ∀ a ∈ left, ∀ b ∈ right, matched a b = matched' a b) :
    joinBy merge padLeft padRight keepLeft keepRight matched left right =
      joinBy merge padLeft padRight keepLeft keepRight matched' left right := by
  have besides : (left.flatMap fun a =>
      beside merge padLeft keepLeft (right.filter (matched a)) a) =
        left.flatMap fun a => beside merge padLeft keepLeft (right.filter (matched' a)) a := by
    refine flatMap_congr fun a mem => ?_
    rw [filter_congr fun b mem' => same a mem b mem']
  have rests : unmatched matched left right = unmatched matched' left right := by
    refine filter_congr fun b mem => congrArg not ?_
    rw [Bool.eq_iff_iff, any_eq_true, any_eq_true]
    exact exists_congr fun a => and_congr_right fun mem' => by rw [same a mem' b mem]
  rw [joinBy, joinBy, besides, rests]

theorem joinBy_map {α' β' : Type} (merge : α → β → γ) (padLeft : α → γ) (padRight : β → γ)
    (keepLeft keepRight : Bool) (matched : α → β → Bool) (f : α' → α) (g : β' → β)
    (left : List α') (right : List β') :
    joinBy (fun a b => merge (f a) (g b)) (fun a => padLeft (f a)) (fun b => padRight (g b))
        keepLeft keepRight (fun a b => matched (f a) (g b)) left right =
      joinBy merge padLeft padRight keepLeft keepRight matched (left.map f) (right.map g) := by
  unfold joinBy unmatched beside
  rw [flatMap_map, filter_map, map_map]
  refine congr (congrArg _ (flatMap_congr fun a _ => ?_)) ?_
  · rw [filter_map, map_map, isEmpty_map]
    rfl
  · simp only [Function.comp_def, any_map]

/-- A side that is not preserved may lose the rows that have no match. -/
theorem joinBy_filter_left {p : α → Bool} (dropped : keepLeft = false ∨ ∀ a ∈ left, p a = true)
    (free : ∀ a ∈ left, p a = false → ∀ b ∈ right, matched a b = false) :
    joinBy merge padLeft padRight keepLeft keepRight matched (left.filter p) right =
      joinBy merge padLeft padRight keepLeft keepRight matched left right := by
  rcases dropped with rfl | all
  · have besides : ((left.filter p).flatMap fun a =>
        beside merge padLeft false (right.filter (matched a)) a) =
          left.flatMap fun a => beside merge padLeft false (right.filter (matched a)) a := by
      induction left with
      | nil => rfl
      | cons a rest ih =>
        have later := ih fun a' mem => free a' (mem_cons_of_mem _ mem)
        cases passes : p a with
        | true => rw [filter_cons_of_pos passes, flatMap_cons, flatMap_cons, later]
        | false =>
          have none : right.filter (matched a) = [] :=
            filter_eq_nil_iff.mpr fun b mem => by
              rw [free a mem_cons_self passes b mem]
              exact Bool.false_ne_true
          rw [filter_cons_of_neg (by rw [passes]; exact Bool.false_ne_true), flatMap_cons,
            none, later]
          rfl
    have rests : unmatched matched (left.filter p) right = unmatched matched left right := by
      refine filter_congr fun b mem => congrArg not ?_
      rw [any_filter, Bool.eq_iff_iff, any_eq_true, any_eq_true]
      refine exists_congr fun a => and_congr_right fun mem' => ?_
      rw [Bool.and_eq_true, and_iff_right_iff_imp]
      intro found
      cases passes : p a with
      | true => rfl
      | false => exact absurd found (by rw [free a mem' passes b mem]; exact Bool.false_ne_true)
    rw [joinBy, joinBy, besides, rests]
  · rw [filter_eq_self.mpr all]

theorem joinBy_filter_right {p : β → Bool} (dropped : keepRight = false ∨ ∀ b ∈ right, p b = true)
    (free : ∀ b ∈ right, p b = false → ∀ a ∈ left, matched a b = false) :
    joinBy merge padLeft padRight keepLeft keepRight matched left (right.filter p) =
      joinBy merge padLeft padRight keepLeft keepRight matched left right := by
  rcases dropped with rfl | all
  · have besides : (left.flatMap fun a =>
        beside merge padLeft keepLeft ((right.filter p).filter (matched a)) a) =
          left.flatMap fun a => beside merge padLeft keepLeft (right.filter (matched a)) a := by
      refine flatMap_congr fun a mem => ?_
      have same : (right.filter p).filter (matched a) = right.filter (matched a) := by
        rw [filter_filter]
        refine filter_congr fun b mem' => ?_
        cases passes : p b with
        | true => rw [Bool.and_true]
        | false => rw [free b mem' passes a mem, Bool.and_false]
      rw [same]
    rw [joinBy, joinBy, besides]
    rfl
  · rw [filter_eq_self.mpr all]

/-- Where no side is preserved the join is the list of the merged pairs that match. -/
theorem joinBy_inner :
    joinBy merge padLeft padRight false false matched left right =
      ((left.flatMap fun a => right.map fun b => (a, b)).filter fun pair =>
        matched pair.1 pair.2).map fun pair => merge pair.1 pair.2 := by
  have single : joinBy merge padLeft padRight false false matched left right =
      left.flatMap fun a => (right.filter (matched a)).map (merge a) := by
    rw [joinBy, if_neg Bool.false_ne_true, append_nil]
    rfl
  rw [single]
  clear single
  induction left with
  | nil => rfl
  | cons a rest ih =>
    rw [flatMap_cons, flatMap_cons, filter_append, map_append, ← ih]
    refine congrArg (· ++ _) ?_
    rw [filter_map, map_map]
    rfl

/-- A join by a condition on the merged row is matched by another inner join only pair by pair. -/
theorem joinBy_perm_iff {accept : γ → Bool} :
    joinBy merge padLeft padRight false false matched left right ~
        joinBy merge padLeft padRight false false (fun a b => accept (merge a b)) left right ↔
      ∀ a ∈ left, ∀ b ∈ right, matched a b = accept (merge a b) := by
  constructor
  · intro perm a memA b memB
    rw [joinBy_inner, joinBy_inner] at perm
    generalize pairs : (left.flatMap fun a => right.map fun b => (a, b)) = all at perm
    have among : (a, b) ∈ all := by
      rw [← pairs]
      exact mem_flatMap.mpr ⟨a, memA, mem_map_of_mem memB⟩
    -- Whatever matches is merged to an accepted row, so the filters select alike by their lengths.
    have sound : ∀ pair ∈ all, matched pair.1 pair.2 = true →
        accept (merge pair.1 pair.2) = true := by
      intro pair mem found
      have merged := perm.mem_iff.mp (mem_map_of_mem (f := fun pair => merge pair.1 pair.2)
        (mem_filter.mpr ⟨mem, found⟩))
      obtain ⟨other, mem', same⟩ := mem_map.mp merged
      rw [← same]
      exact (mem_filter.mp mem').2
    have lengths := perm.length_eq
    rw [length_map, length_map] at lengths
    have both : (all.filter fun pair => accept (merge pair.1 pair.2)).filter
        (fun pair => matched pair.1 pair.2) = all.filter fun pair => matched pair.1 pair.2 := by
      rw [filter_filter]
      refine filter_congr fun pair mem => ?_
      rw [Bool.eq_iff_iff, Bool.and_eq_true, and_iff_left_iff_imp]
      exact sound pair mem
    rw [← both] at lengths
    have complete := length_filter_eq_length_iff.mp lengths
    rw [Bool.eq_iff_iff]
    exact ⟨sound (a, b) among, fun accepted => complete (a, b) (mem_filter.mpr ⟨among, accepted⟩)⟩
  · intro same
    rw [joinBy_congr same]

end Join

/-! ## The loop -/

section Loop

/-- The rows put out so far, and which right rows have been matched. -/
structure JoinState (γ : Type) where
  output : List γ
  matchedRight : List Bool

variable (merge : α → β → γ) (padLeft : α → γ) (padRight : β → γ)

/-- One left row, whose matches are given by their positions. -/
def probe (keepLeft : Bool) (right : List β) (hits : α → List Nat) (state : JoinState γ) (a : α) :
    JoinState γ where
  output := state.output ++
    if keepLeft && (hits a).isEmpty then [padLeft a]
    else (hits a).filterMap fun i => right[i]?.map (merge a)
  matchedRight := (hits a).foldl (fun flags i => flags.set i true) state.matchedRight

def joinLoop (keepLeft keepRight : Bool) (hits : α → List Nat) (left : List α) (right : List β) :
    List γ :=
  let final := left.foldl (probe merge padLeft keepLeft right hits)
    ⟨[], replicate right.length false⟩
  final.output ++
    if keepRight then
      (right.zip final.matchedRight).filterMap fun row => if row.2 then none else some (padRight row.1)
    else []

/-- The positions of the rows on the right that match. -/
def positions (found : β → Bool) (right : List β) : List Nat :=
  (right.zipIdx.filter fun row => found row.1).map Prod.snd

theorem get_flags (hits : List Nat) (flags : List Bool) (i : Nat) :
    (hits.foldl (fun flags i => flags.set i true) flags)[i]? =
      flags[i]?.map fun flag => flag || decide (i ∈ hits) := by
  induction hits generalizing flags with
  | nil => simp
  | cons j rest ih =>
    rw [foldl_cons, ih, getElem?_set]
    by_cases here : j = i
    · subst here
      by_cases inside : j < flags.length
      · rw [if_pos rfl, if_pos inside, getElem?_eq_getElem inside]
        simp
      · rw [if_pos rfl, if_neg inside, getElem?_eq_none (not_lt.mp inside)]
        rfl
    · rw [if_neg here]
      cases flags[i]? <;> simp [Ne.symm here]

variable {merge padLeft padRight} {keepLeft keepRight : Bool} {matched : α → β → Bool}
  {hits : α → List Nat} {left : List α} {right : List β}

theorem mem_positions {found : β → Bool} {i : Nat} :
    i ∈ positions found right ↔ ∃ b, right[i]? = some b ∧ found b = true := by
  unfold positions
  rw [mem_map]
  constructor
  · rintro ⟨row, mem, rfl⟩
    obtain ⟨among, selected⟩ := mem_filter.mp mem
    exact ⟨row.1, mem_zipIdx_iff_getElem?.mp among, selected⟩
  · rintro ⟨b, here, selected⟩
    exact ⟨(b, i), mem_filter.mpr ⟨mem_zipIdx_iff_getElem?.mpr here, selected⟩, rfl⟩

theorem map_zipIdx_filter (found : β → Bool) (right : List β) :
    (right.zipIdx.filter fun row => found row.1).map Prod.fst = right.filter found := by
  have rows := filter_map (f := Prod.fst) (p := found) (l := right.zipIdx)
  rw [zipIdx_map_fst] at rows
  exact rows.symm

theorem filterMap_positions (found : β → Bool) (view : β → γ) :
    (positions found right).filterMap (fun i => right[i]?.map view) =
      (right.filter found).map view := by
  rw [← map_zipIdx_filter, map_map, positions, filterMap_map]
  refine filterMap_eq_map_iff_forall_eq_some.mpr fun row mem => ?_
  have here := mem_zipIdx_iff_getElem?.mp (mem_filter.mp mem).1
  simp only [Function.comp_apply, here, Option.map_some]

theorem isEmpty_positions (found : β → Bool) :
    (positions found right).isEmpty = (right.filter found).isEmpty := by
  rw [← map_zipIdx_filter, positions, isEmpty_map, isEmpty_map]

/-- One step of the loop adds what the row adds to the join. -/
theorem probe_eq {a : α} {output : List γ} {seen : β → Bool}
    (found : hits a = positions (matched a) right) :
    probe merge padLeft keepLeft right hits ⟨output, right.map seen⟩ a =
      ⟨output ++ beside merge padLeft keepLeft (right.filter (matched a)) a,
        right.map fun b => seen b || matched a b⟩ := by
  have flags : (positions (matched a) right).foldl (fun flags i => flags.set i true)
      (right.map seen) = right.map fun b => seen b || matched a b := by
    refine ext_getElem? fun i => ?_
    rw [get_flags, getElem?_map, getElem?_map]
    cases here : right[i]? with
    | none => rfl
    | some b =>
      refine congrArg some (congrArg (seen b || ·) ?_)
      rw [Bool.eq_iff_iff, decide_eq_true_iff, mem_positions]
      constructor
      · rintro ⟨b', there, selected⟩
        rw [here] at there
        rwa [Option.some.inj there]
      · exact fun selected => ⟨b, here, selected⟩
  unfold probe beside
  rw [found, flags, isEmpty_positions, filterMap_positions]

theorem foldl_probe {output : List γ} {seen : β → Bool}
    (found : ∀ a ∈ left, hits a = positions (matched a) right) :
    left.foldl (probe merge padLeft keepLeft right hits) ⟨output, right.map seen⟩ =
      ⟨output ++ left.flatMap fun a => beside merge padLeft keepLeft (right.filter (matched a)) a,
        right.map fun b => seen b || left.any fun a => matched a b⟩ := by
  induction left generalizing output seen with
  | nil => simp
  | cons a rest ih =>
    rw [foldl_cons, probe_eq (found a mem_cons_self),
      ih fun a' mem => found a' (mem_cons_of_mem _ mem)]
    simp only [flatMap_cons, append_assoc, any_cons, Bool.or_assoc]

theorem filterMap_zip_flags (seen : β → Bool) (view : β → γ) (right : List β) :
    (right.zip (right.map seen)).filterMap (fun row => if row.2 then none else some (view row.1)) =
      (right.filter fun b => !seen b).map view := by
  induction right with
  | nil => rfl
  | cons b rest ih =>
    rw [map_cons, zip_cons_cons, filterMap_cons, filter_cons, ih]
    cases seen b <;> rfl

theorem joinLoop_eq (found : ∀ a ∈ left, hits a = positions (matched a) right) :
    joinLoop merge padLeft padRight keepLeft keepRight hits left right =
      joinBy merge padLeft padRight keepLeft keepRight matched left right := by
  have start : replicate right.length false = right.map fun _ => false := by
    rw [map_const']
  unfold joinLoop joinBy
  rw [start, foldl_probe found]
  simp only [nil_append, Bool.false_or, filterMap_zip_flags, unmatched]

end Loop

/-! ## The hash table -/

section Table

variable [DecidableEq κ]

/-- The positions of the right rows under their keys. -/
def buildTable (keyed : List (β × κ)) : List (κ × List Nat) :=
  (groupInto (fun row : (β × κ) × Nat => row.1.2) keyed.zipIdx).map fun group =>
    (group.1, group.2.map Prod.snd)

/-- `table.get(key)`; a key that is not in the table has no rows. -/
def lookUp (table : List (κ × List Nat)) (key : κ) : List Nat :=
  match table.find? fun group => group.1 = key with
  | some group => group.2
  | none => []

theorem lookUp_buildTable (keyed : List (β × κ)) (key : κ) :
    lookUp (buildTable keyed) key = positions (fun row => row.2 = key) keyed := by
  unfold lookUp buildTable positions
  rw [find?_map]
  cases found : (groupInto (fun row : (β × κ) × Nat => row.1.2) keyed.zipIdx).find?
      ((fun group => decide (group.1 = key)) ∘ fun group => (group.1, group.2.map Prod.snd)) with
  | some group =>
    have here : group.1 = key := by simpa using find?_some found
    have content := groupInto_content (mem_of_find?_eq_some found)
    rw [here] at content
    rw [Option.map_some, content]
  | none =>
    have absent := find?_eq_none.mp found
    have empty : keyed.zipIdx.filter (fun row => decide (row.1.2 = key)) = [] := by
      refine filter_eq_nil_iff.mpr fun row mem same => ?_
      obtain ⟨group, among, here⟩ := mem_map.mp
        ((groupInto_grouped (fun row : (β × κ) × Nat => row.1.2) keyed.zipIdx).complete row mem)
      refine absent group among ?_
      rw [Function.comp_apply, here]
      exact same
    rw [Option.map_none, empty]
    rfl

end Table

end RaisinDB.Foundation
