import RaisinDB.Foundation.GraphSearch

/-!
# Graph searches in parallel rounds

The nodes of a round work side by side.  In the first search they claim the nodes that have no
distance yet, in the second one every node takes the lowest label that it sees.  Whatever the order
of the work, and whatever the loads of labels see, both end with the right values.
-/

namespace RaisinDB.Foundation

open Function List

variable {ν : Type}

/-- The order in which the work of each round is done. -/
structure Interleaving (ν : Type) where
  order : Nat → List ν → List ν
  perm : ∀ round items, order round items ~ items

variable [DecidableEq ν]

/-! ## Distances -/

/-- One compare-and-exchange; a node that is not visited has no distance. -/
def claim (distance : Nat) (state : (ν → Option Nat) × List ν) (node : ν) :
    (ν → Option Nat) × List ν :=
  match state.1 node with
  | some _ => state
  | none => (update state.1 node (some distance), state.2 ++ [node])

/-- The links of a frontier are claimed, and what was claimed is the next one; no value if some are
left when the fuel is used up. -/
def searchLevels (links : ν → List ν) (turns : Interleaving ν) :
    Nat → Nat → (ν → Option Nat) → List ν → Option (ν → Option Nat)
  | _, _, distances, [] => some distances
  | 0, _, _, _ :: _ => none
  | fuel + 1, level, distances, first :: others =>
    let next := (turns.order level ((first :: others).flatMap links)).foldl
      (claim (level + 1)) (distances, [])
    searchLevels links turns fuel (level + 1) next.1 next.2

/-- A walk with the number of its links. -/
inductive Hops (links : ν → List ν) (start : ν) : ν → Nat → Prop where
  | here : Hops links start start 0
  | step {node target : ν} {count : Nat} (walk : Hops links start node count)
      (away : target ∈ links node) : Hops links start target (count + 1)

/-- The least number of links that lead to a node, if any do. -/
def IsDistance (links : ν → List ν) (start node : ν) : Option Nat → Prop
  | none => ∀ count, ¬ Hops links start node count
  | some distance => Hops links start node distance ∧
      ∀ count, Hops links start node count → distance ≤ count

/-- All distances are found, and none is above the bound. -/
def FindsDistances (links : ν → List ν) (start : ν) (bound : Nat)
    (found : Option (ν → Option Nat)) : Prop :=
  ∃ result, found = some result ∧ ∀ node, IsDistance links start node (result node) ∧
    ∀ distance, result node = some distance → distance ≤ bound

/-- What holds between two levels. -/
structure Leveled (links : ν → List ν) (start : ν) (level : Nat) (distances : ν → Option Nat)
    (frontier : List ν) : Prop where
  started : distances start = some 0
  reached : ∀ node distance, distances node = some distance →
    Hops links start node distance ∧ distance ≤ level
  last : ∀ node, node ∈ frontier ↔ distances node = some level
  closed : ∀ node distance, distances node = some distance → distance < level →
    ∀ link ∈ links node, ∃ further ≤ distance + 1, distances link = some further

/-- The claimed nodes are those that had no distance. -/
theorem foldl_claim (distance : Nat) (items : List ν) (state : (ν → Option Nat) × List ν)
    (node : ν) :
    (∀ other, (items.foldl (claim distance) state).1 node = some other ↔
        state.1 node = some other ∨ state.1 node = none ∧ node ∈ items ∧ distance = other) ∧
      (node ∈ (items.foldl (claim distance) state).2 ↔
        node ∈ state.2 ∨ state.1 node = none ∧ node ∈ items) := by
  induction items generalizing state with
  | nil => simp
  | cons item rest ih =>
    obtain ⟨known, claimed⟩ := ih (claim distance state item)
    simp only [foldl_cons, known, claimed]
    unfold claim
    by_cases same : node = item
    · subst same
      cases before : state.1 node <;> simp [before]
    · cases before : state.1 item <;> simp [same]

namespace Leveled

variable {links : ν → List ν} {start : ν} {level : Nat} {distances : ν → Option Nat}
  {frontier order : List ν}

theorem init (start : ν) :
    Leveled links start 0 (update (fun _ => none) start (some 0)) [start] := by
  have only {node : ν} {distance : Nat} :
      update (fun _ => none) start (some 0) node = some distance ↔ node = start ∧ 0 = distance := by
    by_cases same : node = start <;> simp [same]
  refine ⟨by simp, fun node distance known => ?_, fun node => by simp [only], by simp⟩
  obtain ⟨rfl, rfl⟩ := only.mp known
  exact ⟨.here, le_rfl⟩

theorem next (leveled : Leveled links start level distances frontier)
    (all : order ~ frontier.flatMap links) :
    Leveled links start (level + 1) (order.foldl (claim (level + 1)) (distances, [])).1
      (order.foldl (claim (level + 1)) (distances, [])).2 := by
  have known {node : ν} {other : Nat} :
      (order.foldl (claim (level + 1)) (distances, [])).1 node = some other ↔
        distances node = some other ∨ distances node = none ∧
          (∃ claimer ∈ frontier, node ∈ links claimer) ∧ level + 1 = other := by
    rw [(foldl_claim (level + 1) order (distances, []) node).1, all.mem_iff, mem_flatMap]
  have reached : ∀ node distance,
      (order.foldl (claim (level + 1)) (distances, [])).1 node = some distance →
        Hops links start node distance ∧ distance ≤ level + 1 := by
    intro node distance found
    rcases known.mp found with old | ⟨_, ⟨claimer, inside, away⟩, rfl⟩
    · exact (leveled.reached node distance old).imp_right (·.trans (Nat.le_succ _))
    · exact ⟨(leveled.reached _ _ ((leveled.last claimer).mp inside)).1.step away, le_rfl⟩
  refine ⟨known.mpr (.inl leveled.started), reached, fun node => ?_, ?_⟩
  · have deep : distances node ≠ some (level + 1) := fun old =>
      absurd (leveled.reached node _ old).2 (Nat.not_succ_le_self _)
    rw [(foldl_claim (level + 1) order (distances, []) node).2, known, all.mem_iff, mem_flatMap]
    simp [deep, and_comm]
  · intro node distance found short link away
    have old := (known.mp found).resolve_right fun ⟨_, _, deep⟩ => by omega
    rcases Nat.lt_succ_iff_lt_or_eq.mp short with less | rfl
    · obtain ⟨further, near, found⟩ := leveled.closed node distance old less link away
      exact ⟨further, near, known.mpr (.inl found)⟩
    · have inside := (leveled.last node).mpr old
      cases before : distances link with
      | some further =>
        have near := (leveled.reached link further before).2
        exact ⟨further, near.trans (Nat.le_succ _), known.mpr (.inl before)⟩
      | none => exact ⟨distance + 1, le_rfl, known.mpr (.inr ⟨before, ⟨node, inside, away⟩, rfl⟩)⟩

omit [DecidableEq ν] in
/-- Without a frontier the distances are right. -/
theorem isDistance (leveled : Leveled links start level distances []) (node : ν) :
    IsDistance links start node (distances node) := by
  have found {node : ν} {count : Nat} (walk : Hops links start node count) :
      ∃ distance ≤ count, distances node = some distance := by
    induction walk with
    | here => exact ⟨0, le_rfl, leveled.started⟩
    | @step node target count _ away ih =>
      obtain ⟨distance, short, known⟩ := ih
      have inner : distance < level := by
        refine lt_of_le_of_ne (leveled.reached node distance known).2 ?_
        rintro rfl
        exact not_mem_nil ((leveled.last node).mpr known)
      obtain ⟨further, near, known'⟩ := leveled.closed node distance known inner target away
      exact ⟨further, near.trans (Nat.succ_le_succ short), known'⟩
  cases known : distances node with
  | none =>
    intro count walk
    obtain ⟨distance, _, known'⟩ := found walk
    rw [known] at known'
    cases known'
  | some distance =>
    refine ⟨(leveled.reached node distance known).1, fun count walk => ?_⟩
    obtain ⟨other, short, known'⟩ := found walk
    rw [known] at known'
    cases known'
    exact short

/-- Within a finite set of nodes a search ends, and its distances are right. -/
theorem searchLevels_spec (leveled : Leveled links start level distances frontier)
    (turns : Interleaving ν) {nodes : Finset ν} (inside : ∀ node ∈ frontier, node ∈ nodes)
    (closed : ∀ node ∈ nodes, ∀ link ∈ links node, link ∈ nodes) {fuel : Nat}
    (enough : frontier ≠ [] → (nodes.filter fun node => distances node = none).card < fuel) :
    FindsDistances links start (level + fuel)
      (searchLevels links turns fuel level distances frontier) := by
  have ready {fuel level : Nat} {distances : ν → Option Nat}
      (leveled : Leveled links start level distances []) :
      FindsDistances links start (level + fuel)
        (searchLevels links turns fuel level distances []) :=
    ⟨distances, by cases fuel <;> rfl, fun node => ⟨leveled.isDistance node, fun distance known =>
      (leveled.reached node distance known).2.trans (Nat.le_add_right _ _)⟩⟩
  induction fuel generalizing level distances frontier with
  | zero =>
    cases frontier with
    | nil => exact ready leveled
    | cons => exact absurd (enough (cons_ne_nil _ _)) (Nat.not_lt_zero _)
  | succ fuel ih =>
    cases frontier with
    | nil => exact ready leveled
    | cons first others =>
      have all := turns.perm level ((first :: others).flatMap links)
      rw [searchLevels]
      generalize turns.order level ((first :: others).flatMap links) = order at all
      have claimed {link : ν} (mem : link ∈ (order.foldl (claim (level + 1)) (distances, [])).2) :
          link ∈ nodes ∧ distances link = none := by
        rw [(foldl_claim (level + 1) order (distances, []) link).2, all.mem_iff] at mem
        obtain ⟨new, away⟩ := mem.resolve_left not_mem_nil
        obtain ⟨claimer, here, away⟩ := mem_flatMap.mp away
        exact ⟨closed claimer (inside claimer here) link away, new⟩
      have leveled' := leveled.next all
      rw [Nat.add_comm fuel, ← Nat.add_assoc]
      refine ih leveled' (fun node mem => (claimed mem).1) fun more => ?_
      obtain ⟨link, mem⟩ := exists_mem_of_ne_nil _ more
      refine Nat.lt_of_lt_of_le (Finset.card_lt_card ?_)
        (Nat.le_of_lt_succ (enough (cons_ne_nil _ _)))
      refine (Finset.ssubset_iff_of_subset fun node mem => ?_).mpr ⟨link, ?_, ?_⟩
      · have known := (foldl_claim (level + 1) order (distances, []) node).1
        refine Finset.mem_filter.mpr ((Finset.mem_filter.mp mem).imp_right fun new => ?_)
        refine Option.eq_none_iff_forall_ne_some.mpr fun distance old => ?_
        rw [(known distance).mpr (.inl old)] at new
        cases new
      · simpa using claimed mem
      · simp [(leveled'.last link).mp mem]

end Leveled

/-! ## Lowest labels -/

/-- A node takes the lowest label that it sees.  A load may see the label from the start of the
round, or that of now; only the node itself changes its own. -/
def lowerLabel (links : Nat → List Nat) (base : Nat → Nat) (sees : Nat → Nat → Bool)
    (state : (Nat → Nat) × Bool) (node : Nat) : (Nat → Nat) × Bool :=
  let least := (links node).foldl (fun least link =>
    min least (if sees node link then state.1 link else base link)) (state.1 node)
  if least < state.1 node then (update state.1 node least, true) else state

/-- Rounds until one changes no label; no value if none does within the fuel. -/
def lowestLabels (links : Nat → List Nat) (turns : Interleaving Nat)
    (sees : Nat → Nat → Nat → Bool) (count : Nat) : Nat → Nat → (Nat → Nat) → Option (Nat → Nat)
  | 0, _, _ => none
  | fuel + 1, round, base =>
    let next := (turns.order round (range count)).foldl
      (lowerLabel links base (sees round)) (base, false)
    if next.2 then lowestLabels links turns sees count fuel (round + 1) next.1
    else some next.1

/-- The lowest number that can be reached. -/
def IsLowest (links : Nat → List Nat) (node label : Nat) : Prop :=
  Reaches links node label ∧ ∀ other, Reaches links node other → label ≤ other

/-- What holds between two nodes of a round. -/
structure Lowering (links : Nat → List Nat) (count : Nat) (base : Nat → Nat)
    (state : (Nat → Nat) × Bool) : Prop where
  based : ∀ node, Reaches links node (base node)
  falls : ∀ node, state.1 node ≤ base node
  reached : ∀ node, Reaches links node (state.1 node)
  lowered : state.2 → ∃ node < count, state.1 node < base node
  still : state.2 = false → state.1 = base

namespace Lowering

variable {links : Nat → List Nat} {count : Nat} {base : Nat → Nat} {state : (Nat → Nat) × Bool}
  (sees : Nat → Nat → Bool)

/-- What a node sees can be reached from it, and is no more than the label of the round's start. -/
theorem foldl_min (lowering : Lowering links count base state) (node : Nat) {seen : List Nat}
    (inside : seen ⊆ links node) {start : Nat} (reached : Reaches links node start) :
    let least := seen.foldl (fun least link =>
      min least (if sees node link then state.1 link else base link)) start
    Reaches links node least ∧ least ≤ start ∧ ∀ link ∈ seen, least ≤ base link := by
  induction seen generalizing start with
  | nil => exact ⟨reached, le_rfl, fun _ mem => nomatch mem⟩
  | cons link rest ih =>
    obtain ⟨away, inside⟩ := cons_subset.mp inside
    rw [foldl_cons]
    have value : Reaches links link (if sees node link then state.1 link else base link) ∧
        (if sees node link then state.1 link else base link) ≤ base link := by
      split
      · exact ⟨lowering.reached link, lowering.falls link⟩
      · exact ⟨lowering.based link, le_rfl⟩
    generalize (if sees node link then state.1 link else base link) = seen at value ⊢
    have both : Reaches links node (min start seen) := by
      rcases min_choice start seen with same | same <;> rw [same]
      · exact reached
      · exact value.1.head away
    obtain ⟨reached, least, low⟩ := ih inside both
    exact ⟨reached, least.trans (min_le_left _ _), forall_mem_cons.mpr
      ⟨(least.trans (min_le_right _ _)).trans value.2, low⟩⟩

/-- One node of a round; nothing changes only where its label is as low as those of its links. -/
theorem lowerLabel (lowering : Lowering links count base state) {node : Nat}
    (below : node < count) :
    Lowering links count base (lowerLabel links base sees state node) ∧
      ((Foundation.lowerLabel links base sees state node).2 = false →
        state.2 = false ∧ ∀ link ∈ links node, base node ≤ base link) := by
  obtain ⟨reached, least, low⟩ := lowering.foldl_min sees node (Subset.refl _)
    (lowering.reached node)
  unfold Foundation.lowerLabel
  dsimp only at reached least low ⊢
  generalize (links node).foldl _ _ = lower at reached least low
  split_ifs with less
  · refine ⟨⟨lowering.based, fun other => ?_, fun other => ?_, fun _ => ⟨node, below, ?_⟩, nofun⟩,
      nofun⟩
    · by_cases same : other = node
      · subst same
        simpa using least.trans (lowering.falls other)
      · simpa [same] using lowering.falls other
    · by_cases same : other = node
      · simpa [same] using reached
      · simpa [same] using lowering.reached other
    · simpa using less.trans_le (lowering.falls node)
  · refine ⟨lowering, fun quiet => ⟨quiet, fun link mem => ?_⟩⟩
    have still := lowering.still quiet
    exact (congrFun still node).ge.trans ((not_lt.mp less).trans (low link mem))

theorem foldl (lowering : Lowering links count base state) {order : List Nat}
    (below : ∀ node ∈ order, node < count) :
    Lowering links count base (order.foldl (Foundation.lowerLabel links base sees) state) ∧
      ((order.foldl (Foundation.lowerLabel links base sees) state).2 = false →
        state.2 = false ∧ ∀ node ∈ order, ∀ link ∈ links node, base node ≤ base link) := by
  induction order generalizing state with
  | nil => exact ⟨lowering, fun quiet => ⟨quiet, fun _ mem => nomatch mem⟩⟩
  | cons node rest ih =>
    obtain ⟨here, later⟩ := forall_mem_cons.mp below
    obtain ⟨next, first⟩ := lowering.lowerLabel sees here
    obtain ⟨last, others⟩ := ih next later
    refine ⟨last, fun quiet => ?_⟩
    obtain ⟨quiet, others⟩ := others quiet
    exact ⟨(first quiet).1, forall_mem_cons.mpr ⟨(first quiet).2, others⟩⟩

end Lowering

/-- The rounds end, with the lowest labels. -/
theorem lowestLabels_spec {links : Nat → List Nat} {count : Nat}
    (closed : ∀ node < count, ∀ link ∈ links node, link < count)
    (turns : Interleaving Nat) (sees : Nat → Nat → Nat → Bool) {base : Nat → Nat}
    (reached : ∀ node, Reaches links node (base node))
    (low : ∀ node, base node ≤ node) {fuel : Nat} (round : Nat)
    (enough : ∑ node ∈ Finset.range count, base node < fuel) :
    ∃ result, lowestLabels links turns sees count fuel round base = some result ∧
      ∀ node < count, IsLowest links node (result node) := by
  induction fuel generalizing base round with
  | zero => exact absurd enough (Nat.not_lt_zero _)
  | succ fuel ih =>
    have perm := turns.perm round (range count)
    have start : Lowering links count base (base, false) :=
      ⟨reached, fun _ => le_rfl, reached, nofun, fun _ => rfl⟩
    obtain ⟨lowering, settled⟩ := start.foldl (sees round) fun node mem =>
      mem_range.mp (perm.mem_iff.mp mem)
    rw [lowestLabels]
    generalize (turns.order round (range count)).foldl _ _ = state at lowering settled ⊢
    cases changed : state.2 with
    | true =>
      obtain ⟨node, below, fell⟩ := lowering.lowered changed
      refine ih lowering.reached (fun node => (lowering.falls node).trans (low node)) _ ?_
      exact Nat.lt_of_lt_of_le (Finset.sum_lt_sum (fun node _ => lowering.falls node)
        ⟨node, Finset.mem_range.mpr below, fell⟩) (Nat.le_of_lt_succ enough)
    | false =>
      refine ⟨state.1, rfl, fun node inside => ?_⟩
      rw [lowering.still changed]
      refine ⟨reached node, fun other walk => ?_⟩
      suffices other < count ∧ base node ≤ base other from this.2.trans (low other)
      induction walk with
      | refl => exact ⟨inside, le_rfl⟩
      | @tail middle _ _ away ih =>
        refine ⟨closed middle ih.1 _ away, ih.2.trans ?_⟩
        exact (settled changed).2 middle (perm.mem_iff.mpr (mem_range.mpr ih.1)) _ away

end RaisinDB.Foundation
