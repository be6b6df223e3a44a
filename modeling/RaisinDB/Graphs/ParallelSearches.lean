import RaisinDB.Foundation.ParallelRounds
import RaisinDB.Graphs.Projection

/-!
# Searches in parallel

The workers of a round claim distances or lower labels side by side.  For each order of their work,
and whatever the loads see of the other nodes, the distances and the components come out right.
-/

namespace RaisinDB.Graphs

open Foundation Function List

namespace GraphProjection

/-- The numbers of the names are their positions, and edges run between them. -/
structure Placed {csr : CsrLibrary} {W : Type} (projection : GraphProjection csr W) : Prop where
  distinct : projection.reverseMap.Nodup
  position : ∀ name node, projection.getId name = some node →
    projection.reverseMap[node]? = some name
  few : projection.nodeCount < 2 ^ 32
  bound : ∀ u v, csr.HasEdge projection.graph u v →
    u < projection.nodeCount ∧ v < projection.nodeCount

variable {csr : CsrLibrary} {W V : Type} (self : GraphProjection csr W)

/-- A value comes under the name of its node. -/
def nameValue (values : Nat → V) (result : AList fun _ : String => V) (i : Nat) :
    AList fun _ : String => V :=
  match self.getNodeId (i % 2 ^ 32) with
  | some name => result.insert name (values i)
  | none => result

def named (values : Nat → V) : AList fun _ : String => V :=
  (range self.nodeCount).foldl (self.nameValue values) ∅

def outLinks (u : Nat) : List Nat :=
  if u < csr.nodeCount self.graph then csr.neighborsSlice self.graph u else []

/-- A node without a distance has the largest number of 64 bits. -/
def bfs (turns : Interleaving Nat) (fuel : Nat) (source : String) :
    Option (AList fun _ : String => Nat) :=
  if self.nodeCount = 0 then some ∅
  else
    match self.getId source with
    | none => some ∅
    | some start =>
      (searchLevels self.outLinks turns fuel 0
        (update (fun _ => none) start (some 0)) [start]).map fun distances =>
          self.named fun i => (distances i).getD (2 ^ 64 - 1)

/-- The nodes beside a node in the order of their numbers, each once. -/
def besideOf (u : Nat) : List Nat :=
  (((range self.nodeCount).flatMap fun w => (self.outLinks w).flatMap fun v =>
    (if w = u then [v] else []) ++ if v = u then [w] else []).toFinset).sort (· ≤ ·)

def weaklyConnectedComponents (turns : Interleaving Nat) (sees : Nat → Nat → Nat → Bool)
    (fuel : Nat) : Option (AList fun _ : String => Nat) :=
  if self.nodeCount = 0 then some ∅
  else (lowestLabels self.besideOf turns sees self.nodeCount fuel 0 id).map self.named

/-- A walk along edges, forth or back. -/
def Connected : Nat → Nat → Prop :=
  Relation.ReflTransGen fun u v => csr.HasEdge self.graph u v ∨ csr.HasEdge self.graph v u

/-- An unknown source gives the empty map.  From a known one the nodes that can be reached come with
their least number of edges from it, the others with the largest number. -/
def BfsRight (turns : Interleaving Nat) (source : String) : Prop :=
  (self.getId source = none → self.bfs turns (self.nodeCount + 1) source = some ∅) ∧
  ∀ start, self.getId source = some start → ∃ result,
    self.bfs turns (self.nodeCount + 1) source = some result ∧
      ∀ name node, self.getId name = some node → ∃ distance,
        IsDistance self.outLinks start node distance ∧
          (∀ count, distance = some count → count < 2 ^ 64 - 1) ∧
          result.lookup name = some (distance.getD (2 ^ 64 - 1))

/-- The label of a node is the least number in its weak component. -/
def ComponentsRight (turns : Interleaving Nat) (sees : Nat → Nat → Nat → Bool) : Prop :=
  ∃ result, self.weaklyConnectedComponents turns sees (self.nodeCount ^ 2 + 1) =
      some result ∧
    ∀ name node, self.getId name = some node → ∃ label, result.lookup name = some label ∧
      self.Connected node label ∧ ∀ other, self.Connected node other → label ≤ other

variable {self}

theorem mem_outLinks {u v : Nat} : v ∈ self.outLinks u ↔ csr.HasEdge self.graph u v := by
  unfold outLinks CsrLibrary.HasEdge
  split <;> simp [*]

namespace Placed

theorem fromParts (sorter : UnstableSort (Nat × Nat) id) {nodes : List String}
    (distinct : nodes.Nodup) (few : nodes.length < 2 ^ 32) (edges : List (String × String)) :
    (fromParts sorter nodes edges : GraphProjection csr W).Placed := by
  refine ⟨distinct, fun name node found => ?_, few, fun u v edge => ?_⟩
  · obtain ⟨mem, same⟩ := Option.ite_none_right_eq_some.mp
      ((lookup_idMapOf distinct name).symm.trans found)
    have inside := idxOf_lt_length_of_mem mem
    rw [← Option.some.inj same, idOf, Nat.mod_eq_of_lt (inside.trans few)]
    exact (getElem?_eq_getElem inside).trans (congrArg some (getElem_idxOf inside))
  · have listed := ((csr.hasEdge_getD (sorter.sorted _) u v).mp edge).2
    obtain ⟨pair, _, found⟩ := mem_filterMap.mp ((sorter.perm _).mem_iff.mp listed)
    refine ⟨?_, lt_of_edgeIds distinct found⟩
    obtain ⟨_, source, rest⟩ := Option.bind_eq_some_iff.mp found
    obtain ⟨_, _, same⟩ := Option.map_eq_some_iff.mp rest
    cases same
    exact lt_of_lookup_idMapOf distinct source

variable (placed : self.Placed)
include placed

theorem lt_nodeCount {name : String} {node : Nat} (found : self.getId name = some node) :
    node < self.nodeCount :=
  (List.getElem?_eq_some_iff.mp (placed.position name node found)).1

theorem lookup_named (values : Nat → V) {name : String} {node : Nat}
    (found : self.getId name = some node) :
    (self.named values).lookup name = some (values node) := by
  have here := placed.position name node found
  suffices ∀ count ≤ self.nodeCount, node < count →
      ((range count).foldl (self.nameValue values) ∅).lookup name = some (values node) from
    this _ le_rfl (placed.lt_nodeCount found)
  intro count
  induction count with
  | zero => exact fun _ below => absurd below (Nat.not_lt_zero _)
  | succ count ih =>
    intro inside below
    have stored : self.getNodeId (count % 2 ^ 32) = some self.reverseMap[count] := by
      rw [getNodeId, Nat.mod_eq_of_lt (Nat.lt_trans inside placed.few),
        getElem?_eq_getElem inside]
    rw [range_succ, foldl_append, foldl_cons, foldl_nil, nameValue, stored]
    by_cases same : node = count
    · subst same
      rw [getElem?_eq_getElem inside] at here
      rw [← Option.some.inj here, AList.lookup_insert]
    · rw [AList.lookup_insert_ne, ih (Nat.le_of_succ_le inside) (by omega)]
      rintro rfl
      exact same ((getElem?_inj (placed.lt_nodeCount found) placed.distinct).mp
        (here.trans (getElem?_eq_getElem inside).symm))

theorem mem_besideOf {u v : Nat} :
    v ∈ self.besideOf u ↔ csr.HasEdge self.graph u v ∨ csr.HasEdge self.graph v u := by
  have bound := placed.bound
  simp only [besideOf, Finset.mem_sort, mem_toFinset, mem_flatMap, mem_range, mem_append,
    mem_outLinks]
  constructor
  · rintro ⟨w, _, t, edge, here | here⟩
    all_goals split at here
    all_goals simp_all
  · rintro (edge | edge)
    · exact ⟨u, (bound _ _ edge).1, v, edge, .inl (by simp)⟩
    · exact ⟨v, (bound _ _ edge).1, u, edge, .inr (by simp)⟩

theorem bfsRight (turns : Interleaving Nat) (source : String) :
    self.BfsRight turns source := by
  refine ⟨fun unknown => ?_, fun start known => ?_⟩
  · rw [bfs, unknown, ite_self]
  have below := placed.lt_nodeCount known
  obtain ⟨result, done, right⟩ := (@Leveled.init Nat _ self.outLinks start).searchLevels_spec
    turns (by simpa using below)
    (fun node _ link away => Finset.mem_range.mpr (placed.bound _ _ (mem_outLinks.mp away)).2)
    fun _ => Nat.lt_succ_of_le ((Finset.card_filter_le _ _).trans_eq (Finset.card_range _))
  refine ⟨self.named fun i => (result i).getD (2 ^ 64 - 1), ?_, fun name node found => ?_⟩
  · rw [bfs, if_neg (Nat.ne_of_gt (Nat.zero_lt_of_lt below)), known]
    exact congrArg (Option.map _) done
  · obtain ⟨distance, bound⟩ := right node
    refine ⟨result node, distance, fun count reached => ?_, placed.lookup_named _ found⟩
    have := bound count reached
    have := placed.few
    omega

theorem isLowest_iff {node label : Nat} :
    IsLowest self.besideOf node label ↔ self.Connected node label ∧
      ∀ other, self.Connected node other → label ≤ other := by
  have same : Reaches self.besideOf = self.Connected := by
    unfold Reaches Connected
    simp only [placed.mem_besideOf]
  rw [IsLowest, same]

theorem componentsRight (turns : Interleaving Nat) (sees : Nat → Nat → Nat → Bool) :
    self.ComponentsRight turns sees := by
  by_cases empty : self.nodeCount = 0
  · refine ⟨∅, if_pos empty, fun name node found => ?_⟩
    exact absurd (empty ▸ placed.lt_nodeCount found) (Nat.not_lt_zero node)
  · have sum : ∑ node ∈ Finset.range self.nodeCount, id node ≤ self.nodeCount ^ 2 := by
      rw [sq, ← smul_eq_mul]
      nth_rewrite 2 [← Finset.card_range self.nodeCount]
      exact Finset.sum_le_card_nsmul _ _ _ fun node mem => (Finset.mem_range.mp mem).le
    have closed : ∀ node < self.nodeCount, ∀ link ∈ self.besideOf node, link < self.nodeCount := by
      intro node _ link away
      rcases placed.mem_besideOf.mp away with edge | edge
      · exact (placed.bound _ _ edge).2
      · exact (placed.bound _ _ edge).1
    obtain ⟨result, done, right⟩ := @lowestLabels_spec _ _ closed turns sees id
      (fun _ => .refl) (fun _ => le_rfl) (self.nodeCount ^ 2 + 1) 0 (Nat.lt_succ_of_le sum)
    refine ⟨self.named result, ?_, fun name node found => ?_⟩
    · rw [weaklyConnectedComponents, if_neg empty, done, Option.map_some]
    · exact ⟨result node, placed.lookup_named _ found,
        placed.isLowest_iff.mp (right node (placed.lt_nodeCount found))⟩

end Placed

end GraphProjection

section Orders

variable (csr : CsrLibrary) (sorter : UnstableSort (Nat × Nat) id) {nodes : List String}
  (distinct : nodes.Nodup) (few : nodes.length < 2 ^ 32) (edges : List (String × String))
  (turns : Interleaving Nat)
include distinct few

/-- Whatever the order of the claims, the search ends with the least numbers of edges. -/
theorem bfs_right_in_any_order (source : String) :
    (GraphProjection.fromParts sorter nodes edges : GraphProjection csr Unit).BfsRight turns
      source :=
  (GraphProjection.Placed.fromParts sorter distinct few edges).bfsRight turns source

/-- Whatever the order of the nodes and whatever they see of each other, the rounds end with the
weak components. -/
theorem components_right_in_any_order (sees : Nat → Nat → Nat → Bool) :
    (GraphProjection.fromParts sorter nodes edges : GraphProjection csr Unit).ComponentsRight
      turns sees :=
  (GraphProjection.Placed.fromParts sorter distinct few edges).componentsRight turns sees

end Orders

/-- Each round from its end. -/
def backwards : Interleaving Nat := ⟨fun _ items => items.reverse, fun _ => reverse_perm⟩

/-- Two ways of two edges to one node, and one way back. -/
def diamond : List (String × String) :=
  [("a", "b"), ("a", "c"), ("b", "d"), ("c", "d"), ("d", "a")]

theorem bfs_right_backwards :
    (GraphProjection.fromParts (listSort id) ["a", "b", "c", "d", "e"] diamond :
      GraphProjection listCsr Unit).BfsRight backwards "a" :=
  bfs_right_in_any_order listCsr (listSort id) (by decide) (by decide) _ backwards "a"

theorem components_right_backwards :
    (GraphProjection.fromParts (listSort id) ["a", "b", "c", "d", "e"] diamond :
      GraphProjection listCsr Unit).ComponentsRight backwards fun _ _ _ => true :=
  components_right_in_any_order listCsr (listSort id) (by decide) (by decide) _ backwards _

end RaisinDB.Graphs
