import RaisinDB.Foundation.Relaxation
import RaisinDB.Graphs.Projection

/-!
# Single source shortest paths

The edges of a node are relaxed when the node comes off the heap, also if it was settled before.
Nothing keeps negative weights out, and going round a circle of negative weight never ends.
-/

namespace RaisinDB.Graphs

open Foundation List

/-- The heap gives its least entry away, by distance and then by number. -/
def leastFirst : HeapPop Nat where
  pop heap := (heap.argmin toLex).map fun entry => (entry, heap.erase entry)
  perm heap entry rest popped := by
    obtain ⟨_, least, same⟩ := Option.map_eq_some_iff.mp popped
    cases same
    exact perm_cons_erase (argmin_mem least)
  empties heap := by rw [Option.map_eq_none_iff, argmin_eq_none]

namespace GraphProjection

variable {csr : CsrLibrary} (self : GraphProjection csr ℚ)

/-- The number of the edges of the nodes before. -/
def edgeOffset (u : Nat) : Nat :=
  ((range u).map fun w =>
    if w < csr.nodeCount self.graph then (csr.neighborsSlice self.graph w).length else 0).sum

/-- The neighbours of a node with the weights of the edges. -/
def links (u : Nat) : List (Nat × ℚ) :=
  if u < csr.nodeCount self.graph then
    (csr.neighborsSlice self.graph u).zipIdx.map fun entry =>
      (entry.1, self.edgeWeight (self.edgeOffset u + entry.2))
  else []

/-- A finite distance comes under the name of its node. -/
def nameDistance (distances : Nat → Option ℚ) (result : AList fun _ : String => ℚ) (i : Nat) :
    AList fun _ : String => ℚ :=
  match distances i, self.getNodeId i with
  | some distance, some name => result.insert name distance
  | _, _ => result

def namedDistances (distances : Nat → Option ℚ) (count : Nat) : AList fun _ : String => ℚ :=
  (range count).foldl (self.nameDistance distances) ∅

/-- The result within so many rounds of the loop. -/
def sssp (fuel : Nat) (source : String) : Option (AList fun _ : String => ℚ) :=
  if self.nodeCount = 0 then some ∅
  else
    match self.getId source with
    | none => some ∅
    | some start =>
        (relaxRun leastFirst self.links fuel (relaxStart start)).map fun state =>
          self.namedDistances state.distances self.nodeCount

/-- An edge of the graph with its weight. -/
def Edge (u v : Nat) (weight : ℚ) : Prop :=
  ∃ index, (csr.edges self.graph)[index]? = some (u, v) ∧ self.edgeWeight index = weight

/-- The result has the nodes that can be reached, each with the least weight of a walk to it. -/
structure ShortestFrom (source : String) (result : AList fun _ : String => ℚ) : Prop where
  reached : ∀ node name, self.getNodeId node = some name →
    ((result.lookup name).isSome ↔
      ∃ start weight, self.getId source = some start ∧ Walk self.Edge start node weight)
  least : ∀ name weight, result.lookup name = some weight →
    ∃ start node, self.getId source = some start ∧ self.getNodeId node = some name ∧
      LeastWeight self.Edge start node weight

/-- It ends, and its result is right if no weight is negative. -/
def SsspRight (source : String) : Prop :=
  (∃ fuel result, self.sssp fuel source = some result) ∧
    ((∀ u v weight, self.Edge u v weight → 0 ≤ weight) →
      ∀ fuel result, self.sssp fuel source = some result → self.ShortestFrom source result)

/-! ## Offsets -/

theorem getElem?_flatMap_range {α : Type} (row : Nat → List α) (count index : Nat) (item : α) :
    ((range count).flatMap row)[index]? = some item ↔
      ∃ u < count, ∃ k, index = ((range u).map fun w => (row w).length).sum + k ∧
        (row u)[k]? = some item := by
  induction count with
  | zero => exact iff_of_false (by simp) fun ⟨_, below, _⟩ => Nat.not_lt_zero _ below
  | succ count ih =>
    have size : ((range count).flatMap row).length =
        ((range count).map fun w => (row w).length).sum := length_flatMap
    rw [range_succ, flatMap_append, flatMap_singleton]
    by_cases low : index < ((range count).flatMap row).length
    · rw [getElem?_append_left low, ih]
      constructor
      · rintro ⟨u, below, rest⟩
        exact ⟨u, below.trans (Nat.lt_succ_self _), rest⟩
      · rintro ⟨u, below, k, place, found⟩
        refine ⟨u, (Nat.lt_succ_iff_lt_or_eq.mp below).resolve_right ?_, k, place, found⟩
        rintro rfl
        omega
    · rw [getElem?_append_right (Nat.le_of_not_lt low)]
      constructor
      · intro found
        exact ⟨count, Nat.lt_succ_self _, _, by omega, found⟩
      · rintro ⟨u, below, k, place, found⟩
        rcases Nat.lt_succ_iff_lt_or_eq.mp below with less | rfl
        · have inside := (List.getElem?_eq_some_iff.mp (ih.mpr ⟨u, less, k, place, found⟩)).1
          exact absurd inside low
        · rw [size, place, Nat.add_sub_cancel_left]
          exact found

variable {self}

/-- The offsets lead to the weights of the edges. -/
theorem linked_links : Linked self.links = self.Edge := by
  funext u v weight
  have offset {u : Nat} (inside : u < csr.nodeCount self.graph) : self.edgeOffset u =
      ((range u).map fun w =>
        ((csr.neighborsSlice self.graph w).map fun v => (w, v)).length).sum := by
    rw [edgeOffset]
    refine congrArg List.sum (map_congr_left fun w mem => ?_)
    rw [if_pos ((mem_range.mp mem).trans inside), length_map]
  refine propext ?_
  rw [Linked, links, Edge, CsrLibrary.edges]
  constructor
  · intro mem
    split at mem
    · next inside =>
      obtain ⟨⟨other, k⟩, found, same⟩ := mem_map.mp mem
      cases same
      refine ⟨self.edgeOffset u + k, ?_, rfl⟩
      refine (getElem?_flatMap_range _ _ _ _).mpr ⟨u, inside, k, by rw [offset inside], ?_⟩
      rw [getElem?_map, mem_zipIdx_iff_getElem?.mp found]
      rfl
    · cases mem
  · rintro ⟨index, placed, rfl⟩
    obtain ⟨w, inside, k, place, found⟩ := (getElem?_flatMap_range _ _ _ _).mp placed
    rw [getElem?_map] at found
    obtain ⟨other, here, same⟩ := Option.map_eq_some_iff.mp found
    cases same
    rw [if_pos inside, place, ← offset inside]
    exact mem_map.mpr ⟨(v, k), mem_zipIdx_iff_getElem?.mpr here, rfl⟩

/-! ## Results -/

theorem lookup_namedDistances (distinct : self.reverseMap.Nodup) (distances : Nat → Option ℚ)
    (count : Nat) (name : String) (distance : ℚ) :
    (self.namedDistances distances count).lookup name = some distance ↔
      ∃ i < count, self.getNodeId i = some name ∧ distances i = some distance := by
  induction count with
  | zero =>
    exact iff_of_false (by simp [namedDistances]) fun ⟨_, below, _⟩ => Nat.not_lt_zero _ below
  | succ count ih =>
    have last : self.namedDistances distances (count + 1) =
        self.nameDistance distances (self.namedDistances distances count) count := by
      rw [namedDistances, range_succ, foldl_append, foldl_cons, foldl_nil, namedDistances]
    have grow (other : ¬ (self.getNodeId count = some name ∧ distances count = some distance)) :
        (∃ i < count + 1, self.getNodeId i = some name ∧ distances i = some distance) ↔
          ∃ i < count, self.getNodeId i = some name ∧ distances i = some distance := by
      constructor
      · rintro ⟨i, below, both⟩
        refine ⟨i, (Nat.lt_succ_iff_lt_or_eq.mp below).resolve_right ?_, both⟩
        rintro rfl
        exact other both
      · rintro ⟨i, below, both⟩
        exact ⟨i, below.trans (Nat.lt_succ_self _), both⟩
    rw [last, nameDistance]
    cases far : distances count with
    | none =>
      rw [grow fun both => absurd (far.symm.trans both.2) (by simp)]
      exact ih
    | some new =>
      cases named : self.getNodeId count with
      | none =>
        rw [grow fun both => absurd (named.symm.trans both.1) (by simp)]
        exact ih
      | some node =>
        dsimp only
        by_cases same : name = node
        · subst same
          rw [AList.lookup_insert]
          constructor
          · intro found
            cases found
            exact ⟨count, Nat.lt_succ_self _, named, far⟩
          · rintro ⟨i, _, here, found⟩
            have equal := (getElem?_inj (List.getElem?_eq_some_iff.mp here).1 distinct).mp
              (here.trans named.symm)
            rw [equal, far] at found
            exact found
        · rw [AList.lookup_insert_ne same, ih, grow fun both => ?_]
          exact same (Option.some.inj (both.1.symm.trans named))

/-- Numbers of nodes and edges are below the number of nodes. -/
structure InRange (projection : GraphProjection csr ℚ) : Prop where
  distinct : projection.reverseMap.Nodup
  ids : ∀ name id, projection.getId name = some id → id < projection.nodeCount
  targets : ∀ u v weight, projection.Edge u v weight → v < projection.nodeCount

namespace InRange

variable (inRange : self.InRange) {source : String}

include inRange in
theorem closed : ∀ node ∈ Finset.range self.nodeCount, ∀ link ∈ self.links node,
    link.1 ∈ Finset.range self.nodeCount := by
  intro node _ link mem
  have edge : self.Edge node link.1 link.2 := by
    rw [← linked_links]
    exact mem
  exact Finset.mem_range.mpr (inRange.targets _ _ _ edge)

include inRange in
/-- A known source makes the number of nodes positive. -/
theorem sssp_of_known {start : Nat} (known : self.getId source = some start) (fuel : Nat) :
    self.sssp fuel source = (relaxRun leastFirst self.links fuel (relaxStart start)).map
      fun state => self.namedDistances state.distances self.nodeCount := by
  have some := inRange.ids source start known
  rw [sssp, if_neg (by omega), known]

theorem sssp_of_unknown (unknown : self.getId source = none) (fuel : Nat) :
    self.sssp fuel source = some ∅ := by
  rw [sssp, unknown]
  exact ite_self _

include inRange in
theorem sssp_ends_iff : (∃ fuel result, self.sssp fuel source = some result) ↔
    ∀ start, self.getId source = some start → NoNegativeCircle self.Edge start := by
  cases known : self.getId source with
  | none =>
    refine iff_of_true ⟨0, ∅, sssp_of_unknown known 0⟩ fun start found => ?_
    cases found
  | some start =>
    have run := relaxRun_ends_iff leastFirst
      (Finset.mem_range.mpr (inRange.ids source start known)) inRange.closed
    rw [linked_links] at run
    constructor
    · rintro ⟨fuel, result, done⟩ other same
      cases same
      rw [inRange.sssp_of_known known] at done
      obtain ⟨state, ran, _⟩ := Option.map_eq_some_iff.mp done
      exact run.mp ⟨fuel, state, ran⟩
    · intro rounds
      obtain ⟨fuel, state, ran⟩ := run.mpr (rounds start rfl)
      refine ⟨fuel, self.namedDistances state.distances self.nodeCount, ?_⟩
      rw [inRange.sssp_of_known known, ran]
      rfl

include inRange in
/-- Each result is right, also with negative weights. -/
theorem shortestFrom {fuel : Nat} {result : AList fun _ : String => ℚ}
    (done : self.sssp fuel source = some result) : self.ShortestFrom source result := by
  cases known : self.getId source with
  | none =>
    rw [sssp_of_unknown known] at done
    cases done
    refine ⟨fun node name _ => iff_of_false (by simp) ?_, fun name weight found => ?_⟩
    · rintro ⟨start, _, found, _⟩
      rw [known] at found
      cases found
    · rw [AList.lookup_empty] at found
      cases found
  | some start =>
    rw [inRange.sssp_of_known known] at done
    obtain ⟨state, ran, rfl⟩ := Option.map_eq_some_iff.mp done
    obtain ⟨relaxing, empty⟩ := (relaxing_relaxStart start).run ran
    have shortest := (relaxing.least_of_empty empty).1
    rw [linked_links] at shortest
    refine ⟨fun node name named => ?_, fun name weight found => ?_⟩
    · constructor
      · intro some
        obtain ⟨weight, found⟩ := Option.isSome_iff_exists.mp some
        obtain ⟨i, below, here, far⟩ := (lookup_namedDistances inRange.distinct _ _ _ _).mp found
        have equal := (getElem?_inj (List.getElem?_eq_some_iff.mp here).1 inRange.distinct).mp
          (here.trans named.symm)
        rw [equal] at far
        exact ⟨start, weight, known, ((shortest node weight).mp far).1⟩
      · rintro ⟨other, weight, same, walk⟩
        rw [known] at same
        cases same
        rw [← linked_links] at walk
        obtain ⟨least, far, _⟩ := relaxing.le_of_empty empty walk
        refine Option.isSome_iff_exists.mpr ⟨least, ?_⟩
        exact (lookup_namedDistances inRange.distinct _ _ _ _).mpr
          ⟨node, (List.getElem?_eq_some_iff.mp named).1, named, far⟩
    · obtain ⟨i, _, named, far⟩ := (lookup_namedDistances inRange.distinct _ _ _ _).mp found
      exact ⟨start, i, known, named, (shortest i weight).mp far⟩

end InRange

theorem fromPartsWeighted_inRange (weighted : UnstableSort ((Nat × Nat) × ℚ) Prod.fst)
    {nodes : List String} (distinct : nodes.Nodup) (edges : List ((String × String) × ℚ)) :
    (fromPartsWeighted weighted nodes edges : GraphProjection csr ℚ).InRange := by
  refine ⟨distinct, fun _ _ => lt_of_lookup_idMapOf distinct, fun u v weight ⟨index, placed, _⟩ => ?_⟩
  have listed := CsrLibrary.mem_edges_getD csr placed
  rw [getElem?_map] at listed
  obtain ⟨⟨pair, _⟩, here, same⟩ := Option.map_eq_some_iff.mp listed
  have mem := (weighted.perm _).mem_iff.mp (mem_of_getElem? here)
  obtain ⟨edge, _, numbers⟩ := mem_filterMap.mp mem
  obtain ⟨_, ends, equal⟩ := Option.map_eq_some_iff.mp numbers
  cases equal
  cases same
  exact lt_of_edgeIds distinct ends

end GraphProjection

/-- It ends, with the right result, exactly if no circle of negative weight can be reached from the
source. -/
theorem sssp_right_iff (csr : CsrLibrary) (weighted : UnstableSort ((Nat × Nat) × ℚ) Prod.fst)
    {nodes : List String} (distinct : nodes.Nodup) (edges : List ((String × String) × ℚ))
    (source : String) :
    (GraphProjection.fromPartsWeighted weighted nodes edges :
        GraphProjection csr ℚ).SsspRight source ↔
      ∀ start, (GraphProjection.fromPartsWeighted weighted nodes edges :
          GraphProjection csr ℚ).getId source = some start →
        NoNegativeCircle (GraphProjection.fromPartsWeighted weighted nodes edges :
          GraphProjection csr ℚ).Edge start := by
  have inRange := @GraphProjection.fromPartsWeighted_inRange csr weighted nodes distinct edges
  rw [← inRange.sssp_ends_iff]
  exact and_iff_left fun _ fuel result done => inRange.shortestFrom done

theorem noNegativeCircle_of_potential {ν : Type} {edge : ν → ν → ℚ → Prop} (potential : ν → ℚ)
    (low : ∀ u v weight, edge u v weight → potential v ≤ potential u + weight) (start : ν) :
    NoNegativeCircle edge start := by
  have walked {first node : ν} {weight : ℚ} (walk : Walk edge first node weight) :
      potential node ≤ potential first + weight := by
    induction walk with
    | here => exact (add_zero _).ge
    | step _ away ih => linarith [low _ _ _ away]
  intro node _ _ circle round
  linarith [walked round]

/-- A circle of weight zero with a negative edge, and a loop of weight zero behind it. -/
def zeroCircle : List ((String × String) × ℚ) :=
  [(("a", "b"), 4), (("a", "c"), 1), (("c", "b"), -2), (("b", "a"), 1), (("b", "d"), 0),
    (("d", "d"), 0)]

theorem zero_circle_ends :
    (GraphProjection.fromPartsWeighted (listSort Prod.fst) ["a", "b", "c", "d"] zeroCircle :
      GraphProjection listCsr ℚ).SsspRight "a" := by
  refine (sssp_right_iff listCsr (listSort Prod.fst) (by decide) _ _).mpr fun start _ =>
    noNegativeCircle_of_potential (fun node => [0, -1, 1, -1].getD node 0) ?_ start
  rintro u v _ ⟨index, placed, rfl⟩
  have edges : listCsr.edges (GraphProjection.fromPartsWeighted (listSort Prod.fst)
      ["a", "b", "c", "d"] zeroCircle : GraphProjection listCsr ℚ).graph =
        [(0, 1), (0, 2), (1, 0), (1, 3), (2, 1), (3, 3)] := by decide +kernel
  rw [edges] at placed
  rcases index with _ | _ | _ | _ | _ | _ | _ <;> cases placed <;> decide +kernel

/-- Forth with weight one and back with minus two: the loop goes on for ever. -/
theorem negative_circle_never_ends :
    ¬ (GraphProjection.fromPartsWeighted (listSort Prod.fst) ["a", "b"]
      [(("a", "b"), 1), (("b", "a"), -2)] : GraphProjection listCsr ℚ).SsspRight "a" := by
  intro right
  have inRange := @GraphProjection.fromPartsWeighted_inRange listCsr (listSort Prod.fst)
    ["a", "b"] (by decide) [(("a", "b"), 1), (("b", "a"), -2)]
  have rounds := inRange.sssp_ends_iff.mp right.1 0 (by decide)
  have forth : (GraphProjection.fromPartsWeighted (listSort Prod.fst) ["a", "b"]
      [(("a", "b"), 1), (("b", "a"), -2)] : GraphProjection listCsr ℚ).Edge 0 1 1 :=
    ⟨0, by decide, by decide⟩
  have back : (GraphProjection.fromPartsWeighted (listSort Prod.fst) ["a", "b"]
      [(("a", "b"), 1), (("b", "a"), -2)] : GraphProjection listCsr ℚ).Edge 1 0 (-2) :=
    ⟨1, by decide, by decide⟩
  have circle := rounds 0 0 .here _ ((Walk.here.step forth).step back)
  exact absurd circle (by norm_num)

end RaisinDB.Graphs
