import Mathlib

/-!
# Graph projections

Nodes get numbers, edges become sorted pairs of numbers, and a library builds a compressed sparse
row from them.  The library refuses a pair that comes twice; the graph is empty then.
-/

namespace RaisinDB.Graphs

open List

/-- The order of the edges in a compressed sparse row. -/
def EdgeBefore (first second : Nat × Nat) : Prop :=
  first.1 < second.1 ∨ first.1 = second.1 ∧ first.2 < second.2

instance (first second : Nat × Nat) : Decidable (EdgeBefore first second) :=
  inferInstanceAs (Decidable (_ ∨ _))

theorem EdgeBefore.ne {first second : Nat × Nat} (before : EdgeBefore first second) :
    first ≠ second := by
  rintro rfl
  rcases before with lower | ⟨_, lower⟩
  · exact lt_irrefl _ lower
  · exact lt_irrefl _ lower

theorem EdgeBefore.asymm {first second : Nat × Nat} (before : EdgeBefore first second) :
    ¬ EdgeBefore second first := by
  unfold EdgeBefore at before ⊢
  omega

theorem EdgeBefore.of_not {first second : Nat × Nat} (other : first ≠ second)
    (late : ¬ EdgeBefore second first) : EdgeBefore first second := by
  have apart : ¬ (first.1 = second.1 ∧ first.2 = second.2) := fun same =>
    other (Prod.ext same.1 same.2)
  unfold EdgeBefore at late ⊢
  omega

/-- What is used of the library for compressed sparse rows. -/
structure CsrLibrary where
  Graph : Type
  default : Graph
  fromSortedEdges : List (Nat × Nat) → Option Graph
  nodeCount : Graph → Nat
  neighborsSlice : Graph → Nat → List Nat
  nodeCount_default : nodeCount default = 0
  /-- Edges that do not increase strictly are an error. -/
  accepts : ∀ edges, (fromSortedEdges edges).isSome ↔ edges.Pairwise EdgeBefore
  endpoints : ∀ edges graph, fromSortedEdges edges = some graph →
    ∀ edge ∈ edges, edge.1 < nodeCount graph ∧ edge.2 < nodeCount graph
  row : ∀ edges graph, fromSortedEdges edges = some graph → ∀ node < nodeCount graph,
    neighborsSlice graph node = (edges.filter fun edge => edge.1 = node).map Prod.snd

/-- A sort that keeps no order among elements of one key. -/
structure UnstableSort (α : Type) (key : α → Nat × Nat) where
  sort : List α → List α
  perm : ∀ items, sort items ~ items
  sorted : ∀ items,
    (sort items).Pairwise fun first second => ¬ EdgeBefore (key second) (key first)

structure GraphProjection (csr : CsrLibrary) (W : Type) where
  graph : csr.Graph
  backwardGraph : Option csr.Graph
  edgeWeights : Option (List W)
  idMap : AList fun _ : String => Nat
  reverseMap : List String

/-! ## Construction -/

/-- The position of a node as a number of 32 bits. -/
def idMapOf (nodes : List String) : AList fun _ : String => Nat :=
  nodes.zipIdx.foldl (fun map entry => map.insert entry.1 (entry.2 % 2 ^ 32)) ∅

/-- The numbers of the ends of an edge, if it has both. -/
def edgeIds (idMap : AList fun _ : String => Nat) (edge : String × String) : Option (Nat × Nat) :=
  (idMap.lookup edge.1).bind fun u => (idMap.lookup edge.2).map fun v => (u, v)

namespace GraphProjection

variable {csr : CsrLibrary} {W : Type}

def fromParts (sorter : UnstableSort (Nat × Nat) id) (nodes : List String)
    (edges : List (String × String)) : GraphProjection csr W :=
  let edgeList := sorter.sort (edges.filterMap (edgeIds (idMapOf nodes)))
  { graph := (csr.fromSortedEdges edgeList).getD csr.default
    backwardGraph := none
    edgeWeights := none
    idMap := idMapOf nodes
    reverseMap := nodes }

def fromPartsWeighted (sorter : UnstableSort ((Nat × Nat) × W) Prod.fst) (nodes : List String)
    (edges : List ((String × String) × W)) : GraphProjection csr W :=
  let edgeList := sorter.sort (edges.filterMap fun edge =>
    (edgeIds (idMapOf nodes) edge.1).map fun ids => (ids, edge.2))
  { graph := (csr.fromSortedEdges (edgeList.map Prod.fst)).getD csr.default
    backwardGraph := none
    edgeWeights := some (edgeList.map Prod.snd)
    idMap := idMapOf nodes
    reverseMap := nodes }

variable (self : GraphProjection csr W)

def ensureBackwardGraph (sorter : UnstableSort (Nat × Nat) id) : GraphProjection csr W :=
  match self.backwardGraph with
  | some _ => self
  | none =>
      let reversed := (range self.reverseMap.length).flatMap fun u =>
        if u < csr.nodeCount self.graph then
          (csr.neighborsSlice self.graph u).map fun v => (v, u)
        else []
      { self with
        backwardGraph := some ((csr.fromSortedEdges (sorter.sort reversed)).getD csr.default) }

def getId (name : String) : Option Nat := self.idMap.lookup name

def getNodeId (id : Nat) : Option String := self.reverseMap[id]?

/-- The weight is one without weights and behind the last one. -/
def edgeWeight [One W] (edge : Nat) : W := (self.edgeWeights.bind (·[edge]?)).getD 1

def nodeCount : Nat := self.reverseMap.length

end GraphProjection

/-! ## Rows -/

namespace CsrLibrary

variable (csr : CsrLibrary)

def HasEdge (graph : csr.Graph) (u v : Nat) : Prop :=
  u < csr.nodeCount graph ∧ v ∈ csr.neighborsSlice graph u

/-- The edges in the order of the rows. -/
def edges (graph : csr.Graph) : List (Nat × Nat) :=
  (range (csr.nodeCount graph)).flatMap fun u => (csr.neighborsSlice graph u).map fun v => (u, v)

variable {csr}

theorem not_hasEdge_default (u v : Nat) : ¬ csr.HasEdge csr.default u v := by
  rintro ⟨inside, _⟩
  rw [csr.nodeCount_default] at inside
  exact Nat.not_lt_zero u inside

theorem edges_default : csr.edges csr.default = [] := by
  rw [edges, csr.nodeCount_default]
  rfl

/-- Sorted edges are the rows one behind the other. -/
theorem flatMap_rows {pairs : List (Nat × Nat)} (sorted : pairs.Pairwise EdgeBefore) {count : Nat}
    (bound : ∀ edge ∈ pairs, edge.1 < count) :
    ((range count).flatMap fun u => pairs.filter fun edge => edge.1 = u) = pairs := by
  have rows : ((range count).flatMap fun u => pairs.filter fun edge => edge.1 = u).Pairwise
      EdgeBefore := by
    rw [pairwise_flatMap]
    refine ⟨fun u _ => sorted.filter _, pairwise_lt_range.imp fun lower => ?_⟩
    intro first here second there
    refine .inl ?_
    rw [of_decide_eq_true (mem_filter.mp here).2, of_decide_eq_true (mem_filter.mp there).2]
    exact lower
  have nodup {list : List (Nat × Nat)} (ordered : list.Pairwise EdgeBefore) : list.Nodup :=
    ordered.imp EdgeBefore.ne
  refine Perm.eq_of_pairwise (fun first second _ _ before after => ?_) rows sorted
    ((perm_ext_iff_of_nodup (nodup rows) (nodup sorted)).mpr fun edge => ?_)
  · exact absurd after before.asymm
  · rw [mem_flatMap]
    constructor
    · rintro ⟨u, _, mem⟩
      exact (mem_filter.mp mem).1
    · intro mem
      exact ⟨edge.1, mem_range.mpr (bound edge mem), mem_filter.mpr ⟨mem, decide_eq_true rfl⟩⟩

variable {pairs : List (Nat × Nat)} {graph : csr.Graph}

theorem edges_of_built (built : csr.fromSortedEdges pairs = some graph) :
    csr.edges graph = pairs := by
  have sorted := (csr.accepts pairs).mp (by rw [built]; rfl)
  refine Eq.trans ?_ (flatMap_rows sorted fun edge mem => (csr.endpoints _ _ built edge mem).1)
  refine flatMap_congr fun u mem => ?_
  rw [csr.row _ _ built u (mem_range.mp mem), map_map]
  refine (map_congr_left fun edge inside => ?_).trans (map_id _)
  rw [← of_decide_eq_true (mem_filter.mp inside).2]
  rfl

theorem hasEdge_of_built (built : csr.fromSortedEdges pairs = some graph) (u v : Nat) :
    csr.HasEdge graph u v ↔ (u, v) ∈ pairs := by
  constructor
  · rintro ⟨inside, mem⟩
    rw [csr.row _ _ built u inside] at mem
    obtain ⟨edge, found, rfl⟩ := mem_map.mp mem
    obtain ⟨here, same⟩ := mem_filter.mp found
    rw [← of_decide_eq_true same]
    exact here
  · intro mem
    have inside := (csr.endpoints _ _ built _ mem).1
    refine ⟨inside, ?_⟩
    rw [csr.row _ _ built u inside]
    exact mem_map.mpr ⟨(u, v), mem_filter.mpr ⟨mem, decide_eq_true rfl⟩, rfl⟩

/-- Sorted pairs are accepted if none comes twice. -/
theorem accepts_sorted {pairs : List (Nat × Nat)}
    (sorted : pairs.Pairwise fun first second => ¬ EdgeBefore second first) :
    (csr.fromSortedEdges pairs).isSome ↔ pairs.Nodup := by
  rw [csr.accepts]
  constructor
  · exact fun strict => strict.imp EdgeBefore.ne
  · exact fun nodup => nodup.imp₂ (fun _ _ other late => .of_not other late) sorted

variable (csr) in
theorem hasEdge_getD {pairs : List (Nat × Nat)}
    (sorted : pairs.Pairwise fun first second => ¬ EdgeBefore second first) (u v : Nat) :
    csr.HasEdge ((csr.fromSortedEdges pairs).getD csr.default) u v ↔
      pairs.Nodup ∧ (u, v) ∈ pairs := by
  have accepted := @accepts_sorted csr pairs sorted
  cases built : csr.fromSortedEdges pairs with
  | none =>
    rw [built] at accepted
    refine iff_of_false (not_hasEdge_default u v) fun both => ?_
    exact Bool.false_ne_true (accepted.mpr both.1)
  | some graph =>
    rw [built] at accepted
    rw [Option.getD_some, hasEdge_of_built built, and_iff_right (accepted.mp rfl)]

variable (csr) in
theorem mem_edges_getD {pairs : List (Nat × Nat)} {index : Nat} {edge : Nat × Nat}
    (found : (csr.edges ((csr.fromSortedEdges pairs).getD csr.default))[index]? = some edge) :
    pairs[index]? = some edge := by
  cases built : csr.fromSortedEdges pairs with
  | none =>
    rw [built, Option.getD_none, edges_default] at found
    cases found
  | some graph => rwa [built, Option.getD_some, edges_of_built built] at found

end CsrLibrary

/-! ## Numbers of nodes -/

def idOf (nodes : List String) (name : String) : Nat := nodes.idxOf name % 2 ^ 32

theorem lookup_foldl_zipIdx {nodes : List String} (distinct : nodes.Nodup) (start : Nat)
    (map : AList fun _ : String => Nat) (name : String) :
    ((nodes.zipIdx start).foldl (fun map entry => map.insert entry.1 (entry.2 % 2 ^ 32))
        map).lookup name =
      if name ∈ nodes then some ((start + nodes.idxOf name) % 2 ^ 32) else map.lookup name := by
  induction nodes generalizing start map with
  | nil => rfl
  | cons node rest ih =>
    obtain ⟨fresh, distinct⟩ := nodup_cons.mp distinct
    rw [zipIdx_cons, foldl_cons, ih distinct]
    by_cases same : name = node
    · subst same
      rw [if_neg fresh, AList.lookup_insert, if_pos mem_cons_self, idxOf_cons_self]
      rfl
    · rw [AList.lookup_insert_ne same, idxOf_cons_ne _ (Ne.symm same)]
      by_cases mem : name ∈ rest
      · rw [if_pos mem, if_pos (mem_cons_of_mem _ mem)]
        congr 2
        omega
      · rw [if_neg mem, if_neg]
        simp [same, mem]

theorem lookup_idMapOf {nodes : List String} (distinct : nodes.Nodup) (name : String) :
    (idMapOf nodes).lookup name = if name ∈ nodes then some (idOf nodes name) else none := by
  rw [idMapOf, lookup_foldl_zipIdx distinct, Nat.zero_add]
  rfl

theorem idOf_lt {nodes : List String} {name : String} (mem : name ∈ nodes) :
    idOf nodes name < nodes.length :=
  (Nat.mod_le _ _).trans_lt (idxOf_lt_length_of_mem mem)

theorem edgeIds_eq {nodes : List String} (distinct : nodes.Nodup) {edge : String × String}
    (inside : edge.1 ∈ nodes ∧ edge.2 ∈ nodes) :
    edgeIds (idMapOf nodes) edge = some (idOf nodes edge.1, idOf nodes edge.2) := by
  rw [edgeIds, lookup_idMapOf distinct, lookup_idMapOf distinct, if_pos inside.1, if_pos inside.2]
  rfl

theorem lt_of_lookup_idMapOf {nodes : List String} (distinct : nodes.Nodup) {name : String} {id : Nat}
    (found : (idMapOf nodes).lookup name = some id) : id < nodes.length := by
  rw [lookup_idMapOf distinct] at found
  split at found
  · next mem =>
    cases found
    exact idOf_lt mem
  · cases found

theorem lt_of_edgeIds {nodes : List String} (distinct : nodes.Nodup) {edge : String × String}
    {u v : Nat} (found : edgeIds (idMapOf nodes) edge = some (u, v)) : v < nodes.length := by
  obtain ⟨_, _, rest⟩ := Option.bind_eq_some_iff.mp found
  obtain ⟨target, found, pair⟩ := Option.map_eq_some_iff.mp rest
  cases pair
  exact lt_of_lookup_idMapOf distinct found

theorem filterMap_eq_map_of {α β : Type} {items : List α} {choose : α → Option β} {value : α → β}
    (chosen : ∀ item ∈ items, choose item = some (value item)) :
    items.filterMap choose = items.map value := by
  induction items with
  | nil => rfl
  | cons item rest ih =>
    rw [filterMap_cons_some (chosen item mem_cons_self), map_cons,
      ih fun other mem => chosen other (mem_cons_of_mem _ mem)]

/-! ## What a projection keeps -/

namespace GraphProjection

variable {csr : CsrLibrary} {W : Type} (self : GraphProjection csr W)

/-- The graph has an edge between the numbers of the nodes. -/
def HasEdge (u v : String) : Prop :=
  ∃ first second, self.getId u = some first ∧ self.getId v = some second ∧
    csr.HasEdge self.graph first second

/-- The graph has the edges of the list, and the backward graph has them turned round. -/
structure KeepsEdges (sorter : UnstableSort (Nat × Nat) id) (nodes : List String)
    (pairs : List (String × String)) : Prop where
  forward : ∀ u ∈ nodes, ∀ v ∈ nodes, self.HasEdge u v ↔ (u, v) ∈ pairs
  backward : ∃ graph, (self.ensureBackwardGraph sorter).backwardGraph = some graph ∧
    ∀ u v, csr.HasEdge graph v u ↔ csr.HasEdge self.graph u v

/-- Each edge of the graph has the weight of an edge of the list. -/
def KeepsWeights [One W] (edges : List ((String × String) × W)) : Prop :=
  ∀ index first second, (csr.edges self.graph)[index]? = some (first, second) →
    ∃ edge ∈ edges, self.getId edge.1.1 = some first ∧ self.getId edge.1.2 = some second ∧
      self.edgeWeight index = edge.2

variable {self}

/-- The backward graph is the graph turned round. -/
theorem ensureBackwardGraph_spec (sorter : UnstableSort (Nat × Nat) id)
    (fresh : self.backwardGraph = none)
    (bound : ∀ u v, csr.HasEdge self.graph u v → u < self.reverseMap.length)
    (single : ∀ u < csr.nodeCount self.graph, (csr.neighborsSlice self.graph u).Nodup) :
    ∃ graph, (self.ensureBackwardGraph sorter).backwardGraph = some graph ∧
      ∀ u v, csr.HasEdge graph v u ↔ csr.HasEdge self.graph u v := by
  unfold ensureBackwardGraph
  rw [fresh]
  refine ⟨_, rfl, fun u v => ?_⟩
  rw [csr.hasEdge_getD (sorter.sorted _)]
  have perm := sorter.perm ((range self.reverseMap.length).flatMap fun u =>
    if u < csr.nodeCount self.graph then
      (csr.neighborsSlice self.graph u).map fun v => (v, u) else [])
  have nodup : ((range self.reverseMap.length).flatMap fun u =>
      if u < csr.nodeCount self.graph then
        (csr.neighborsSlice self.graph u).map fun v => (v, u) else []).Nodup := by
    rw [nodup_flatMap]
    refine ⟨fun u _ => ?_, pairwise_lt_range.imp fun lower edge here there => ?_⟩
    · split
      · next inside =>
        exact (single u inside).map fun first second same => (Prod.mk.inj same).1
      · exact nodup_nil
    · have row {u : Nat} (mem : edge ∈ if u < csr.nodeCount self.graph then
          (csr.neighborsSlice self.graph u).map fun v => (v, u) else []) : edge.2 = u := by
        split at mem
        · obtain ⟨v, _, rfl⟩ := mem_map.mp mem
          rfl
        · cases mem
      have same := (row here).symm.trans (row there)
      omega
  rw [and_iff_right (perm.nodup_iff.mpr nodup), perm.mem_iff, mem_flatMap]
  constructor
  · rintro ⟨row, _, mem⟩
    split at mem
    · next inside =>
      obtain ⟨target, found, same⟩ := mem_map.mp mem
      cases same
      exact ⟨inside, found⟩
    · cases mem
  · intro edge
    refine ⟨u, mem_range.mpr (bound u v edge), ?_⟩
    rw [if_pos edge.1]
    exact mem_map.mpr ⟨v, edge.2, rfl⟩

end GraphProjection

/-- No edge comes twice, and the numbers of the ends of an edge are those of no other nodes. -/
def Apart (nodes : List String) (pairs : List (String × String)) : Prop :=
  pairs.Nodup ∧ ∀ edge ∈ pairs, ∀ u ∈ nodes, ∀ v ∈ nodes,
    idOf nodes u = idOf nodes edge.1 → idOf nodes v = idOf nodes edge.2 → (u, v) = edge

section Keeping

variable {csr : CsrLibrary} {W : Type} {nodes : List String} (distinct : nodes.Nodup)

/-- The pairs of numbers of the edges. -/
def numbered (nodes : List String) (pairs : List (String × String)) : List (Nat × Nat) :=
  pairs.map fun edge => (idOf nodes edge.1, idOf nodes edge.2)

include distinct in
/-- What a projection keeps whose graph was built from the numbered edges. -/
theorem keepsEdges_iff {projection : GraphProjection csr W} (sorter : UnstableSort (Nat × Nat) id)
    {pairs : List (String × String)} (inside : ∀ edge ∈ pairs, edge.1 ∈ nodes ∧ edge.2 ∈ nodes)
    (ids : projection.idMap = idMapOf nodes) (names : projection.reverseMap = nodes)
    (fresh : projection.backwardGraph = none) {sorted : List (Nat × Nat)}
    (built : projection.graph = (csr.fromSortedEdges sorted).getD csr.default)
    (perm : sorted ~ numbered nodes pairs)
    (ordered : sorted.Pairwise fun first second => ¬ EdgeBefore second first) :
    projection.KeepsEdges sorter nodes pairs ↔ Apart nodes pairs := by
  have graph (u v : Nat) : csr.HasEdge projection.graph u v ↔
      (numbered nodes pairs).Nodup ∧ (u, v) ∈ numbered nodes pairs := by
    rw [built, csr.hasEdge_getD ordered, perm.nodup_iff, perm.mem_iff]
  have edge {u v : String} (hu : u ∈ nodes) (hv : v ∈ nodes) : projection.HasEdge u v ↔
      (numbered nodes pairs).Nodup ∧ (idOf nodes u, idOf nodes v) ∈ numbered nodes pairs := by
    rw [GraphProjection.HasEdge, GraphProjection.getId, GraphProjection.getId, ids,
      lookup_idMapOf distinct, lookup_idMapOf distinct, if_pos hu, if_pos hv, ← graph]
    simp
  constructor
  · rintro ⟨forward, _⟩
    have single : (numbered nodes pairs).Nodup := by
      cases pairs with
      | nil => exact nodup_nil
      | cons first rest =>
        obtain ⟨left, right⟩ := inside first mem_cons_self
        exact ((edge left right).mp ((forward _ left _ right).mpr mem_cons_self)).1
    refine ⟨single.of_map _, fun other found u hu v hv first second => ?_⟩
    have here := (forward u hu v hv).mp ((edge hu hv).mpr ⟨single, by
      rw [first, second]
      exact mem_map_of_mem (f := fun edge => (idOf nodes edge.1, idOf nodes edge.2)) found⟩)
    exact inj_on_of_nodup_map single here found (Prod.ext first second)
  · rintro ⟨single, apart⟩
    have alone : (numbered nodes pairs).Nodup := by
      refine single.map_on fun first here second there same => ?_
      obtain ⟨left, right⟩ := inside first here
      exact apart second there _ left _ right (Prod.mk.inj same).1 (Prod.mk.inj same).2
    refine ⟨fun u hu v hv => ?_, ?_⟩
    · rw [edge hu hv, and_iff_right alone]
      constructor
      · intro mem
        obtain ⟨other, found, same⟩ := mem_map.mp mem
        obtain ⟨first, second⟩ := Prod.mk.inj same
        rw [apart other found u hu v hv first.symm second.symm]
        exact found
      · exact fun mem =>
          mem_map_of_mem (f := fun edge => (idOf nodes edge.1, idOf nodes edge.2)) mem
    · refine GraphProjection.ensureBackwardGraph_spec sorter fresh (fun u v here => ?_) ?_
      · obtain ⟨other, found, same⟩ := mem_map.mp ((graph u v).mp here).2
        rw [names, ← (Prod.mk.inj same).1]
        exact idOf_lt (inside other found).1
      · intro u within
        rw [built] at within ⊢
        cases done : csr.fromSortedEdges sorted with
        | none =>
          rw [done, Option.getD_none, csr.nodeCount_default] at within
          exact absurd within (Nat.not_lt_zero u)
        | some graph =>
          rw [done] at within
          rw [Option.getD_some, csr.row _ _ done u within]
          refine ((perm.nodup_iff.mpr alone).filter _).map_on fun first here second there same => ?_
          refine Prod.ext ?_ same
          rw [of_decide_eq_true (mem_filter.mp here).2, of_decide_eq_true (mem_filter.mp there).2]

theorem ids_of_edges (distinct : nodes.Nodup) {pairs : List (String × String)}
    (inside : ∀ edge ∈ pairs, edge.1 ∈ nodes ∧ edge.2 ∈ nodes) :
    pairs.filterMap (edgeIds (idMapOf nodes)) = numbered nodes pairs :=
  filterMap_eq_map_of fun edge mem => edgeIds_eq distinct (inside edge mem)

include distinct in
theorem keepsEdges_fromParts_iff (sorter : UnstableSort (Nat × Nat) id)
    {pairs : List (String × String)}
    (inside : ∀ edge ∈ pairs, edge.1 ∈ nodes ∧ edge.2 ∈ nodes) :
    (GraphProjection.fromParts sorter nodes pairs : GraphProjection csr W).KeepsEdges sorter nodes
      pairs ↔ Apart nodes pairs := by
  refine keepsEdges_iff distinct sorter inside rfl rfl rfl rfl ?_ (sorter.sorted _)
  rw [ids_of_edges distinct inside]
  exact sorter.perm _

section Weighted

variable {edges : List ((String × String) × W)}
  (inside : ∀ edge ∈ edges, edge.1.1 ∈ nodes ∧ edge.1.2 ∈ nodes)

/-- The numbered edges with their weights. -/
def numberedWeights (nodes : List String) (edges : List ((String × String) × W)) :
    List ((Nat × Nat) × W) :=
  edges.map fun edge => ((idOf nodes edge.1.1, idOf nodes edge.1.2), edge.2)

include distinct inside in
theorem ids_of_weighted : (edges.filterMap fun edge =>
    (edgeIds (idMapOf nodes) edge.1).map fun ids => (ids, edge.2)) = numberedWeights nodes edges :=
  filterMap_eq_map_of fun edge mem => by rw [edgeIds_eq distinct (inside edge mem)]; rfl

include distinct inside in
theorem keepsEdges_fromPartsWeighted_iff (sorter : UnstableSort (Nat × Nat) id)
    (weighted : UnstableSort ((Nat × Nat) × W) Prod.fst) :
    (GraphProjection.fromPartsWeighted weighted nodes edges :
      GraphProjection csr W).KeepsEdges sorter nodes (edges.map Prod.fst) ↔
        Apart nodes (edges.map Prod.fst) := by
  refine keepsEdges_iff distinct sorter (fun edge mem => ?_) rfl rfl rfl rfl ?_
    (pairwise_map.mpr (weighted.sorted _))
  · obtain ⟨whole, found, rfl⟩ := mem_map.mp mem
    exact inside whole found
  · refine ((weighted.perm _).map Prod.fst).trans ?_
    rw [ids_of_weighted distinct inside, numberedWeights, numbered, map_map, map_map]
    exact .refl _

include distinct inside in
/-- The weights stand in the order of the rows. -/
theorem keepsWeights_fromPartsWeighted [One W]
    (weighted : UnstableSort ((Nat × Nat) × W) Prod.fst) :
    (GraphProjection.fromPartsWeighted weighted nodes edges :
      GraphProjection csr W).KeepsWeights edges := by
  intro index first second found
  have placed := csr.mem_edges_getD found
  rw [getElem?_map] at placed
  obtain ⟨⟨ids, weight⟩, here, same⟩ := Option.map_eq_some_iff.mp placed
  have mem := (weighted.perm _).mem_iff.mp (mem_of_getElem? here)
  rw [ids_of_weighted distinct inside] at mem
  obtain ⟨edge, listed, numbers⟩ := mem_map.mp mem
  obtain ⟨sameIds, sameWeight⟩ := Prod.mk.inj numbers
  obtain ⟨sameFirst, sameSecond⟩ := Prod.mk.inj (sameIds.trans same)
  obtain ⟨left, right⟩ := inside edge listed
  refine ⟨edge, listed, ?_, ?_, ?_⟩
  · rw [← sameFirst]
    exact (lookup_idMapOf distinct _).trans (if_pos left)
  · rw [← sameSecond]
    exact (lookup_idMapOf distinct _).trans (if_pos right)
  · rw [sameWeight, GraphProjection.edgeWeight]
    change (((weighted.sort _).map Prod.snd)[index]?).getD 1 = weight
    rw [getElem?_map, here]
    rfl

end Weighted

/-- A projection keeps its edges, and their weights, exactly if none comes twice and the numbers of
the nodes tell them apart. -/
theorem projection_keeps_graph_iff [One W] (csr : CsrLibrary)
    (sorter : UnstableSort (Nat × Nat) id) (weighted : UnstableSort ((Nat × Nat) × W) Prod.fst)
    {nodes : List String} (distinct : nodes.Nodup) {edges : List ((String × String) × W)}
    (inside : ∀ edge ∈ edges, edge.1.1 ∈ nodes ∧ edge.1.2 ∈ nodes) :
    ((GraphProjection.fromParts sorter nodes (edges.map Prod.fst) :
        GraphProjection csr W).KeepsEdges sorter nodes (edges.map Prod.fst) ↔
      Apart nodes (edges.map Prod.fst)) ∧
    ((GraphProjection.fromPartsWeighted weighted nodes edges :
        GraphProjection csr W).KeepsEdges sorter nodes (edges.map Prod.fst) ∧
        (GraphProjection.fromPartsWeighted weighted nodes edges :
          GraphProjection csr W).KeepsWeights edges ↔
      Apart nodes (edges.map Prod.fst)) := by
  refine ⟨keepsEdges_fromParts_iff distinct sorter fun edge mem => ?_, ?_⟩
  · obtain ⟨whole, found, rfl⟩ := mem_map.mp mem
    exact inside whole found
  · rw [keepsEdges_fromPartsWeighted_iff distinct inside,
      and_iff_left (keepsWeights_fromPartsWeighted distinct inside weighted)]

end Keeping

/-! ## A library and its sort -/

theorem le_foldr_max {items : List Nat} {item : Nat} (mem : item ∈ items) :
    item ≤ items.foldr max 0 := by
  induction items with
  | nil => cases mem
  | cons first rest ih =>
    rcases mem_cons.mp mem with rfl | mem
    · exact le_max_left _ _
    · exact (ih mem).trans (le_max_right _ _)

/-- Rows kept as the list of their edges. -/
def listCsr : CsrLibrary where
  Graph := List (Nat × Nat)
  default := []
  fromSortedEdges edges := if edges.Pairwise EdgeBefore then some edges else none
  nodeCount edges := (edges.map fun edge => max edge.1 edge.2 + 1).foldr max 0
  neighborsSlice edges node := (edges.filter fun edge => edge.1 = node).map Prod.snd
  nodeCount_default := rfl
  accepts edges := by
    split
    · next sorted => exact iff_of_true rfl sorted
    · next unsorted => exact iff_of_false Bool.false_ne_true unsorted
  endpoints edges graph built edge mem := by
    split at built
    · cases built
      have most := le_foldr_max
        (mem_map_of_mem (f := fun edge : Nat × Nat => max edge.1 edge.2 + 1) mem)
      omega
    · cases built
  row edges graph built node _ := by
    split at built
    · cases built
      rfl
    · cases built

/-- An element does not come behind another one by its key. -/
def KeyLe {α : Type} (key : α → Nat × Nat) (first second : α) : Prop :=
  ¬ EdgeBefore (key second) (key first)

instance {α : Type} (key : α → Nat × Nat) : DecidableRel (KeyLe key) :=
  fun first second => inferInstanceAs (Decidable (¬ EdgeBefore (key second) (key first)))

instance {α : Type} (key : α → Nat × Nat) : Std.Total (KeyLe key) where
  total first second := by
    by_cases before : EdgeBefore (key second) (key first)
    · exact .inr before.asymm
    · exact .inl before

instance {α : Type} (key : α → Nat × Nat) : IsTrans α (KeyLe key) where
  trans first second third := by
    unfold KeyLe EdgeBefore
    omega

/-- Sort by insertion. -/
def listSort {α : Type} (key : α → Nat × Nat) : UnstableSort α key where
  sort := insertionSort (KeyLe key)
  perm := perm_insertionSort _
  sorted := pairwise_insertionSort (KeyLe key)

/-- A circle with a loop and a negative weight, given in no order. -/
def circle : List ((String × String) × Int) :=
  [(("c", "a"), -7), (("a", "b"), 5), (("c", "c"), 2), (("b", "c"), 0)]

theorem circle_is_kept :
    (GraphProjection.fromParts (listSort id) ["a", "b", "c"] (circle.map Prod.fst) :
      GraphProjection listCsr Int).KeepsEdges (listSort id) ["a", "b", "c"] (circle.map Prod.fst) ∧
    (GraphProjection.fromPartsWeighted (listSort Prod.fst) ["a", "b", "c"] circle :
      GraphProjection listCsr Int).KeepsEdges (listSort id) ["a", "b", "c"] (circle.map Prod.fst) ∧
    (GraphProjection.fromPartsWeighted (listSort Prod.fst) ["a", "b", "c"] circle :
      GraphProjection listCsr Int).KeepsWeights circle := by
  have apart : Apart ["a", "b", "c"] (circle.map Prod.fst) := by
    unfold Apart
    decide
  obtain ⟨plain, weighted⟩ := @projection_keeps_graph_iff Int _ listCsr (listSort id)
    (listSort Prod.fst) ["a", "b", "c"] (by decide) circle (by decide)
  exact ⟨plain.mpr apart, weighted.mpr apart⟩

/-- Two relations between the same nodes empty the graph. -/
theorem two_relations_are_lost :
    ¬ (GraphProjection.fromParts (listSort id) ["a", "b"] [("a", "b"), ("a", "b")] :
      GraphProjection listCsr Nat).KeepsEdges (listSort id) ["a", "b"]
        [("a", "b"), ("a", "b")] := by
  rw [keepsEdges_fromParts_iff (by decide) (listSort id) (by decide)]
  exact fun apart => absurd apart.1 (by decide)

end RaisinDB.Graphs
