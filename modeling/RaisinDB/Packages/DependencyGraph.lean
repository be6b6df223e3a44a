import RaisinDB.Foundation.CountDown
import RaisinDB.Foundation.CycleSearch

/-!
# Dependencies of packages

Packages are added one by one, and a name may come again with another manifest.  The node of a
package is replaced then, but the lists of dependents only grow, so a package may be told of the
same dependency more often than its node lists it.
-/

namespace RaisinDB.Packages

open List RaisinDB.Foundation

structure Manifest where
  name : String
  dependencies : List String

structure PackageNode where
  name : String
  dependencies : List String

structure DependencyGraph where
  nodes : AList fun _ : String => PackageNode
  /-- The packages that depend on a package. -/
  reverseAdjacency : AList fun _ : String => List String

/-- The order in which a hash map gives its keys. -/
structure HashOrder where
  arrange : List String → List String
  perm : ∀ names, arrange names ~ names

/-- A package is put behind those that are told of a dependency already. -/
def pushDependent (package : String) (adjacency : AList fun _ : String => List String)
    (dependency : String) : AList fun _ : String => List String :=
  adjacency.insert dependency (((adjacency.lookup dependency).getD []) ++ [package])

namespace DependencyGraph

def new : DependencyGraph := ⟨∅, ∅⟩

variable (self : DependencyGraph)

def addPackage (manifest : Manifest) : DependencyGraph where
  nodes := self.nodes.insert manifest.name ⟨manifest.name, manifest.dependencies⟩
  reverseAdjacency :=
    manifest.dependencies.foldl (pushDependent manifest.name) self.reverseAdjacency

def names : List String := self.nodes.keys

/-- The dependencies of a package, none of a name that is no package. -/
def needs (name : String) : List String :=
  ((self.nodes.lookup name).map PackageNode.dependencies).getD []

def dependents (name : String) : List String := (self.reverseAdjacency.lookup name).getD []

/-- A package has the number of its dependencies that are there, and a name that is only listed
has zero. -/
def inDegree (name : String) : Option Nat :=
  match self.nodes.lookup name with
  | some node => some (node.dependencies.countP (· ∈ self.names))
  | none =>
      if self.nodes.entries.any fun entry => name ∈ entry.2.dependencies then some 0 else none

end DependencyGraph

inductive Sorted where
  | ok (order : List String)
  | circular (cycle : List String)
  | panicked
  deriving DecidableEq

namespace DependencyGraph

variable (self : DependencyGraph)

/-- Every name that a search may come to. -/
def allNames : List String := self.names ++ self.names.flatMap self.needs

/-- The cycle is empty if none is found. -/
def findCycle (order : HashOrder) : Sorted :=
  match findFrom self.needs self.allNames.length (order.arrange self.names) ⟨[], [], []⟩ with
  | .cycle names => .circular names
  | .nothing => .circular []
  | .panicked => .panicked

def startState (order : HashOrder) : CountState String :=
  ⟨self.inDegree, (order.arrange self.names).filter fun name => self.inDegree name == some 0, []⟩

/-- The in-degrees and the nodes are in maps of their own, each with its order. -/
def topologicalSort (degreeOrder keyOrder : HashOrder) : Sorted :=
  match popAll self.dependents self.names.length (self.startState degreeOrder) with
  | none => .panicked
  | some final =>
      if final.done.length ≠ self.names.length then self.findCycle keyOrder else .ok final.done

end DependencyGraph

/-! ## Histories -/

def graphOf (history : List Manifest) : DependencyGraph :=
  history.foldl DependencyGraph.addPackage DependencyGraph.new

section Histories

variable (history : List Manifest)

def manifestsOf (name : String) : List Manifest :=
  history.filter fun manifest => manifest.name = name

def Present (name : String) : Prop := ∃ manifest ∈ history, manifest.name = name

instance (name : String) : Decidable (Present history name) :=
  inferInstanceAs (Decidable (∃ manifest ∈ history, manifest.name = name))

/-- What the latest manifest of a name lists. -/
def listedBy (name : String) : List String :=
  ((manifestsOf history name).getLast?.map Manifest.dependencies).getD []

/-- What all its manifests together list. -/
def everListedBy (name : String) : List String :=
  (manifestsOf history name).flatMap Manifest.dependencies

/-- A package depends on another package. -/
def DependsOn (name dependency : String) : Prop :=
  dependency ∈ listedBy history name ∧ Present history dependency

/-- No package depends on itself, not even in several steps. -/
def Acyclic : Prop := ∀ name, ¬ Relation.TransGen (DependsOn history) name name

/-- How many of the listed dependencies of a package are packages. -/
def presentNeeds (name : String) : Nat := (listedBy history name).countP (Present history ·)

/-- A sequence of packages of which each comes behind as many dependencies, in all its manifests,
as its latest manifest lists packages. -/
structure Prepared (sequence : List String) : Prop where
  nodup : sequence.Nodup
  present : ∀ name ∈ sequence, Present history name
  earlier : ∀ front name back, sequence = front ++ name :: back →
    presentNeeds history name ≤ (everListedBy history name).countP (· ∈ front)

/-- No package lists the packages of such a sequence more often, in all its manifests, than its
latest manifest lists packages. -/
def Consistent : Prop :=
  ∀ sequence, Prepared history sequence → ∀ name, Present history name →
    (everListedBy history name).countP (· ∈ sequence) ≤ presentNeeds history name

end Histories

/-! ## The graph of a history -/

theorem lookup_pushDependents (package : String) (dependencies : List String)
    (adjacency : AList fun _ : String => List String) (name other : String) :
    (((dependencies.foldl (pushDependent package) adjacency).lookup name).getD []).count other =
      ((adjacency.lookup name).getD []).count other +
        if package = other then dependencies.count name else 0 := by
  induction dependencies generalizing adjacency with
  | nil => simp
  | cons dependency rest ih =>
    rw [foldl_cons, ih, pushDependent]
    by_cases same : name = dependency
    · subst same
      rw [AList.lookup_insert, Option.getD_some, count_append, count_cons_self]
      by_cases here : package = other
      · simp [here]
        omega
      · simp [here]
    · rw [AList.lookup_insert_ne same, count_cons_of_ne (Ne.symm same)]

section Graph

variable {history : List Manifest}

theorem count_dependents_foldl (graph : DependencyGraph) (name other : String) :
    ((history.foldl DependencyGraph.addPackage graph).dependents name).count other =
      (graph.dependents name).count other + (everListedBy history other).count name := by
  induction history generalizing graph with
  | nil => rfl
  | cons manifest rest ih =>
    have added : ((graph.addPackage manifest).dependents name).count other =
        (graph.dependents name).count other +
          if manifest.name = other then manifest.dependencies.count name else 0 :=
      lookup_pushDependents _ _ _ _ _
    rw [foldl_cons, ih, added, everListedBy, everListedBy, manifestsOf, manifestsOf, filter_cons]
    by_cases here : manifest.name = other
    · simp [here]
      omega
    · simp [here]

theorem count_dependents (name other : String) :
    ((graphOf history).dependents name).count other = (everListedBy history other).count name := by
  rw [graphOf, count_dependents_foldl]
  exact Nat.zero_add _

theorem lookup_foldl (graph : DependencyGraph) (name : String) :
    ((history.foldl DependencyGraph.addPackage graph).nodes.lookup name).map
        PackageNode.dependencies =
      ((manifestsOf history name).getLast?.map Manifest.dependencies).or
        ((graph.nodes.lookup name).map PackageNode.dependencies) := by
  induction history generalizing graph with
  | nil => rfl
  | cons manifest rest ih =>
    rw [foldl_cons, ih, manifestsOf, manifestsOf, filter_cons, DependencyGraph.addPackage]
    by_cases here : manifest.name = name
    · subst here
      rw [AList.lookup_insert]
      simp [getLast?_cons]
    · rw [AList.lookup_insert_ne (Ne.symm here)]
      simp [here]

theorem lookup_graphOf (name : String) :
    ((graphOf history).nodes.lookup name).map PackageNode.dependencies =
      (manifestsOf history name).getLast?.map Manifest.dependencies := by
  rw [graphOf, lookup_foldl]
  exact Option.or_none

theorem needs_graphOf (name : String) : (graphOf history).needs name = listedBy history name := by
  rw [DependencyGraph.needs, lookup_graphOf, listedBy]

theorem mem_names_graphOf {name : String} :
    name ∈ (graphOf history).names ↔ Present history name := by
  have stored := congrArg Option.isSome (@lookup_graphOf history name)
  rw [Option.isSome_map, Option.isSome_map] at stored
  rw [DependencyGraph.names, ← AList.mem_keys, ← AList.lookup_isSome, stored]
  simp [manifestsOf, Present]

theorem present_of_everListed {name dependency : String}
    (listed : dependency ∈ everListedBy history name) : Present history name := by
  obtain ⟨manifest, mem, _⟩ := mem_flatMap.mp listed
  obtain ⟨inside, same⟩ := mem_filter.mp mem
  exact ⟨manifest, inside, of_decide_eq_true same⟩

theorem present_of_listed {name dependency : String} (listed : dependency ∈ listedBy history name) :
    Present history name := by
  rw [← needs_graphOf, DependencyGraph.needs] at listed
  cases found : (graphOf history).nodes.lookup name with
  | none =>
    rw [found] at listed
    exact absurd listed not_mem_nil
  | some node =>
    refine mem_names_graphOf.mp (AList.mem_keys.mp (AList.lookup_isSome.mp ?_))
    rw [found]
    rfl

/-- The latest manifest lists no dependency more often than all manifests together. -/
theorem count_listedBy_le (name dependency : String) :
    (listedBy history name).count dependency ≤ (everListedBy history name).count dependency := by
  rw [listedBy, everListedBy]
  cases last : (manifestsOf history name).getLast? with
  | none => exact Nat.zero_le _
  | some manifest =>
    obtain ⟨earlier, split⟩ := getLast?_eq_some_iff.mp last
    rw [split, flatMap_append, count_append, flatMap_singleton]
    exact Nat.le_add_left _ _

theorem closed_dependents : ∀ source ∈ (graphOf history).names,
    ∀ name ∈ (graphOf history).dependents source, name ∈ (graphOf history).names := by
  intro source _ name told
  have listed := count_pos_iff.mpr told
  rw [count_dependents] at listed
  exact mem_names_graphOf.mpr (present_of_everListed (count_pos_iff.mp listed))

theorem countP_names (items : List String) :
    items.countP (· ∈ (graphOf history).names) = items.countP (Present history ·) :=
  countP_congr fun name _ => by simp [mem_names_graphOf]

theorem inDegree_graphOf {name : String} (known : name ∈ (graphOf history).names) :
    (graphOf history).inDegree name = some (presentNeeds history name) := by
  obtain ⟨node, found⟩ := Option.isSome_iff_exists.mp
    (AList.lookup_isSome.mpr (AList.mem_keys.mpr known))
  have listed : node.dependencies = listedBy history name := by
    rw [← needs_graphOf, DependencyGraph.needs, found]
    rfl
  rw [DependencyGraph.inDegree, found]
  dsimp only
  rw [listed, countP_names, presentNeeds]

theorem countingDown_start (order : HashOrder) :
    CountingDown (graphOf history).names (graphOf history).dependents (presentNeeds history)
      ((graphOf history).startState order) := by
  have arranged := order.perm (graphOf history).names
  refine .init ((arranged.nodup_iff.mpr (graphOf history).nodes.keys_nodup).filter _)
    (fun name => ?_) fun name known => inDegree_graphOf known
  rw [mem_filter, arranged.mem_iff]
  refine and_congr_right fun known => ?_
  rw [inDegree_graphOf known]
  simp

theorem toldBy_dependents {sequence : List String} (nodup : sequence.Nodup) (name : String) :
    toldBy (graphOf history).dependents sequence name =
      (everListedBy history name).countP (· ∈ sequence) := by
  rw [← sum_count_eq_countP nodup, toldBy]
  simp only [count_dependents]

theorem supported_iff_prepared {sequence : List String} :
    Supported (graphOf history).names (graphOf history).dependents (presentNeeds history)
      sequence ↔ Prepared history sequence := by
  constructor
  · intro supported
    refine ⟨supported.nodup, fun name mem => mem_names_graphOf.mp (supported.names name mem),
      fun front name back joined => ?_⟩
    have earlier := supported.earlier front name back joined
    rwa [toldBy_dependents (joined ▸ supported.nodup).of_append_left] at earlier
  · intro prepared
    refine ⟨prepared.nodup, fun name mem => mem_names_graphOf.mpr (prepared.present name mem),
      fun front name back joined => ?_⟩
    rw [toldBy_dependents (joined ▸ prepared.nodup).of_append_left]
    exact prepared.earlier front name back joined

theorem balanced_iff_consistent :
    Balanced (graphOf history).names (graphOf history).dependents (presentNeeds history) ↔
      Consistent history := by
  constructor
  · intro balanced sequence prepared name present
    have bound := balanced sequence (supported_iff_prepared.mpr prepared) name
      (mem_names_graphOf.mpr present)
    rwa [toldBy_dependents prepared.nodup] at bound
  · intro consistent sequence supported name known
    rw [toldBy_dependents supported.nodup]
    exact consistent sequence (supported_iff_prepared.mp supported) name (mem_names_graphOf.mp known)

/-! ## Cycles -/

/-- A list of packages of which each depends on the next one, from a package back to itself. -/
structure RealCycle (history : List Manifest) (names : List String) : Prop where
  chain : names.IsChain (DependsOn history)
  closed : names.head? = names.getLast?
  long : 2 ≤ names.length

theorem isCycle_needs {names : List String} (cycle : IsCycle (graphOf history).needs names) :
    RealCycle history names := by
  have successor : ∀ name ∈ names.dropLast, ∃ need, need ∈ (graphOf history).needs name := by
    intro name mem
    obtain ⟨index, bound, rfl⟩ := getElem_of_mem mem
    rw [length_dropLast] at bound
    exact ⟨_, by
      rw [getElem_dropLast]
      exact isChain_iff_getElem.mp cycle.chain index (by omega)⟩
  have present : ∀ name ∈ names, Present history name := by
    intro name mem
    have nonempty : names ≠ [] := ne_nil_of_mem mem
    have early : name ∈ names.dropLast := by
      rw [← dropLast_concat_getLast nonempty] at mem
      rcases mem_append.mp mem with early | last
      · exact early
      · have closed := cycle.closed
        have long := cycle.long
        rw [mem_singleton.mp last]
        rw [getLast?_eq_some_getLast nonempty] at closed
        have first : names.dropLast.head? = some (names.getLast nonempty) := by
          rw [head?_dropLast, if_pos (by omega), closed]
        exact mem_of_head? first
    obtain ⟨need, needed⟩ := successor name early
    rw [needs_graphOf] at needed
    exact present_of_listed needed
  refine ⟨cycle.chain.imp_of_mem_imp fun name need _ mem needed => ?_, cycle.closed, cycle.long⟩
  rw [needs_graphOf] at needed
  exact ⟨needed, present need mem⟩

theorem RealCycle.not_acyclic {names : List String} (cycle : RealCycle history names) :
    ¬ Acyclic history := by
  obtain ⟨chain, closed, long⟩ := cycle
  match names, long with
  | first :: second :: rest, _ =>
    intro acyclic
    obtain ⟨step, later⟩ := isChain_cons_cons.mp chain
    have returns : (second :: rest).getLast (cons_ne_nil _ _) = first := by
      rw [head?_cons, getLast?_cons_cons, getLast?_eq_some_getLast (cons_ne_nil _ _)] at closed
      exact (Option.some.inj closed).symm
    have back := relationReflTransGen_of_exists_isChain_cons rest later returns
    exact acyclic first (Relation.TransGen.head' step back)

theorem not_circle_of_acc {α : Type} {below : α → α → Prop} {item : α}
    (acc : Acc (Relation.TransGen below) item) : ¬ Relation.TransGen below item item := by
  induction acc with
  | intro item _ ih => exact fun circle => ih item circle circle

theorem acyclic_of_acc (acc : ∀ name ∈ (graphOf history).names,
    Acc (Needs (graphOf history).names (graphOf history).needs) name) : Acyclic history := by
  intro name circle
  have present : Present history name := by
    cases circle with
    | single step => exact step.2
    | tail _ step => exact step.2
  refine not_circle_of_acc (acc name (mem_names_graphOf.mpr present)).transGen ?_
  refine Relation.transGen_swap.mp
    (Relation.TransGen.mono (fun first second step => ?_) name name circle)
  refine ⟨?_, mem_names_graphOf.mpr step.2⟩
  rw [needs_graphOf]
  exact step.1

theorem allNames_closed : ∀ name ∈ (graphOf history).allNames,
    ∀ need ∈ (graphOf history).needs name, need ∈ (graphOf history).allNames := by
  intro name _ need needed
  have listed := needed
  rw [needs_graphOf] at listed
  exact mem_append_right _
    (mem_flatMap.mpr ⟨name, mem_names_graphOf.mpr (present_of_listed listed), needed⟩)

/-- The search finds a real cycle, or the packages depend on nothing without an end. -/
theorem findCycle_spec (order : HashOrder) :
    (∃ names, (graphOf history).findCycle order = .circular names ∧ RealCycle history names) ∨
      ∀ name ∈ (graphOf history).names,
        Acc (Needs (graphOf history).names (graphOf history).needs) name := by
  have arranged := order.perm (graphOf history).names
  have found := findFrom_spec allNames_closed (le_refl (graphOf history).allNames.length)
    (order.arrange (graphOf history).names)
    (show Searching (graphOf history).needs ⟨[], [], []⟩ from
      ⟨rfl, isChain_nil, nofun, nofun⟩) rfl
    (fun name mem => mem_append_left _ (arranged.mem_iff.mp mem))
  rcases found with ⟨names, found, cycle⟩ | ⟨_, acc⟩
  · refine .inl ⟨names, ?_, isCycle_needs cycle⟩
    rw [DependencyGraph.findCycle, found]
  · exact .inr fun name known => Subrelation.accessible (fun need => need.1)
      (acc name (arranged.mem_iff.mpr known))

/-! ## The order of installation -/

/-- What an installation order has to be. -/
structure SortsRightly (history : List Manifest) (sorted : Sorted) : Prop where
  runs : sorted ≠ .panicked
  sorts : (∃ order, sorted = .ok order) ↔ Acyclic history
  order : ∀ order, sorted = .ok order → order.Nodup ∧
    (∀ name, name ∈ order ↔ Present history name) ∧
    ∀ front name back, order = front ++ name :: back →
      ∀ dependency, DependsOn history name dependency → dependency ∈ front
  cycle : ∀ names, sorted = .circular names → RealCycle history names

/-- Packages are sorted as they should be exactly if the history is consistent. -/
theorem sorts_rightly_iff (history : List Manifest) (degreeOrder keyOrder : HashOrder) :
    SortsRightly history ((graphOf history).topologicalSort degreeOrder keyOrder) ↔
      Consistent history := by
  have start := @countingDown_start history degreeOrder
  have enough : (graphOf history).names.length ≤
      ((graphOf history).startState degreeOrder).done.length + (graphOf history).names.length :=
    Nat.le_add_left _ _
  have ends := start.popAll_isSome_iff closed_dependents enough
  rw [balanced_iff_consistent] at ends
  rw [← ends, DependencyGraph.topologicalSort]
  cases ran : popAll (graphOf history).dependents (graphOf history).names.length
      ((graphOf history).startState degreeOrder) with
  | none => exact iff_of_false (fun sorted => sorted.runs rfl) Bool.false_ne_true
  | some final =>
      refine iff_of_true ?_ rfl
      have down := start.popAll closed_dependents ran
      have empty := start.queue_popAll closed_dependents enough ran
      have told : ∀ source ∈ (graphOf history).names, ∀ name ∈ (graphOf history).names,
          ((graphOf history).needs name).count source ≤
            ((graphOf history).dependents source).count name := by
        intro source _ name _
        rw [count_dependents, needs_graphOf]
        exact count_listedBy_le name source
      have expects : ∀ name ∈ (graphOf history).names, presentNeeds history name =
          ((graphOf history).needs name).countP (· ∈ (graphOf history).names) := by
        intro name _
        rw [needs_graphOf, countP_names, presentNeeds]
      have nodup := down.supported.nodup
      have inside := down.supported.names
      rw [empty, append_nil] at nodup inside
      have some_or_all : (graphOf history).names ⊆ final.done ↔
          final.done.length = (graphOf history).names.length := by
        constructor
        · intro all
          exact Nat.le_antisymm (nodup.subperm inside).length_le
            ((graphOf history).nodes.keys_nodup.subperm all).length_le
        · intro same
          exact ((nodup.subperm inside).perm_of_length_le same.ge).symm.subset
      dsimp only
      by_cases all : final.done.length = (graphOf history).names.length
      · rw [if_neg (not_not.mpr all)]
        have everything := some_or_all.mpr all
        refine ⟨nofun, iff_of_true ⟨_, rfl⟩ (acyclic_of_acc
          (down.acc_of_released told empty everything)), ?_, nofun⟩
        rintro order ⟨⟩
        refine ⟨nodup, fun name => ⟨fun mem => mem_names_graphOf.mp (inside name mem),
          fun present => everything (mem_names_graphOf.mpr present)⟩, ?_⟩
        intro front name back joined dependency depends
        refine down.needs_before told empty everything joined ⟨?_, mem_names_graphOf.mpr depends.2⟩
        rw [needs_graphOf]
        exact depends.1
      · rw [if_pos all]
        rcases @findCycle_spec history keyOrder with ⟨names, found, cycle⟩ | acc
        · rw [found]
          refine ⟨nofun, iff_of_false nofun cycle.not_acyclic, nofun, ?_⟩
          rintro names' ⟨⟩
          exact cycle
        · refine absurd (some_or_all.mp fun name known => ?_) all
          exact down.released_of_acc expects told empty known (acc name known)

end Graph

/-- A package without dependencies is added again behind one that listed another package. -/
def againHistory : List Manifest := [⟨"app", ["base"]⟩, ⟨"base", []⟩, ⟨"app", []⟩]

def asStored : HashOrder := ⟨fun names => names, fun _ => .refl _⟩

/-- The count of the package goes below zero. -/
theorem added_again_panics :
    (graphOf againHistory).topologicalSort asStored asStored = .panicked ∧
      ¬ SortsRightly againHistory ((graphOf againHistory).topologicalSort asStored asStored) := by
  have panics : (graphOf againHistory).topologicalSort asStored asStored = .panicked := by decide
  exact ⟨panics, fun sorted => sorted.runs panics⟩

end RaisinDB.Packages
