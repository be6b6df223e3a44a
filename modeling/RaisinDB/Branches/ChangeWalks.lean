import RaisinDB.Branches.Divergence

/-!
# The changes of a branch

A merge, a resolution and a diff collect the changed nodes of the commits of a
branch.  Three of the walks follow all links and stop at the merge base; the last
loop of a resolution follows first parents only.
-/

namespace RaisinDB.Branches

open RaisinDB.Clock RaisinDB.Foundation RaisinDB.Replication List

/-! ## The walks -/

/-- A revision with the metadata that a walk reads. -/
structure Collected where
  revision : HLC
  record : RevisionMeta
  deriving DecidableEq

namespace RevisionGraph

variable (graph : RevisionGraph)

/-- Nothing is followed from the revision at which a walk stops. -/
def linksUntil (stop revision : HLC) : List HLC :=
  if revision = stop then [] else graph.links revision

/-- What a walk takes from a revision. -/
def collect (stop revision : HLC) : Option Collected :=
  if revision = stop then none else (graph.getRevisionMeta revision).map (Collected.mk revision)

/-- The commits from the head down to the merge base, in the order of the search. -/
def changeWalk (head stop : HLC) : List Collected :=
  (searchFrom (graph.linksUntil stop) (graph.allLinks.length + 1) [] [head]).filterMap
    (graph.collect stop)

/-- The loop that ends a resolution.  Only a cycle exhausts the fuel. -/
def firstParentLoop (stop : HLC) : Nat → HLC → Option (Except BranchError (List Collected))
  | 0, _ => none
  | fuel + 1, revision =>
      if revision = stop then some (.ok [])
      else
        match graph.getRevisionMeta revision with
        | none => some (.error (.notFound ("Revision " ++ revision.toText ++ " not found")))
        | some record =>
            match record.parent with
            | none => some (.ok [⟨revision, record⟩])
            | some parent =>
                (firstParentLoop stop fuel parent).map fun rest =>
                  rest.map fun later => ⟨revision, record⟩ :: later

def sourceLine (head stop : HLC) : Option (Except BranchError (List Collected)) :=
  graph.firstParentLoop stop (graph.metas.keys.length + 1) head

end RevisionGraph

/-- The first change of a key wins. -/
def orInsert {κ ν : Type} [DecidableEq κ] (changes : AList fun _ : κ => ν) (key : κ) (value : ν) :
    AList fun _ : κ => ν :=
  if key ∈ changes then changes else changes.insert key value

/-- The map that `collect_branch_changes` builds from a walk. -/
def changesByNode (walk : List Collected) : AList fun _ : String => String × ChangeOperation :=
  (walk.flatMap fun collected => collected.record.changedNodes).foldl
    (fun changes change => orInsert changes change.nodeId (change.workspace, change.operation)) ∅

/-- The map that `diff_branches` builds from a walk. -/
def changesByLocale (walk : List Collected) :
    AList fun _ : String × Option String => String × ChangeOperation × HLC :=
  (walk.flatMap fun collected =>
      collected.record.changedNodes.map fun change => (change, collected.revision)).foldl
    (fun changes entry => orInsert changes (entry.1.nodeId, entry.1.translationLocale)
      (entry.1.workspace, entry.1.operation, entry.2)) ∅

structure NodeDiffInfo where
  nodeId : String
  workspace : String
  path : Option String
  operation : ChangeOperation
  translationLocale : Option String

structure BranchDiff where
  commonAncestor : HLC
  added : List NodeDiffInfo
  modified : List NodeDiffInfo
  deleted : List NodeDiffInfo

namespace BranchRepository

variable (repository : BranchRepository)

/-- The walk of a merge, of `collect_branch_changes` and of a diff. -/
def branchWalk (head : HLC) (divergence : BranchDivergence) : List Collected :=
  repository.revisions.changeWalk head divergence.commonAncestor

/-- The changed nodes of the merge commit. -/
def mergeChangedNodes (target source : Branch) : List NodeChangeInfo :=
  (repository.branchWalk source.head
    (repository.revisions.divergence source.head target.head)).flatMap fun collected =>
      collected.record.changedNodes

def collectBranchChanges (head : HLC) (divergence : BranchDivergence) :
    AList fun _ : String => String × ChangeOperation :=
  changesByNode (repository.branchWalk head divergence)

/-- The paths are those that the branch gives the nodes at their changes. -/
def diffBranches (pathAt : String → String → HLC → Option String)
    (branchName baseBranch : String) : Except BranchError BranchDiff := do
  let current ← repository.getBranch branchName
  let divergence ← repository.calculateDivergence branchName baseBranch
  let changes := changesByLocale (repository.branchWalk current.head divergence)
  let infos := changes.entries.map fun entry =>
    { nodeId := entry.1.1, workspace := entry.2.1, path := pathAt entry.2.1 entry.1.1 entry.2.2.2
      operation := entry.2.2.1, translationLocale := entry.1.2 : NodeDiffInfo }
  return {
    commonAncestor := divergence.commonAncestor
    added := infos.filter fun info => info.operation = .added
    modified := infos.filter fun info =>
      info.operation = .modified ∨ info.operation = .reordered
    deleted := infos.filter fun info => info.operation = .deleted }

end BranchRepository

/-! ## What the walks should collect -/

namespace RevisionGraph

variable (graph : RevisionGraph)

/-- The revision has metadata. -/
def Recorded (revision : HLC) : Prop := (graph.getRevisionMeta revision).isSome

/-- The walk has collected the recorded commits that the other head does not have. -/
def CollectsUnmerged (head other : HLC) (walk : List Collected) : Prop :=
  ∀ revision, (∃ collected ∈ walk, collected.revision = revision) ↔
    graph.Recorded revision ∧ revision ∈ graph.unmerged head other

/-- The revision at which the walks of a merge stop: the source if it is merged already, else the
newest revision of both heads, else the zero revision. -/
structure IsWalkBase (source target base : HLC) : Prop where
  merged : graph.Reaches target source → base = source
  newest : ¬ graph.Reaches target source → graph.Meet source target →
    graph.Reaches source base ∧ graph.Reaches target base ∧
      ∀ other, graph.Reaches source other → graph.Reaches target other → other ≤ base
  disjoint : ¬ graph.Meet source target → base = ⟨0, 0⟩

/-- The unmerged commits of a head lead into the history of the other one only at the base. -/
structure EntersAt (head other base : HLC) : Prop where
  start : graph.Reaches other head → graph.Recorded head → head = base
  links : ∀ revision ∈ graph.unmerged head other, ∀ link ∈ graph.links revision,
    graph.Reaches other link → graph.Recorded link → link = base
  outside : base ∈ graph.unmerged head other → ¬ graph.Recorded base

/-- The first parents of a head. -/
def firstParent (revision : HLC) : List HLC :=
  ((graph.getRevisionMeta revision).bind RevisionMeta.parent).toList

def OnLine (head revision : HLC) : Prop := Foundation.Reaches graph.firstParent head revision

/-- The unmerged commits of a head are its line of first parents, which is recorded and leads
into the history of the other one only at the base. -/
structure LineEntersAt (head other base : HLC) : Prop where
  start : head = base ∨ (graph.Recorded head ∧ ¬ graph.Reaches other head)
  parents : ∀ revision ∈ graph.unmerged head other, graph.OnLine head revision →
    revision ≠ base → ∀ parent ∈ graph.firstParent revision,
      parent = base ∨ (graph.Recorded parent ∧ ¬ graph.Reaches other parent)
  outside : base ∈ graph.unmerged head other → ¬ graph.Recorded base
  whole : ∀ revision ∈ graph.unmerged head other, graph.Recorded revision →
    graph.OnLine head revision

/-- No revision can be reached from one of its own links. -/
def Acyclic : Prop := ∀ revision, ∀ link ∈ graph.links revision, ¬ graph.Reaches link revision

variable {graph}

theorem isWalkBase_iff {source target base : HLC} :
    graph.IsWalkBase source target base ↔
      base = (graph.divergence source target).commonAncestor := by
  have walkBase : graph.IsWalkBase source target (graph.divergence source target).commonAncestor :=
    ⟨fun merged => by rw [divergence_merged merged], commonAncestor_eq_some,
      commonAncestor_disjoint⟩
  constructor
  · intro isBase
    by_cases merged : graph.Reaches target source
    · rw [isBase.merged merged, divergence_merged merged]
    · by_cases meet : graph.Meet source target
      · obtain ⟨one, two, greatest⟩ := isBase.newest merged meet
        obtain ⟨one', two', greatest'⟩ := walkBase.newest merged meet
        exact le_antisymm (greatest' base one two) (greatest _ one' two')
      · rw [isBase.disjoint meet, commonAncestor_disjoint meet]
  · rintro rfl
    exact walkBase

theorem recorded_of_link {revision link : HLC} (linked : link ∈ graph.links revision) :
    graph.Recorded revision := by
  rw [links] at linked
  cases stored : graph.getRevisionMeta revision with
  | none =>
      rw [stored] at linked
      cases linked
  | some record =>
      rw [Recorded, stored]
      rfl

theorem mem_linksUntil {stop revision link : HLC} :
    link ∈ graph.linksUntil stop revision ↔ revision ≠ stop ∧ link ∈ graph.links revision := by
  rw [linksUntil]
  by_cases same : revision = stop
  · rw [if_pos same]
    exact iff_of_false not_mem_nil fun both => both.1 same
  · rw [if_neg same]
    exact ⟨fun linked => ⟨same, linked⟩, fun both => both.2⟩

/-- What the head reaches without going on from the stop. -/
def ReachesUntil (graph : RevisionGraph) (stop head revision : HLC) : Prop :=
  Foundation.Reaches (graph.linksUntil stop) head revision

theorem ReachesUntil.reaches {stop head revision : HLC}
    (reach : graph.ReachesUntil stop head revision) : graph.Reaches head revision := by
  refine Relation.ReflTransGen.mono (fun node link linked => ?_) _ _ reach
  exact (mem_linksUntil.mp linked).2

theorem mem_collect {stop revision : HLC} {collected : Collected} :
    graph.collect stop revision = some collected ↔
      collected.revision = revision ∧ revision ≠ stop ∧
        graph.getRevisionMeta revision = some collected.record := by
  rw [collect]
  by_cases same : revision = stop
  · rw [if_pos same]
    exact iff_of_false (fun impossible => by cases impossible) fun facts => facts.2.1 same
  · rw [if_neg same, Option.map_eq_some_iff]
    constructor
    · rintro ⟨record, stored, rfl⟩
      exact ⟨rfl, same, stored⟩
    · rintro ⟨rfl, _, stored⟩
      exact ⟨collected.record, stored, rfl⟩

theorem mem_changeWalk {head stop revision : HLC} :
    (∃ collected ∈ graph.changeWalk head stop, collected.revision = revision) ↔
      graph.ReachesUntil stop head revision ∧ revision ≠ stop ∧ graph.Recorded revision := by
  have inside : ∀ node link, link ∈ graph.linksUntil stop node → link ∈ head :: graph.allLinks :=
    fun node link linked => mem_cons_of_mem _ (mem_allLinks (mem_linksUntil.mp linked).2)
  have found : revision ∈ searchFrom (graph.linksUntil stop) (graph.allLinks.length + 1) [] [head] ↔
      graph.ReachesUntil stop head revision :=
    (searchFrom_explores inside Exploring.init (nodup_singleton head) mem_cons_self
      (le_refl _)).mem_iff
  constructor
  · rintro ⟨collected, hcollected, rfl⟩
    obtain ⟨node, hnode, taken⟩ := mem_filterMap.mp hcollected
    obtain ⟨rfl, different, stored⟩ := mem_collect.mp taken
    refine ⟨found.mp hnode, different, ?_⟩
    rw [Recorded, stored]
    rfl
  · rintro ⟨reach, different, recorded⟩
    obtain ⟨record, stored⟩ := Option.isSome_iff_exists.mp recorded
    refine ⟨⟨revision, record⟩, mem_filterMap.mpr ⟨revision, found.mpr reach, ?_⟩, rfl⟩
    exact mem_collect.mpr ⟨rfl, different, stored⟩

/-! ## The walk along all links -/

/-- Unmerged commits lie before the base on every path to them. -/
theorem reachesUntil_of_unmerged {head other base revision : HLC}
    (outside : base ∈ graph.unmerged head other → ¬ graph.Recorded base)
    (fresh : revision ∈ graph.unmerged head other) : graph.ReachesUntil base head revision := by
  obtain ⟨reach, new⟩ := fresh
  induction reach with
  | refl => exact Relation.ReflTransGen.refl
  | @tail node link before linked ih =>
      have nodeFresh : ¬ graph.Reaches other node := fun old => new (old.trans (Reaches.link linked))
      refine (ih nodeFresh).tail (mem_linksUntil.mpr ⟨?_, linked⟩)
      rintro rfl
      exact outside ⟨before, nodeFresh⟩ (recorded_of_link linked)

theorem EntersAt.fresh {head other base revision : HLC} (enters : graph.EntersAt head other base)
    (reach : graph.ReachesUntil base head revision) (recorded : graph.Recorded revision)
    (different : revision ≠ base) : ¬ graph.Reaches other revision := by
  induction reach with
  | refl => exact fun old => different (enters.start old recorded)
  | @tail node link before linked ih =>
      obtain ⟨notBase, linked⟩ := mem_linksUntil.mp linked
      have nodeFresh := ih (recorded_of_link linked) notBase
      intro old
      exact different
        (enters.links node ⟨ReachesUntil.reaches before, nodeFresh⟩ link linked old recorded)

theorem collectsUnmerged_changeWalk_iff {head other base : HLC} :
    graph.CollectsUnmerged head other (graph.changeWalk head base) ↔
      graph.EntersAt head other base := by
  constructor
  · intro exact
    have taken : ∀ revision, graph.ReachesUntil base head revision → revision ≠ base →
        graph.Recorded revision → ¬ graph.Reaches other revision :=
      fun revision reach different recorded =>
        ((exact revision).mp (mem_changeWalk.mpr ⟨reach, different, recorded⟩)).2.2
    have outside : base ∈ graph.unmerged head other → ¬ graph.Recorded base :=
      fun fresh recorded =>
        (mem_changeWalk.mp ((exact base).mpr ⟨recorded, fresh⟩)).2.1 rfl
    refine ⟨fun old recorded => ?_, fun revision fresh link linked old recorded => ?_, outside⟩
    · by_contra different
      exact taken head Relation.ReflTransGen.refl different recorded old
    · by_contra different
      have notBase : revision ≠ base := by
        rintro rfl
        exact outside fresh (recorded_of_link linked)
      have reach := (reachesUntil_of_unmerged outside fresh).tail
        (mem_linksUntil.mpr ⟨notBase, linked⟩)
      exact taken link reach different recorded old
  · intro enters revision
    rw [mem_changeWalk]
    constructor
    · rintro ⟨reach, different, recorded⟩
      exact ⟨recorded, reach.reaches, enters.fresh reach recorded different⟩
    · rintro ⟨recorded, fresh⟩
      refine ⟨reachesUntil_of_unmerged enters.outside fresh, ?_, recorded⟩
      rintro rfl
      exact enters.outside fresh recorded

end RevisionGraph

end RaisinDB.Branches
