import RaisinDB.Branches.ChangeWalks
import RaisinDB.Branches.Contents

/-!
# Merge conflicts

Two branches are in conflict over a node, or over one of its locales, when each has
a commit of its own that changed it.  Nodes are compared by their ids.
-/

namespace RaisinDB.Branches

open RaisinDB.Clock RaisinDB.Foundation RaisinDB.Replication List

/-! ## Detection -/

inductive ConflictType where
  | bothModified
  | deletedBySourceModifiedByTarget
  | modifiedBySourceDeletedByTarget
  | bothAdded
  deriving DecidableEq

/-- What a reader of JSON sees of a node or of an overlay; the order of the fields is nothing. -/
inductive ConflictProperties where
  | node (properties : Finmap fun _ : String => Value)
  | overlay (data : Finmap fun _ : String => String)
  | hidden
  deriving DecidableEq

structure MergeConflict where
  nodeId : String
  path : String
  conflictType : ConflictType
  baseProperties : Option ConflictProperties
  targetProperties : Option ConflictProperties
  sourceProperties : Option ConflictProperties
  translationLocale : Option String
  deriving DecidableEq

/-- The key under which a conflict is reported. -/
def MergeConflict.key (conflict : MergeConflict) : String × Option String :=
  (conflict.nodeId, conflict.translationLocale)

def determineConflictType (sourceOp targetOp : ChangeOperation) : ConflictType :=
  match sourceOp, targetOp with
  | .deleted, .modified => .deletedBySourceModifiedByTarget
  | .modified, .deleted => .modifiedBySourceDeletedByTarget
  | .added, .added => .bothAdded
  | _, _ => .bothModified

/-- The changes of a commit that conflicts are looked for in.  A merge of the other branch has
none of its own, and sibling order is not compared. -/
def comparedChanges (otherRevisions : List HLC) (record : RevisionMeta) : List NodeChangeInfo :=
  if record.mergeParent.any (· ∈ otherRevisions) then []
  else record.changedNodes.filter fun change => change.operation ≠ .reordered

/-- The first change of a key wins; the order of the revisions is that of the walk. -/
def collectExclusiveChanges (graph : RevisionGraph) (branchRevisions otherRevisions : List HLC) :
    AList fun _ : String × Option String => String × ChangeOperation × HLC :=
  ((branchRevisions.filter fun revision => revision ∉ otherRevisions).flatMap fun revision =>
      match graph.getRevisionMeta revision with
      | some record => (comparedChanges otherRevisions record).map fun change => (change, revision)
      | none => []).foldl
    (fun changes entry => orInsert changes (entry.1.nodeId, entry.1.translationLocale)
      (entry.1.workspace, entry.1.operation, entry.2)) ∅

/-! ## Properties -/

def ConflictProperties.ofOverlay : LocaleOverlay → ConflictProperties
  | .properties data => .overlay (data.map fun entry => ⟨entry.1, entry.2⟩).toFinmap
  | .hidden => .hidden

def getNodePropertiesAtRevision (content : Content) (workspace nodeId : String) (revision : HLC) :
    Option (Finmap fun _ : String => Value) :=
  (loadNodeAt content workspace nodeId revision).map fun node => node.properties.toFinmap

def getTranslationAtRevision (content : Content) (workspace nodeId locale : String)
    (revision : HLC) : Option ConflictProperties :=
  (readOverlay content workspace nodeId locale revision).map .ofOverlay

/-- The node of a key, or its overlay for the locale. -/
def propertiesAt (content : Content) (workspace : String) (key : String × Option String)
    (revision : HLC) : Option ConflictProperties :=
  match key.2 with
  | some locale => getTranslationAtRevision content workspace key.1 locale revision
  | none => (getNodePropertiesAtRevision content workspace key.1 revision).map .node

/-- The text of the property named path, if it is a string. -/
def pathProperty (properties : Finmap fun _ : String => Value) : Option String :=
  match properties.lookup "path" with
  | some (.string text) => some text
  | _ => none

def ConflictProperties.path : ConflictProperties → Option String
  | .node properties => pathProperty properties
  | _ => none

namespace MergeSides

variable (sides : MergeSides) (state : RepositoryState)

def commonAncestor : HLC :=
  (state.graph.divergence sides.source.head sides.target.head).commonAncestor

/-- The zero stamp stands for no common ancestor. -/
def baseProperties (targetWorkspace : String) (key : String × Option String) :
    Option ConflictProperties :=
  if sides.commonAncestor state ≠ ⟨0, 0⟩ then
    propertiesAt (state.contents sides.targetBranch) targetWorkspace key
      (sides.commonAncestor state)
  else none

def targetProperties (targetWorkspace : String) (key : String × Option String) :
    Option ConflictProperties :=
  propertiesAt (state.contents sides.targetBranch) targetWorkspace key sides.target.head

def sourceProperties (sourceWorkspace : String) (key : String × Option String) :
    Option ConflictProperties :=
  propertiesAt (state.contents sides.sourceBranch) sourceWorkspace key sides.source.head

/-- The path that an overlay is reported under. -/
def translationPath (targetWorkspace nodeId : String) : String :=
  ((getNodePropertiesAtRevision (state.contents sides.targetBranch) targetWorkspace nodeId
    sides.target.head).bind pathProperty).getD nodeId

def resolveConflictPath (targetWorkspace : String) (key : String × Option String)
    (targetProperties sourceProperties : Option ConflictProperties) : String :=
  if key.2.isSome then sides.translationPath state targetWorkspace key.1
  else
    match targetProperties.or sourceProperties with
    | some properties => properties.path.getD ""
    | none => key.1

/-- The conflict of a key whose change is in a workspace of each side. -/
def conflictOf (key : String × Option String)
    (sourceChange targetChange : String × ChangeOperation) : MergeConflict :=
  let targetProperties := sides.targetProperties state targetChange.1 key
  let sourceProperties := sides.sourceProperties state sourceChange.1 key
  { nodeId := key.1
    path := sides.resolveConflictPath state targetChange.1 key targetProperties sourceProperties
    conflictType := determineConflictType sourceChange.2 targetChange.2
    baseProperties := sides.baseProperties state targetChange.1 key
    targetProperties
    sourceProperties
    translationLocale := key.2 }

/-- The conflicts, once the revisions of both heads are in their sets. -/
def conflictsInOrder (sourceRevisions targetRevisions : List HLC) : List MergeConflict :=
  let sourceChanges := collectExclusiveChanges state.graph sourceRevisions targetRevisions
  let targetChanges := collectExclusiveChanges state.graph targetRevisions sourceRevisions
  sourceChanges.entries.filterMap fun entry =>
    (targetChanges.lookup entry.1).map fun change =>
      sides.conflictOf state entry.1 (entry.2.1, entry.2.2.1) (change.1, change.2.1)

@[simp] theorem key_conflictOf (key : String × Option String)
    (sourceChange targetChange : String × ChangeOperation) :
    (sides.conflictOf state key sourceChange targetChange).key = key := rfl

end MergeSides

/-- The detection with the orders in which the sets of revisions are iterated. -/
def findMergeConflictsIn (state : RepositoryState) (sourceOrder targetOrder : HLC → List HLC)
    (targetBranch sourceBranch : String) : Except BranchError (List MergeConflict) := do
  let divergence ← state.repository.calculateDivergence sourceBranch targetBranch
  if divergence.ahead = 0 ∨ divergence.behind = 0 then
    return []
  let target ← state.repository.getBranch targetBranch
  let source ← state.repository.getBranch sourceBranch
  let sides : MergeSides := ⟨targetBranch, target, sourceBranch, source⟩
  return sides.conflictsInOrder state (sourceOrder source.head) (targetOrder target.head)

/-- The sets in the order of their walks. -/
def findMergeConflicts (state : RepositoryState) (targetBranch sourceBranch : String) :
    Except BranchError (List MergeConflict) :=
  findMergeConflictsIn state state.graph.walkRevisionHistory state.graph.walkRevisionHistory
    targetBranch sourceBranch

/-! ## What is reported -/

/-- The first change of every key is kept. -/
theorem mem_orInsert_foldl {ε κ ν : Type} [DecidableEq κ] {key : ε → κ} {value : ε → ν}
    {items : List ε} {start : AList fun _ : κ => ν} {found : κ} :
    found ∈ items.foldl (fun changes item => orInsert changes (key item) (value item)) start ↔
      found ∈ start ∨ ∃ item ∈ items, key item = found := by
  induction items generalizing start with
  | nil => simp
  | cons item items ih =>
      have inserted : found ∈ orInsert start (key item) (value item) ↔
          found ∈ start ∨ key item = found := by
        rw [orInsert]
        by_cases present : key item ∈ start
        · rw [if_pos present]
          exact ⟨Or.inl, fun either => either.elim id fun same => same ▸ present⟩
        · rw [if_neg present, AList.mem_insert]
          exact ⟨fun either => either.elim (fun same => Or.inr same.symm) Or.inl,
            fun either => either.elim Or.inr fun same => Or.inl same.symm⟩
      rw [foldl_cons, ih, inserted, or_assoc]
      simp only [mem_cons, exists_eq_or_imp]

/-- A change of a commit of its own that conflicts are looked for in. -/
structure Compared (graph : RevisionGraph) (head other revision : HLC) (change : NodeChangeInfo) :
    Prop where
  unmerged : revision ∈ graph.unmerged head other
  listed : ∃ record, graph.getRevisionMeta revision = some record ∧ change ∈ record.changedNodes ∧
    ∀ mergeParent ∈ record.mergeParent, ¬ graph.Reaches other mergeParent
  operation : change.operation ≠ .reordered

/-- The key under which a change is compared. -/
def NodeChangeInfo.key (change : NodeChangeInfo) : String × Option String :=
  (change.nodeId, change.translationLocale)

variable {graph : RevisionGraph}

theorem mem_comparedChanges {other : HLC} {record : RevisionMeta} {change : NodeChangeInfo} :
    change ∈ comparedChanges (graph.walkRevisionHistory other) record ↔
      change ∈ record.changedNodes ∧ change.operation ≠ .reordered ∧
        ∀ mergeParent ∈ record.mergeParent, ¬ graph.Reaches other mergeParent := by
  have merges : record.mergeParent.any (· ∈ graph.walkRevisionHistory other) = true ↔
      ∃ mergeParent ∈ record.mergeParent, graph.Reaches other mergeParent := by
    rw [Option.any_eq_true]
    simp only [decide_eq_true_eq, RevisionGraph.mem_walkRevisionHistory, Option.mem_def]
  rw [comparedChanges]
  by_cases merge : record.mergeParent.any (· ∈ graph.walkRevisionHistory other) = true
  · rw [if_pos merge]
    obtain ⟨mergeParent, isParent, reach⟩ := merges.mp merge
    exact iff_of_false not_mem_nil fun facts => facts.2.2 mergeParent isParent reach
  · rw [if_neg merge, mem_filter, decide_eq_true_iff]
    refine and_congr_right fun _ => ⟨fun operation => ⟨operation, ?_⟩, And.left⟩
    exact fun mergeParent isParent reach => merge (merges.mpr ⟨mergeParent, isParent, reach⟩)

theorem mem_collectExclusiveChanges {head other : HLC} {key : String × Option String} :
    key ∈ collectExclusiveChanges graph (graph.walkRevisionHistory head)
        (graph.walkRevisionHistory other) ↔
      ∃ revision change, Compared graph head other revision change ∧ change.key = key := by
  rw [collectExclusiveChanges, mem_orInsert_foldl]
  constructor
  · rintro (impossible | ⟨⟨change, revision⟩, hitem, rfl⟩)
    · exact absurd impossible (AList.notMem_empty key)
    · obtain ⟨found, hfound, listed⟩ := mem_flatMap.mp hitem
      obtain ⟨reach, fresh⟩ := mem_filter.mp hfound
      rw [RevisionGraph.mem_walkRevisionHistory] at reach
      rw [decide_eq_true_iff, RevisionGraph.mem_walkRevisionHistory] at fresh
      cases stored : graph.getRevisionMeta found with
      | none =>
          rw [stored] at listed
          cases listed
      | some record =>
          rw [stored] at listed
          obtain ⟨change', hchange, same⟩ := mem_map.mp listed
          obtain ⟨rfl, rfl⟩ := Prod.mk.inj same
          obtain ⟨inRecord, operation, merges⟩ := mem_comparedChanges.mp hchange
          exact ⟨found, change', ⟨⟨reach, fresh⟩, ⟨record, stored, inRecord, merges⟩, operation⟩,
            rfl⟩
  · rintro ⟨revision, change, compared, rfl⟩
    obtain ⟨record, stored, inRecord, merges⟩ := compared.listed
    refine Or.inr ⟨(change, revision), mem_flatMap.mpr ⟨revision, mem_filter.mpr ⟨?_, ?_⟩, ?_⟩, rfl⟩
    · exact RevisionGraph.mem_walkRevisionHistory.mpr compared.unmerged.1
    · rw [decide_eq_true_iff, RevisionGraph.mem_walkRevisionHistory]
      exact compared.unmerged.2
    · rw [stored]
      exact mem_map_of_mem (mem_comparedChanges.mpr ⟨inRecord, compared.operation, merges⟩)

section Reported

variable {state : RepositoryState} {targetBranch sourceBranch : String} {target source : Branch}

/-- Both branches have a compared change of the key. -/
def InConflict (graph : RevisionGraph) (target source : HLC) (key : String × Option String) :
    Prop :=
  (∃ revision change, Compared graph source target revision change ∧ change.key = key) ∧
    ∃ revision change, Compared graph target source revision change ∧ change.key = key

variable (htarget : state.lookup targetBranch = some target)
  (hsource : state.lookup sourceBranch = some source)

include htarget hsource

theorem findMergeConflictsIn_eq (sourceOrder targetOrder : HLC → List HLC) :
    findMergeConflictsIn state sourceOrder targetOrder targetBranch sourceBranch =
      .ok (if (state.graph.divergence source.head target.head).ahead = 0 ∨
          (state.graph.divergence source.head target.head).behind = 0 then []
        else MergeSides.conflictsInOrder ⟨targetBranch, target, sourceBranch, source⟩ state
          (sourceOrder source.head) (targetOrder target.head)) := by
  have getTarget : state.repository.getBranch targetBranch = .ok target := by
    rw [BranchRepository.getBranch, ← RepositoryState.lookup, htarget]
  have getSource : state.repository.getBranch sourceBranch = .ok source := by
    rw [BranchRepository.getBranch, ← RepositoryState.lookup, hsource]
  rw [findMergeConflictsIn, BranchRepository.calculateDivergence_eq hsource htarget, getTarget,
    getSource]
  by_cases synced : (state.graph.divergence source.head target.head).ahead = 0 ∨
      (state.graph.divergence source.head target.head).behind = 0
  · rw [if_pos synced]
    exact if_pos synced
  · rw [if_neg synced]
    exact if_neg synced

omit htarget hsource in
/-- Where one head has everything of the other, no key is in conflict. -/
theorem not_synced {revision revision' : HLC}
    (ofSource : revision ∈ state.graph.unmerged source.head target.head)
    (ofTarget : revision' ∈ state.graph.unmerged target.head source.head) :
    ¬ ((state.graph.divergence source.head target.head).ahead = 0 ∨
      (state.graph.divergence source.head target.head).behind = 0) := by
  have apart : ¬ state.graph.Reaches target.head source.head := fun merged =>
    ofSource.2 (merged.trans ofSource.1)
  have apart' : ¬ state.graph.Reaches source.head target.head := fun merged =>
    ofTarget.2 (merged.trans ofTarget.1)
  rw [RevisionGraph.divergence_apart apart]
  rintro (ahead | behind)
  · exact apart (RevisionGraph.ncard_unmerged_eq_zero_iff.mp ahead)
  · exact apart' (RevisionGraph.ncard_unmerged_eq_zero_iff.mp behind)

omit htarget hsource in
theorem mem_conflictsInOrder_iff {sides : MergeSides} {sourceRevisions targetRevisions : List HLC}
    {conflict : MergeConflict} :
    conflict ∈ sides.conflictsInOrder state sourceRevisions targetRevisions ↔
      ∃ key sourceChange targetChange,
        (collectExclusiveChanges state.graph sourceRevisions targetRevisions).lookup key =
          some sourceChange ∧
        (collectExclusiveChanges state.graph targetRevisions sourceRevisions).lookup key =
          some targetChange ∧
        conflict = sides.conflictOf state key (sourceChange.1, sourceChange.2.1)
          (targetChange.1, targetChange.2.1) := by
  rw [MergeSides.conflictsInOrder, mem_filterMap]
  constructor
  · rintro ⟨⟨key, sourceChange⟩, hentry, reported⟩
    obtain ⟨targetChange, found, rfl⟩ := Option.map_eq_some_iff.mp reported
    exact ⟨key, sourceChange, targetChange, AList.mem_lookup_iff.mpr hentry, found, rfl⟩
  · rintro ⟨key, sourceChange, targetChange, ofSource, ofTarget, rfl⟩
    exact ⟨⟨key, sourceChange⟩, AList.mem_lookup_iff.mp ofSource,
      Option.map_eq_some_iff.mpr ⟨targetChange, ofTarget, rfl⟩⟩

theorem findMergeConflicts_spec :
    ∃ conflicts, findMergeConflicts state targetBranch sourceBranch = .ok conflicts ∧
      ∀ key, (∃ conflict ∈ conflicts, conflict.key = key) ↔
        InConflict state.graph target.head source.head key := by
  refine ⟨_, findMergeConflictsIn_eq htarget hsource _ _, fun key => ?_⟩
  rw [InConflict]
  by_cases synced : (state.graph.divergence source.head target.head).ahead = 0 ∨
      (state.graph.divergence source.head target.head).behind = 0
  · rw [if_pos synced]
    refine iff_of_false (fun none => ?_) fun both => ?_
    · obtain ⟨conflict, hconflict, _⟩ := none
      cases hconflict
    · obtain ⟨⟨revision, _, ofSource, _⟩, ⟨revision', _, ofTarget, _⟩⟩ := both
      exact not_synced ofSource.unmerged ofTarget.unmerged synced
  · rw [if_neg synced, ← mem_collectExclusiveChanges, ← mem_collectExclusiveChanges]
    constructor
    · rintro ⟨conflict, hconflict, rfl⟩
      obtain ⟨key, sourceChange, targetChange, ofSource, ofTarget, rfl⟩ :=
        mem_conflictsInOrder_iff.mp hconflict
      exact ⟨AList.lookup_isSome.mp (Option.isSome_of_eq_some ofSource),
        AList.lookup_isSome.mp (Option.isSome_of_eq_some ofTarget)⟩
    · rintro ⟨ofSource, ofTarget⟩
      obtain ⟨sourceChange, found⟩ := Option.isSome_iff_exists.mp (AList.lookup_isSome.mpr ofSource)
      obtain ⟨targetChange, found'⟩ :=
        Option.isSome_iff_exists.mp (AList.lookup_isSome.mpr ofTarget)
      exact ⟨_, mem_conflictsInOrder_iff.mpr ⟨key, sourceChange, targetChange, found, found', rfl⟩,
        rfl⟩

end Reported

end RaisinDB.Branches
