import RaisinDB.Branches.MergeRuns

/-!
# The tree after a three-way merge

In a workspace every path names one live node, and every node that is not a root
has a live parent.  A merge compares the changes of one node with each other and
never those of two nodes, so the tree that it shows can break both.
-/

namespace RaisinDB.Branches

open RaisinDB.Clock RaisinDB.Foundation RaisinDB.Replication List
open Fallible

/-! ## Trees -/

/-- The text before the last slash. -/
def beforeLastSlash (path : String) : Option String :=
  match path.toList.reverse.dropWhile (· ≠ '/') with
  | [] => none
  | _ :: parent => some (String.ofList parent.reverse)

def Node.parentPath (node : Node) : Option String :=
  if node.path = "" ∨ node.path = "/" then none
  else (beforeLastSlash node.path).map fun parent => if parent = "" then "/" else parent

/-- A root is directly below the slash. -/
def Node.isRoot (node : Node) : Bool :=
  (node.parentPath.map fun parent => decide (parent = "/")).getD true

/-- The live nodes of a branch by workspace and id. -/
abbrev View := String → String → Option Node

structure View.WellFormed (view : View) : Prop where
  unique : ∀ workspace first second node other, view workspace first = some node →
    view workspace second = some other → node.path = other.path → first = second
  parents : ∀ workspace nodeId node parent, view workspace nodeId = some node →
    node.isRoot = false → node.parentPath = some parent →
      ∃ above found, view workspace above = some found ∧ found.path = parent

/-! ## Trees put together -/

section Together

variable {ι : Type}

/--
What a tree needs when its nodes come from several well-formed ones.  Two nodes of
one tree agree already, as do a node and its parent if both come from there.
-/
structure Compatible (trees : ι → View) (comesFrom : ι → String → String → Prop)
    (shown : View) : Prop where
  paths : ∀ workspace first second node other, first ≠ second →
    shown workspace first = some node → shown workspace second = some other →
    (∀ tree, comesFrom tree workspace first → ¬ comesFrom tree workspace second) →
      node.path ≠ other.path
  parents : ∀ tree workspace nodeId node above found, comesFrom tree workspace nodeId →
    trees tree workspace nodeId = some node → node.isRoot = false →
    trees tree workspace above = some found → node.parentPath = some found.path →
    ¬ comesFrom tree workspace above →
      ∃ other instead, shown workspace other = some instead ∧ instead.path = found.path
  strays : ∀ workspace nodeId node parent, (∀ tree, ¬ comesFrom tree workspace nodeId) →
    shown workspace nodeId = some node → node.isRoot = false → node.parentPath = some parent →
      ∃ above found, shown workspace above = some found ∧ found.path = parent

variable {trees : ι → View} {comesFrom : ι → String → String → Prop} {shown : View}

theorem wellFormed_iff_compatible (wellFormed : ∀ tree, (trees tree).WellFormed)
    (agrees : ∀ tree workspace nodeId, comesFrom tree workspace nodeId →
      shown workspace nodeId = trees tree workspace nodeId) :
    shown.WellFormed ↔ Compatible trees comesFrom shown := by
  constructor
  · intro whole
    refine ⟨?_, ?_, ?_⟩
    · intro workspace first second node other different hfirst hsecond _ same
      exact different (whole.unique workspace first second node other hfirst hsecond same)
    · intro tree workspace nodeId node above found here hnode inner _ parent _
      exact whole.parents workspace nodeId node found.path
        ((agrees tree workspace nodeId here).trans hnode) inner parent
    · intro workspace nodeId node parent _ hnode inner hparent
      exact whole.parents workspace nodeId node parent hnode inner hparent
  · intro compatible
    refine ⟨?_, ?_⟩
    · intro workspace first second node other hfirst hsecond same
      by_contra different
      refine compatible.paths workspace first second node other different hfirst hsecond ?_ same
      -- one tree does not have two nodes at the path
      intro tree here there
      rw [agrees tree workspace first here] at hfirst
      rw [agrees tree workspace second there] at hsecond
      exact different
        ((wellFormed tree).unique workspace first second node other hfirst hsecond same)
    · intro workspace nodeId node parent hnode inner hparent
      by_cases stray : ∀ tree, ¬ comesFrom tree workspace nodeId
      · exact compatible.strays workspace nodeId node parent stray hnode inner hparent
      · obtain ⟨tree, here⟩ := not_forall_not.mp stray
        have own := (agrees tree workspace nodeId here).symm.trans hnode
        obtain ⟨above, found, habove, rfl⟩ :=
          (wellFormed tree).parents workspace nodeId node parent own inner hparent
        by_cases along : comesFrom tree workspace above
        · exact ⟨above, found, (agrees tree workspace above along).trans habove, rfl⟩
        · exact compatible.parents tree workspace nodeId node above found here own inner habove
            hparent along

end Together

/-! ## The tree of a merge -/

/-- The tree of a branch at a revision. -/
def treeAt (content : Content) (head : HLC) : View :=
  fun workspace nodeId => loadNodeAt content workspace nodeId head

/-- The nodes of a tree with their workspaces and ids. -/
def liveNodes (content : Content) (head : HLC) : List (String × String × Node) :=
  content.entries.keys.filterMap fun entry =>
    match entry.1 with
    | .node workspace nodeId =>
        (treeAt content head workspace nodeId).map fun node => (workspace, nodeId, node)
    | _ => none

theorem mem_liveNodes {content : Content} {head : HLC} {workspace nodeId : String} {node : Node} :
    (workspace, nodeId, node) ∈ liveNodes content head ↔
      treeAt content head workspace nodeId = some node := by
  rw [liveNodes, mem_filterMap]
  constructor
  · rintro ⟨⟨key, revision⟩, _, found⟩
    cases key with
    | node workspace' nodeId' =>
        obtain ⟨node', live, same⟩ := Option.map_eq_some_iff.mp found
        obtain ⟨rfl, rfl, rfl⟩ : workspace' = workspace ∧ nodeId' = nodeId ∧ node' = node := by
          simpa using same
        exact live
    | overlay workspace' nodeId' locale => cases found
    | index cf name => cases found
  · intro live
    obtain ⟨⟨revision, value⟩, newest, _⟩ := Option.bind_eq_some_iff.mp live
    obtain ⟨_, stored, _⟩ := VersionedStore.newestAtOrBefore_eq_some_iff.mp newest
    refine ⟨(.node workspace nodeId, revision), ?_, by dsimp only; rw [live]; rfl⟩
    exact mem_keys_of_mem (VersionedStore.mem_entries_of_get stored)

theorem wellFormed_treeAt_iff {content : Content} {head : HLC} :
    (treeAt content head).WellFormed ↔
      (∀ first ∈ liveNodes content head, ∀ second ∈ liveNodes content head,
        first.1 = second.1 → first.2.2.path = second.2.2.path → first.2.1 = second.2.1) ∧
      ∀ live ∈ liveNodes content head, live.2.2.isRoot = false →
        ∀ parent ∈ live.2.2.parentPath, ∃ above ∈ liveNodes content head,
          above.1 = live.1 ∧ above.2.2.path = parent := by
  constructor
  · intro whole
    refine ⟨?_, ?_⟩
    · rintro ⟨workspace, first, node⟩ hfirst ⟨workspace', second, other⟩ hsecond rfl same
      exact whole.unique _ _ _ _ _ (mem_liveNodes.mp hfirst) (mem_liveNodes.mp hsecond) same
    · rintro ⟨workspace, nodeId, node⟩ hlive inner parent hparent
      obtain ⟨above, found, habove, same⟩ :=
        whole.parents _ _ _ _ (mem_liveNodes.mp hlive) inner hparent
      exact ⟨(workspace, above, found), mem_liveNodes.mpr habove, rfl, same⟩
  · rintro ⟨unique, parents⟩
    refine ⟨?_, ?_⟩
    · intro workspace first second node other hfirst hsecond same
      exact unique _ (mem_liveNodes.mpr hfirst) _ (mem_liveNodes.mpr hsecond) rfl same
    · intro workspace nodeId node parent hnode inner hparent
      obtain ⟨⟨workspace', above, found⟩, habove, rfl, same⟩ :=
        parents _ (mem_liveNodes.mpr hnode) inner parent hparent
      exact ⟨above, found, mem_liveNodes.mp habove, same⟩

instance instDecidableTreeWellFormed (content : Content) (head : HLC) :
    Decidable (treeAt content head).WellFormed :=
  decidable_of_iff' _ wellFormed_treeAt_iff

section Merged

variable (mergeRevision : HLC) (targetContent sourceContent : Content) (target source : Branch)

/-- The head of the target after the merge. -/
def headAfter : HLC := max target.head mergeRevision

def sideVersion (side : MergeSide) (workspace nodeId : String) : Option (HLC × ContentValue) :=
  match side with
  | .target => targetContent.newestAtOrBefore (.node workspace nodeId) target.head
  | .source => sourceContent.newestAtOrBefore (.node workspace nodeId) source.head

def sideTree : MergeSide → View
  | .target => treeAt targetContent target.head
  | .source => treeAt sourceContent source.head

/-- The newer of what the two branches have. -/
def shownVersion (workspace nodeId : String) : Option (HLC × ContentValue) :=
  VersionedStore.newerVersion
    (targetContent.newestAtOrBefore (.node workspace nodeId) (headAfter mergeRevision target))
    (sourceContent.newestAtOrBefore (.node workspace nodeId)
      (min source.head (headAfter mergeRevision target)))

def shownTree : View := fun workspace nodeId =>
  (shownVersion mergeRevision targetContent sourceContent target source workspace nodeId).bind
    fun version => version.2.asNode

/-- The branch whose version of the node the merge shows. -/
def ShownFrom (side : MergeSide) (workspace nodeId : String) : Prop :=
  shownVersion mergeRevision targetContent sourceContent target source workspace nodeId =
    sideVersion targetContent sourceContent target source side workspace nodeId

/-- The two trees fit together. -/
def MergeCompatible : Prop :=
  Compatible (sideTree targetContent sourceContent target source)
    (ShownFrom mergeRevision targetContent sourceContent target source)
    (shownTree mergeRevision targetContent sourceContent target source)

end Merged

section Spec

variable {writers : IndexWriters} {faults : Faults} {mergeRevision : HLC}
  {targetBranch sourceBranch : String} {state final : RepositoryState} {target source : Branch}

theorem shownTree_eq_sideTree {targetContent sourceContent : Content} {side : MergeSide}
    {workspace nodeId : String}
    (here : ShownFrom mergeRevision targetContent sourceContent target source side workspace nodeId) :
    shownTree mergeRevision targetContent sourceContent target source workspace nodeId =
      sideTree targetContent sourceContent target source side workspace nodeId := by
  rw [shownTree, here]
  cases side with
  | target => rfl
  | source => rfl

theorem headAfter_advanceHead (found : state.lookup targetBranch = some target) :
    (state.advanceHead targetBranch target mergeRevision).lookup targetBranch =
      some { target with head := headAfter mergeRevision target } := by
  rw [RepositoryState.advanceHead, headAfter]
  by_cases older : mergeRevision ≤ target.head
  · rw [if_pos older, max_eq_left older]
    exact found
  · rw [if_neg older, max_eq_right (not_le.mp older).le, RepositoryState.lookup_putBranch_self]

theorem lookup_merged (found : state.lookup targetBranch = some target)
    (changedNodes : List NodeChangeInfo) :
    (state.merged writers mergeRevision targetBranch sourceBranch target source
        changedNodes).lookup targetBranch =
      some { target with head := headAfter mergeRevision target } := by
  change (RepositoryState.advanceHead _ _ _ _).lookup targetBranch = _
  exact headAfter_advanceHead found

/-- At its new head the target shows of every node the newer version. -/
theorem treeAt_merged (changedNodes : List NodeChangeInfo) :
    treeAt ((state.merged writers mergeRevision targetBranch sourceBranch target source
        changedNodes).contents targetBranch) (headAfter mergeRevision target) =
      shownTree mergeRevision (state.contents targetBranch) (state.contents sourceBranch) target
        source := by
  funext workspace nodeId
  rw [treeAt, loadNodeAt, shownTree, shownVersion, ← VersionedStore.newestAtOrBefore_copyUpTo]
  congr 1
  refine VersionedStore.newestAtOrBefore_congr fun revision _ => ?_
  exact get_merged rfl revision

end Spec

/-! ## Two merges -/

/-- The main branch puts another page where the other branch put its own. -/
def pressHistory : List HistoryEvent :=
  featureHistory ++
    [.commit "main" (rev 3) [addPage "press" "/news"] (some [listPage "press"])]

end RaisinDB.Branches
