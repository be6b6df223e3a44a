import RaisinDB.Branches.BranchKeys
import RaisinDB.Branches.Divergence
import RaisinDB.Foundation.Json
import RaisinDB.Foundation.VersionedStore

/-!
# Contents of branches

Each branch has its own versions of nodes, overlays and index entries.  The newest
version up to a revision is read, and a delete of the node ends its overlays.
-/

namespace RaisinDB.Branches

open RaisinDB.Clock RaisinDB.Foundation RaisinDB.Replication List

/-! ## Versions -/

/-- A node as its record and its path entry give it; property values as in JSON. -/
structure Node where
  path : String
  properties : AList fun _ : String => Value
  deriving DecidableEq

/-- The overlay of a locale. -/
inductive LocaleOverlay where
  | properties (data : List (String × String))
  | hidden
  deriving DecidableEq

/-- What a branch has versions of.  The locale of a block overlay names the block. -/
inductive ContentKey where
  | node (workspace nodeId : String)
  | overlay (workspace nodeId locale : String)
  | index (cf : ColumnFamily) (name : List String)
  deriving DecidableEq

inductive ContentValue where
  | node (node : Node)
  | overlay (overlay : LocaleOverlay)
  | entry (text : String)
  | tombstone
  deriving DecidableEq

abbrev Content := VersionedStore ContentKey HLC ContentValue

def ContentKey.isIndex : ContentKey → Bool
  | .index _ _ => true
  | _ => false

def ContentValue.asNode : ContentValue → Option Node
  | .node found => some found
  | _ => none

/-- Nothing for a node that is absent or deleted at the revision. -/
def loadNodeAt (content : Content) (workspace nodeId : String) (maxRevision : HLC) : Option Node :=
  (content.newestAtOrBefore (.node workspace nodeId) maxRevision).bind fun version =>
    version.2.asNode

def ContentValue.asOverlay : ContentValue → Option LocaleOverlay
  | .overlay found => some found
  | _ => none

def ContentValue.isTombstone : ContentValue → Bool
  | .tombstone => true
  | _ => false

/-- A delete of the node between the version and the bound, or a node that was deleted when the
version was written. -/
def endedByNodeDelete (content : Content) (workspace nodeId : String)
    (versionRevision bound : HLC) : Bool :=
  ((content.revisions (.node workspace nodeId) fun revision =>
      versionRevision ≤ revision ∧ revision ≤ bound).any fun revision =>
    (content.get (.node workspace nodeId) revision).any ContentValue.isTombstone) ||
  (content.newestAtOrBefore (.node workspace nodeId) versionRevision).any fun version =>
    version.2.isTombstone

def readOverlay (content : Content) (workspace nodeId locale : String) (bound : HLC) :
    Option LocaleOverlay :=
  (content.newestAtOrBefore (.overlay workspace nodeId locale) bound).bind fun version =>
    if endedByNodeDelete content workspace nodeId version.1 bound then none
    else version.2.asOverlay

/-! ## Repositories -/

/-- The branches of a repository with their contents. -/
structure RepositoryState where
  repository : BranchRepository
  contents : String → Content

namespace RepositoryState

variable (state : RepositoryState)

def empty : RepositoryState := ⟨⟨∅, .empty⟩, fun _ => .empty⟩

def graph : RevisionGraph := state.repository.revisions

def lookup (name : String) : Option Branch := state.repository.branches.lookup name

def putBranch (name : String) (branch : Branch) : RepositoryState :=
  { state with repository :=
    { state.repository with branches := state.repository.branches.insert name branch } }

def storeRevisionMeta (revision : HLC) (record : RevisionMeta) : RepositoryState :=
  { state with repository :=
    { state.repository with revisions := state.graph.storeRevisionMeta revision record } }

def setContent (name : String) (content : Content) : RepositoryState :=
  { state with contents := Function.update state.contents name content }

@[simp] theorem lookup_putBranch_self (name : String) (branch : Branch) :
    (state.putBranch name branch).lookup name = some branch :=
  AList.lookup_insert state.repository.branches

theorem lookup_putBranch_other {name other : String} (different : other ≠ name) (branch : Branch) :
    (state.putBranch name branch).lookup other = state.lookup other :=
  AList.lookup_insert_ne different

@[simp] theorem contents_putBranch (name : String) (branch : Branch) :
    (state.putBranch name branch).contents = state.contents := rfl

@[simp] theorem graph_storeRevisionMeta (revision : HLC) (record : RevisionMeta) :
    (state.storeRevisionMeta revision record).graph =
      state.graph.storeRevisionMeta revision record := rfl

@[simp] theorem contents_storeRevisionMeta (revision : HLC) (record : RevisionMeta) :
    (state.storeRevisionMeta revision record).contents = state.contents := rfl

@[simp] theorem lookup_setContent (name other : String) (content : Content) :
    (state.setContent name content).lookup other = state.lookup other := rfl

@[simp] theorem contents_setContent_self (name : String) (content : Content) :
    (state.setContent name content).contents name = content := by
  rw [setContent]
  dsimp only
  rw [Function.update_self]

theorem contents_setContent_other {name other : String} (different : other ≠ name)
    (content : Content) :
    (state.setContent name content).contents other = state.contents other := by
  rw [setContent]
  dsimp only
  rw [Function.update_of_ne different]

end RepositoryState

/-! ## Sides of a merge -/

inductive MergeSide where
  | target
  | source
  deriving DecidableEq

/-- The two branches of a merge. -/
structure MergeSides where
  targetBranch : String
  target : Branch
  sourceBranch : String
  source : Branch

namespace MergeSides

variable (sides : MergeSides)

def branchName : MergeSide → String
  | .target => sides.targetBranch
  | .source => sides.sourceBranch

def head : MergeSide → HLC
  | .target => sides.target.head
  | .source => sides.source.head

variable (state : RepositoryState)

def loadNode (workspace nodeId : String) (side : MergeSide) : Option Node :=
  loadNodeAt (state.contents (sides.branchName side)) workspace nodeId (sides.head side)

def readSide (workspace nodeId locale : String) (side : MergeSide) : Option LocaleOverlay :=
  readOverlay (state.contents (sides.branchName side)) workspace nodeId locale (sides.head side)

end MergeSides

end RaisinDB.Branches
