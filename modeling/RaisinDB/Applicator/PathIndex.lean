import RaisinDB.Clock.HybridClock
import RaisinDB.Foundation.VersionedStore

/-!
# Replicated node versions and the path index

A replica writes every version of a node it receives under the version's own
revision, whatever has arrived before.  The path index has no node in its keys: a
version claims its path, and a tombstone ends a path that the node has left.
-/

namespace RaisinDB.Applicator

open RaisinDB.Clock RaisinDB.Foundation RaisinDB.Replication List

/-! ## Applying a version -/

/-- A node as a snapshot carries it. -/
structure ReplicatedNode where
  id : String
  path : String
  updatedAt : Option Nat
  deriving DecidableEq

structure NodeUpsert where
  node : ReplicatedNode
  revision : HLC
  deriving DecidableEq

def tombstone : String := "T"

def isTombstoneValue (value : String) : Bool := value = tombstone ∨ value = "\x00"

/-- The records of a workspace, where nothing stands for a deletion, and its path index. -/
structure Workspace where
  nodes : VersionedStore String HLC (Option ReplicatedNode)
  pathIndex : VersionedStore String HLC String

namespace Workspace

def empty : Workspace := ⟨.empty, .empty⟩

/-- The version that an upsert at the revision supersedes. -/
def loadNodeReplacedBy (workspace : Workspace) (nodeId : String) (revision : HLC) :
    Option (HLC × ReplicatedNode) :=
  (workspace.nodes.newestAtOrBefore nodeId revision).bind fun found =>
    found.2.map fun node => (found.1, node)

/-- The oldest version above the revision, which may be a deletion. -/
def loadNodeAfter (workspace : Workspace) (nodeId : String) (revision : HLC) :
    Option (HLC × Option ReplicatedNode) :=
  workspace.nodes.oldestAfter nodeId revision

def pathOwnedAt (workspace : Workspace) (path nodeId : String) (bound : HLC) : Bool :=
  match workspace.pathIndex.newestAtOrBefore path bound with
  | some (_, value) => value = nodeId
  | none => false

def pathEntryWouldBeLive (workspace : Workspace) (node : ReplicatedNode)
    (revision newerRev : HLC) : Bool :=
  match workspace.pathIndex.newestAtOrBefore node.path newerRev with
  | none => true
  | some (found, value) => found ≤ revision ∨ value = node.id

def staleInPlace (found : HLC) (stored : ReplicatedNode) (revision : HLC)
    (incoming : ReplicatedNode) : Bool :=
  decide (found = revision) &&
    match stored.updatedAt, incoming.updatedAt with
    | some storedAt, some incomingAt => storedAt > incomingAt
    | _, _ => false

/-- The old path of a node that has moved ends at the revision, if it is still the node's. -/
def endReplacedPath (workspace : Workspace) (upsert : NodeUpsert) :
    VersionedStore String HLC String :=
  match workspace.loadNodeReplacedBy upsert.node.id upsert.revision with
  | none => workspace.pathIndex
  | some (_, old) =>
      if old.path ≠ upsert.node.path ∧ workspace.pathOwnedAt old.path old.id upsert.revision then
        workspace.pathIndex.put old.path upsert.revision tombstone
      else workspace.pathIndex

/-- The path of a version that arrives late ends where the next stored version leaves it. -/
def tombstoneSupersededByNewer (workspace : Workspace) (upsert : NodeUpsert)
    (index : VersionedStore String HLC String) : VersionedStore String HLC String :=
  match workspace.loadNodeAfter upsert.node.id upsert.revision with
  | none => index
  | some (newerRev, newer) =>
      if newer.map ReplicatedNode.path ≠ some upsert.node.path ∧
          workspace.pathEntryWouldBeLive upsert.node upsert.revision newerRev then
        index.put upsert.node.path newerRev tombstone
      else index

/-- All reads see the workspace as it was before the batch. -/
def writeVersion (workspace : Workspace) (upsert : NodeUpsert) : Workspace where
  nodes := workspace.nodes.put upsert.node.id upsert.revision (some upsert.node)
  pathIndex := workspace.tombstoneSupersededByNewer upsert
    ((workspace.endReplacedPath upsert).put upsert.node.path upsert.revision upsert.node.id)

def applyReplicatedUpsert (workspace : Workspace) (upsert : NodeUpsert) : Workspace :=
  match workspace.loadNodeReplacedBy upsert.node.id upsert.revision with
  | some (found, stored) =>
      if staleInPlace found stored upsert.revision upsert.node then workspace
      else workspace.writeVersion upsert
  | none => workspace.writeVersion upsert

end Workspace

def upsertMachine : Machine Workspace NodeUpsert Unit where
  step workspace upsert := (workspace.applyReplicatedUpsert upsert, ())

/-- What a read of the path index gives. -/
inductive PathReading where
  | nothing
  | ended
  | node (id : String)
  deriving DecidableEq

def Workspace.readPath (workspace : Workspace) (path : String) (bound : HLC) : PathReading :=
  match workspace.pathIndex.newestAtOrBefore path bound with
  | none => .nothing
  | some (_, value) => if isTombstoneValue value then .ended else .node value

/-! ## What the versions say -/

section Versions

variable (applied : List NodeUpsert) (path : String) (bound : HLC)

/-- The last version at or below the bound that claims the path. -/
structure IsLastClaim (claim : NodeUpsert) : Prop where
  mem : claim ∈ applied
  claims : claim.node.path = path
  below : claim.revision ≤ bound
  last : ∀ other ∈ applied, other.node.path = path → other.revision ≤ bound →
    other.revision ≤ claim.revision

/-- The version is its node's newest at or below the bound. -/
def IsCurrent (version : NodeUpsert) : Prop :=
  ∀ other ∈ applied, other.node.id = version.node.id → other.revision ≤ bound →
    other.revision ≤ version.revision

/-- A path names the last node that claimed it, until that node has another version. -/
def Expected : PathReading → Prop
  | .nothing => ∀ claim ∈ applied, claim.node.path = path → ¬ claim.revision ≤ bound
  | .ended => ∃ claim, IsLastClaim applied path bound claim ∧ ¬ IsCurrent applied bound claim
  | .node id => ∃ claim, IsLastClaim applied path bound claim ∧ IsCurrent applied bound claim ∧
      claim.node.id = id

end Versions

/-- Every read of the path index gives what the versions applied so far say. -/
def FollowsVersions (applied : List NodeUpsert) (workspace : Workspace) : Prop :=
  ∀ path bound, Expected applied path bound (workspace.readPath path bound)

/-- Revisions tell the versions apart. -/
def DistinctRevisions (upserts : List NodeUpsert) : Prop :=
  upserts.Pairwise fun a b => a.revision ≠ b.revision

instance distinctRevisionsDecidable (upserts : List NodeUpsert) :
    Decidable (DistinctRevisions upserts) :=
  inferInstanceAs (Decidable (upserts.Pairwise fun a b => a.revision ≠ b.revision))

/-- The id does not read as a tombstone, and no tombstone lies above the revision on the path
with neither another version of the node nor another claim in between. -/
structure Unobstructed (workspace : Workspace) (upsert : NodeUpsert) : Prop where
  named : isTombstoneValue upsert.node.id = false
  clear : ∀ ended, workspace.pathIndex.get upsert.node.path ended = some tombstone →
    upsert.revision < ended →
      ∃ between, upsert.revision < between ∧ between ≤ ended ∧
        ((workspace.nodes.get upsert.node.id between).isSome ∨
          ∃ owner, workspace.pathIndex.get upsert.node.path between = some owner ∧
            isTombstoneValue owner = false)

/-! ## Entries of the index -/

/-- The stores hold the applied versions, and tombstones where some version lies on another
path. -/
structure Holds (applied : List NodeUpsert) (workspace : Workspace) : Prop where
  distinct : DistinctRevisions applied
  named : ∀ upsert ∈ applied, isTombstoneValue upsert.node.id = false
  records : ∀ id revision record, workspace.nodes.get id revision = some record ↔
    ∃ upsert ∈ applied, upsert.node.id = id ∧ upsert.revision = revision ∧
      record = some upsert.node
  claims : ∀ upsert ∈ applied,
    workspace.pathIndex.get upsert.node.path upsert.revision = some upsert.node.id
  entries : ∀ path revision value, workspace.pathIndex.get path revision = some value →
    (∃ upsert ∈ applied, upsert.node.path = path ∧ upsert.revision = revision ∧
      upsert.node.id = value) ∨
    (value = tombstone ∧ ∃ upsert ∈ applied, upsert.revision = revision ∧
      upsert.node.path ≠ path)

theorem DistinctRevisions.eq {upserts : List NodeUpsert} (distinct : DistinctRevisions upserts)
    {a b : NodeUpsert} (ha : a ∈ upserts) (hb : b ∈ upserts) (same : a.revision = b.revision) :
    a = b := by
  by_contra different
  have symm : Std.Symm fun a b : NodeUpsert => a.revision ≠ b.revision := ⟨fun _ _ ne => ne.symm⟩
  exact distinct.forall ha hb different same

theorem isTombstoneValue_tombstone : isTombstoneValue tombstone = true := by decide

theorem ne_tombstone {value : String} (named : isTombstoneValue value = false) :
    value ≠ tombstone := by
  rintro rfl
  rw [isTombstoneValue_tombstone] at named
  cases named

namespace Holds

variable {applied : List NodeUpsert} {workspace : Workspace}

theorem live (holds : Holds applied workspace) {path owner : String} {revision : HLC}
    (stored : workspace.pathIndex.get path revision = some owner)
    (named : isTombstoneValue owner = false) :
    ∃ upsert ∈ applied, upsert.node.path = path ∧ upsert.revision = revision ∧
      upsert.node.id = owner := by
  rcases holds.entries path revision owner stored with claim | ⟨ended, _⟩
  · exact claim
  · exact absurd ended (ne_tombstone named)

/-- A stored value that reads as a tombstone is one. -/
theorem ended (holds : Holds applied workspace) {path value : String} {revision : HLC}
    (stored : workspace.pathIndex.get path revision = some value)
    (reads : isTombstoneValue value = true) : value = tombstone := by
  rcases holds.entries path revision value stored with ⟨upsert, hmem, _, _, rfl⟩ | ⟨ended, _⟩
  · rw [holds.named upsert hmem] at reads
    cases reads
  · exact ended

end Holds

/-- Every tombstone ends the last claim before it, which its node has left. -/
def NoneSpurious (applied : List NodeUpsert) (workspace : Workspace) : Prop :=
  ∀ path ended, workspace.pathIndex.get path ended = some tombstone →
    ∃ claim, IsLastClaim applied path ended claim ∧ ¬ IsCurrent applied ended claim

/-- A last claim that its node has left has a tombstone above it. -/
def AllEnded (applied : List NodeUpsert) (workspace : Workspace) : Prop :=
  ∀ path bound claim, IsLastClaim applied path bound claim → ¬ IsCurrent applied bound claim →
    ∃ ended, claim.revision < ended ∧ ended ≤ bound ∧
      workspace.pathIndex.get path ended = some tombstone

section Claims

variable {applied : List NodeUpsert} {path : String}

theorem IsLastClaim.later {bound bound' : HLC} {claim : NodeUpsert}
    (last : IsLastClaim applied path bound claim) (le : bound ≤ bound')
    (none : ∀ other ∈ applied, other.node.path = path → bound < other.revision →
      ¬ other.revision ≤ bound') : IsLastClaim applied path bound' claim := by
  refine ⟨last.mem, last.claims, last.below.trans le, fun other hother claims within => ?_⟩
  refine last.last other hother claims (not_lt.mp fun after => ?_)
  exact none other hother claims after within

theorem IsLastClaim.earlier {bound bound' : HLC} {claim : NodeUpsert}
    (last : IsLastClaim applied path bound claim) (le : bound' ≤ bound)
    (below : claim.revision ≤ bound') : IsLastClaim applied path bound' claim :=
  ⟨last.mem, last.claims, below, fun other hother claims within =>
    last.last other hother claims (within.trans le)⟩

theorem IsCurrent.earlier {bound bound' : HLC} {version : NodeUpsert}
    (current : IsCurrent applied bound version) (le : bound' ≤ bound) :
    IsCurrent applied bound' version :=
  fun other hother same within => current other hother same (within.trans le)

theorem IsLastClaim.unique (distinct : DistinctRevisions applied) {bound : HLC}
    {a b : NodeUpsert} (lastA : IsLastClaim applied path bound a)
    (lastB : IsLastClaim applied path bound b) : a = b :=
  distinct.eq lastA.mem lastB.mem (le_antisymm
    (lastB.last a lastA.mem lastA.claims lastA.below)
    (lastA.last b lastB.mem lastB.claims lastB.below))

/-- The versions determine the reading. -/
theorem Expected.unique (distinct : DistinctRevisions applied) {bound : HLC}
    {first second : PathReading} (one : Expected applied path bound first)
    (other : Expected applied path bound second) : first = second := by
  cases first with
  | nothing =>
    cases second with
    | nothing => rfl
    | ended =>
      obtain ⟨claim, last, _⟩ := other
      exact absurd last.below (one claim last.mem last.claims)
    | node id =>
      obtain ⟨claim, last, _, _⟩ := other
      exact absurd last.below (one claim last.mem last.claims)
  | ended =>
    obtain ⟨claim, last, left⟩ := one
    cases second with
    | nothing => exact absurd last.below (other claim last.mem last.claims)
    | ended => rfl
    | node id =>
      obtain ⟨claim', last', current, _⟩ := other
      exact absurd (last.unique distinct last' ▸ current) left
  | node id =>
    obtain ⟨claim, last, current, rfl⟩ := one
    cases second with
    | nothing => exact absurd last.below (other claim last.mem last.claims)
    | ended =>
      obtain ⟨claim', last', left⟩ := other
      exact absurd (last.unique distinct last' ▸ current) left
    | node id' =>
      obtain ⟨claim', last', _, rfl⟩ := other
      rw [last.unique distinct last']

theorem Expected.perm {applied' : List NodeUpsert} (perm : applied ~ applied') {bound : HLC}
    {reading : PathReading} (expected : Expected applied path bound reading) :
    Expected applied' path bound reading := by
  have last : ∀ claim, IsLastClaim applied path bound claim →
      IsLastClaim applied' path bound claim := fun claim last =>
    ⟨perm.mem_iff.mp last.mem, last.claims, last.below, fun other hother =>
      last.last other (perm.mem_iff.mpr hother)⟩
  have current : ∀ claim, IsCurrent applied bound claim ↔ IsCurrent applied' bound claim :=
    fun claim => ⟨fun current other hother => current other (perm.mem_iff.mpr hother),
      fun current other hother => current other (perm.mem_iff.mp hother)⟩
  cases reading with
  | nothing => exact fun claim hclaim => expected claim (perm.mem_iff.mpr hclaim)
  | ended =>
    obtain ⟨claim, isLast, left⟩ := expected
    exact ⟨claim, last claim isLast, fun now => left ((current claim).mpr now)⟩
  | node id =>
    obtain ⟨claim, isLast, now, same⟩ := expected
    exact ⟨claim, last claim isLast, (current claim).mp now, same⟩

end Claims

end RaisinDB.Applicator
