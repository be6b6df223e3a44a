import RaisinDB.Branches.Merge

/-!
# Merging with resolutions

A resolution names, for a node or for one of its locales, the side that is kept or a
value of its own.  Each one is written at the merge revision before the next one is
looked at; the merge then goes on as a three-way merge does.
-/

namespace RaisinDB.Branches

open RaisinDB.Clock RaisinDB.Foundation RaisinDB.Replication List
open Fallible

/-! ## Resolutions -/

inductive ResolutionType where
  | keepOurs
  | keepTheirs
  | manual
  deriving DecidableEq

/-- The payload of a manual resolution, as each of its readers decodes it. -/
structure ResolvedProperties where
  isNull : Bool
  asProperties : Except String (AList fun _ : String => Value)
  asOverlay : Except String LocaleOverlay
  asData : Except String (List (String × String))

structure ConflictResolution where
  nodeId : String
  resolutionType : ResolutionType
  resolvedProperties : ResolvedProperties
  translationLocale : Option String

/-- What the resolution is for, as conflicts are reported. -/
def ConflictResolution.key (resolution : ConflictResolution) : String × Option String :=
  (resolution.nodeId, resolution.translationLocale)

/-- A stored overlay is taken as it is, and another object as the properties of one. -/
def manualOverlay (value : ResolvedProperties) : Except String (Option LocaleOverlay) :=
  if value.isNull then .ok none
  else
    match value.asOverlay with
    | .ok overlay => .ok (some overlay)
    | .error _ => value.asData.map fun data => some (.properties data)

/-- A partial map is laid over the properties of the node. -/
def Node.withOverrides (node : Node) (overrides : AList fun _ : String => Value) : Node :=
  let properties := overrides.entries.foldl
    (fun properties entry => properties.insert entry.1 entry.2) node.properties
  { node with properties }

/-! ## Overlays -/

/-- The locales that have ever had an overlay of the node.  The marks of orphaned blocks stand
where a locale would, and are none. -/
def storedLocales (content : Content) (workspace nodeId : String) : List String :=
  (content.entries.keys.filterMap fun entry =>
    match entry.1 with
    | .overlay workspace' nodeId' locale =>
        if workspace' = workspace ∧ nodeId' = nodeId ∧ ¬ "orphaned::".toList <+: locale.toList then
          some locale
        else none
    | _ => none).dedup

def liveOverlays (content : Content) (workspace nodeId : String) (head : HLC) :
    List (String × LocaleOverlay) :=
  (storedLocales content workspace nodeId).filterMap fun locale =>
    (readOverlay content workspace nodeId locale head).map fun overlay => (locale, overlay)

/-! ## Sides -/

namespace MergeSides

variable (sides : MergeSides) (state : RepositoryState)

def overlaysOf (workspace nodeId : String) (side : MergeSide) : List (String × LocaleOverlay) :=
  liveOverlays (state.contents (sides.branchName side)) workspace nodeId (sides.head side)

/-- The node that a resolution keeps with the side its overlays are taken from; nothing for a
deletion. -/
def chosenNode (workspace : String) (resolution : ConflictResolution) :
    Except BranchError (Option (Node × MergeSide)) :=
  let onSide := fun side =>
    (sides.loadNode state workspace resolution.nodeId side).map fun node => (node, side)
  match resolution.resolutionType with
  | .keepOurs => .ok (onSide .target)
  | .keepTheirs => .ok (onSide .source)
  | .manual =>
      if resolution.resolvedProperties.isNull then .ok none
      else
        match resolution.resolvedProperties.asProperties with
        | .error text =>
            .error (.validation
              ("Invalid properties for node " ++ resolution.nodeId ++ ": " ++ text))
        | .ok overrides =>
            match (onSide .target).or (onSide .source) with
            | none =>
                .error (.notFound
                  ("Node " ++ resolution.nodeId ++ " not found on either side of the merge"))
            | some (node, side) => .ok (some (node.withOverrides overrides, side))

def chosenOverlay (workspace locale : String) (resolution : ConflictResolution) :
    Except BranchError (Option LocaleOverlay) :=
  match resolution.resolutionType with
  | .keepOurs => .ok (sides.readSide state workspace resolution.nodeId locale .target)
  | .keepTheirs => .ok (sides.readSide state workspace resolution.nodeId locale .source)
  | .manual =>
      (manualOverlay resolution.resolvedProperties).mapError fun text =>
        .validation ("Invalid translation overlay for node " ++ resolution.nodeId ++ " (" ++
          locale ++ "): " ++ text)

/-- The overlays of the kept side, and a tombstone for each that only another side has.  A locale
with a resolution of its own is left to it. -/
def nodeTranslations (workspace nodeId : String) (kept : Option MergeSide)
    (explicitTranslations : List (String × String)) : List (String × Option LocaleOverlay) :=
  let own := match kept with
    | some side => sides.overlaysOf state workspace nodeId side
    | none => []
  let others := ((sides.overlaysOf state workspace nodeId .target ++
    sides.overlaysOf state workspace nodeId .source).map Prod.fst).filter
      fun locale => locale ∉ own.map Prod.fst
  ((own.map fun overlay => (overlay.1, some overlay.2)) ++
    others.map fun locale => (locale, none)).filter
      fun row => (nodeId, row.1) ∉ explicitTranslations

end MergeSides

/-! ## Writing resolutions -/

def nodeValue : Option Node → ContentValue
  | some node => .node node
  | none => .tombstone

def overlayValue : Option LocaleOverlay → ContentValue
  | some overlay => .overlay overlay
  | none => .tombstone

def overlayRows (workspace nodeId : String) (rows : List (String × Option LocaleOverlay)) :
    List (ContentKey × ContentValue) :=
  rows.map fun row => (.overlay workspace nodeId row.1, overlayValue row.2)

/-- One batch of rows of a branch. -/
def RepositoryState.putRows (state : RepositoryState) (name : String) (revision : HLC)
    (rows : List (ContentKey × ContentValue)) : RepositoryState :=
  state.setContent name ((state.contents name).putAll revision rows)

/-- The changes of the node on the two branches: the source's operation, and the workspace and
operation of the target's. -/
def ConflictResolution.changes (resolution : ConflictResolution)
    (sourceChanges targetChanges : AList fun _ : String => String × ChangeOperation) :
    Except BranchError (ChangeOperation × String × ChangeOperation) :=
  match sourceChanges.lookup resolution.nodeId with
  | none =>
      .error (.validation ("Resolution provided for node " ++ resolution.nodeId ++
        " which has no source change"))
  | some sourceChange =>
      match targetChanges.lookup resolution.nodeId with
      | none =>
          .error (.validation ("Resolution provided for node " ++ resolution.nodeId ++
            " which has no target change"))
      | some targetChange => .ok (sourceChange.2, targetChange)

def ConflictResolution.operation (resolution : ConflictResolution)
    (sourceOp targetOp : ChangeOperation) : ChangeOperation :=
  match resolution.resolutionType with
  | .keepOurs => targetOp
  | .keepTheirs => sourceOp
  | .manual =>
      if resolution.resolvedProperties.isNull then .deleted
      else if sourceOp = .added ∨ targetOp = .added then .added
      else .modified

/-- The locales that have a resolution of their own. -/
def explicitTranslations (resolutions : List ConflictResolution) : List (String × String) :=
  resolutions.filterMap fun resolution =>
    resolution.translationLocale.map fun locale => (resolution.nodeId, locale)

section Resolve

variable (writers : IndexWriters) (faults : Faults) (mergeRevision : HLC) (sides : MergeSides)

def writeResolvedTranslation (workspace locale : String) (resolution : ConflictResolution) :
    Merging Unit := do
  let chosen ← query fun state => sides.chosenOverlay state workspace locale resolution
  change fun state => state.putRows sides.targetBranch mergeRevision
    (overlayRows workspace resolution.nodeId [(locale, chosen)])

/-- The node or its tombstone, with the rows of its indexes. -/
def writeResolvedNode (workspace : String) (resolution : ConflictResolution) :
    Merging (Option MergeSide) := do
  let chosen ← query fun state => sides.chosenNode state workspace resolution
  change fun state => state.putRows sides.targetBranch mergeRevision
    ((.node workspace resolution.nodeId, nodeValue (chosen.map Prod.fst)) ::
      indexRows (writers.resolved state workspace resolution.nodeId (chosen.map Prod.fst)))
  return chosen.map Prod.snd

def writeResolvedNodeTranslations (workspace nodeId : String) (kept : Option MergeSide)
    (explicit : List (String × String)) : Merging Unit :=
  change fun state => state.putRows sides.targetBranch mergeRevision
    (overlayRows workspace nodeId (sides.nodeTranslations state workspace nodeId kept explicit))

variable (sourceChanges targetChanges : AList fun _ : String => String × ChangeOperation)
  (explicit : List (String × String))

def applyResolution (index : Nat) (resolution : ConflictResolution) : Merging NodeChangeInfo := do
  let (sourceOp, workspace, targetOp) ← query fun _ =>
    resolution.changes sourceChanges targetChanges
  step faults (.resolution index)
  match resolution.translationLocale with
  | some locale => writeResolvedTranslation mergeRevision sides workspace locale resolution
  | none =>
      let kept ← writeResolvedNode writers mergeRevision sides workspace resolution
      step faults (.resolvedOverlays index)
      writeResolvedNodeTranslations mergeRevision sides workspace resolution.nodeId kept explicit
  return ⟨resolution.nodeId, workspace, resolution.operation sourceOp targetOp,
    resolution.translationLocale⟩

def applyResolutions : Nat → List ConflictResolution → Merging (List NodeChangeInfo)
  | _, [] => return []
  | index, resolution :: resolutions => do
      let change ← applyResolution writers faults mergeRevision sides sourceChanges targetChanges
        explicit index resolution
      let changes ← applyResolutions (index + 1) resolutions
      return change :: changes

end Resolve

/-- Changes of nodes that are not listed yet. -/
def addChanges (changedNodes : List NodeChangeInfo) (walk : List Collected) :
    List NodeChangeInfo :=
  (walk.flatMap fun collected => collected.record.changedNodes).foldl
    (fun changes change =>
      if changes.any fun listed => decide (listed.nodeId = change.nodeId) then changes
      else changes ++ [change]) changedNodes

/-- No answer stands for the last loop, which a cycle of first parents keeps going. -/
def resolveMergeWithResolutions (writers : IndexWriters) (faults : Faults) (mergeRevision : HLC)
    (targetBranch sourceBranch : String) (resolutions : List ConflictResolution) :
    Merging (Option MergeResult) := do
  let (target, source) ← mergeSides faults targetBranch sourceBranch
  step faults .divergence
  let divergence ← query fun state =>
    state.repository.calculateDivergence sourceBranch targetBranch
  step faults .changes
  let sourceChanges ← query fun state =>
    .ok (state.repository.collectBranchChanges source.head divergence)
  let targetChanges ← query fun state =>
    .ok (state.repository.collectBranchChanges target.head divergence)
  let resolved ← applyResolutions writers faults mergeRevision
    ⟨targetBranch, target, sourceBranch, source⟩ sourceChanges targetChanges
    (explicitTranslations resolutions) 0 resolutions
  step faults .sourceLine
  let line ← query fun state =>
    match state.graph.sourceLine source.head divergence.commonAncestor with
    | none => .ok none
    | some walk => walk.map some
  match line with
  | none => return none
  | some walk =>
      let result ← completeMerge writers faults mergeRevision targetBranch sourceBranch target
        source (addChanges resolved walk)
      return some result

end RaisinDB.Branches
