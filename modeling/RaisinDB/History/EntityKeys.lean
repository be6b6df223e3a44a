import RaisinDB.History.KeyLocator

/-!
# Keys of one entity

Two versions of an entity differ in the revision alone.  The table of layouts finds
the revision of every key it was made for, but a relation type is free text and may
stand where another layout expects its tag.
-/

namespace RaisinDB.History

open RaisinDB.Branches RaisinDB.Foundation RaisinDB.Oplog RaisinDB.Replication List

/-! ## Versioned keys -/

structure KeyScope where
  tenantId : String
  repoId : String
  branch : String
  deriving DecidableEq

/-- The keys of a branch, and the snapshots of a repository. -/
inductive HistoryKey where
  | branch (key : BranchKey)
  | nodeSnapshot (nodeId : String) (revision : HLC)
  | translationSnapshot (nodeId locale : String) (revision : HLC)
  deriving DecidableEq

namespace HistoryKey

def family : HistoryKey → GcFamily
  | .branch key => .branch key.columnFamily
  | .nodeSnapshot .. => .revisions
  | .translationSnapshot .. => .revisions

def layout (scope : KeyScope) : HistoryKey → KeyLayout
  | .branch key =>
      ⟨.text scope.tenantId :: .text scope.repoId :: .text scope.branch :: key.layout.lead,
        key.layout.revision, key.layout.trail⟩
  | .nodeSnapshot nodeId revision =>
      ⟨[.text scope.tenantId, .text scope.repoId, .text "snapshots", .text nodeId],
        some revision, []⟩
  | .translationSnapshot nodeId locale revision =>
      ⟨[.text scope.tenantId, .text scope.repoId, .text "trans_snapshots", .text nodeId,
        .text locale], some revision, []⟩

end HistoryKey

/-- A key that a family of the table writes for a version: it has a revision and its names are
free of separators. -/
structure VersionedKey (target : GcTarget) where
  scope : KeyScope
  key : HistoryKey
  revision : HLC
  ofFamily : key.family = target.cf
  hasRevision : (key.layout scope).revision = some revision
  leadFree : ∀ value, .text value ∈ (key.layout scope).lead → NulFree value
  trailFree : ∀ value ∈ (key.layout scope).trail, NulFree value
  fits : Fits revision

namespace VersionedKey

variable {target : GcTarget}

/-- The segments before the revision. -/
def lead (entry : VersionedKey target) : List (List UInt8) :=
  (entry.key.layout entry.scope).lead.map KeyPart.bytes

/-- The names behind the revision. -/
def trail (entry : VersionedKey target) : List (List UInt8) :=
  (entry.key.layout entry.scope).trail.map utf8Bytes

def bytes (entry : VersionedKey target) : Key := build (entry.key.layout entry.scope).parts

/-- The revision begins behind the segments before it, each with its separator. -/
def revisionStart (entry : VersionedKey target) : Nat := (closed entry.lead).length

/-- The revision is found where it is. -/
def IsLocated (entry : VersionedKey target) : Prop :=
  ∃ located, locate target entry.bytes = some located ∧ located.revStart = entry.revisionStart

/-- Equal in every segment except the revision. -/
def SameEntity (first second : VersionedKey target) : Prop :=
  first.lead = second.lead ∧ first.trail = second.trail

def SameGroup (first second : VersionedKey target) : Prop :=
  ∃ group, groupOf target first.bytes = some group ∧ groupOf target second.bytes = some group

/-- Both revisions are found, and the group is the entity. -/
def ToldApart (first second : VersionedKey target) : Prop :=
  first.IsLocated ∧ second.IsLocated ∧ (first.SameGroup second ↔ first.SameEntity second)

end VersionedKey

/-! ## Keys that are misread -/

/-- The sixteen bytes before the last name of a global relation follow a separator. -/
def EndsInSixteen (revision : HLC) (sourceWorkspace sourceNodeId targetWorkspace : String) : Prop :=
  let between := build [encodeDescending revision, utf8Bytes sourceWorkspace,
    utf8Bytes sourceNodeId, utf8Bytes targetWorkspace]
  between[between.length - 17]? = some sep

instance decidableEndsInSixteen (revision : HLC)
    (sourceWorkspace sourceNodeId targetWorkspace : String) :
    Decidable (EndsInSixteen revision sourceWorkspace sourceNodeId targetWorkspace) :=
  inferInstanceAs (Decidable (_ = _))

/-- A global relation of a type that is a tag, and an embedding without its own segments. -/
def HistoryKey.Misread : HistoryKey → Prop
  | .branch (.relationGlobal relationType revision sourceWorkspace sourceNodeId targetWorkspace
      _) =>
      (relationType = "rel" ∨ relationType = "rel_rev") ∧
        EndsInSixteen revision sourceWorkspace sourceNodeId targetWorkspace
  | .branch (.embeddingLegacy ..) => True
  | _ => False

/-- The columns of a key, joined. -/
def joinedColumns (columns : List CompoundColumnValue) : List UInt8 :=
  closed (columns.map fun column => column.part.bytes)

/-- Two keys of a compound index that differ in how their columns are divided alone. -/
def HistoryKey.DividedApart : HistoryKey → HistoryKey → Prop
  | .branch (.compoundIndex workspace published indexName columns _ nodeId),
    .branch (.compoundIndex workspace' published' indexName' columns' _ nodeId') =>
      workspace = workspace' ∧ published = published' ∧ indexName = indexName' ∧
        nodeId = nodeId' ∧ joinedColumns columns = joinedColumns columns' ∧
        (columns.map fun column => column.part.bytes) ≠
          columns'.map fun column => column.part.bytes
  | _, _ => False

def VersionedKey.DividedApart {target : GcTarget} (first second : VersionedKey target) : Prop :=
  first.scope = second.scope ∧ first.key.DividedApart second.key

/-! ## Segments of a key -/

@[simp] theorem utf8Bytes_inj {first second : String} :
    utf8Bytes first = utf8Bytes second ↔ first = second :=
  ⟨fun same => utf8Bytes_injective same, congrArg utf8Bytes⟩

theorem closed_eq_build {segments : List (List UInt8)} (nonempty : segments ≠ []) :
    closed segments = build segments ++ [sep] := by
  obtain ⟨first, others, rfl⟩ := exists_cons_of_ne_nil nonempty
  rw [build_trail, closed_cons]
  induction others generalizing first with
  | nil => simp
  | cons second others ih => rw [closed_cons, flatMap_cons, ih second (cons_ne_nil _ _)]; simp

/-- Segments without separators in front can be taken off. -/
theorem closed_take {first second others others' : List (List UInt8)}
    (free : ∀ part ∈ first, sep ∉ part) (free' : ∀ part ∈ second, sep ∉ part)
    (length : first.length = second.length)
    (same : closed (first ++ others) = closed (second ++ others')) :
    first = second ∧ closed others = closed others' := by
  induction first generalizing second with
  | nil =>
    obtain rfl := length_eq_zero_iff.mp length.symm
    exact ⟨rfl, same⟩
  | cons part first ih =>
    cases second with
    | nil => simp at length
    | cons part' second =>
      rw [cons_append, cons_append, closed_cons, closed_cons] at same
      obtain ⟨here, later⟩ := split_at_first (free part mem_cons_self)
        (free' part' mem_cons_self) same
      obtain ⟨rest, joined⟩ := ih (fun part hpart => free part (mem_cons_of_mem _ hpart))
        (fun part hpart => free' part (mem_cons_of_mem _ hpart)) (by simpa using length) later
      exact ⟨by rw [here, rest], joined⟩

theorem closed_injective {first second : List (List UInt8)}
    (free : ∀ part ∈ first, sep ∉ part) (free' : ∀ part ∈ second, sep ∉ part)
    (same : closed first = closed second) : first = second := by
  induction first generalizing second with
  | nil =>
    cases second with
    | nil => rfl
    | cons part second => simp at same
  | cons part first ih =>
    cases second with
    | nil => simp at same
    | cons part' second =>
      rw [closed_cons, closed_cons] at same
      obtain ⟨here, later⟩ := split_at_first (free part mem_cons_self)
        (free' part' mem_cons_self) same
      rw [here, ih (fun part hpart => free part (mem_cons_of_mem _ hpart))
        (fun part hpart => free' part (mem_cons_of_mem _ hpart)) later]

/-- As many names behind the revision are told apart by their bytes. -/
theorem trail_injective {first second : List (List UInt8)}
    (free : ∀ part ∈ first, sep ∉ part) (free' : ∀ part ∈ second, sep ∉ part)
    (length : first.length = second.length)
    (same : (first.flatMap (sep :: ·)).drop 1 = (second.flatMap (sep :: ·)).drop 1) :
    first = second := by
  cases first with
  | nil => exact (length_eq_zero_iff.mp length.symm).symm
  | cons part first =>
    cases second with
    | nil => simp at length
    | cons part' second =>
      have joined : closed (part :: first) = closed (part' :: second) := by
        rw [closed_eq_build (cons_ne_nil _ _), closed_eq_build (cons_ne_nil _ _), build_trail,
          build_trail]
        have texts : part ++ first.flatMap (sep :: ·) =
            part' ++ second.flatMap (sep :: ·) := by
          simpa using same
        rw [texts]
      exact closed_injective free free' joined

namespace VersionedKey

variable {target : GcTarget} {entry : VersionedKey target}

theorem bytes_eq (entry : VersionedKey target) :
    entry.bytes = versioned entry.lead (encodeDescending entry.revision) entry.trail := by
  have parts_eq : (entry.key.layout entry.scope).parts =
      entry.lead ++ encodeDescending entry.revision :: entry.trail := by
    rw [KeyLayout.parts, entry.hasRevision]
    simp [lead, trail]
  rw [bytes, parts_eq, build_append_cons, versioned, append_assoc]
  rfl

theorem mem_trail_free (entry : VersionedKey target) : ∀ name ∈ entry.trail, sep ∉ name := by
  intro name hname
  obtain ⟨text, htext, rfl⟩ := mem_map.mp hname
  exact entry.trailFree text htext

/-- Segments that are names have no separator. -/
theorem free_of_texts (entry : VersionedKey target) (count : Nat)
    (texts : ∀ part ∈ (entry.key.layout entry.scope).lead.take count, ∃ value, part = .text value) :
    ∀ part ∈ entry.lead.take count, sep ∉ part := by
  intro part hpart
  rw [lead, ← map_take] at hpart
  obtain ⟨keyPart, hkeyPart, rfl⟩ := mem_map.mp hpart
  obtain ⟨value, rfl⟩ := texts keyPart hkeyPart
  exact entry.leadFree value (mem_of_mem_take hkeyPart)

end VersionedKey

theorem HistoryKey.first_texts (scope : KeyScope) (key : HistoryKey) :
    ∀ part ∈ (key.layout scope).lead.take 5, ∃ value, part = .text value := by
  rcases key with key | _ | _
  · cases key <;> simp [HistoryKey.layout, BranchKey.layout]
  all_goals simp [HistoryKey.layout]

theorem VersionedKey.first_free {target : GcTarget} (entry : VersionedKey target) :
    ∀ part ∈ entry.lead.take 5, sep ∉ part :=
  entry.free_of_texts 5 (entry.key.first_texts entry.scope)

/-! ## Each family -/

/-- A family has one row. -/
theorem find?_gcTargets : ∀ target ∈ gcTargets,
    gcTargets.find? (fun other => other.cf = target.cf) = some target := by decide

theorem tagIndex_le : ∀ target ∈ gcTargets, ∀ layout ∈ target.layouts,
    2 ≤ layout.tagIndex ∧ layout.tagIndex ≤ if target.cf = .revisions then 2 else 4 := by
  decide

/-- The row of a key is found by its family. -/
theorem VersionedKey.row {target : GcTarget} (isTarget : target ∈ gcTargets)
    (entry : VersionedKey target) :
    gcTargets.find? (fun other => other.cf = entry.key.family) = some target := by
  rw [entry.ofFamily]
  exact find?_gcTargets target isTarget

theorem VersionedKey.length_lead {target : GcTarget} (isTarget : target ∈ gcTargets)
    (entry : VersionedKey target) :
    (if target.cf = .revisions then 4 else 5) ≤ entry.lead.length := by
  have row := entry.row isTarget
  rw [← entry.ofFamily, VersionedKey.lead, length_map]
  rcases known : entry.key with key | _ | _
  · rw [known] at row
    cases key <;> simp [HistoryKey.layout, HistoryKey.family, BranchKey.layout, gcTargets,
      BranchKey.columnFamily] at row ⊢
  all_goals simp [HistoryKey.layout, HistoryKey.family]

theorem VersionedKey.inReach {target : GcTarget} (isTarget : target ∈ gcTargets)
    (entry : VersionedKey target) {layout : TagLayout} (isLayout : layout ∈ target.layouts) :
    InReach entry.lead layout := by
  obtain ⟨deep, high⟩ := tagIndex_le target isTarget layout isLayout
  have long := entry.length_lead isTarget
  have bounds : layout.tagIndex ≤ 4 ∧ layout.tagIndex < entry.lead.length := by
    split at high <;> simp_all <;> omega
  refine ⟨deep, bounds.2, fun part hpart => entry.first_free part ?_⟩
  have within : layout.tagIndex + 1 ≤ 5 := by omega
  rw [← min_eq_left within, ← take_take] at hpart
  exact mem_of_mem_take hpart

/-- A layout that finds the revision of a key. -/
structure IsLayoutOf {target : GcTarget} (entry : VersionedKey target) (layout : TagLayout) :
    Prop where
  first : target.layouts.find? (recognises entry.lead) = some layout
  entity : layout.tagIndex + 1 < entry.lead.length
  counts : layout.locator =
    if entry.trail = [] then .tail else .beforeTrailing entry.trail.length

/-- The relation type is not a tag, and the key has an entity. -/
def HistoryKey.Ordinary : HistoryKey → Prop
  | .branch (.relationGlobal relationType ..) =>
      relationType ≠ "rel" ∧ relationType ≠ "rel_rev"
  | .branch (.embeddingLegacy ..) => False
  | _ => True

/-- The layout that is meant for a key. -/
def HistoryKey.ownLayout : HistoryKey → TagLayout
  | .nodeSnapshot .. => tagged 2 "snapshots" .tail
  | .translationSnapshot .. => tagged 2 "trans_snapshots" .tail
  | .branch key =>
      match key with
      | .node .. | .nodeAdjacency .. => tagged 4 "nodes" .tail
      | .pathIndex .. => tagged 4 "path" .tail
      | .nodePath .. => tagged 4 "node_path" .tail
      | .propertyIndex _ published _ _ _ _ =>
          tagged 4 (if published then "prop_pub" else "prop") (.beforeTrailing 1)
      | .referenceForward _ published _ _ _ =>
          tagged 4 (if published then "ref_pub" else "ref") .tail
      | .referenceReverse _ published _ _ _ _ _ =>
          tagged 4 (if published then "ref_rev_pub" else "ref_rev") .tail
      | .relationForward .. => tagged 4 "rel" (.beforeTrailing 1)
      | .relationReverse .. => tagged 4 "rel_rev" (.beforeTrailing 1)
      | .relationGlobal .. => tagged 3 "rel_global" (.beforeTrailing 4)
      | .orderedChild .. => tagged 4 "ordered" (.beforeTrailing 1)
      | .translation .. => tagged 4 "translations" .tail
      | .translationMeta .. => tagged 4 "trans_meta" .tail
      | .blockTranslation .. => tagged 4 "block_trans" .tail
      | .spatialIndex .. => tagged 4 "geo" (.beforeTrailing 1)
      | .compoundIndex _ published _ _ _ _ =>
          tagged 4 (if published then "cidx_pub" else "cidx") (.beforeTrailing 1)
      | .uniqueIndex .. => tagged 4 "uniq" .tail
      | .localizedNameForward .. => tagged 4 "lname" .tail
      | .localizedNameReverse .. => tagged 4 "lname_of" .tail
      | _ => ⟨4, none, .tail⟩

theorem VersionedKey.isLayoutOf {target : GcTarget} (isTarget : target ∈ gcTargets)
    (entry : VersionedKey target) (ordinary : entry.key.Ordinary) :
    IsLayoutOf entry entry.key.ownLayout := by
  have row := entry.row isTarget
  have revised := entry.hasRevision
  obtain ⟨scope, key, revision, ofFamily, hasRevision, leadFree, trailFree, fits⟩ := entry
  rcases key with key | _ | _
  · cases key
    case lastChildMetadata => cases revised
    case embeddingLegacy => exact ordinary.elim
    case nodetype | nodetypeVersionIndex | archetype | archetypeVersionIndex | elementType |
      elementTypeVersionIndex | nodeDelete | secret => cases row
    case propertyIndex published _ _ _ _ | referenceForward published _ _ _ |
      referenceReverse published _ _ _ _ _ | compoundIndex published _ _ _ _ =>
      obtain rfl := Option.some.inj row
      cases published <;> constructor <;>
        simp [lead, trail, HistoryKey.layout, BranchKey.layout, recognises, tagged,
          KeyPart.bytes, HistoryKey.ownLayout]
    case relationGlobal =>
      obtain rfl := Option.some.inj row
      obtain ⟨notForward, notReverse⟩ := ordinary
      constructor <;>
        simp [lead, trail, HistoryKey.layout, BranchKey.layout, recognises, tagged,
          KeyPart.bytes, HistoryKey.ownLayout, notForward, notReverse]
    all_goals
      obtain rfl := Option.some.inj row
      constructor <;>
        simp [lead, trail, HistoryKey.layout, BranchKey.layout, recognises, tagged,
          KeyPart.bytes, HistoryKey.ownLayout]
  all_goals
    obtain rfl := Option.some.inj row
    constructor <;>
      simp [lead, trail, HistoryKey.layout, recognises, tagged, KeyPart.bytes, HistoryKey.ownLayout]

/-! ## Which keys are located -/

namespace VersionedKey

variable {target : GcTarget}

theorem isLocated_of_ordinary (isTarget : target ∈ gcTargets) (entry : VersionedKey target)
    (ordinary : entry.key.Ordinary) : entry.IsLocated := by
  have own := entry.isLayoutOf isTarget ordinary
  obtain ⟨scopeEnd, found⟩ := locateIn_versioned target.branchScoped
    (fun layout isLayout => entry.inReach isTarget isLayout) own.first own.entity
    entry.mem_trail_free (length_encodeDescending entry.revision) own.counts
  rw [← entry.bytes_eq] at found
  exact ⟨_, found, rfl⟩

end VersionedKey

/-- A legacy embedding has nothing between the segment taken for its tag and its revision. -/
theorem locate_embeddingLegacy {target : GcTarget} (isTarget : target ∈ gcTargets)
    (entry : VersionedKey target) {workspace nodeId : String} {revision : HLC}
    (legacy : entry.key = .branch (.embeddingLegacy workspace nodeId revision)) :
    locate target entry.bytes = none := by
  have row := entry.row isTarget
  rw [legacy] at row
  obtain rfl := Option.some.inj row
  have lead_eq : entry.lead.length = 5 ∧ entry.trail = [] := by
    rw [VersionedKey.lead, VersionedKey.trail, legacy]
    exact ⟨rfl, rfl⟩
  have reach : InReach entry.lead ⟨4, none, .tail⟩ := entry.inReach isTarget mem_cons_self
  rw [locate, entry.bytes_eq]
  refine locateIn_without_entity true reach rfl lead_eq.1 entry.mem_trail_free
    (length_encodeDescending entry.revision) ?_
  rw [lead_eq.2]
  rfl

/-- After a layout that may stop at a later place, the next ones find the revision. -/
theorem VersionedKey.isLocated_shifted {target : GcTarget} {entry : VersionedKey target}
    {layout : TagLayout} {others : List TagLayout} {condition : Prop} [Decidable condition]
    {scopeEnd scopeEnd' shift : Nat} (positive : 0 < shift)
    (all : locate target entry.bytes = locateIn target.branchScoped entry.bytes (layout :: others))
    (tried : tryLayout target.branchScoped entry.bytes layout =
      if condition then .found ⟨scopeEnd, (closed entry.lead).length + shift⟩ else .otherShape)
    (later : locateIn target.branchScoped entry.bytes others =
      some ⟨scopeEnd', (closed entry.lead).length⟩) : entry.IsLocated ↔ ¬condition := by
  rw [VersionedKey.IsLocated, all, locateIn, tried]
  by_cases holds : condition
  · rw [if_pos holds]
    refine ⟨?_, fun fails => absurd holds fails⟩
    rintro ⟨located, found, place⟩
    obtain rfl := Option.some.inj found
    rw [VersionedKey.revisionStart] at place
    dsimp only at place
    omega
  · rw [if_neg holds]
    exact ⟨fun _ => holds, fun _ => ⟨_, later, rfl⟩⟩

/-- A global relation whose type is a tag is located when the sixteen bytes before its last name do
not follow a separator. -/
theorem isLocated_taggedGlobal {target : GcTarget} (isTarget : target ∈ gcTargets)
    (entry : VersionedKey target) {relationType sourceWorkspace sourceNodeId targetWorkspace
      targetNodeId : String} {revision : HLC}
    (global : entry.key = .branch (.relationGlobal relationType revision sourceWorkspace
      sourceNodeId targetWorkspace targetNodeId))
    (isTag : relationType = "rel" ∨ relationType = "rel_rev") :
    entry.IsLocated ↔
      ¬EndsInSixteen revision sourceWorkspace sourceNodeId targetWorkspace := by
  have row := entry.row isTarget
  have revised := entry.hasRevision
  rw [global] at row revised
  obtain rfl := Option.some.inj row
  obtain rfl := Option.some.inj revised
  have trailFree := entry.mem_trail_free
  have leadFree := entry.first_free
  have lead_eq : entry.lead = [utf8Bytes entry.scope.tenantId, utf8Bytes entry.scope.repoId,
      utf8Bytes entry.scope.branch, utf8Bytes "rel_global"] ++ [utf8Bytes relationType] := by
    rw [VersionedKey.lead, global]
    rfl
  have trail_eq : entry.trail = [utf8Bytes sourceWorkspace, utf8Bytes sourceNodeId,
      utf8Bytes targetWorkspace] ++ [utf8Bytes targetNodeId] := by
    rw [VersionedKey.trail, global]
    rfl
  have free : ∀ part ∈ [utf8Bytes entry.scope.tenantId, utf8Bytes entry.scope.repoId,
      utf8Bytes entry.scope.branch, utf8Bytes "rel_global"] ++ [utf8Bytes relationType],
      sep ∉ part := by
    rw [← lead_eq]
    intro part hpart
    refine leadFree part ?_
    rwa [take_of_length_le (by rw [lead_eq]; rfl)]
  have lastFree : sep ∉ utf8Bytes targetNodeId :=
    trailFree _ (by rw [trail_eq]; exact mem_append_right _ mem_cons_self)
  obtain ⟨scopeEnd, shifted⟩ := tryLayout_shifted true
    (tagged 4 relationType (.beforeTrailing 1)) lead_eq free rfl (by simp) rfl rfl lastFree
    (length_encodeDescending entry.revision) (cons_ne_nil (utf8Bytes sourceWorkspace)
      [utf8Bytes sourceNodeId, utf8Bytes targetWorkspace]) rfl
  rw [← trail_eq, ← entry.bytes_eq, ← build_trail] at shifted
  have positive : 0 < ([utf8Bytes sourceWorkspace, utf8Bytes sourceNodeId,
      utf8Bytes targetWorkspace].flatMap (sep :: ·)).length := by
    rw [flatMap_cons, cons_append, length_cons]
    omega
  have own : ∀ others : List TagLayout, others ⊆ [tagged 4 "rel_rev" (.beforeTrailing 1),
      tagged 3 "rel_global" (.beforeTrailing 4)] →
      others.find? (recognises entry.lead) = some (tagged 3 "rel_global" (.beforeTrailing 4)) →
      ∃ scopeEnd, locateIn true entry.bytes others =
        some ⟨scopeEnd, (closed entry.lead).length⟩ := by
    intro others subset found
    rw [entry.bytes_eq]
    refine locateIn_versioned true (fun layout isLayout => entry.inReach isTarget
      (mem_cons_of_mem _ (subset isLayout))) found ?_ trailFree
      (length_encodeDescending entry.revision) ?_
    · rw [lead_eq]
      exact Nat.lt_add_one 4
    · rw [trail_eq]
      rfl
  rcases isTag with rfl | rfl
  · obtain ⟨scopeEnd', later⟩ := own _ (Subset.refl _) (by
      rw [lead_eq]
      simp [recognises, tagged])
    exact VersionedKey.isLocated_shifted positive rfl shifted later
  · obtain ⟨scopeEnd', later⟩ := own [tagged 3 "rel_global" (.beforeTrailing 4)] (by simp) (by
      rw [lead_eq]
      simp [recognises, tagged])
    have passed : tryLayout true entry.bytes (tagged 4 "rel" (.beforeTrailing 1)) =
        .otherShape := by
      rw [entry.bytes_eq]
      refine tryLayout_unrecognised (entry.inReach isTarget mem_cons_self) ?_
      rw [lead_eq]
      simp [recognises, tagged]
    refine VersionedKey.isLocated_shifted positive ?_ shifted later
    rw [locate]
    show locateIn true entry.bytes (tagged 4 "rel" (.beforeTrailing 1) :: _) = _
    rw [locateIn, passed]

/-- What the table finds is exactly what is not misread. -/
theorem VersionedKey.isLocated_iff {target : GcTarget} (isTarget : target ∈ gcTargets)
    (entry : VersionedKey target) : entry.IsLocated ↔ ¬entry.key.Misread := by
  have located := entry.isLocated_of_ordinary isTarget
  rcases known : entry.key with key | _ | _
  · cases key
    case embeddingLegacy =>
      have nowhere := locate_embeddingLegacy isTarget entry known
      refine ⟨?_, fun readable => absurd trivial readable⟩
      rintro ⟨_, found, _⟩
      rw [nowhere] at found
      cases found
    case relationGlobal relationType revision sourceWorkspace sourceNodeId targetWorkspace _ =>
      by_cases isTag : relationType = "rel" ∨ relationType = "rel_rev"
      · rw [isLocated_taggedGlobal isTarget entry known isTag]
        exact not_congr (and_iff_right isTag).symm
      · have ordinary : entry.key.Ordinary := known ▸ not_or.mp isTag
        exact ⟨fun _ misread => isTag misread.1, fun _ => located ordinary⟩
    all_goals exact ⟨fun _ misread => misread, fun _ => located (known ▸ trivial)⟩
  all_goals exact ⟨fun _ misread => misread, fun _ => located (known ▸ trivial)⟩

/-! ## Groups -/

/-- Families whose segments are all names. -/
def GcFamily.isNamed : GcFamily → Bool
  | .branch .propertyIndex | .branch .compoundIndex | .branch .embeddings => false
  | _ => true

/-- How many names a family writes behind the revision. -/
def trailingNames : GcFamily → Nat → Nat
  | .branch .propertyIndex, _ => 1
  | .branch .orderedChildren, _ => 1
  | .branch .spatialIndex, _ => 1
  | .branch .compoundIndex, _ => 1
  | .branch .relationIndex, leading => if leading = 5 then 4 else 1
  | _, _ => 0

namespace VersionedKey

variable {target : GcTarget} {first second : VersionedKey target}

theorem lead_ne_nil (isTarget : target ∈ gcTargets) (entry : VersionedKey target) :
    entry.lead ≠ [] := by
  have long := entry.length_lead isTarget
  intro empty
  rw [empty, length_nil] at long
  split at long <;> omega

theorem length_trail (isTarget : target ∈ gcTargets) (entry : VersionedKey target) :
    entry.trail.length = trailingNames target.cf entry.lead.length := by
  have row := entry.row isTarget
  have revised := entry.hasRevision
  rw [← entry.ofFamily, trail, lead, length_map, length_map]
  rcases known : entry.key with key | _ | _
  · rw [known] at row revised
    cases key
    case lastChildMetadata => cases revised
    case nodetype | nodetypeVersionIndex | archetype | archetypeVersionIndex | elementType |
      elementTypeVersionIndex | nodeDelete | secret => cases row
    all_goals rfl
  all_goals rfl

theorem lead_free (isTarget : target ∈ gcTargets) (named : target.cf.isNamed)
    (entry : VersionedKey target) : ∀ part ∈ entry.lead, sep ∉ part := by
  have row := entry.row isTarget
  have texts : ∀ part ∈ (entry.key.layout entry.scope).lead, ∃ value, part = .text value := by
    rw [← entry.ofFamily] at named
    rcases known : entry.key with key | _ | _
    · rw [known] at row named
      cases key
      case propertyIndex | compoundIndex | embeddingV2 | embeddingLegacy => cases named
      all_goals simp [HistoryKey.layout, BranchKey.layout]
    all_goals simp [HistoryKey.layout]
  intro part hpart
  refine entry.free_of_texts entry.lead.length ?_ part (by rwa [take_length])
  exact fun part hpart => texts part (mem_of_mem_take hpart)

/-- Names that lead, and what follows them. -/
theorem lead_of_layout {entry : VersionedKey target} {names : List String} {others : List KeyPart}
    (shape : (entry.key.layout entry.scope).lead = names.map .text ++ others) :
    entry.lead = names.map utf8Bytes ++ others.map KeyPart.bytes ∧
      ∀ part ∈ names.map utf8Bytes, sep ∉ part := by
  refine ⟨by simp [lead, shape, Function.comp_def, KeyPart.bytes], fun part hpart => ?_⟩
  obtain ⟨name, hname, rfl⟩ := mem_map.mp hpart
  refine entry.leadFree name ?_
  rw [shape]
  exact mem_append_left _ (mem_map_of_mem hname)

end VersionedKey

theorem HistoryKey.property_shape {key : HistoryKey} (scope : KeyScope)
    (property : key.family = .branch .propertyIndex) :
    ∃ (names : List String) (value : KeyPart), names.length = 6 ∧
      (key.layout scope).lead = names.map .text ++ [value] := by
  rcases key with key | _ | _
  · cases key
    case propertyIndex workspace published propertyName value revision nodeId =>
      exact ⟨[scope.tenantId, scope.repoId, scope.branch, workspace,
        if published then "prop_pub" else "prop", propertyName], value.part, rfl, rfl⟩
    all_goals cases property
  all_goals cases property

theorem HistoryKey.embedding_shape {key : HistoryKey} (scope : KeyScope)
    (embedding : key.family = .branch .embeddings) (readable : ¬key.Misread) :
    ∃ (names : List String) (kind : UInt8) (source chunk : String), names.length = 5 ∧
      (key.layout scope).lead =
        names.map .text ++ [.raw [kind], .text source, .text chunk] := by
  rcases key with key | _ | _
  · cases key
    case embeddingV2 workspace embedderHash kind sourceId chunkIdx revision =>
      exact ⟨[scope.tenantId, scope.repoId, scope.branch, workspace, embedderHash],
        UInt8.ofNat kind.toNat, sourceId, chunkText chunkIdx, rfl, rfl⟩
    case embeddingLegacy => exact absurd trivial readable
    all_goals cases embedding
  all_goals cases embedding

theorem HistoryKey.compound_shape {key : HistoryKey}
    (compound : key.family = .branch .compoundIndex) :
    ∃ workspace published indexName columns revision nodeId,
      key = .branch (.compoundIndex workspace published indexName columns revision nodeId) := by
  rcases key with key | _ | _
  · cases key
    case compoundIndex => exact ⟨_, _, _, _, _, _, rfl⟩
    all_goals cases compound
  all_goals cases compound

namespace VersionedKey

variable {target : GcTarget} {first second : VersionedKey target}

theorem eq_lead_of_property (property : target.cf = .branch .propertyIndex)
    (same : closed first.lead = closed second.lead) : first.lead = second.lead := by
  obtain ⟨names, value, length, shape⟩ :=
    HistoryKey.property_shape first.scope (first.ofFamily.trans property)
  obtain ⟨names', value', length', shape'⟩ :=
    HistoryKey.property_shape second.scope (second.ofFamily.trans property)
  obtain ⟨lead_eq, free⟩ := lead_of_layout shape
  obtain ⟨lead_eq', free'⟩ := lead_of_layout shape'
  rw [lead_eq, lead_eq'] at same ⊢
  obtain ⟨names_eq, rest⟩ := closed_take free free' (by simp [length, length']) same
  have value_eq : value.bytes = value'.bytes := by simpa using rest
  rw [names_eq, map_singleton, map_singleton, value_eq]

theorem eq_lead_of_embedding (embedding : target.cf = .branch .embeddings)
    (readable : ¬first.key.Misread) (readable' : ¬second.key.Misread)
    (same : closed first.lead = closed second.lead) : first.lead = second.lead := by
  obtain ⟨names, kind, source, chunk, length, shape⟩ :=
    HistoryKey.embedding_shape first.scope (first.ofFamily.trans embedding) readable
  obtain ⟨names', kind', source', chunk', length', shape'⟩ :=
    HistoryKey.embedding_shape second.scope (second.ofFamily.trans embedding) readable'
  obtain ⟨lead_eq, free⟩ := lead_of_layout shape
  obtain ⟨lead_eq', free'⟩ := lead_of_layout shape'
  have texts : ∀ part ∈ [utf8Bytes source, utf8Bytes chunk], sep ∉ part := by
    simpa using
      ⟨first.leadFree source (by simp [shape]), first.leadFree chunk (by simp [shape])⟩
  have texts' : ∀ part ∈ [utf8Bytes source', utf8Bytes chunk'], sep ∉ part := by
    simpa using
      ⟨second.leadFree source' (by simp [shape']), second.leadFree chunk' (by simp [shape'])⟩
  rw [lead_eq, lead_eq'] at same ⊢
  obtain ⟨names_eq, rest⟩ := closed_take free free' (by simp [length, length']) same
  -- the kind is one byte, whichever it is
  simp only [map_cons, map_nil, KeyPart.bytes] at rest ⊢
  rw [closed_cons [kind], closed_cons [kind'], singleton_append, singleton_append] at rest
  obtain ⟨kind_eq, later⟩ := cons.inj rest
  rw [names_eq, kind_eq, closed_injective texts texts' (cons.inj later).2]

theorem compound_lead {entry : VersionedKey target} {workspace indexName nodeId : String}
    {published : Bool} {columns : List CompoundColumnValue} {revision : HLC}
    (key_eq : entry.key =
      .branch (.compoundIndex workspace published indexName columns revision nodeId)) :
    (entry.key.layout entry.scope).lead =
        [entry.scope.tenantId, entry.scope.repoId, entry.scope.branch, workspace,
          if published then "cidx_pub" else "cidx", indexName].map .text ++
          columns.map CompoundColumnValue.part ∧
      entry.trail = [utf8Bytes nodeId] := by
  rw [trail, key_eq]
  exact ⟨rfl, rfl⟩

/-- Keys of a compound index are told apart by their columns, unless these are only divided in
another way. -/
theorem eq_lead_or_dividedApart (compound : target.cf = .branch .compoundIndex)
    (same : closed first.lead = closed second.lead) (trails : first.trail = second.trail) :
    first.lead = second.lead ∨ first.DividedApart second := by
  obtain ⟨workspace, published, indexName, columns, revision, nodeId, key_eq⟩ :=
    HistoryKey.compound_shape (first.ofFamily.trans compound)
  obtain ⟨workspace', published', indexName', columns', revision', nodeId', key_eq'⟩ :=
    HistoryKey.compound_shape (second.ofFamily.trans compound)
  obtain ⟨shape, trail_eq⟩ := compound_lead key_eq
  obtain ⟨shape', trail_eq'⟩ := compound_lead key_eq'
  obtain ⟨lead_eq, free⟩ := lead_of_layout shape
  obtain ⟨lead_eq', free'⟩ := lead_of_layout shape'
  rw [lead_eq, lead_eq'] at same ⊢
  obtain ⟨names_eq, joined⟩ := closed_take free free' (by simp) same
  rw [map_map, map_map] at joined ⊢
  by_cases divided : columns.map (KeyPart.bytes ∘ CompoundColumnValue.part) =
      columns'.map (KeyPart.bytes ∘ CompoundColumnValue.part)
  · exact Or.inl (by rw [names_eq, divided])
  · refine Or.inr ?_
    rw [trail_eq, trail_eq'] at trails
    simp only [map_cons, map_nil, cons.injEq, utf8Bytes_inj, and_true] at names_eq trails
    obtain ⟨tenant, repo, branch, sameWorkspace, tag, sameIndex⟩ := names_eq
    have samePublished : published = published' := by
      cases published <;> cases published' <;> simp at tag ⊢
    have scopes : first.scope = second.scope := by
      rcases known : first.scope with ⟨_, _, _⟩
      rcases known' : second.scope with ⟨_, _, _⟩
      simp only [known, known'] at tenant repo branch
      rw [tenant, repo, branch]
    refine ⟨scopes, ?_⟩
    rw [key_eq, key_eq']
    exact ⟨sameWorkspace, samePublished, sameIndex, trails, joined, divided⟩

theorem dividedApart_lead (apart : first.DividedApart second) :
    closed first.lead = closed second.lead ∧ first.trail = second.trail ∧
      first.lead ≠ second.lead := by
  obtain ⟨scopes, apart⟩ := apart
  unfold HistoryKey.DividedApart at apart
  split at apart
  next workspace published indexName columns revision nodeId workspace' published' indexName'
      columns' revision' nodeId' key_eq key_eq' =>
    obtain ⟨rfl, rfl, rfl, rfl, joined, divided⟩ := apart
    obtain ⟨shape, trail_eq⟩ := compound_lead key_eq
    obtain ⟨shape', trail_eq'⟩ := compound_lead key_eq'
    have lead_eq := (lead_of_layout shape).1
    have lead_eq' := (lead_of_layout shape').1
    rw [← scopes] at lead_eq'
    rw [lead_eq, lead_eq', map_map, map_map, closed_append, closed_append]
    refine ⟨congrArg _ joined, trail_eq.trans trail_eq'.symm, ?_⟩
    exact fun whole => divided (append_cancel_left whole)
  · exact apart.elim

/-- Keys of one group have the same segments. -/
theorem segments_of_group (isTarget : target ∈ gcTargets) (readable : ¬first.key.Misread)
    (readable' : ¬second.key.Misread) (same : closed first.lead = closed second.lead)
    (tails : (first.trail.flatMap (sep :: ·)).drop 1 = (second.trail.flatMap (sep :: ·)).drop 1) :
    first.SameEntity second ∨ first.DividedApart second := by
  have trails : first.lead.length = second.lead.length ∨
      (target.cf = .branch .propertyIndex ∨ target.cf = .branch .compoundIndex ∨
        target.cf = .branch .embeddings) → first.trail = second.trail := by
    intro known
    refine trail_injective first.mem_trail_free second.mem_trail_free ?_ tails
    rw [first.length_trail isTarget, second.length_trail isTarget]
    rcases known with length | property | compound | embedding
    · rw [length]
    · rw [property]; rfl
    · rw [compound]; rfl
    · rw [embedding]; rfl
  cases named : target.cf.isNamed with
  | true =>
    have leads := closed_injective (first.lead_free isTarget named)
      (second.lead_free isTarget named) same
    exact Or.inl ⟨leads, trails (Or.inl (congrArg length leads))⟩
  | false =>
    have unnamed : target.cf = .branch .propertyIndex ∨ target.cf = .branch .compoundIndex ∨
        target.cf = .branch .embeddings := by
      revert named
      rcases target.cf with cf | _
      · cases cf <;> simp [GcFamily.isNamed]
      · simp [GcFamily.isNamed]
    have trails_eq := trails (Or.inr unnamed)
    rcases unnamed with property | compound | embedding
    · exact Or.inl ⟨eq_lead_of_property property same, trails_eq⟩
    · rcases eq_lead_or_dividedApart compound same trails_eq with leads | apart
      · exact Or.inl ⟨leads, trails_eq⟩
      · exact Or.inr apart
    · exact Or.inl ⟨eq_lead_of_embedding embedding readable readable' same, trails_eq⟩

/-- The group of a key that is located. -/
theorem groupOf_eq (isTarget : target ∈ gcTargets) {entry : VersionedKey target}
    (located : entry.IsLocated) :
    ∃ chunk, chunk ++ [sep] = closed entry.lead ∧
      groupOf target entry.bytes = some (chunk, (entry.trail.flatMap (sep :: ·)).drop 1) := by
  obtain ⟨⟨scopeEnd, revStart⟩, found, rfl⟩ := located
  refine ⟨Located.chunk ⟨scopeEnd, entry.revisionStart⟩ entry.bytes, ?_, ?_⟩
  · rw [entry.bytes_eq]
    exact chunk_versioned (entry.lead_ne_nil isTarget) scopeEnd
  · rw [groupOf, found, Option.map_some]
    congr 2
    rw [entry.bytes_eq]
    exact tail_versioned (length_encodeDescending _) scopeEnd

theorem sameGroup_iff (isTarget : target ∈ gcTargets) (located : first.IsLocated)
    (located' : second.IsLocated) :
    first.SameGroup second ↔ closed first.lead = closed second.lead ∧
      (first.trail.flatMap (sep :: ·)).drop 1 = (second.trail.flatMap (sep :: ·)).drop 1 := by
  obtain ⟨chunk, chunk_eq, group⟩ := groupOf_eq isTarget located
  obtain ⟨chunk', chunk_eq', group'⟩ := groupOf_eq isTarget located'
  rw [SameGroup, group, group', ← chunk_eq, ← chunk_eq', append_left_inj]
  constructor
  · rintro ⟨_, here, there⟩
    exact Prod.mk.inj (Option.some.inj (here.trans there.symm))
  · rintro ⟨chunks, tails⟩
    exact ⟨_, rfl, by rw [chunks, tails]⟩

/-- Two keys are located and told apart exactly when neither is misread and they do not differ in
the division of their columns alone. -/
theorem toldApart_iff (isTarget : target ∈ gcTargets) (first second : VersionedKey target) :
    first.ToldApart second ↔
      ¬first.key.Misread ∧ ¬second.key.Misread ∧ ¬first.DividedApart second := by
  rw [ToldApart, first.isLocated_iff isTarget, second.isLocated_iff isTarget]
  refine and_congr_right fun readable => and_congr_right fun readable' => ?_
  rw [sameGroup_iff isTarget ((first.isLocated_iff isTarget).mpr readable)
    ((second.isLocated_iff isTarget).mpr readable')]
  constructor
  · intro exact_groups apart
    obtain ⟨same, trails, differ⟩ := dividedApart_lead apart
    exact differ (exact_groups.mp ⟨same, by rw [trails]⟩).1
  · intro undivided
    constructor
    · rintro ⟨same, tails⟩
      exact (segments_of_group isTarget readable readable' same tails).resolve_right undivided
    · rintro ⟨leads, trails⟩
      exact ⟨by rw [leads], by rw [trails]⟩

end VersionedKey

/-! ## Global relations -/

def relationTarget : GcTarget :=
  ⟨.branch .relationIndex, true, [tagged 4 "rel" (.beforeTrailing 1),
    tagged 4 "rel_rev" (.beforeTrailing 1), tagged 3 "rel_global" (.beforeTrailing 4)], false⟩

/-- A relation between two pages, to a copy in a workspace. -/
def pageRelation (relationType targetWorkspace : String) (typeFree : NulFree relationType)
    (workspaceFree : NulFree targetWorkspace) : VersionedKey relationTarget where
  scope := ⟨"acme", "web", "main"⟩
  key := .branch (.relationGlobal relationType ⟨5, 0⟩ "team" "page-1" targetWorkspace "page-2")
  revision := ⟨5, 0⟩
  ofFamily := rfl
  hasRevision := rfl
  leadFree value mem := by
    simp only [HistoryKey.layout, BranchKey.layout, mem_cons, KeyPart.text.injEq, not_mem_nil,
      or_false] at mem
    rcases mem with rfl | rfl | rfl | rfl | rfl
    · decide
    · decide
    · decide
    · decide
    · exact typeFree
  trailFree value mem := by
    simp only [HistoryKey.layout, BranchKey.layout, mem_cons, not_mem_nil, or_false] at mem
    rcases mem with rfl | rfl | rfl | rfl
    · decide
    · decide
    · exact workspaceFree
    · decide
  fits := ⟨by decide, by decide⟩

def citesArchived : VersionedKey relationTarget :=
  pageRelation "cites" "content-archived" (by decide) (by decide)

def citesReleased : VersionedKey relationTarget :=
  pageRelation "cites" "content-released" (by decide) (by decide)

theorem citations_are_told_apart : citesArchived.ToldApart citesReleased :=
  (VersionedKey.toldApart_iff (by decide) citesArchived citesReleased).mpr
    ⟨by simp [citesArchived, pageRelation, HistoryKey.Misread],
      by simp [citesReleased, pageRelation, HistoryKey.Misread], fun apart => apart.2⟩

/-- The same relations under a type that is a tag: the workspace has sixteen letters. -/
def relArchived : VersionedKey relationTarget :=
  pageRelation "rel" "content-archived" (by decide) (by decide)

def relReleased : VersionedKey relationTarget :=
  pageRelation "rel" "content-released" (by decide) (by decide)

/-- The names of the workspaces are read as revisions of one entity. -/
theorem workspaces_become_revisions :
    relArchived.SameGroup relReleased ∧ ¬relArchived.SameEntity relReleased ∧
      ¬relArchived.ToldApart relReleased := by
  have same : relArchived.SameGroup relReleased := by
    refine ⟨(closed [utf8Bytes "acme", utf8Bytes "web", utf8Bytes "main", utf8Bytes "rel_global",
      utf8Bytes "rel", encodeDescending ⟨5, 0⟩, utf8Bytes "team"] ++ utf8Bytes "page-1",
      utf8Bytes "page-2"), ?_, ?_⟩ <;> decide +kernel
  have differ : ¬relArchived.SameEntity relReleased := by
    rintro ⟨_, trails⟩
    revert trails
    decide +kernel
  exact ⟨same, differ, fun apart => differ (apart.2.2.mp same)⟩

end RaisinDB.History
