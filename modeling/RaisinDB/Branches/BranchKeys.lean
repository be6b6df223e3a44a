import RaisinDB.Clock.HybridClock
import RaisinDB.Oplog.Keys

/-!
# Keys of a branch

Every entry of a branch lies under tenant, repository and branch.  What follows
depends on the column family: names and raw values, a revision of sixteen bytes
that may contain separators, and names again.
-/

namespace RaisinDB.Branches

open RaisinDB.Clock RaisinDB.Foundation RaisinDB.Oplog RaisinDB.Replication List

/-! ## Revisions in keys -/

def maxU64 : Nat := 2 ^ 64 - 1

/-- Newer revisions come first. -/
def encodeDescending (revision : HLC) : List UInt8 :=
  bigEndian 8 (maxU64 - revision.timestampMs) ++ bigEndian 8 (maxU64 - revision.counter)

def decodeDescending (bytes : List UInt8) : Option HLC :=
  if bytes.length = 16 then
    some ⟨maxU64 - ofBigEndian (bytes.take 8), maxU64 - ofBigEndian (bytes.drop 8)⟩
  else none

/-- Both parts of the revision are 64-bit numbers. -/
def Fits (revision : HLC) : Prop := revision.timestampMs ≤ maxU64 ∧ revision.counter ≤ maxU64

@[simp] theorem length_encodeDescending (revision : HLC) :
    (encodeDescending revision).length = 16 := by
  rw [encodeDescending, length_append, length_bigEndian, length_bigEndian]

theorem decode_encodeDescending {revision : HLC} (fits : Fits revision) :
    decodeDescending (encodeDescending revision) = some revision := by
  have small : ∀ part ≤ maxU64, maxU64 - part < 256 ^ 8 := by
    intro part _
    have bound : maxU64 < 256 ^ 8 := by decide
    omega
  rw [decodeDescending, if_pos (length_encodeDescending revision), encodeDescending,
    take_left' (length_bigEndian 8 _), drop_left' (length_bigEndian 8 _),
    ofBigEndian_bigEndian (small _ fits.1), ofBigEndian_bigEndian (small _ fits.2)]
  obtain ⟨timestampMs, counter⟩ := revision
  obtain ⟨stamp, count⟩ := fits
  dsimp only at stamp count ⊢
  rw [Nat.sub_sub_self stamp, Nat.sub_sub_self count]

/-! ## Key constructors -/

/-- A name or the bytes of a value. -/
inductive KeyPart where
  | text (value : String)
  | raw (bytes : List UInt8)
  deriving DecidableEq

def KeyPart.bytes : KeyPart → List UInt8
  | .text value => utf8Bytes value
  | .raw bytes => bytes

/-- A name has no separator. -/
def KeyPart.isFree : KeyPart → Bool
  | .text value => decide (sep ∉ utf8Bytes value)
  | .raw _ => true

/-- The parts of a key in order: those before the revision, the revision, and the names behind
it. -/
structure KeyLayout where
  lead : List KeyPart
  revision : Option HLC
  trail : List String
  deriving DecidableEq

def KeyLayout.parts (layout : KeyLayout) : List (List UInt8) :=
  layout.lead.map KeyPart.bytes ++ layout.revision.toList.map encodeDescending ++
    layout.trail.map utf8Bytes

inductive ColumnFamily where
  | nodes
  | pathIndex
  | nodePath
  | propertyIndex
  | referenceIndex
  | relationIndex
  | orderedChildren
  | nodeTypes
  | archetypes
  | elementTypes
  | translationData
  | blockTranslations
  | spatialIndex
  | compoundIndex
  | uniqueIndex
  | embeddings
  | localizedNameIndex
  | nodeDeletes
  | secrets
  deriving DecidableEq

/-- A column of a compound index, with the bytes it adds to a key. -/
inductive CompoundColumnValue where
  | string (value : String)
  | integer (value : Int)
  | timestampDesc (micros : Int)
  | timestampAsc (micros : Int)
  | boolean (value : Bool)
  deriving DecidableEq

/-- A signed 64-bit number in two's complement. -/
def signedBytes (value : Int) : List UInt8 := bigEndian 8 (value % 2 ^ 64).toNat

def CompoundColumnValue.part : CompoundColumnValue → KeyPart
  | .string value => .text value
  | .integer value => .raw (signedBytes value)
  | .timestampDesc micros => .raw (signedBytes (-micros - 1))
  | .timestampAsc micros => .raw (signedBytes micros)
  | .boolean value => .raw [if value then 1 else 0]

/-- The value of a property in a key. -/
inductive PropertyKeyValue where
  | hash (value : String)
  | timestamp (micros : Int)
  deriving DecidableEq

def PropertyKeyValue.part : PropertyKeyValue → KeyPart
  | .hash value => .text value
  | .timestamp micros => .raw (signedBytes micros)

/-- Four digits, padded with zeros. -/
def chunkText (chunkIdx : Nat) : String :=
  String.ofList (replicate (4 - (toString chunkIdx).length) '0') ++ toString chunkIdx

/-- The keys of the copied column families, one constructor for each key function. -/
inductive BranchKey where
  | node (workspace nodeId : String) (revision : HLC)
  | nodeAdjacency (workspace nodeId : String) (revision : HLC)
  | pathIndex (workspace path : String) (revision : HLC)
  | nodePath (workspace nodeId : String) (revision : HLC)
  | propertyIndex (workspace : String) (published : Bool) (propertyName : String)
      (value : PropertyKeyValue) (revision : HLC) (nodeId : String)
  | referenceForward (workspace : String) (published : Bool) (nodeId propertyPath : String)
      (revision : HLC)
  | referenceReverse (workspace : String) (published : Bool)
      (targetWorkspace targetId sourceNodeId propertyPath : String) (revision : HLC)
  | relationForward (workspace sourceNodeId relationType : String) (revision : HLC)
      (targetNodeId : String)
  | relationReverse (workspace targetNodeId relationType : String) (revision : HLC)
      (sourceNodeId : String)
  | relationGlobal (relationType : String) (revision : HLC)
      (sourceWorkspace sourceNodeId targetWorkspace targetNodeId : String)
  | orderedChild (workspace parentId orderLabel : String) (revision : HLC) (childId : String)
  | lastChildMetadata (workspace parentId : String)
  | nodetype (name : String) (revision : HLC)
  | nodetypeVersionIndex (name : String) (version : Int)
  | archetype (name : String) (revision : HLC)
  | archetypeVersionIndex (name : String) (version : Int)
  | elementType (name : String) (revision : HLC)
  | elementTypeVersionIndex (name : String) (version : Int)
  | translation (workspace nodeId locale : String) (revision : HLC)
  | translationMeta (workspace nodeId locale : String) (revision : HLC)
  | blockTranslation (workspace nodeId blockUuid locale : String) (revision : HLC)
  | spatialIndex (workspace propertyName geohash : String) (revision : HLC) (nodeId : String)
  | compoundIndex (workspace : String) (published : Bool) (indexName : String)
      (columns : List CompoundColumnValue) (revision : HLC) (nodeId : String)
  | uniqueIndex (workspace nodeType propertyName valueHash : String) (revision : HLC)
  | embeddingV2 (workspace embedderHash : String) (kind : Char) (sourceId : String)
      (chunkIdx : Nat) (revision : HLC)
  | embeddingLegacy (workspace nodeId : String) (revision : HLC)
  | localizedNameForward (workspace locale parentId name nodeId : String) (revision : HLC)
  | localizedNameReverse (workspace nodeId locale : String) (revision : HLC)
  | nodeDelete (workspace nodeId : String) (revision : HLC)
  | secret (name : String) (revision : HLC)
  deriving DecidableEq

namespace BranchKey

def columnFamily : BranchKey → ColumnFamily
  | .node .. => .nodes
  | .nodeAdjacency .. => .nodes
  | .pathIndex .. => .pathIndex
  | .nodePath .. => .nodePath
  | .propertyIndex .. => .propertyIndex
  | .referenceForward .. => .referenceIndex
  | .referenceReverse .. => .referenceIndex
  | .relationForward .. => .relationIndex
  | .relationReverse .. => .relationIndex
  | .relationGlobal .. => .relationIndex
  | .orderedChild .. => .orderedChildren
  | .lastChildMetadata .. => .orderedChildren
  | .nodetype .. => .nodeTypes
  | .nodetypeVersionIndex .. => .nodeTypes
  | .archetype .. => .archetypes
  | .archetypeVersionIndex .. => .archetypes
  | .elementType .. => .elementTypes
  | .elementTypeVersionIndex .. => .elementTypes
  | .translation .. => .translationData
  | .translationMeta .. => .translationData
  | .blockTranslation .. => .blockTranslations
  | .spatialIndex .. => .spatialIndex
  | .compoundIndex .. => .compoundIndex
  | .uniqueIndex .. => .uniqueIndex
  | .embeddingV2 .. => .embeddings
  | .embeddingLegacy .. => .embeddings
  | .localizedNameForward .. => .localizedNameIndex
  | .localizedNameReverse .. => .localizedNameIndex
  | .nodeDelete .. => .nodeDeletes
  | .secret .. => .secrets

/-- What follows the branch. -/
def layout : BranchKey → KeyLayout
  | .node workspace nodeId revision =>
      ⟨[.text workspace, .text "nodes", .text nodeId], some revision, []⟩
  | .nodeAdjacency workspace nodeId revision =>
      ⟨[.text workspace, .text "nodes", .text nodeId, .text "adj"], some revision, []⟩
  | .pathIndex workspace path revision =>
      ⟨[.text workspace, .text "path", .text path], some revision, []⟩
  | .nodePath workspace nodeId revision =>
      ⟨[.text workspace, .text "node_path", .text nodeId], some revision, []⟩
  | .propertyIndex workspace published propertyName value revision nodeId =>
      ⟨[.text workspace, .text (if published then "prop_pub" else "prop"), .text propertyName,
        value.part], some revision, [nodeId]⟩
  | .referenceForward workspace published nodeId propertyPath revision =>
      ⟨[.text workspace, .text (if published then "ref_pub" else "ref"), .text nodeId,
        .text propertyPath], some revision, []⟩
  | .referenceReverse workspace published targetWorkspace targetId sourceNodeId propertyPath
      revision =>
      ⟨[.text workspace, .text (if published then "ref_rev_pub" else "ref_rev"),
        .text targetWorkspace, .text targetId, .text sourceNodeId, .text propertyPath],
        some revision, []⟩
  | .relationForward workspace sourceNodeId relationType revision targetNodeId =>
      ⟨[.text workspace, .text "rel", .text sourceNodeId, .text relationType], some revision,
        [targetNodeId]⟩
  | .relationReverse workspace targetNodeId relationType revision sourceNodeId =>
      ⟨[.text workspace, .text "rel_rev", .text targetNodeId, .text relationType], some revision,
        [sourceNodeId]⟩
  | .relationGlobal relationType revision sourceWorkspace sourceNodeId targetWorkspace
      targetNodeId =>
      ⟨[.text "rel_global", .text relationType], some revision,
        [sourceWorkspace, sourceNodeId, targetWorkspace, targetNodeId]⟩
  | .orderedChild workspace parentId orderLabel revision childId =>
      ⟨[.text workspace, .text "ordered", .text parentId, .text orderLabel], some revision,
        [childId]⟩
  | .lastChildMetadata workspace parentId =>
      ⟨[.text workspace, .text "ordered", .text parentId, .text "\uFFFFMETA", .text "LAST"],
        none, []⟩
  | .nodetype name revision => ⟨[.text "nodetypes", .text name], some revision, []⟩
  | .nodetypeVersionIndex name version =>
      ⟨[.text "nodetype_versions", .text name, .text (toString version)], none, []⟩
  | .archetype name revision => ⟨[.text "archetypes", .text name], some revision, []⟩
  | .archetypeVersionIndex name version =>
      ⟨[.text "archetype_versions", .text name, .text (toString version)], none, []⟩
  | .elementType name revision => ⟨[.text "element_types", .text name], some revision, []⟩
  | .elementTypeVersionIndex name version =>
      ⟨[.text "element_type_versions", .text name, .text (toString version)], none, []⟩
  | .translation workspace nodeId locale revision =>
      ⟨[.text workspace, .text "translations", .text nodeId, .text locale], some revision, []⟩
  | .translationMeta workspace nodeId locale revision =>
      ⟨[.text workspace, .text "trans_meta", .text nodeId, .text locale], some revision, []⟩
  | .blockTranslation workspace nodeId blockUuid locale revision =>
      ⟨[.text workspace, .text "block_trans", .text nodeId, .text blockUuid, .text locale],
        some revision, []⟩
  | .spatialIndex workspace propertyName geohash revision nodeId =>
      ⟨[.text workspace, .text "geo", .text propertyName, .text geohash], some revision, [nodeId]⟩
  | .compoundIndex workspace published indexName columns revision nodeId =>
      ⟨[.text workspace, .text (if published then "cidx_pub" else "cidx"), .text indexName] ++
        columns.map CompoundColumnValue.part, some revision, [nodeId]⟩
  | .uniqueIndex workspace nodeType propertyName valueHash revision =>
      ⟨[.text workspace, .text "uniq", .text nodeType, .text propertyName, .text valueHash],
        some revision, []⟩
  | .embeddingV2 workspace embedderHash kind sourceId chunkIdx revision =>
      ⟨[.text workspace, .text embedderHash, .raw [UInt8.ofNat kind.toNat], .text sourceId,
        .text (chunkText chunkIdx)], some revision, []⟩
  | .embeddingLegacy workspace nodeId revision =>
      ⟨[.text workspace, .text nodeId], some revision, []⟩
  | .localizedNameForward workspace locale parentId name nodeId revision =>
      ⟨[.text workspace, .text "lname", .text locale, .text parentId, .text name, .text nodeId],
        some revision, []⟩
  | .localizedNameReverse workspace nodeId locale revision =>
      ⟨[.text workspace, .text "lname_of", .text nodeId, .text locale], some revision, []⟩
  | .nodeDelete workspace nodeId revision => ⟨[.text workspace, .text nodeId], some revision, []⟩
  | .secret name revision => ⟨[.text name], some revision, []⟩

/-- The bytes behind the separator that follows the branch. -/
def rest (key : BranchKey) : List UInt8 := build key.layout.parts

/-- `{tenant}\0{repo}\0{branch}\0…` -/
def bytes (tenantId repoId branch : String) (key : BranchKey) : Key :=
  build ([utf8Bytes tenantId, utf8Bytes repoId, utf8Bytes branch] ++ key.layout.parts)

/-- Names are free of separators and the revision fits. -/
structure WellFormed (key : BranchKey) : Prop where
  lead : ∀ value, .text value ∈ key.layout.lead → NulFree value
  trail : ∀ value ∈ key.layout.trail, NulFree value
  revision : ∀ revision ∈ key.layout.revision, Fits revision

theorem wellFormed_iff {key : BranchKey} :
    key.WellFormed ↔ (∀ part ∈ key.layout.lead, part.isFree) ∧
      (∀ value ∈ key.layout.trail, sep ∉ utf8Bytes value) ∧
      ∀ revision ∈ key.layout.revision,
        revision.timestampMs ≤ maxU64 ∧ revision.counter ≤ maxU64 := by
  constructor
  · refine fun wellFormed => ⟨fun part hpart => ?_, wellFormed.trail, wellFormed.revision⟩
    cases part with
    | text value => exact decide_eq_true (wellFormed.lead value hpart)
    | raw bytes => rfl
  · rintro ⟨lead, trail, revision⟩
    exact ⟨fun value hvalue => of_decide_eq_true (lead _ hvalue), trail, revision⟩

instance (key : BranchKey) : Decidable key.WellFormed := decidable_of_iff _ wellFormed_iff.symm

/-- The revision that an entry was written at.  The version lookups keep it in the value, and
the cached last label has none. -/
def trueRevision (value : List UInt8) : BranchKey → Option HLC
  | .nodetypeVersionIndex .. | .archetypeVersionIndex .. | .elementTypeVersionIndex .. =>
      decodeDescending value
  | key => key.layout.revision

end BranchKey

/-! ## Shapes -/

/-- `{tenant}\0{repo}\0{branch}\0` -/
def branchPrefix (tenantId repoId branch : String) : Key :=
  buildPrefix [utf8Bytes tenantId, utf8Bytes repoId, utf8Bytes branch]

theorem build_cons_cons (first second : List UInt8) (others : List (List UInt8)) :
    build (first :: second :: others) = first ++ sep :: build (second :: others) := by
  simp [build, intercalate]

theorem build_singleton (part : List UInt8) : build [part] = part := by
  simp [build, intercalate]

theorem build_trail (first : List UInt8) (others : List (List UInt8)) :
    build (first :: others) = first ++ others.flatMap (sep :: ·) := by
  induction others generalizing first with
  | nil => rw [build_singleton, flatMap_nil, append_nil]
  | cons second others ih => rw [build_cons_cons, ih, flatMap_cons, cons_append]

/-- A part inside a key, with separators behind what leads to it and before what follows. -/
theorem build_append_cons (lead : List (List UInt8)) (middle : List UInt8)
    (others : List (List UInt8)) :
    build (lead ++ middle :: others) =
      lead.flatMap (· ++ [sep]) ++ (middle ++ others.flatMap (sep :: ·)) := by
  induction lead with
  | nil => exact build_trail middle others
  | cons first lead ih =>
      have joined : build (first :: (lead ++ middle :: others)) =
          first ++ sep :: build (lead ++ middle :: others) := by
        cases lead with
        | nil => exact build_cons_cons first middle others
        | cons second lead => exact build_cons_cons first second (lead ++ middle :: others)
      rw [cons_append, joined, ih, flatMap_cons]
      simp only [append_assoc, cons_append, nil_append]

theorem BranchKey.layout_lead_ne_nil (key : BranchKey) : key.layout.lead ≠ [] := by
  cases key <;> exact cons_ne_nil _ _

theorem BranchKey.bytes_eq (tenantId repoId branch : String) (key : BranchKey) :
    key.bytes tenantId repoId branch = branchPrefix tenantId repoId branch ++ key.rest := by
  have shape : ∃ first others, key.layout.parts = first :: others := by
    obtain ⟨first, lead, lead_eq⟩ := exists_cons_of_ne_nil key.layout_lead_ne_nil
    rw [KeyLayout.parts, lead_eq]
    exact ⟨_, _, rfl⟩
  obtain ⟨first, others, parts_eq⟩ := shape
  rw [BranchKey.bytes, BranchKey.rest, branchPrefix, buildPrefix, parts_eq]
  simp only [cons_append, nil_append, build_cons_cons, build_singleton, append_assoc]

/-- A versioned key has its revision between what leads to it and the names behind it. -/
theorem BranchKey.rest_eq {key : BranchKey} {revision : HLC}
    (versioned : key.layout.revision = some revision) :
    key.rest = (key.layout.lead.map KeyPart.bytes).flatMap (· ++ [sep]) ++
      encodeDescending revision ++ (key.layout.trail.map utf8Bytes).flatMap (sep :: ·) := by
  rw [BranchKey.rest, KeyLayout.parts, versioned, append_assoc]
  exact (build_append_cons _ _ _).trans (append_assoc _ _ _).symm

end RaisinDB.Branches
