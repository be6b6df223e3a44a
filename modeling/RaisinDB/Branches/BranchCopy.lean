import RaisinDB.Branches.BranchKeys
import RaisinDB.Foundation.OrderedStore

/-!
# Copying a branch

A fork takes the entries of its source up to a revision, column family by column
family.  The revision of an entry is located in its key, by a rule for each column
family, and the key is put together again under the new branch.
-/

namespace RaisinDB.Branches

open RaisinDB.Clock RaisinDB.Foundation RaisinDB.Oplog RaisinDB.Replication List

/-! ## The registry -/

inductive RevisionLocator where
  | tail
  | beforeTrailingSegments (count : Nat)
  | relationIndex
  | spatialKey
  | schemaOrVersionValue
  deriving DecidableEq

structure CopyPlan where
  revision : RevisionLocator
  honourMaxRevision : Bool

def copied (revision : RevisionLocator) : CopyPlan := ⟨revision, true⟩

def copiedUnbounded (revision : RevisionLocator) : CopyPlan := ⟨revision, false⟩

def copyPlan : ColumnFamily → CopyPlan
  | .nodes => copied .tail
  | .pathIndex => copied .tail
  | .nodePath => copied .tail
  | .propertyIndex => copied (.beforeTrailingSegments 1)
  | .referenceIndex => copied .tail
  | .relationIndex => copied .relationIndex
  | .orderedChildren => copied (.beforeTrailingSegments 1)
  | .nodeTypes => copied .schemaOrVersionValue
  | .archetypes => copied .schemaOrVersionValue
  | .elementTypes => copied .schemaOrVersionValue
  | .translationData => copied .tail
  | .blockTranslations => copied .tail
  | .spatialIndex => copied .spatialKey
  | .compoundIndex => copied (.beforeTrailingSegments 1)
  | .uniqueIndex => copied .tail
  | .embeddings => copied .tail
  | .localizedNameIndex => copied .tail
  | .nodeDeletes => copied .tail
  | .secrets => copiedUnbounded .tail

/-- The column families in copy order. -/
def cfsToCopy : List ColumnFamily :=
  [.nodes, .pathIndex, .nodePath, .propertyIndex, .referenceIndex, .relationIndex,
    .orderedChildren, .nodeTypes, .archetypes, .elementTypes, .translationData,
    .blockTranslations, .spatialIndex, .compoundIndex, .uniqueIndex, .embeddings,
    .localizedNameIndex, .nodeDeletes, .secrets]

/-! ## Locating a revision -/

/-- The last sixteen bytes. -/
def extractRevisionFromKey (key : List UInt8) : Option HLC :=
  if key.length < 16 then none else decodeDescending (key.drop (key.length - 16))

/-- What stands before the last separator. -/
def beforeLastSep (key : List UInt8) : Option (List UInt8) :=
  match key.reverse.dropWhile (· ≠ sep) with
  | [] => none
  | _ :: before => some before.reverse

def beforeTrailing : Nat → List UInt8 → Option (List UInt8)
  | 0, key => some key
  | count + 1, key => (beforeLastSep key).bind (beforeTrailing count)

def revisionBeforeTrailingSegments (key : List UInt8) (count : Nat) : Option HLC :=
  (beforeTrailing count key).bind extractRevisionFromKey

structure ParsedSpatialKey where
  texts : List String
  revision : HLC
  nodeId : String

/-- Well-formed text. -/
def fromUtf8 (bytes : List UInt8) : Option String := String.fromUTF8? bytes.toByteArray

/-- Texts that end with a separator, and what follows them. -/
def takeTexts : Nat → List UInt8 → Option (List String × List UInt8)
  | 0, key => some ([], key)
  | count + 1, key =>
      match key.dropWhile (· ≠ sep) with
      | [] => none
      | _ :: following => do
          let text ← fromUtf8 (key.takeWhile (· ≠ sep))
          let (texts, others) ← takeTexts count following
          return (text :: texts, others)

/-- Six leading texts and the geohash, the revision and the node. -/
def parseSpatialIndexKey (key : List UInt8) : Option ParsedSpatialKey := do
  let (texts, following) ← takeTexts 7 key
  if texts[4]? ≠ some "geo" then none
  else if following.length < 17 then none
  else
    let revision ← decodeDescending (following.take 16)
    if following[16]? ≠ some sep then none
    else
      let nodeId ← fromUtf8 (following.drop 17)
      return ⟨texts, revision, nodeId⟩

/-- The tags of the definitions and of the version lookups. -/
def schemaTags : List (String × String) :=
  [("nodetypes", "nodetype_versions"), ("archetypes", "archetype_versions"),
    ("element_types", "element_type_versions")]

def schemaRevision (parts : List (List UInt8)) (value key : List UInt8) : Option HLC :=
  match parts[3]? with
  | none => none
  | some tag =>
      if tag ∈ schemaTags.map fun tags => utf8Bytes tags.1 then extractRevisionFromKey key
      else if tag ∈ schemaTags.map fun tags => utf8Bytes tags.2 then decodeDescending value
      else none

def locateRevision (locator : RevisionLocator) (key value : List UInt8)
    (parts : List (List UInt8)) : Option HLC :=
  match locator with
  | .tail => extractRevisionFromKey key
  | .beforeTrailingSegments count => revisionBeforeTrailingSegments key count
  | .relationIndex =>
      revisionBeforeTrailingSegments key (if parts[3]? = some (utf8Bytes "rel_global") then 4 else 1)
  | .spatialKey => (parseSpatialIndexKey key).map ParsedSpatialKey.revision
  | .schemaOrVersionValue => schemaRevision parts value key

/-! ## The copy -/

abbrev CfStore := OrderedStore Key (List UInt8)

abbrev Row := Key × List UInt8

def buildKeyWithBranch (parts : List (List UInt8)) (targetBranch : String) : Key :=
  build (parts.set 2 (utf8Bytes targetBranch))

/-- A cursor over the keys of the target, asked in ascending order. -/
def existingContains (cursor : List Row) (key : Key) : List Row × Bool :=
  let ahead := cursor.dropWhile fun row => row.1 < key
  (ahead, ahead.head?.map Prod.fst = some key)

structure CopyState where
  cursor : List Row
  batch : List Row
  touchedParents : List (String × String)

section Copy

variable (tenantId repoId sourceBranch targetBranch : String) (maxRevision : HLC)
  (cf : ColumnFamily)

/-- Keys of the target are its own record of a revision; the version lookups are overwritten. -/
def skipExisting : Bool := (copyPlan cf).revision ≠ .schemaOrVersionValue

/-- The entry is within the bound of the copy. -/
def admits (revision : Option HLC) : Bool :=
  match revision with
  | none => false
  | some revision => !(copyPlan cf).honourMaxRevision || decide (revision ≤ maxRevision)

def touchedParent (parts : List (List UInt8)) : List (String × String) :=
  match parts[3]?, parts[5]? with
  | some workspace, some parent => [(fromUtf8Lossy workspace, fromUtf8Lossy parent)]
  | _, _ => []

def copyRow (state : CopyState) (row : Row) : CopyState :=
  let parts := row.1.splitOn sep
  let newKey := buildKeyWithBranch parts targetBranch
  if admits maxRevision cf (locateRevision (copyPlan cf).revision row.1 row.2 parts) then
    if skipExisting cf then
      let (cursor, present) := existingContains state.cursor newKey
      if present then { state with cursor := cursor }
      else
        { cursor := cursor
          batch := state.batch ++ [(newKey, row.2)]
          touchedParents := state.touchedParents ++
            if cf = .orderedChildren then touchedParent parts else [] }
    else { state with batch := state.batch ++ [(newKey, row.2)] }
  else state

def lastChildMetadataKey (workspace parentId : String) : Key :=
  (BranchKey.lastChildMetadata workspace parentId).bytes tenantId repoId targetBranch

/-- Both iterators see the store as it was before the copy. -/
def copyCfEntries (store : CfStore) : CfStore :=
  let sourcePrefix := branchPrefix tenantId repoId sourceBranch
  let targetPrefix := branchPrefix tenantId repoId targetBranch
  let rows := (store.seek sourcePrefix).takeWhile fun row => sourcePrefix.isPrefixOf row.1
  let existing := store.seek targetPrefix
  let targetHadKeys := existing.head?.any fun row => targetPrefix.isPrefixOf row.1
  let final := rows.foldl (copyRow targetBranch maxRevision cf) ⟨existing, [], []⟩
  let written := final.batch.foldl (fun store row => store.put row.1 row.2) store
  if targetHadKeys then
    final.touchedParents.foldl
      (fun store parent =>
        store.delete (lastChildMetadataKey tenantId repoId targetBranch parent.1 parent.2)) written
  else written

end Copy

abbrev Database := ColumnFamily → CfStore

def copyBranchIndexes (tenantId repoId sourceBranch targetBranch : String) (maxRevision : HLC)
    (db : Database) : Database :=
  cfsToCopy.foldl
    (fun db cf => Function.update db cf
      (copyCfEntries tenantId repoId sourceBranch targetBranch maxRevision cf (db cf))) db

/-! ## Where the revision is found -/

theorem extractRevisionFromKey_append (before : List UInt8) {revision : HLC}
    (fits : Fits revision) :
    extractRevisionFromKey (before ++ encodeDescending revision) = some revision := by
  have length : (before ++ encodeDescending revision).length = before.length + 16 := by
    rw [length_append, length_encodeDescending]
  rw [extractRevisionFromKey, if_neg (by omega), length, Nat.add_sub_cancel, drop_left,
    decode_encodeDescending fits]

theorem beforeLastSep_append {name : List UInt8} (free : sep ∉ name) (before : List UInt8) :
    beforeLastSep (before ++ sep :: name) = some before := by
  have dropped : (before ++ sep :: name).reverse.dropWhile (· ≠ sep) = sep :: before.reverse := by
    rw [reverse_append, reverse_cons, append_assoc, singleton_append,
      dropWhile_append_of_pos, dropWhile_cons_of_neg (by simp)]
    intro byte hbyte
    exact decide_eq_true fun same => free (same ▸ mem_reverse.mp hbyte)
  rw [beforeLastSep, dropped]
  exact congrArg some (reverse_reverse before)

theorem beforeTrailing_append {names : List (List UInt8)} (free : ∀ name ∈ names, sep ∉ name)
    (before : List UInt8) :
    beforeTrailing names.length (before ++ names.flatMap (sep :: ·)) = some before := by
  induction names using reverseRecOn with
  | nil => rw [flatMap_nil, append_nil]; rfl
  | append_singleton names last ih =>
      have lastFree := free last (mem_append_right _ (mem_singleton_self last))
      have split : before ++ (names ++ [last]).flatMap (sep :: ·) =
          before ++ names.flatMap (sep :: ·) ++ sep :: last := by
        rw [flatMap_append, flatMap_singleton, append_assoc]
      rw [length_append, length_singleton, beforeTrailing, split, beforeLastSep_append lastFree]
      exact ih fun name hname => free name (mem_append_left _ hname)

namespace BranchKey

variable {key : BranchKey} {revision : HLC}

theorem WellFormed.trailing (wellFormed : key.WellFormed)
    (versioned : key.layout.revision = some revision) (tenantId repoId branch : String) :
    revisionBeforeTrailingSegments (key.bytes tenantId repoId branch) key.layout.trail.length =
      some revision := by
  have free : ∀ name ∈ key.layout.trail.map utf8Bytes, sep ∉ name := by
    intro name hname
    obtain ⟨text, htext, rfl⟩ := mem_map.mp hname
    exact wellFormed.trail text htext
  have length : key.layout.trail.length = (key.layout.trail.map utf8Bytes).length :=
    (length_map _).symm
  rw [revisionBeforeTrailingSegments, bytes_eq, rest_eq versioned, ← append_assoc]
  rw [length, beforeTrailing_append free]
  rw [Option.bind_some, ← append_assoc]
  exact extractRevisionFromKey_append _ (wellFormed.revision revision versioned)

theorem WellFormed.tail (wellFormed : key.WellFormed)
    (versioned : key.layout.revision = some revision) (last : key.layout.trail = [])
    (tenantId repoId branch : String) :
    extractRevisionFromKey (key.bytes tenantId repoId branch) = some revision := by
  have found := wellFormed.trailing versioned tenantId repoId branch
  rw [last] at found
  exact found

end BranchKey

theorem splitOn_append_sep {name : List UInt8} (free : sep ∉ name) (others : List UInt8) :
    (name ++ sep :: others).splitOn sep = name :: others.splitOn sep := by
  rw [splitOn, splitOnP_append_cons (p := (· == sep)) _ _ (beq_self_eq_true sep), splitOnP_eq_singleton]
  · rfl
  · intro byte hbyte
    exact beq_false_of_ne fun same => free (same ▸ hbyte)

/-- The parts of a key under a branch. -/
theorem splitOn_branchPrefix {tenantId repoId branch : String} (tenant : NulFree tenantId)
    (repo : NulFree repoId) (hbranch : NulFree branch) (others : List UInt8) :
    (branchPrefix tenantId repoId branch ++ others).splitOn sep =
      utf8Bytes tenantId :: utf8Bytes repoId :: utf8Bytes branch :: others.splitOn sep := by
  rw [branchPrefix, buildPrefix, build_cons_cons, build_cons_cons, build_singleton]
  simp only [append_assoc, cons_append, nil_append]
  rw [splitOn_append_sep tenant, splitOn_append_sep repo, splitOn_append_sep hbranch]

/-- Only the branch changes when a key is put together again. -/
theorem buildKeyWithBranch_eq {tenantId repoId branch : String} (tenant : NulFree tenantId)
    (repo : NulFree repoId) (hbranch : NulFree branch) (targetBranch : String)
    (others : List UInt8) :
    buildKeyWithBranch ((branchPrefix tenantId repoId branch ++ others).splitOn sep)
      targetBranch = branchPrefix tenantId repoId targetBranch ++ others := by
  have joined : build (others.splitOn sep) = others := intercalate_splitOn sep
  obtain ⟨first, rest, split⟩ := exists_cons_of_ne_nil (splitOnP_ne_nil (· == sep) others)
  rw [buildKeyWithBranch, splitOn_branchPrefix tenant repo hbranch]
  change build (utf8Bytes tenantId :: utf8Bytes repoId :: utf8Bytes targetBranch ::
    others.splitOn sep) = _
  rw [branchPrefix, buildPrefix, splitOn] at *
  rw [split] at joined ⊢
  rw [build_cons_cons, build_cons_cons, build_cons_cons, joined, build_cons_cons,
    build_cons_cons, build_singleton]
  simp only [append_assoc, cons_append, nil_append]

theorem fromUtf8_utf8Bytes (text : String) : fromUtf8 (utf8Bytes text) = some text := by
  have encoded : (utf8Bytes text).toByteArray = text.toByteArray := String.utf8Encode_toList
  rw [fromUtf8, encoded, String.fromUTF8?, dif_pos text.isValidUTF8]
  rfl

theorem takeTexts_append {texts : List String} (free : ∀ text ∈ texts, NulFree text)
    (following : List UInt8) :
    takeTexts texts.length ((texts.map utf8Bytes).flatMap (· ++ [sep]) ++ following) =
      some (texts, following) := by
  induction texts with
  | nil => rfl
  | cons text texts ih =>
      obtain ⟨here, later⟩ := forall_mem_cons.mp free
      have clear : ∀ byte ∈ utf8Bytes text, decide (byte ≠ sep) = true := fun byte hbyte =>
        decide_eq_true fun same => here (same ▸ hbyte)
      have shape : ((text :: texts).map utf8Bytes).flatMap (· ++ [sep]) ++ following =
          utf8Bytes text ++ sep :: ((texts.map utf8Bytes).flatMap (· ++ [sep]) ++ following) := by
        rw [map_cons, flatMap_cons]
        simp only [append_assoc, cons_append, nil_append]
      rw [shape, length_cons, takeTexts, dropWhile_append_of_pos clear,
        dropWhile_cons_of_neg (by simp), takeWhile_append_of_pos clear,
        takeWhile_cons_of_neg (by simp), append_nil, fromUtf8_utf8Bytes]
      dsimp only
      rw [ih later]
      rfl

section Locate

variable {tenantId repoId branch : String} (tenant : NulFree tenantId) (repo : NulFree repoId)
  (hbranch : NulFree branch)

include tenant repo hbranch

theorem BranchKey.WellFormed.spatial {workspace propertyName geohash nodeId : String}
    {revision : HLC}
    (wellFormed : (spatialIndex workspace propertyName geohash revision nodeId).WellFormed) :
    (parseSpatialIndexKey
      ((spatialIndex workspace propertyName geohash revision nodeId).bytes tenantId repoId
        branch)).map ParsedSpatialKey.revision = some revision := by
  have free : ∀ text ∈ [tenantId, repoId, branch, workspace, "geo", propertyName, geohash],
      NulFree text := by
    intro text htext
    simp only [mem_cons, not_mem_nil, or_false] at htext
    rcases htext with rfl | rfl | rfl | rfl | rfl | rfl | rfl
    · exact tenant
    · exact repo
    · exact hbranch
    · exact wellFormed.lead text mem_cons_self
    · decide
    · exact wellFormed.lead text (by simp [layout])
    · exact wellFormed.lead text (by simp [layout])
  have shape : (spatialIndex workspace propertyName geohash revision nodeId).bytes tenantId repoId
      branch = ([tenantId, repoId, branch, workspace, "geo", propertyName, geohash].map
        utf8Bytes).flatMap (· ++ [sep]) ++ (encodeDescending revision ++ sep :: utf8Bytes nodeId) := by
    have joined := build_append_cons
      ([tenantId, repoId, branch, workspace, "geo", propertyName, geohash].map utf8Bytes)
      (encodeDescending revision) [utf8Bytes nodeId]
    rw [flatMap_singleton] at joined
    exact joined
  have length : (encodeDescending revision).length = 16 := length_encodeDescending revision
  have long : ¬ (encodeDescending revision ++ sep :: utf8Bytes nodeId).length < 17 := by
    rw [length_append, length_cons, length]
    omega
  have separated : (encodeDescending revision ++ sep :: utf8Bytes nodeId)[16]? = some sep := by
    rw [getElem?_append_right (le_of_eq length), length]
    rfl
  have named : (encodeDescending revision ++ sep :: utf8Bytes nodeId).drop 17 =
      utf8Bytes nodeId := by
    rw [← singleton_append, ← append_assoc, drop_left' (by rw [length_append, length]; rfl)]
  rw [shape, parseSpatialIndexKey]
  have taken := takeTexts_append free (encodeDescending revision ++ sep :: utf8Bytes nodeId)
  change takeTexts 7 _ = _ at taken
  rw [taken]
  simp only [Option.bind_eq_bind, Option.bind_some]
  rw [if_neg (by simp), if_neg long, take_left' length,
    decode_encodeDescending (wellFormed.revision revision rfl), Option.bind_some,
    if_neg (by simp), named, fromUtf8_utf8Bytes]
  rfl

/-- The part behind the branch. -/
theorem BranchKey.WellFormed.fourth {key : BranchKey} (wellFormed : key.WellFormed)
    {first : String} {second : List UInt8} {others : List (List UInt8)}
    (lead : .text first ∈ key.layout.lead)
    (parts : key.layout.parts = utf8Bytes first :: second :: others) :
    ((key.bytes tenantId repoId branch).splitOn sep)[3]? = some (utf8Bytes first) := by
  rw [bytes_eq, splitOn_branchPrefix tenant repo hbranch, rest, parts, build_cons_cons,
    splitOn_append_sep (wellFormed.lead first lead)]
  rfl

end Locate

end RaisinDB.Branches
