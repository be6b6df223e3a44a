import RaisinDB.Foundation.HashGroups
import RaisinDB.History.LocatedKeys
import RaisinDB.History.Survivors

/-!
# Retention over a column family

One pass over the keys of a family collects the versions of every entity, chunk by
chunk, and prunes a chunk when it is left.  A chunk that grows too large and a scope
without a plan keep everything.
-/

namespace RaisinDB.History

open RaisinDB.Branches RaisinDB.Clock RaisinDB.Foundation RaisinDB.Indexing RaisinDB.Oplog List
open RaisinDB.Replication (HLC)

/-! ## The pass -/

def maxChunkEntries : Nat := 2000000

/-- The plan of a scope, where it has one. -/
abbrev Plans := Key → Option ScopePlan

/-- The versions of a chunk by what follows their revision. -/
structure Chunk where
  scopeEnd : Nat
  groups : List (Key × List Version)
  entries : Nat
  overflow : Bool

structure Entry where
  chunk : Key
  scopeEnd : Nat
  tail : Key
  version : Version

structure Scanned where
  key : Key
  entry : Option Entry

/-- Scopes without a plan are not held. -/
def readRow (target : GcTarget) (plans : Plans) (row : Row) : Option Scanned :=
  match locate target row.1 with
  | none => some ⟨row.1, none⟩
  | some located =>
      if (plans (row.1.take located.scopeEnd)).isSome then do
        let rev ← decodeDescending (located.revision row.1)
        return ⟨row.1, some ⟨located.chunk row.1, located.scopeEnd, located.tail row.1,
          ⟨row.1, rev, isTombstoneValue row.2⟩⟩⟩
      else some ⟨row.1, none⟩

def startChunk (scanned : Scanned) : Chunk :=
  ⟨(scanned.entry.map Entry.scopeEnd).getD 0, [], 0, false⟩

def addVersion (chunk : Chunk) (scanned : Scanned) : Chunk :=
  match scanned.entry with
  | none => chunk
  | some entry =>
      let entries := chunk.entries + 1
      if chunk.overflow then { chunk with entries := entries }
      else if maxChunkEntries < entries then
        { chunk with entries := entries, overflow := true, groups := [] }
      else
        { chunk with entries := entries, groups := pushGroup entry.tail entry.version chunk.groups }

/-- `{t}\0{r}\0{b}\0{ws}\0nodes\0{id}` -/
def isNodeChunk (target : GcTarget) (base : Key) : Bool :=
  target.cf = .branch .nodes &&
    match (base.splitOn sep).mapM fromUtf8 with
    | some [_, _, _, _, tag, _] => tag = "nodes"
    | _ => false

def newestFirst (versions : List Version) : List Version :=
  versions.insertionSort fun newer older => older.rev ≤ newer.rev

/-- The keys of a group that are deleted. -/
def pruneGroup (target : GcTarget) (plan : ScopePlan) (isNode : Bool) (versions : List Version) :
    List Key :=
  if versions.length < 2 ∧ ¬(target.dropOrphanTombstones ∧ (versions.head?.any Version.tomb)) then
    []
  else
    let sorted := newestFirst versions
    let keep := survivors sorted plan target.dropOrphanTombstones isNode
    ((sorted.zip keep).filter fun flagged => !flagged.2).map fun flagged => flagged.1.key

def closeChunk (target : GcTarget) (plans : Plans) (chunk : Key × Chunk) : List Key :=
  if chunk.2.overflow then []
  else
    match plans (chunk.1.take chunk.2.scopeEnd) with
    | none => []
    | some plan =>
        chunk.2.groups.flatMap fun group =>
          pruneGroup target plan (isNodeChunk target chunk.1) group.2

/-- The tenant and the repository that a run is restricted to. -/
structure GcScope where
  tenant : Option String
  repo : Option String

def scopePrefix (scope : GcScope) : Option Key :=
  scope.tenant.map fun tenant => buildPrefix (utf8Bytes tenant :: (scope.repo.map utf8Bytes).toList)

/-- The keys of a family within the scope. -/
def scannedRows (scope : GcScope) (store : Rows) : List Row :=
  match scopePrefix scope with
  | none => store.rows
  | some base => scan store base base

/-- The iterator reads the store as it was, so a closed chunk is pruned at once or in the end. -/
def pruneCf (target : GcTarget) (plans : Plans) (scope : GcScope) (dryRun : Bool) (store : Rows) :
    Option Rows := do
  let scanned ← (scannedRows scope store).mapM (readRow target plans)
  let chunks := OpenChunks.pass (fun base row => insideChunk base row.key)
    (fun row => row.entry.map Entry.chunk) startChunk addVersion scanned
  let pruned := chunks.flatMap (closeChunk target plans)
  return if dryRun then store else pruned.foldl OrderedStore.delete store

/-! ## Groups of a store -/

def readVersion (located : Located) (row : Row) : Option Version :=
  (decodeDescending (located.revision row.1)).map fun rev =>
    ⟨row.1, rev, isTombstoneValue row.2⟩

/-- The version that a row is for a group. -/
def groupVersion (target : GcTarget) (group : Key × Key) (row : Row) : Option Version :=
  (locate target row.1).bind fun located =>
    if (located.chunk row.1, located.tail row.1) = group then readVersion located row else none

def groupVersions (target : GcTarget) (group : Key × Key) (rows : List Row) : List Version :=
  rows.filterMap (groupVersion target group)

section Groups

variable {target : GcTarget} {plans : Plans} {group : Key × Key} {row : Row} {rows : List Row}
  {version : Version}

theorem groupVersion_eq_some_iff :
    groupVersion target group row = some version ↔
      ∃ located, locate target row.1 = some located ∧
        (located.chunk row.1, located.tail row.1) = group ∧
        readVersion located row = some version := by
  rw [groupVersion, Option.bind_eq_some_iff]
  refine exists_congr fun located => and_congr_right fun _ => ?_
  by_cases own : (located.chunk row.1, located.tail row.1) = group <;> simp [own]

theorem readVersion_spec {located : Located} (read : readVersion located row = some version) :
    version.key = row.1 ∧ decodeDescending (located.revision row.1) = some version.rev := by
  rw [readVersion, Option.map_eq_some_iff] at read
  obtain ⟨rev, decoded, rfl⟩ := read
  exact ⟨rfl, decoded⟩

theorem key_of_groupVersion (own : groupVersion target group row = some version) :
    version.key = row.1 := by
  obtain ⟨located, _, _, read⟩ := groupVersion_eq_some_iff.mp own
  exact (readVersion_spec read).1

/-- Filtering rows by their key filters the versions. -/
theorem groupVersions_filter (keep : Key → Bool) :
    groupVersions target group (rows.filter fun row => keep row.1) =
      (groupVersions target group rows).filter fun version => keep version.key := by
  induction rows with
  | nil => rfl
  | cons row rows ih =>
    cases own : groupVersion target group row with
    | none =>
      rw [groupVersions, groupVersions, filterMap_cons_none own, filter_cons]
      split
      · rw [filterMap_cons_none own]
        exact ih
      · exact ih
    | some version =>
      have same := key_of_groupVersion own
      rw [groupVersions, groupVersions, filterMap_cons_some own, filter_cons, filter_cons, same]
      split
      · rw [filterMap_cons_some own]
        exact congrArg _ ih
      · exact ih

/-- A group has one version for each revision. -/
theorem version_unique (isTarget : target ∈ gcTargets) {store : Rows} {first second : Version}
    (hfirst : first ∈ groupVersions target group store.rows)
    (hsecond : second ∈ groupVersions target group store.rows) (same : first.rev = second.rev) :
    first = second := by
  obtain ⟨row, hrow, own⟩ := mem_filterMap.mp hfirst
  obtain ⟨row', hrow', own'⟩ := mem_filterMap.mp hsecond
  obtain ⟨located, found, group_eq, read⟩ := groupVersion_eq_some_iff.mp own
  obtain ⟨located', found', group_eq', read'⟩ := groupVersion_eq_some_iff.mp own'
  obtain ⟨revision, _, encoded, decoded⟩ := decode_revision found
  obtain ⟨revision', _, encoded', decoded'⟩ := decode_revision found'
  have revisions : revision = revision' := by
    have here := (readVersion_spec read).2
    have there := (readVersion_spec read').2
    rw [decoded] at here
    rw [decoded'] at there
    exact (Option.some.inj here).trans (same.trans (Option.some.inj there).symm)
  have groups := Prod.mk.inj (group_eq.trans group_eq'.symm)
  have keys : row.1 = row'.1 := key_unique isTarget found found' groups.1 groups.2
    (by rw [← encoded, ← encoded', revisions])
  obtain ⟨key, value⟩ := row
  obtain ⟨key', value'⟩ := row'
  dsimp only at keys
  subst keys
  obtain rfl := store.value_unique hrow hrow'
  exact Option.some.inj (own.symm.trans own')

end Groups

/-! ## Answers do not depend on the order -/

theorem newestAt_eq_some_iff {versions : List Version} {revision : HLC} {version : Version}
    (distinct : ∀ first ∈ versions, ∀ second ∈ versions, first.rev = second.rev → first = second) :
    newestAt versions revision = some version ↔
      version ∈ versions ∧ version.rev ≤ revision ∧
        ∀ other ∈ versions, other.rev ≤ revision → other.rev ≤ version.rev := by
  have below : ∀ {found : Version}, newestAt versions revision = some found →
      found ∈ versions ∧ found.rev ≤ revision ∧
        ∀ other ∈ versions, other.rev ≤ revision → other.rev ≤ found.rev := by
    intro found isNewest
    obtain ⟨mem, within⟩ := mem_filter.mp (argmax_mem (Option.mem_def.mpr isNewest))
    refine ⟨mem, of_decide_eq_true within, fun other hother hwithin => ?_⟩
    exact le_of_mem_argmax (mem_filter.mpr ⟨hother, decide_eq_true hwithin⟩)
      (Option.mem_def.mpr isNewest)
  refine ⟨below, ?_⟩
  rintro ⟨mem, within, newest⟩
  cases found : newestAt versions revision with
  | none =>
    rw [newestAt, argmax_eq_none, filter_eq_nil_iff] at found
    exact absurd (decide_eq_true within) (found version mem)
  | some other =>
    obtain ⟨hother, hwithin, upper⟩ := below found
    rw [distinct other hother version mem
      ((newest other hother hwithin).antisymm (upper version mem within))]

theorem newestAt_congr {first second : List Version}
    (distinct : ∀ one ∈ first, ∀ other ∈ first, one.rev = other.rev → one = other)
    (same : ∀ version, version ∈ first ↔ version ∈ second) (revision : HLC) :
    newestAt first revision = newestAt second revision := by
  have distinct' : ∀ one ∈ second, ∀ other ∈ second, one.rev = other.rev → one = other :=
    fun one hone other hother => distinct one ((same one).mpr hone) other ((same other).mpr hother)
  refine Option.ext fun version => ?_
  rw [newestAt_eq_some_iff distinct, newestAt_eq_some_iff distinct']
  simp only [same]

/-! ## Pruning a group -/

theorem nodup_keys_groupVersions (target : GcTarget) (group : Key × Key) (store : Rows) :
    ((groupVersions target group store.rows).map Version.key).Nodup := by
  have sublist : ∀ rows : List Row,
      (groupVersions target group rows).map Version.key <+ rows.map Prod.fst := by
    intro rows
    induction rows with
    | nil => exact Sublist.slnil
    | cons row rows ih =>
      cases own : groupVersion target group row with
      | none =>
        rw [groupVersions, filterMap_cons_none own, map_cons]
        exact ih.cons _
      | some version =>
        rw [groupVersions, filterMap_cons_some own, map_cons, map_cons, key_of_groupVersion own]
        exact ih.cons_cons _
  exact store.nodup_keys.sublist (sublist store.rows)

/-- In a list without repetitions, an element has one flag. -/
theorem flag_unique {versions : List Version} {keep : List Bool} (nodup : versions.Nodup)
    {version : Version} {flag flag' : Bool} (here : (version, flag) ∈ versions.zip keep)
    (there : (version, flag') ∈ versions.zip keep) : flag = flag' := by
  induction versions generalizing keep with
  | nil => simp at here
  | cons first others ih =>
    obtain ⟨fresh, nodupOthers⟩ := nodup_cons.mp nodup
    cases keep with
    | nil => simp at here
    | cons kept flags =>
      rw [zip_cons_cons, mem_cons] at here there
      rcases here with same | here
      · obtain ⟨rfl, rfl⟩ := Prod.mk.inj same
        rcases there with same' | there
        · exact (Prod.mk.inj same').2.symm
        · exact absurd (of_mem_zip there).1 fresh
      · rcases there with same' | there
        · obtain ⟨rfl, rfl⟩ := Prod.mk.inj same'
          exact absurd (of_mem_zip here).1 fresh
        · exact ih nodupOthers here there

theorem mem_keptVersions {versions : List Version} {keep : List Bool}
    (length : keep.length = versions.length) (keys : (versions.map Version.key).Nodup)
    {version : Version} :
    version ∈ keptVersions versions keep ↔ version ∈ versions ∧
      version.key ∉ ((versions.zip keep).filter fun flagged => !flagged.2).map
        fun flagged => flagged.1.key := by
  have nodup : versions.Nodup := keys.of_map
  have flagged : ∀ version ∈ versions, ∃ flag, (version, flag) ∈ versions.zip keep := by
    intro version hversion
    rw [← map_fst_zip length.ge] at hversion
    obtain ⟨⟨_, flag⟩, hmem, rfl⟩ := mem_map.mp hversion
    exact ⟨flag, hmem⟩
  constructor
  · intro kept
    obtain ⟨⟨_, flag⟩, hmem, rfl⟩ := mem_map.mp kept
    obtain ⟨here, isKept⟩ := mem_filter.mp hmem
    refine ⟨(of_mem_zip here).1, fun pruned => ?_⟩
    obtain ⟨⟨other, flag'⟩, hother, sameKey⟩ := mem_map.mp pruned
    obtain ⟨there, isPruned⟩ := mem_filter.mp hother
    have same := inj_on_of_nodup_map keys (of_mem_zip there).1 (of_mem_zip here).1 sameKey
    dsimp only at same isKept isPruned
    subst same
    rw [flag_unique nodup here there] at isKept
    simp [isKept] at isPruned
  · rintro ⟨hversion, notPruned⟩
    obtain ⟨flag, here⟩ := flagged version hversion
    refine mem_map.mpr ⟨(version, flag), mem_filter.mpr ⟨here, ?_⟩, rfl⟩
    cases flag with
    | true => rfl
    | false =>
      exact absurd (mem_map.mpr ⟨(version, false), mem_filter.mpr ⟨here, rfl⟩, rfl⟩) notPruned

/-- Pruning a group keeps the answer of every promised read. -/
theorem sameAnswer_pruneGroup (target : GcTarget) {plan : ScopePlan} (isNode : Bool)
    {versions : List Version} (keys : (versions.map Version.key).Nodup)
    (distinct : ∀ one ∈ versions, ∀ other ∈ versions, one.rev = other.rev → one = other)
    {revision : HLC} (promised : plan.Promises revision) :
    SameAnswer target.dropOrphanTombstones (newestAt versions revision)
      (newestAt (versions.filter fun version =>
        version.key ∉ pruneGroup target plan isNode versions) revision) := by
  unfold pruneGroup
  split
  · have whole : (versions.filter fun version => version.key ∉ ([] : List Key)) = versions := by
      simp
    rw [whole]
    exact SameAnswer.refl _ _
  · dsimp only
    set sorted := newestFirst versions with sorted_eq
    set keep := survivors sorted plan target.dropOrphanTombstones isNode with keep_eq
    have perm : sorted ~ versions := perm_insertionSort _ versions
    have sortedKeys : (sorted.map Version.key).Nodup := (perm.map Version.key).nodup_iff.mpr keys
    have members : ∀ version, version ∈ versions ↔ version ∈ sorted := fun _ => perm.mem_iff.symm
    have descending : Descending sorted := by
      have weak : sorted.Pairwise fun newer older => older.rev ≤ newer.rev :=
        pairwise_insertionSort _ versions
      have apart : sorted.Pairwise fun one other => one ≠ other := sortedKeys.of_map
      refine (weak.and apart).imp_of_mem fun {newer older} hnewer holder both => ?_
      refine lt_of_le_of_ne both.1 fun same => both.2 ?_
      exact (distinct older ((members older).mpr holder) newer ((members newer).mpr hnewer)
        same).symm
    have length := length_survivors sorted plan target.dropOrphanTombstones isNode
    have answer := sameAnswer_survivors descending promised target.dropOrphanTombstones isNode
    rw [newestAt_congr distinct members revision]
    have left : newestAt (versions.filter fun version =>
        version.key ∉ ((sorted.zip keep).filter fun flagged => !flagged.2).map
          fun flagged => flagged.1.key) revision = newestAt (keptVersions sorted keep) revision := by
      refine newestAt_congr ?_ (fun version => ?_) revision
      · exact fun one hone other hother =>
          distinct one (mem_of_mem_filter hone) other (mem_of_mem_filter hother)
      · rw [mem_filter, mem_keptVersions length sortedKeys, members, decide_eq_true_eq]
    rw [left]
    exact answer

/-! ## Reading the rows -/

section Scan

variable {target : GcTarget} {plans : Plans} {row : Row} {rows : List Row}

/-- What a row is read as; no located revision fails to decode. -/
def scannedRow (target : GcTarget) (plans : Plans) (row : Row) : Scanned :=
  (readRow target plans row).getD ⟨row.1, none⟩

theorem readRow_eq (target : GcTarget) (plans : Plans) (row : Row) :
    readRow target plans row = some (scannedRow target plans row) := by
  have total : (readRow target plans row).isSome := by
    unfold readRow
    split
    · rfl
    · rename_i located found
      split
      · obtain ⟨revision, _, _, decoded⟩ := decode_revision found
        rw [decoded]
        rfl
      · rfl
  obtain ⟨scanned, read⟩ := Option.isSome_iff_exists.mp total
  rw [scannedRow, read, Option.getD_some]

theorem mapM_readRow (target : GcTarget) (plans : Plans) (rows : List Row) :
    rows.mapM (readRow target plans) = some (rows.map (scannedRow target plans)) := by
  induction rows with
  | nil => rfl
  | cons row rows ih =>
    rw [mapM_cons, readRow_eq, ih]
    rfl

theorem scannedRow_key (row : Row) : (scannedRow target plans row).key = row.1 := by
  have read := readRow_eq target plans row
  unfold readRow at read
  split at read
  · exact (congrArg Scanned.key (Option.some.inj read)).symm
  · split at read
    · rw [Option.bind_eq_bind, Option.bind_eq_some_iff] at read
      obtain ⟨rev, _, same⟩ := read
      exact (congrArg Scanned.key (Option.some.inj same)).symm
    · exact (congrArg Scanned.key (Option.some.inj read)).symm

/-- A row has an entry when it is located in a scope with a plan. -/
theorem entry_eq_some_iff {entry : Entry} :
    (scannedRow target plans row).entry = some entry ↔
      ∃ located, locate target row.1 = some located ∧
        (plans (row.1.take located.scopeEnd)).isSome ∧ entry.chunk = located.chunk row.1 ∧
        entry.scopeEnd = located.scopeEnd ∧ entry.tail = located.tail row.1 ∧
        readVersion located row = some entry.version := by
  have read := readRow_eq target plans row
  unfold readRow at read
  constructor
  · intro hasEntry
    split at read
    · rw [← Option.some.inj read] at hasEntry
      cases hasEntry
    · rename_i located found
      split at read
      · rename_i planned
        rw [Option.bind_eq_bind, Option.bind_eq_some_iff] at read
        obtain ⟨rev, decoded, same⟩ := read
        rw [← Option.some.inj same] at hasEntry
        obtain rfl := Option.some.inj hasEntry
        exact ⟨located, found, planned, rfl, rfl, rfl, by rw [readVersion, decoded]; rfl⟩
      · rw [← Option.some.inj read] at hasEntry
        cases hasEntry
  · rintro ⟨located, found, planned, chunk_eq, scope_eq, tail_eq, isVersion⟩
    rw [readVersion, Option.map_eq_some_iff] at isVersion
    obtain ⟨rev, decoded, version_eq⟩ := isVersion
    rw [found] at read
    dsimp only at read
    rw [if_pos planned, decoded] at read
    rw [← Option.some.inj read]
    obtain ⟨_, _, _, _⟩ := entry
    simp_all

/-- The chunks of ascending keys lie together. -/
theorem contiguous_scanned (sorted : rows.Pairwise fun first second => first.1 < second.1) :
    OpenChunks.Contiguous (fun base row => insideChunk base row.key)
      (fun row => row.entry.map Entry.chunk) (rows.map (scannedRow target plans)) := by
  refine ⟨fun scanned hscanned base own => ?_, fun early middle late base order first last => ?_⟩
  · obtain ⟨row, _, rfl⟩ := mem_map.mp hscanned
    rw [Option.map_eq_some_iff] at own
    obtain ⟨entry, hasEntry, rfl⟩ := own
    obtain ⟨located, found, _, chunk_eq, _⟩ := entry_eq_some_iff.mp hasEntry
    rw [scannedRow_key, chunk_eq]
    exact insideChunk_of_locate found
  · have ascending : (rows.map (scannedRow target plans)).Pairwise
        fun first second => first.key < second.key := by
      rw [pairwise_map]
      exact sorted.imp fun less => by rwa [scannedRow_key, scannedRow_key]
    have three := ascending.sublist order
    simp only [pairwise_cons, mem_cons, not_mem_nil, or_false, forall_eq_or_imp, forall_eq] at three
    exact insideChunk_between three.1.1 three.2.1 first last

/-! ## What a chunk collects -/

/-- The tail that a version is grouped by. -/
def tailOf (target : GcTarget) (version : Version) : Key :=
  ((groupOf target version.key).map Prod.snd).getD []

theorem tailOf_eq {located : Located} {version : Version}
    (found : locate target row.1 = some located)
    (read : readVersion located row = some version) :
    tailOf target version = located.tail row.1 := by
  rw [tailOf, (readVersion_spec read).1, groupOf, found]
  rfl

/-- Rows of one chunk, and their versions. -/
def chunkVersions (target : GcTarget) (plans : Plans) (base : Key) (rows : List Row) :
    List Version :=
  rows.filterMap fun row =>
    ((scannedRow target plans row).entry.filter fun entry => entry.chunk = base).map Entry.version

theorem foldl_addVersion {scanned : List Scanned} (first : Scanned)
    (own : ∀ row ∈ scanned, ∃ entry, row.entry = some entry ∧
      tailOf target entry.version = entry.tail) :
    (scanned.foldl addVersion (startChunk first)).scopeEnd = (startChunk first).scopeEnd ∧
      ((scanned.foldl addVersion (startChunk first)).overflow = false →
        (scanned.foldl addVersion (startChunk first)).groups =
          groupInto (tailOf target)
            (scanned.filterMap fun row => row.entry.map Entry.version)) := by
  induction scanned using reverseRecOn with
  | nil => exact ⟨rfl, fun _ => rfl⟩
  | append_singleton scanned last ih =>
    obtain ⟨scope_eq, groups_eq⟩ := ih fun row hrow => own row (mem_append_left _ hrow)
    obtain ⟨entry, hasEntry, tail_eq⟩ := own last (mem_append_right _ mem_cons_self)
    rw [foldl_append, foldl_cons, foldl_nil, filterMap_append,
      filterMap_cons_some (by rw [hasEntry]; rfl), filterMap_nil, groupInto_append, tail_eq]
    generalize scanned.foldl addVersion (startChunk first) = chunk at scope_eq groups_eq ⊢
    rw [addVersion, hasEntry]
    dsimp only
    split
    · rename_i overflow
      refine ⟨scope_eq, fun fine => ?_⟩
      rw [overflow] at fine
      cases fine
    · rename_i fine
      split
      · exact ⟨scope_eq, fun absurd_fine => by cases absurd_fine⟩
      · refine ⟨scope_eq, fun _ => ?_⟩
        rw [groups_eq (by simpa using fine)]

/-- The chunk of a pass, when it is not too large, holds its versions by their tails. -/
theorem chunk_of_pass {base : Key} {chunk : Chunk}
    (sorted : rows.Pairwise fun first second => first.1 < second.1)
    (closed : (base, chunk) ∈ OpenChunks.pass (fun base row => insideChunk base row.key)
      (fun row => row.entry.map Entry.chunk) startChunk addVersion
      (rows.map (scannedRow target plans))) :
    (∃ row ∈ rows, ∃ entry, (scannedRow target plans row).entry = some entry ∧
      entry.chunk = base ∧ chunk.scopeEnd = entry.scopeEnd) ∧
      (chunk.overflow = false →
        chunk.groups = groupInto (tailOf target) (chunkVersions target plans base rows)) := by
  have collected := (OpenChunks.mem_pass (contiguous_scanned sorted)).mp closed
  set own := OpenChunks.rowsOf (fun row : Scanned => row.entry.map Entry.chunk) base
    (rows.map (scannedRow target plans)) with own_eq
  rw [OpenChunks.collect, Option.map_eq_some_iff] at collected
  obtain ⟨first, isFirst, rfl⟩ := collected
  have entries : ∀ scanned ∈ own, ∃ row ∈ rows, scanned = scannedRow target plans row ∧
      ∃ entry, scanned.entry = some entry ∧ entry.chunk = base := by
    intro scanned hscanned
    obtain ⟨hmem, hbase⟩ := mem_filter.mp hscanned
    obtain ⟨row, hrow, rfl⟩ := mem_map.mp hmem
    rw [decide_eq_true_eq, Option.map_eq_some_iff] at hbase
    exact ⟨row, hrow, rfl, hbase⟩
  have tails : ∀ scanned ∈ own, ∃ entry, scanned.entry = some entry ∧
      tailOf target entry.version = entry.tail := by
    intro scanned hscanned
    obtain ⟨row, _, rfl, entry, hasEntry, _⟩ := entries scanned hscanned
    obtain ⟨located, found, _, _, _, tail_eq, read⟩ := entry_eq_some_iff.mp hasEntry
    exact ⟨entry, hasEntry, by rw [tailOf_eq found read, tail_eq]⟩
  obtain ⟨scope_eq, groups_eq⟩ := foldl_addVersion first tails
  refine ⟨?_, fun fine => (groups_eq fine).trans (congrArg _ ?_)⟩
  · obtain ⟨row, hrow, rfl, entry, hasEntry, chunk_eq⟩ := entries first (mem_of_head? isFirst)
    refine ⟨row, hrow, entry, hasEntry, chunk_eq, scope_eq.trans ?_⟩
    rw [startChunk, hasEntry]
    rfl
  · rw [own_eq, OpenChunks.rowsOf, filterMap_filter, filterMap_map, chunkVersions]
    refine filterMap_congr fun row _ => ?_
    rw [Function.comp_apply]
    cases (scannedRow target plans row).entry with
    | none => simp
    | some entry => by_cases here : entry.chunk = base <;> simp [here]

/-- In a scope with a plan, the versions of a chunk with one tail are those of the group. -/
theorem chunkVersions_filter {base tail : Key}
    (planned : ∀ row ∈ rows, ∀ located, locate target row.1 = some located →
      located.chunk row.1 = base → (plans (row.1.take located.scopeEnd)).isSome) :
    (chunkVersions target plans base rows).filter (fun version => tailOf target version = tail) =
      groupVersions target (base, tail) rows := by
  rw [chunkVersions, groupVersions, filter_filterMap]
  refine filterMap_congr fun row hrow => ?_
  cases found : locate target row.1 with
  | none =>
    have noEntry : (scannedRow target plans row).entry = none := by
      rw [Option.eq_none_iff_forall_ne_some]
      intro entry hasEntry
      obtain ⟨located, isLocated, _⟩ := entry_eq_some_iff.mp hasEntry
      rw [found] at isLocated
      cases isLocated
    rw [noEntry, groupVersion, found]
    rfl
  | some located =>
    obtain ⟨revision, _, _, decoded⟩ := decode_revision found
    have read : readVersion located row = some ⟨row.1, revision, isTombstoneValue row.2⟩ := by
      rw [readVersion, decoded]
      rfl
    rw [groupVersion, found, Option.bind_some, read]
    by_cases here : located.chunk row.1 = base
    · have hasEntry : (scannedRow target plans row).entry = some ⟨located.chunk row.1,
          located.scopeEnd, located.tail row.1, ⟨row.1, revision, isTombstoneValue row.2⟩⟩ :=
        entry_eq_some_iff.mpr ⟨located, found, planned row hrow located found here, rfl, rfl, rfl,
          read⟩
      rw [hasEntry]
      have tail_eq := tailOf_eq found read
      by_cases same : located.tail row.1 = tail <;> simp [here, tail_eq, same]
    · rw [if_neg (fun same => here (Prod.mk.inj same).1)]
      have elsewhere : (scannedRow target plans row).entry.filter
          (fun entry => entry.chunk = base) = none := by
        rw [Option.filter_eq_none_iff]
        intro entry hasEntry
        obtain ⟨other, isLocated, _, chunk_eq, _⟩ := entry_eq_some_iff.mp hasEntry
        rw [found] at isLocated
        obtain rfl := Option.some.inj isLocated
        simpa [chunk_eq] using here
      rw [elsewhere]
      rfl

/-- A pruned key is a version of a group whose chunk was closed. -/
theorem mem_closeChunk {base key : Key} {chunk : Chunk}
    (sorted : rows.Pairwise fun first second => first.1 < second.1)
    (closed : (base, chunk) ∈ OpenChunks.pass (fun base row => insideChunk base row.key)
      (fun row => row.entry.map Entry.chunk) startChunk addVersion
      (rows.map (scannedRow target plans)))
    (planned : ∀ row ∈ rows, ∀ located, locate target row.1 = some located →
      located.chunk row.1 = base → (plans (row.1.take located.scopeEnd)).isSome)
    {plan : ScopePlan} (isPlan : plans (base.take chunk.scopeEnd) = some plan) :
    key ∈ closeChunk target plans (base, chunk) ↔ chunk.overflow = false ∧
      ∃ tail, key ∈ pruneGroup target plan (isNodeChunk target base)
        (groupVersions target (base, tail) rows) := by
  obtain ⟨_, groups_eq⟩ := chunk_of_pass sorted closed
  unfold closeChunk
  dsimp only
  cases overflow : chunk.overflow with
  | true => simp
  | false =>
    have grouped := groupInto_grouped (tailOf target) (chunkVersions target plans base rows)
    rw [if_neg Bool.false_ne_true, isPlan]
    dsimp only
    rw [groups_eq overflow, mem_flatMap]
    simp only [true_and]
    constructor
    · rintro ⟨group, hgroup, pruned⟩
      refine ⟨group.1, ?_⟩
      rwa [groupInto_content hgroup, chunkVersions_filter planned] at pruned
    · rintro ⟨tail, pruned⟩
      have some_version : groupVersions target (base, tail) rows ≠ [] := by
        intro empty
        rw [empty] at pruned
        unfold pruneGroup at pruned
        simp at pruned
      obtain ⟨version, hversion⟩ := exists_mem_of_ne_nil _ some_version
      rw [← chunkVersions_filter planned] at hversion
      obtain ⟨inChunk, isTail⟩ := mem_filter.mp hversion
      obtain ⟨group, hgroup, same⟩ := mem_map.mp (grouped.complete version inChunk)
      have tail_eq : group.1 = tail := same.trans (of_decide_eq_true isTail)
      refine ⟨group, hgroup, ?_⟩
      rw [groupInto_content hgroup, tail_eq, chunkVersions_filter planned]
      exact pruned

end Scan

/-! ## The scope of a run -/

/-- Names of tenants and repositories are free of separators. -/
structure GcScope.NamesFree (scope : GcScope) : Prop where
  tenant : ∀ tenant ∈ scope.tenant, NulFree tenant
  repo : ∀ repo ∈ scope.repo, NulFree repo

variable {target : GcTarget} {scope : GcScope} {store : Rows} {row row' : Row}
  {located located' : Located}

/-- A scope ends with one of the first two separators. -/
theorem scopePrefix_spec (free : scope.NamesFree) {base : Key}
    (isScope : scopePrefix scope = some base) :
    base.count sep ≤ 2 ∧ ∃ before, base = before ++ [sep] := by
  rw [scopePrefix, Option.map_eq_some_iff] at isScope
  obtain ⟨tenant, isTenant, rfl⟩ := isScope
  have tenantFree : (utf8Bytes tenant).count sep = 0 :=
    count_eq_zero.mpr (free.tenant tenant isTenant)
  refine ⟨?_, _, rfl⟩
  cases isRepo : scope.repo with
  | none =>
    have single : build (utf8Bytes tenant :: (Option.map utf8Bytes none).toList) =
        utf8Bytes tenant := build_singleton _
    rw [buildPrefix, single, count_append, tenantFree]
    decide
  | some repo =>
    have repoFree : (utf8Bytes repo).count sep = 0 := count_eq_zero.mpr (free.repo repo isRepo)
    have double : build (utf8Bytes tenant :: (Option.map utf8Bytes (some repo)).toList) =
        utf8Bytes tenant ++ sep :: utf8Bytes repo := by
      rw [Option.map_some, Option.toList_some, build_cons_cons, build_singleton]
    rw [buildPrefix, double, count_append, count_append, count_cons_self, tenantFree, repoFree]
    decide

/-- A scope does not reach into the revisions of a chunk. -/
theorem scope_within_chunk (free : scope.NamesFree) {base : Key}
    (isScope : scopePrefix scope = some base) (found : locate target row.1 = some located)
    (inScope : base <+: row.1) : base <+: located.chunk row.1 ++ [sep] := by
  obtain ⟨few, before, base_eq⟩ := scopePrefix_spec free isScope
  have placed := locateIn_spec found
  rw [chunk_append_sep found]
  refine prefix_of_prefix_length_le inScope ( take_prefix _ _) ?_
  rw [length_take, min_eq_left (by have := placed.long; omega)]
  by_contra longer
  -- there are two separators in front of the revision, and the scope would end with a third
  have counted : 2 ≤ (row.1.take located.revStart).count sep := by
    have least : 2 ≤ (row.1.take (located.scopeEnd + 1)).count sep := by
      rw [take_add_one, placed.counted.1, count_append, placed.counted.2]
      simp only [Option.toList_some, count_singleton_self]
      split <;> omega
    exact least.trans ((take_sublist_take_left placed.scope).count_le sep)
  have shorter : row.1.take located.revStart <+: before := by
    have both : row.1.take located.revStart <+: base :=
      prefix_of_prefix_length_le ( take_prefix _ _) inScope (by
        rw [length_take]
        omega)
    refine prefix_of_prefix_length_le both (base_eq ▸ prefix_append _ _) ?_
    rw [base_eq, length_append, length_singleton] at longer
    rw [length_take]
    omega
  have more := shorter.sublist.count_le sep
  rw [base_eq, count_append, count_singleton_self] at few
  omega

theorem scannedRows_eq (scope : GcScope) (store : Rows) :
    scannedRows scope store = store.rows.filter fun row =>
      (scopePrefix scope).all fun base => base.isPrefixOf row.1 := by
  unfold scannedRows
  cases scopePrefix scope with
  | none => simp
  | some base =>
    have all := scan_eq_filter store base []
    rw [append_nil] at all
    dsimp only
    rw [all]
    refine filter_congr fun row _ => ?_
    rw [Option.all_some, Bool.eq_iff_iff, decide_eq_true_eq]
    refine ⟨And.right, fun inScope => ⟨?_, inScope⟩⟩
    obtain ⟨rest, whole⟩ := isPrefixOf_iff_prefix.mp inScope
    exact whole ▸ le_append base rest

theorem mem_scannedRows : row ∈ scannedRows scope store ↔
    row ∈ store.rows ∧ ∀ base ∈ scopePrefix scope, base <+: row.1 := by
  rw [scannedRows_eq, mem_filter]
  refine and_congr_right fun _ => ?_
  cases scopePrefix scope <;> simp

theorem scannedRows_sorted : (scannedRows scope store).Pairwise fun first second =>
    first.1 < second.1 := by
  rw [scannedRows_eq]
  exact store.sorted.filter _

/-- A run scans all of a chunk or nothing of it. -/
theorem scanned_with_chunk (free : scope.NamesFree) (found : locate target row.1 = some located)
    (found' : locate target row'.1 = some located')
    (same : located.chunk row.1 = located'.chunk row'.1) (scanned : row ∈ scannedRows scope store)
    (stored : row' ∈ store.rows) : row' ∈ scannedRows scope store := by
  refine mem_scannedRows.mpr ⟨stored, fun base isScope => ?_⟩
  have within := scope_within_chunk free isScope found ((mem_scannedRows.mp scanned).2 base isScope)
  rw [same, chunk_append_sep found'] at within
  exact within.trans ( take_prefix _ _)

/-- So it scans all of a group or nothing of it. -/
theorem groupVersions_scanned (free : scope.NamesFree)
    (found : locate target row.1 = some located) (scanned : row ∈ scannedRows scope store)
    (tail : Key) :
    groupVersions target (located.chunk row.1, tail) (scannedRows scope store) =
      groupVersions target (located.chunk row.1, tail) store.rows := by
  rw [scannedRows_eq, groupVersions, filterMap_filter]
  refine filterMap_congr fun other hother => ?_
  cases own : groupVersion target (located.chunk row.1, tail) other with
  | none => split <;> rfl
  | some version =>
    obtain ⟨located', found', group_eq, _⟩ := groupVersion_eq_some_iff.mp own
    have inside := scanned_with_chunk free found found' (Prod.mk.inj group_eq).1.symm scanned hother
    rw [scannedRows_eq, mem_filter] at inside
    exact if_pos inside.2

/-! ## The whole run -/

/-- The keys that a run deletes. -/
def prunedKeys (target : GcTarget) (plans : Plans) (scope : GcScope) (store : Rows) : List Key :=
  (OpenChunks.pass (fun base row => insideChunk base row.key)
    (fun row => row.entry.map Entry.chunk) startChunk addVersion
    ((scannedRows scope store).map (scannedRow target plans))).flatMap (closeChunk target plans)

theorem pruneCf_eq (target : GcTarget) (plans : Plans) (scope : GcScope) (dryRun : Bool)
    (store : Rows) :
    pruneCf target plans scope dryRun store =
      some (if dryRun then store
        else (prunedKeys target plans scope store).foldl OrderedStore.delete store) := by
  rw [pruneCf, mapM_readRow]
  rfl

theorem key_of_pruneGroup {plan : ScopePlan} {isNode : Bool} {versions : List Version} {key : Key}
    (pruned : key ∈ pruneGroup target plan isNode versions) :
    ∃ version ∈ versions, version.key = key := by
  unfold pruneGroup at pruned
  split at pruned
  · cases pruned
  · obtain ⟨⟨version, flag⟩, hmem, same⟩ := mem_map.mp pruned
    have sorted := (of_mem_zip (mem_filter.mp hmem).1).1
    exact ⟨version, (perm_insertionSort _ versions).mem_iff.mp sorted, same⟩

/-- The scope of a closed chunk is that of its rows, and has a plan. -/
theorem scope_of_pass {plans : Plans} {base : Key} {chunk : Chunk}
    (closed : (base, chunk) ∈ OpenChunks.pass (fun base row => insideChunk base row.key)
      (fun row => row.entry.map Entry.chunk) startChunk addVersion
      ((scannedRows scope store).map (scannedRow target plans))) :
    ∃ first ∈ scannedRows scope store, ∃ located, locate target first.1 = some located ∧
      located.chunk first.1 = base ∧ base.take chunk.scopeEnd = first.1.take located.scopeEnd ∧
      (plans (first.1.take located.scopeEnd)).isSome := by
  obtain ⟨⟨first, isScanned, entry, hasEntry, base_eq, scope_eq⟩, _⟩ :=
    chunk_of_pass scannedRows_sorted closed
  obtain ⟨located, found, planned, chunk_eq, scopeEnd_eq, _⟩ := entry_eq_some_iff.mp hasEntry
  refine ⟨first, isScanned, located, found, chunk_eq ▸ base_eq, ?_, planned⟩
  rw [scope_eq, scopeEnd_eq, ← base_eq, chunk_eq]
  exact take_chunk found

theorem planned_of_pass {plans : Plans} {base : Key} {chunk : Chunk}
    (closed : (base, chunk) ∈ OpenChunks.pass (fun base row => insideChunk base row.key)
      (fun row => row.entry.map Entry.chunk) startChunk addVersion
      ((scannedRows scope store).map (scannedRow target plans))) :
    ∀ row ∈ scannedRows scope store, ∀ located, locate target row.1 = some located →
      located.chunk row.1 = base → base.take chunk.scopeEnd = row.1.take located.scopeEnd ∧
        (plans (row.1.take located.scopeEnd)).isSome := by
  obtain ⟨first, _, located, found, chunk_eq, scope_eq, planned⟩ := scope_of_pass closed
  intro row _ located' found' here
  have same := scope_of_chunk found found' (chunk_eq.trans here.symm)
  exact ⟨scope_eq.trans same, same ▸ planned⟩

/-- A stored key is pruned with its group. -/
theorem mem_prunedKeys (free : scope.NamesFree) {plans : Plans} (stored : row ∈ store.rows)
    (found : locate target row.1 = some located) :
    row.1 ∈ prunedKeys target plans scope store ↔
      row ∈ scannedRows scope store ∧
        (∃ chunk, (located.chunk row.1, chunk) ∈
          OpenChunks.pass (fun base row => insideChunk base row.key)
            (fun row => row.entry.map Entry.chunk) startChunk addVersion
            ((scannedRows scope store).map (scannedRow target plans)) ∧ chunk.overflow = false) ∧
        ∃ plan, plans (row.1.take located.scopeEnd) = some plan ∧
          row.1 ∈ pruneGroup target plan (isNodeChunk target (located.chunk row.1))
            (groupVersions target (located.chunk row.1, located.tail row.1) store.rows) := by
  rw [prunedKeys, mem_flatMap]
  constructor
  · rintro ⟨⟨base, chunk⟩, closed, pruned⟩
    have planned := planned_of_pass closed
    obtain ⟨first, isScanned, located', found', chunk_eq, scope_eq, hasPlan⟩ := scope_of_pass closed
    obtain ⟨plan, isPlan⟩ := Option.isSome_iff_exists.mp hasPlan
    obtain ⟨fine, tail, inGroup⟩ := (mem_closeChunk scannedRows_sorted closed
      (fun row hrow located found here => (planned row hrow located found here).2)
      (scope_eq ▸ isPlan)).mp pruned
    obtain ⟨version, hversion, key_eq⟩ := key_of_pruneGroup inGroup
    obtain ⟨other, hother, own⟩ := mem_filterMap.mp hversion
    obtain ⟨otherLocated, otherFound, group_eq, _⟩ := groupVersion_eq_some_iff.mp own
    have sameKey : other.1 = row.1 := (key_of_groupVersion own).symm.trans key_eq
    have sameRow : other = row := by
      obtain ⟨key, value⟩ := other
      obtain ⟨key', value'⟩ := row
      dsimp only at sameKey
      subst sameKey
      rw [store.value_unique (mem_scannedRows.mp hother).1 stored]
    subst sameRow
    rw [found] at otherFound
    obtain rfl := Option.some.inj otherFound
    obtain ⟨rfl, rfl⟩ := Prod.mk.inj group_eq
    refine ⟨hother, ⟨chunk, closed, fine⟩, plan, ?_, ?_⟩
    · rw [← (planned other hother located found rfl).1, scope_eq]
      exact isPlan
    · rwa [groupVersions_scanned free found hother] at inGroup
  · rintro ⟨scanned, ⟨chunk, closed, fine⟩, plan, isPlan, inGroup⟩
    have planned := planned_of_pass closed
    refine ⟨(located.chunk row.1, chunk), closed, ?_⟩
    refine (mem_closeChunk scannedRows_sorted closed
      (fun row hrow located found here => (planned row hrow located found here).2)
      ((planned row scanned located found rfl).1 ▸ isPlan)).mpr ⟨fine, located.tail row.1, ?_⟩
    rwa [groupVersions_scanned free found scanned]

/-- What is pruned of a group is a prune of the whole group. -/
theorem pruned_of_group (free : scope.NamesFree) {plans : Plans} {plan : ScopePlan}
    (stored : row ∈ store.rows) (found : locate target row.1 = some located)
    (isPlan : plans (row.1.take located.scopeEnd) = some plan)
    (pruned : row.1 ∈ prunedKeys target plans scope store) :
    ∀ other ∈ groupVersions target (located.chunk row.1, located.tail row.1) store.rows,
      other.key ∈ prunedKeys target plans scope store ↔
        other.key ∈ pruneGroup target plan (isNodeChunk target (located.chunk row.1))
          (groupVersions target (located.chunk row.1, located.tail row.1) store.rows) := by
  obtain ⟨scanned, closed, _⟩ := (mem_prunedKeys free stored found).mp pruned
  intro other hother
  obtain ⟨row', stored', own⟩ := mem_filterMap.mp hother
  obtain ⟨located', found', group_eq, _⟩ := groupVersion_eq_some_iff.mp own
  obtain ⟨sameChunk, sameTail⟩ := Prod.mk.inj group_eq
  have sameScope := scope_of_chunk found' found sameChunk
  rw [key_of_groupVersion own, mem_prunedKeys free stored' found', sameChunk, sameTail, sameScope]
  constructor
  · rintro ⟨_, _, plan', isPlan', inGroup⟩
    rw [isPlan] at isPlan'
    obtain rfl := Option.some.inj isPlan'
    exact inGroup
  · intro inGroup
    exact ⟨scanned_with_chunk free found found' sameChunk.symm scanned stored', closed, plan, isPlan,
      inGroup⟩

/-- The group of a key keeps the answers that its plan promises, and all its versions without a
plan. -/
structure GroupKept (target : GcTarget) (plans : Plans) (before after : Rows) (key : Key)
    (located : Located) : Prop where
  answers : ∀ plan, plans (key.take located.scopeEnd) = some plan →
    ∀ revision, plan.Promises revision →
      SameAnswer target.dropOrphanTombstones
        (newestAt (groupVersions target (located.chunk key, located.tail key) before.rows) revision)
        (newestAt (groupVersions target (located.chunk key, located.tail key) after.rows) revision)
  untouched : plans (key.take located.scopeEnd) = none →
    groupVersions target (located.chunk key, located.tail key) after.rows =
      groupVersions target (located.chunk key, located.tail key) before.rows

theorem group_after_run (isTarget : target ∈ gcTargets) (free : scope.NamesFree) {plans : Plans}
    {key : Key} (found : locate target key = some located) {dryRun : Bool} {after : Rows}
    (run : pruneCf target plans scope dryRun store = some after) :
    GroupKept target plans store after key located := by
  set before := groupVersions target (located.chunk key, located.tail key) store.rows with before_eq
  rw [pruneCf_eq] at run
  obtain rfl := Option.some.inj run
  cases dryRun with
  | true =>
    rw [if_pos rfl]
    exact ⟨fun _ _ _ _ => SameAnswer.refl _ _, fun _ => rfl⟩
  | false =>
    have left : groupVersions target (located.chunk key, located.tail key)
        ((prunedKeys target plans scope store).foldl OrderedStore.delete store).rows =
          before.filter fun version => version.key ∉ prunedKeys target plans scope store := by
      rw [OrderedStore.rows_foldl_delete, before_eq]
      refine (congrArg _ (filter_congr fun row _ => ?_)).trans
        (groupVersions_filter fun key => decide (key ∉ prunedKeys target plans scope store))
      exact decide_eq_decide.mpr Iff.rfl
    suffices kept : (∀ plan, plans (key.take located.scopeEnd) = some plan →
        ∀ revision, plan.Promises revision →
          SameAnswer target.dropOrphanTombstones (newestAt before revision)
            (newestAt (before.filter fun version =>
              version.key ∉ prunedKeys target plans scope store) revision)) ∧
        (plans (key.take located.scopeEnd) = none → (before.filter fun version =>
          version.key ∉ prunedKeys target plans scope store) = before) by
      rw [if_neg Bool.false_ne_true]
      exact ⟨by rw [left]; exact kept.1, by rw [left]; exact kept.2⟩
    by_cases pruned : ∃ version ∈ before, version.key ∈ prunedKeys target plans scope store
    · obtain ⟨version, hversion, isPruned⟩ := pruned
      obtain ⟨row', stored', own⟩ := mem_filterMap.mp hversion
      obtain ⟨located', found', group_eq, _⟩ := groupVersion_eq_some_iff.mp own
      obtain ⟨sameChunk, sameTail⟩ := Prod.mk.inj group_eq
      have sameScope := scope_of_chunk found' found sameChunk
      rw [key_of_groupVersion own] at isPruned
      constructor
      · intro plan isPlan revision promised
        have members := pruned_of_group free stored' found' (sameScope ▸ isPlan) isPruned
        rw [group_eq, sameChunk] at members
        have kept : before.filter (fun version =>
            version.key ∉ prunedKeys target plans scope store) =
              before.filter fun version => version.key ∉ pruneGroup target plan
                (isNodeChunk target (located.chunk key)) before :=
          filter_congr fun other hother => by
            rw [decide_eq_decide, not_iff_not]
            exact members other hother
        rw [kept]
        exact sameAnswer_pruneGroup target _ (nodup_keys_groupVersions target _ store)
          (fun one hone other hother => version_unique isTarget hone hother) promised
      · intro noPlan
        obtain ⟨_, _, plan, isPlan, _⟩ := (mem_prunedKeys free stored' found').mp isPruned
        rw [sameScope, noPlan] at isPlan
        cases isPlan
    · have whole : before.filter (fun version =>
          version.key ∉ prunedKeys target plans scope store) = before := by
        rw [filter_eq_self]
        exact fun version hversion => decide_eq_true fun isPruned =>
          pruned ⟨version, hversion, isPruned⟩
      rw [whole]
      exact ⟨fun _ _ _ _ => SameAnswer.refl _ _, fun _ => rfl⟩

/-- The versions that survive answer every promised read of an entity, and so do those that a run
leaves of every group. -/
theorem retention_keeps_promised_reads (isTarget : target ∈ gcTargets) (free : scope.NamesFree)
    (plans : Plans) (dryRun : Bool) (store : Rows) :
    (∀ versions, Descending versions → ∀ plan : ScopePlan, ∀ dropOrphanTombstones revision,
      plan.Promises revision →
        SameAnswer dropOrphanTombstones (newestAt versions revision)
          (newestAt (keptVersions versions (selectSurvivors (versions.map Version.rev)
            (versions.map Version.tomb) plan dropOrphanTombstones)) revision)) ∧
      ∃ after, pruneCf target plans scope dryRun store = some after ∧
        ∀ key located, locate target key = some located →
          GroupKept target plans store after key located := by
  refine ⟨fun versions descending plan drops revision promised => ?_, _,
    pruneCf_eq target plans scope dryRun store, fun key located found => ?_⟩
  · exact sameAnswer_survivors descending promised drops false
  · exact group_after_run isTarget free found (pruneCf_eq target plans scope dryRun store)

/-! ## A deleted page -/

def nodesTarget : GcTarget := ⟨.branch .nodes, true, [tagged 4 "nodes" .tail], true⟩

def pageKey (revision : HLC) : Key :=
  (BranchKey.node "docs" "page-1" revision).bytes "acme" "web" "main"

/-- A page that was written twice, deleted, and written again. -/
def pageStore : Rows :=
  (((OrderedStore.empty.put (pageKey ⟨2, 0⟩) (utf8Bytes "draft")).put (pageKey ⟨3, 0⟩)
    (utf8Bytes "final")).put (pageKey ⟨5, 0⟩) (utf8Bytes "T")).put (pageKey ⟨30, 0⟩)
    (utf8Bytes "again")

/-- The branch keeps what is newer than a revision and what a tag pins. -/
def mainPlan : Plans := fun scope =>
  if scope = build [utf8Bytes "acme", utf8Bytes "web", utf8Bytes "main"] then
    some ⟨⟨20, 0⟩, [⟨2, 5⟩]⟩
  else none

theorem deleted_page_keeps_its_answers :
    ∃ after, pruneCf nodesTarget mainPlan ⟨some "acme", none⟩ false pageStore = some after ∧
      GroupKept nodesTarget mainPlan pageStore after (pageKey ⟨5, 0⟩) ⟨13, 32⟩ := by
  have isTarget : nodesTarget ∈ gcTargets := by decide
  have free : GcScope.NamesFree ⟨some "acme", none⟩ :=
    ⟨fun _ isTenant => Option.some.inj isTenant ▸ by decide, fun _ isRepo => by cases isRepo⟩
  obtain ⟨_, after, run, kept⟩ :=
    retention_keeps_promised_reads isTarget free mainPlan false pageStore
  exact ⟨after, run, kept _ _ (by decide +kernel)⟩

end RaisinDB.History
