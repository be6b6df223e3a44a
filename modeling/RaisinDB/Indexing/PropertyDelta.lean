import RaisinDB.Foundation.DeltaIndex
import RaisinDB.Foundation.Machine
import RaisinDB.Indexing.PropertyEntries

/-!
# The property index of a node

A write puts the entries of the new version and ends those that the version before
does not share with it.  When that version is known to be the predecessor, entries that
did not change are skipped.  A version that arrives below stored ones also ends its own
entries at the next version and writes the entries of all newer versions again.
-/

namespace RaisinDB.Indexing

open RaisinDB.Branches RaisinDB.Clock RaisinDB.Foundation RaisinDB.Oplog List
open RaisinDB.Replication (HLC)

/-! ## Stored versions -/

/-- The versions of one node, a delete being a version without content, and the rows of its
entries under their value prefix. -/
structure PropertyIndex where
  nodes : VersionedStore Unit HLC (Option Node)
  rows : VersionedStore Key HLC EntryState

abbrev StoredVersion := HLC × Option Node

/-- The greatest revision below another. -/
def predecessor (revision : HLC) : Option HLC :=
  match revision.timestampMs, revision.counter with
  | 0, 0 => none
  | timestampMs + 1, 0 => some ⟨timestampMs, maxU64⟩
  | timestampMs, counter + 1 => some ⟨timestampMs, counter⟩

namespace PropertyIndex

variable (index : PropertyIndex)

def empty : PropertyIndex := ⟨.empty, .empty⟩

def nodeVersionAtOrBefore : Option HLC → Option StoredVersion
  | some maxRevision => index.nodes.newestAtOrBefore () maxRevision
  | none => index.nodes.newest ()

def nodeVersionBefore (revision : HLC) : Option StoredVersion :=
  (predecessor revision).bind fun bound => index.nodeVersionAtOrBefore (some bound)

def nodeVersionsAbove (revision : HLC) : List StoredVersion :=
  index.nodes.versionsAbove () revision

/-- The node as it is now, unless it is deleted. -/
def loadLatestNode : Option Node := (index.nodeVersionAtOrBefore none).bind Prod.snd

end PropertyIndex

/-! ## Baselines -/

inductive Baseline where
  | predecessor (old : Node)
  | full (old : Option Node)
  | outOfOrder (prior : Option Node) (successors : List StoredVersion)
  | noPrior

/-- The baseline of a local write.  The fallback is the caller's view of the prior version. -/
def resolveBaseline (index : PropertyIndex) (revision : HLC) (fallback : Option Node)
    (skipPermitted : Bool) : Baseline :=
  if skipPermitted then
    match index.nodeVersionAtOrBefore none with
    | none => .noPrior
    | some (foundAt, newest) =>
        if foundAt < revision then
          match newest with
          | none => .noPrior
          | some node => .predecessor node
        else
          let prior := (index.nodeVersionBefore revision).bind Prod.snd
          if foundAt = revision then .full prior
          else .outOfOrder prior (index.nodeVersionsAbove revision)
  else
    match index.nodeVersionsAbove revision with
    | [] => .full fallback
    | successors => .outOfOrder ((index.nodeVersionBefore revision).bind Prod.snd) successors

/-! ## Rows -/

abbrev IndexRow := Key × HLC × EntryState

/-- The keys of entries. -/
def keysOf (ctx : IndexCtx) (entries : List PropertyEntry) : List Key :=
  entries.map fun entry => entry.valuePrefix ctx

/-- The entries of a version; a delete has none. -/
def versionEntries (version : Option Node) : List PropertyEntry :=
  version.elim [] entriesOf

def difference (entries others : List PropertyEntry) : List PropertyEntry :=
  entries.filter fun entry => entry ∉ others

def Baseline.old : Baseline → List PropertyEntry
  | .predecessor old => entriesOf old
  | .full old => versionEntries old
  | .outOfOrder prior _ => versionEntries prior
  | .noPrior => []

/-- Write the entries of every newer version again, at its own revision. -/
def reassertSuccessors (ctx : IndexCtx) (successors : List StoredVersion) : List IndexRow :=
  successors.flatMap fun successor =>
    VersionedStore.rowsAt successor.1 .live (keysOf ctx (versionEntries successor.2))

def writeSuccessors (ctx : IndexCtx) (newEntries : List PropertyEntry)
    (successors : List StoredVersion) : List IndexRow :=
  match successors with
  | [] => []
  | first :: _ =>
      VersionedStore.rowsAt first.1 .tombstone
        (keysOf ctx (difference newEntries (versionEntries first.2))) ++
      reassertSuccessors ctx successors

/-- The rows of a write, in the order in which they are put. -/
def writePropertyIndexDelta (ctx : IndexCtx) (baseline : Baseline) (new : Node) (revision : HLC) :
    List IndexRow :=
  let old := baseline.old
  let newEntries := entriesOf new
  let ended := VersionedStore.rowsAt revision .tombstone (keysOf ctx (difference old newEntries))
  match baseline with
  | .predecessor _ =>
      ended ++ VersionedStore.rowsAt revision .live (keysOf ctx (difference newEntries old))
  | .outOfOrder _ successors =>
      ended ++ VersionedStore.rowsAt revision .live (keysOf ctx newEntries) ++
        writeSuccessors ctx newEntries successors
  | .full _ | .noPrior => ended ++ VersionedStore.rowsAt revision .live (keysOf ctx newEntries)

/-- The rows of a delete that ends the entries of a given version. -/
def tombstonePropertyIndexes (ctx : IndexCtx) (ended : Option Node) (revision : HLC)
    (successors : List StoredVersion) : List IndexRow :=
  VersionedStore.rowsAt revision .tombstone (keysOf ctx (versionEntries ended)) ++
    reassertSuccessors ctx successors

/-! ## Writes -/

namespace PropertyIndex

variable (ctx : IndexCtx) (codec : PropertyCodec) (index : PropertyIndex)

/-- The record and its rows go into one batch. -/
def store (revision : HLC) (version : Option Node) (rows : List IndexRow) : PropertyIndex :=
  ⟨index.nodes.put () revision (version.map codec.storedNode), index.rows.putVersions rows⟩

/-- A local write, checked against the stored versions when it commits. -/
def write (node : Node) (revision : HLC) (skipPermitted : Bool) : PropertyIndex :=
  let baseline := resolveBaseline index revision index.loadLatestNode skipPermitted
  index.store codec revision (some node) (writePropertyIndexDelta ctx baseline node revision)

/-- A local delete ends the version in force when it commits. -/
def delete (revision : HLC) : PropertyIndex :=
  match index.loadLatestNode with
  | none => index
  | some _ =>
      index.store codec revision none
        (tombstonePropertyIndexes ctx ((index.nodeVersionBefore revision).bind Prod.snd) revision
          (index.nodeVersionsAbove revision))

def applyReplicatedUpsert (node : Node) (revision : HLC) : PropertyIndex :=
  let replaced := (index.nodeVersionAtOrBefore (some revision)).bind Prod.snd
  let baseline :=
    match index.nodeVersionsAbove revision with
    | [] => .full replaced
    | successors => .outOfOrder replaced successors
  index.store codec revision (some node) (writePropertyIndexDelta ctx baseline node revision)

def applyReplicatedDelete (node : Node) (revision : HLC) : PropertyIndex :=
  index.store codec revision none
    (tombstonePropertyIndexes ctx (some node) revision (index.nodeVersionsAbove revision))

/-- A replicated delete carries the version that its origin deleted.  Without one, the node is
looked up as it was at the delete, or else as it is now. -/
def applyDeleteNodeSnapshot (carried : Option Node) (revision : HLC) : PropertyIndex :=
  match carried with
  | some node => index.applyReplicatedDelete ctx codec node revision
  | none =>
      match index.loadLatestNode with
      | none => index
      | some latest =>
          let replaced := (index.nodeVersionAtOrBefore (some revision)).bind Prod.snd
          index.applyReplicatedDelete ctx codec (replaced.getD latest) revision

end PropertyIndex

/-- What arrives at the index of a node. -/
inductive IndexEvent where
  | write (node : Node) (revision : HLC) (skipPermitted : Bool)
  | delete (revision : HLC)
  | upsertSnapshot (node : Node) (revision : HLC)
  | deleteSnapshot (carried : Option Node) (revision : HLC)

def IndexEvent.revision : IndexEvent → HLC
  | .write _ revision _ => revision
  | .delete revision => revision
  | .upsertSnapshot _ revision => revision
  | .deleteSnapshot _ revision => revision

def indexStep (ctx : IndexCtx) (codec : PropertyCodec) (index : PropertyIndex) : IndexEvent → PropertyIndex
  | .write node revision skipPermitted => index.write ctx codec node revision skipPermitted
  | .delete revision => index.delete ctx codec revision
  | .upsertSnapshot node revision => index.applyReplicatedUpsert ctx codec node revision
  | .deleteSnapshot carried revision => index.applyDeleteNodeSnapshot ctx codec carried revision

def indexMachine (ctx : IndexCtx) (codec : PropertyCodec) :
    Machine PropertyIndex IndexEvent Unit where
  step index event := (indexStep ctx codec index event, ())

/-! ## Reads of the stored versions -/

/-- The keys that a version holds. -/
def versionKeys (ctx : IndexCtx) (version : Option Node) : List Key :=
  keysOf ctx (versionEntries version)

theorem predecessor_eq_none_iff {revision : HLC} :
    predecessor revision = none ↔ revision = ⟨0, 0⟩ := by
  obtain ⟨timestampMs, counter⟩ := revision
  cases timestampMs <;> cases counter <;> simp [predecessor]

theorem le_predecessor_iff {revision bound earlier : HLC} (fits : Fits earlier)
    (found : predecessor revision = some bound) : earlier ≤ bound ↔ earlier < revision := by
  obtain ⟨timestampMs, counter⟩ := revision
  rw [hlc_le_iff, hlc_lt_iff]
  have small := fits.2
  cases timestampMs with
  | zero =>
    cases counter with
    | zero => cases found
    | succ counter =>
      have same : bound = ⟨0, counter⟩ := (Option.some.inj found).symm
      rw [same]
      dsimp only
      omega
  | succ timestampMs =>
    cases counter with
    | zero =>
      obtain rfl := Option.some.inj found
      dsimp only
      omega
    | succ counter =>
      obtain rfl := Option.some.inj found
      dsimp only
      omega

namespace PropertyIndex

variable {index : PropertyIndex}

def RevisionsFit (index : PropertyIndex) : Prop :=
  ∀ revision, (index.nodes.get () revision).isSome → Fits revision

theorem nodeVersionBefore_eq (fits : index.RevisionsFit) (revision : HLC) :
    index.nodeVersionBefore revision = index.nodes.newestBefore () revision := by
  rw [nodeVersionBefore]
  cases found : predecessor revision with
  | none =>
    symm
    refine VersionedStore.newestBefore_eq_none_iff.mpr fun earlier below => ?_
    rw [predecessor_eq_none_iff.mp found, hlc_lt_iff] at below
    dsimp only at below
    omega
  | some bound =>
    have same : (index.nodes.revisions () fun earlier => earlier ≤ bound) =
        index.nodes.revisions () fun earlier => earlier < revision := by
      refine VersionedStore.revisions_congr fun earlier present => ?_
      exact decide_eq_decide.mpr (le_predecessor_iff (fits earlier present) found)
    exact congrArg (fun revisions => index.nodes.versionAt () revisions.max?) same

end PropertyIndex

/-! ## Rows of a write -/

theorem mem_keysOf {ctx : IndexCtx} {entries : List PropertyEntry} {key : Key} :
    key ∈ keysOf ctx entries ↔ ∃ entry ∈ entries, entry.valuePrefix ctx = key := mem_map

theorem mem_difference {entries others : List PropertyEntry} {entry : PropertyEntry} :
    entry ∈ difference entries others ↔ entry ∈ entries ∧ entry ∉ others := by
  rw [difference, mem_filter, decide_eq_true_iff]

namespace Baseline

def successors : Baseline → List StoredVersion
  | .outOfOrder _ successors => successors
  | _ => []

/-- The entries that are put at the revision of the write. -/
def written (new : Node) : Baseline → List PropertyEntry
  | .predecessor old => difference (entriesOf new) (entriesOf old)
  | _ => entriesOf new

/-- The keys that end at the next version. -/
def ended (ctx : IndexCtx) (new : Node) (baseline : Baseline) : List Key :=
  baseline.successors.head?.elim [] fun first =>
    keysOf ctx (difference (entriesOf new) (versionEntries first.2))

end Baseline

/-- An update whose unchanged entries have keys of their own: no entry that it drops has the key of
one that it keeps. -/
def KeepsApart (ctx : IndexCtx) (old new : Node) : Prop :=
  ∀ kept ∈ entriesOf old, kept ∈ entriesOf new →
    ∀ dropped ∈ difference (entriesOf old) (entriesOf new),
      kept.valuePrefix ctx ≠ dropped.valuePrefix ctx

/-- The node that is stored has the keys of the one that is written. -/
def KeepsKeys (ctx : IndexCtx) (codec : PropertyCodec) (node : Node) : Prop :=
  (∀ key ∈ keysOf ctx (entriesOf node), key ∈ keysOf ctx (entriesOf (codec.storedNode node))) ∧
    ∀ key ∈ keysOf ctx (entriesOf (codec.storedNode node)), key ∈ keysOf ctx (entriesOf node)

section Rows

variable {ctx : IndexCtx}

theorem writePropertyIndexDelta_eq (baseline : Baseline) (new : Node) (revision : HLC) :
    writePropertyIndexDelta ctx baseline new revision =
      VersionedStore.rowsAt revision .tombstone
          (keysOf ctx (difference baseline.old (entriesOf new))) ++
        VersionedStore.rowsAt revision .live (keysOf ctx (baseline.written new)) ++
        endRows baseline.successors (baseline.ended ctx new) ++
        reassertRows (versionKeys ctx) baseline.successors := by
  cases baseline with
  | outOfOrder prior successors =>
    cases successors with
    | nil =>
      simp [writePropertyIndexDelta, writeSuccessors, Baseline.written, Baseline.successors,
        endRows, reassertRows]
    | cons first rest =>
      simp [writePropertyIndexDelta, writeSuccessors, reassertSuccessors, Baseline.written,
        Baseline.successors, Baseline.ended, endRows, reassertRows, versionKeys]
  | _ =>
    simp [writePropertyIndexDelta, Baseline.old, Baseline.written, Baseline.successors, endRows,
      reassertRows]

/-- The rows at the revision of a write tell the new version from the one it is compared with. -/
theorem explains_write {rows : VersionedStore Key HLC EntryState} {baseline : Baseline}
    {new : Node} {revision : HLC} {key : Key} (bare : rows.get key revision = none)
    (apart : ∀ old, baseline = .predecessor old → KeepsApart ctx old new) :
    Explains ((rows.putVersions (VersionedStore.rowsAt revision .tombstone
          (keysOf ctx (difference baseline.old (entriesOf new))) ++
        VersionedStore.rowsAt revision .live (keysOf ctx (baseline.written new)))).get key revision)
      (key ∈ keysOf ctx (entriesOf new)) (key ∈ keysOf ctx baseline.old) := by
  have within : ∀ entry ∈ baseline.written new, entry ∈ entriesOf new := by
    intro entry hentry
    cases baseline with
    | predecessor old => exact (mem_difference.mp hentry).1
    | _ => exact hentry
  -- an entry that is not put is one that the predecessor shares
  have skipped : ∀ entry ∈ entriesOf new, entry ∉ baseline.written new →
      ∃ old, baseline = .predecessor old ∧ entry ∈ entriesOf old := by
    intro entry hentry unwritten
    cases baseline with
    | predecessor old =>
      refine ⟨old, rfl, by_contra fun absent => unwritten ?_⟩
      exact mem_difference.mpr ⟨hentry, absent⟩
    | _ => exact absurd hentry unwritten
  apply explains_ownRows bare
  · intro hwritten
    obtain ⟨entry, hentry, rfl⟩ := mem_keysOf.mp hwritten
    exact mem_keysOf.mpr ⟨entry, within entry hentry, rfl⟩
  · intro hended unwritten present
    obtain ⟨entry, hentry, rfl⟩ := mem_keysOf.mp present
    obtain ⟨dropped, hdropped, same⟩ := mem_keysOf.mp hended
    obtain ⟨old, rfl, hold⟩ := skipped entry hentry fun hwritten =>
      unwritten (mem_keysOf.mpr ⟨entry, hwritten, rfl⟩)
    exact apart old rfl entry hold hentry dropped hdropped same.symm
  · intro kept unwritten
    constructor
    · intro present
      obtain ⟨entry, hentry, rfl⟩ := mem_keysOf.mp present
      obtain ⟨old, rfl, hold⟩ := skipped entry hentry fun hwritten =>
        unwritten (mem_keysOf.mpr ⟨entry, hwritten, rfl⟩)
      exact mem_keysOf.mpr ⟨entry, hold, rfl⟩
    · intro before
      obtain ⟨entry, hentry, rfl⟩ := mem_keysOf.mp before
      refine mem_keysOf.mpr ⟨entry, by_contra fun absent => kept ?_, rfl⟩
      exact mem_keysOf.mpr ⟨entry, mem_difference.mpr ⟨hentry, absent⟩, rfl⟩

end Rows

/-! ## Every order of arrival -/

/-- The keys of the node at a revision. -/
def keysAt (ctx : IndexCtx) (version : Option StoredVersion) : Set Key :=
  heldBy (fun version => {key | key ∈ versionKeys ctx version}) version

/-- The rows are exact for the stored versions. -/
structure PropertyIndex.Exact (ctx : IndexCtx) (index : PropertyIndex) : Prop where
  fits : index.RevisionsFit
  delta : DeltaIndex (fun version => {key | key ∈ versionKeys ctx version}) index.nodes ()
    index.rows

section Steps

variable {ctx : IndexCtx} {codec : PropertyCodec} {index : PropertyIndex} {revision : HLC}

theorem mem_keysAt {version : Option StoredVersion} {key : Key} :
    key ∈ keysAt ctx version ↔ key ∈ versionKeys ctx (version.bind Prod.snd) := by
  cases version with
  | none => exact iff_of_false id not_mem_nil
  | some version => exact Iff.rfl

theorem PropertyIndex.Exact.fits_store (exact : index.Exact ctx) (fits : Fits revision)
    (version : Option Node) (rows : List IndexRow) :
    (index.store codec revision version rows).RevisionsFit := by
  intro other present
  rcases eq_or_ne other revision with rfl | different
  · exact fits
  · have apart : ((), other) ≠ ((), revision) := fun same => different (Prod.mk.inj same).2
    rw [PropertyIndex.store, VersionedStore.get_put_other _ apart] at present
    exact exact.fits other present

/-- A write with a right baseline keeps the index exact. -/
theorem PropertyIndex.Exact.store_write (exact : index.Exact ctx) (fits : Fits revision)
    (fresh : index.nodes.get () revision = none) {baseline : Baseline} {node : Node}
    (old : baseline.old = versionEntries ((index.nodeVersionBefore revision).bind Prod.snd))
    (successors : baseline.successors = index.nodeVersionsAbove revision)
    (apart : ∀ old, baseline = .predecessor old → KeepsApart ctx old node)
    (keeps : KeepsKeys ctx codec node) :
    (index.store codec revision (some node)
      (writePropertyIndexDelta ctx baseline node revision)).Exact ctx := by
  refine ⟨exact.fits_store fits _ _, ?_⟩
  rw [writePropertyIndexDelta_eq, successors]
  refine exact.delta.arrive_rows (some (codec.storedNode node)) fresh ?_ (baseline.ended ctx node) ?_ ?_
  · intro row hrow
    exact (mem_append.mp hrow).elim VersionedStore.revision_of_mem_rowsAt
      VersionedStore.revision_of_mem_rowsAt
  · intro key
    have explains := explains_write (exact.delta.anchored key revision fresh) apart
    have before : key ∈ keysAt ctx (index.nodes.newestBefore () revision) ↔
        key ∈ keysOf ctx baseline.old := by
      rw [mem_keysAt, old, ← PropertyIndex.nodeVersionBefore_eq exact.fits]
      rfl
    have same : key ∈ versionKeys ctx (some (codec.storedNode node)) ↔
        key ∈ keysOf ctx (entriesOf node) := ⟨keeps.2 key, keeps.1 key⟩
    rw [← propext before, ← propext same] at explains
    exact explains
  · intro first later found key hkey
    have head : baseline.successors.head? = some (first, later) := by
      rw [successors, ← found]
      exact VersionedStore.head?_versionsAbove ..
    obtain ⟨entry, hentry, rfl⟩ := mem_keysOf.mp (keeps.2 key hkey)
    by_cases shared : entry ∈ versionEntries later
    · exact .inl (mem_keysOf.mpr ⟨entry, shared, rfl⟩)
    · refine .inr ?_
      rw [Baseline.ended, head]
      exact mem_keysOf.mpr ⟨entry, mem_difference.mpr ⟨hentry, shared⟩, rfl⟩

/-- A delete keeps the index exact when it ends all that the version below it holds. -/
theorem PropertyIndex.Exact.store_delete (exact : index.Exact ctx) (fits : Fits revision)
    (fresh : index.nodes.get () revision = none) {ended : Option Node}
    (covers : ∀ key ∈ versionKeys ctx ((index.nodeVersionBefore revision).bind Prod.snd),
      key ∈ versionKeys ctx ended) :
    (index.store codec revision none (tombstonePropertyIndexes ctx ended revision
      (index.nodeVersionsAbove revision))).Exact ctx := by
  refine ⟨exact.fits_store fits _ _, ?_⟩
  have shape : tombstonePropertyIndexes ctx ended revision (index.nodeVersionsAbove revision) =
      VersionedStore.rowsAt revision .tombstone (versionKeys ctx ended) ++
        VersionedStore.rowsAt revision .live [] ++
      endRows (index.nodes.versionsAbove () revision) [] ++
      reassertRows (versionKeys ctx) (index.nodes.versionsAbove () revision) := by
    rw [endRows_nil, append_nil]
    exact (congrArg (· ++ _) (append_nil _)).symm
  rw [shape]
  refine exact.delta.arrive_rows none fresh ?_ [] ?_ ?_
  · intro row hrow
    exact (mem_append.mp hrow).elim VersionedStore.revision_of_mem_rowsAt
      VersionedStore.revision_of_mem_rowsAt
  · intro key
    apply explains_ownRows (exact.delta.anchored key revision fresh)
    · intro impossible
      cases impossible
    · intro _ _ impossible
      cases impossible
    · intro kept _
      refine iff_of_false not_mem_nil fun before => kept ?_
      apply covers
      rw [PropertyIndex.nodeVersionBefore_eq exact.fits, ← mem_keysAt]
      exact before
  · intro first later found key hkey
    cases hkey

/-- Without newer versions, the newest one is the one before the revision. -/
theorem newest_eq_nodeVersionBefore (exact : index.Exact ctx)
    (fresh : index.nodes.get () revision = none) (last : index.nodeVersionsAbove revision = []) :
    index.nodes.newest () = index.nodeVersionBefore revision := by
  rw [PropertyIndex.nodeVersionBefore_eq exact.fits]
  refine VersionedStore.newest_eq_newestBefore fun later beyond => ?_
  rcases beyond.eq_or_lt with rfl | beyond
  · exact fresh
  · exact VersionedStore.versionsAbove_eq_nil_iff.mp last later beyond

/-- How a baseline is resolved when skipping is permitted: the newest version decides whether
anything lies above the write. -/
theorem resolveBaseline_skipping (exact : index.Exact ctx)
    (fresh : index.nodes.get () revision = none) (fallback : Option Node) :
    resolveBaseline index revision fallback true =
      let prior := (index.nodeVersionBefore revision).bind Prod.snd
      if index.nodeVersionsAbove revision = [] then
        match prior with
        | none => .noPrior
        | some old => .predecessor old
      else .outOfOrder prior (index.nodeVersionsAbove revision) := by
  have last := newest_eq_nodeVersionBefore exact fresh
  rw [resolveBaseline, if_pos rfl, PropertyIndex.nodeVersionAtOrBefore]
  cases found : index.nodes.newest () with
  | none =>
    have above : index.nodeVersionsAbove revision = [] :=
      VersionedStore.versionsAbove_eq_nil_iff.mpr fun later _ =>
        VersionedStore.get_of_newest_eq_none found later
    rw [if_pos above, ← last above, found]
    rfl
  | some version =>
    obtain ⟨foundAt, newest⟩ := version
    dsimp only
    by_cases below : foundAt < revision
    · have above : index.nodeVersionsAbove revision = [] :=
        VersionedStore.versionsAbove_eq_nil_iff.mpr fun later after =>
          VersionedStore.get_above_newest found (below.trans after)
      rw [if_pos below, if_pos above, ← last above, found]
      rfl
    · have stored := (VersionedStore.versionAt_eq_some_iff.mp found).2
      have different : foundAt ≠ revision := by
        rintro rfl
        rw [fresh] at stored
        cases stored
      have above : index.nodeVersionsAbove revision ≠ [] := by
        intro nothing
        have after := (not_lt.mp below).lt_of_ne' different
        rw [VersionedStore.versionsAbove_eq_nil_iff.mp nothing foundAt after] at stored
        cases stored
      rw [if_neg below, if_neg different, if_neg above]

/-- The entries and the successors of a resolved baseline are those that are stored. -/
theorem resolveBaseline_right (exact : index.Exact ctx)
    (fresh : index.nodes.get () revision = none) (skipPermitted : Bool) :
    let baseline := resolveBaseline index revision index.loadLatestNode skipPermitted
    baseline.old = versionEntries ((index.nodeVersionBefore revision).bind Prod.snd) ∧
      baseline.successors = index.nodeVersionsAbove revision := by
  cases skipPermitted with
  | true =>
    rw [resolveBaseline_skipping exact fresh]
    dsimp only
    split_ifs with above
    · rw [above]
      cases (index.nodeVersionBefore revision).bind Prod.snd with
      | none => exact ⟨rfl, rfl⟩
      | some old => exact ⟨rfl, rfl⟩
    · exact ⟨rfl, rfl⟩
  | false =>
    rw [resolveBaseline, if_neg Bool.false_ne_true]
    cases above : index.nodeVersionsAbove revision with
    | nil =>
      rw [← newest_eq_nodeVersionBefore exact fresh above]
      exact ⟨rfl, rfl⟩
    | cons first rest => exact ⟨rfl, rfl⟩

/-- Only a write that may skip has a predecessor, and it is the version before the revision. -/
theorem of_resolveBaseline_predecessor (exact : index.Exact ctx)
    (fresh : index.nodes.get () revision = none) {fallback : Option Node} {skipPermitted : Bool}
    {old : Node} (resolved : resolveBaseline index revision fallback skipPermitted =
      .predecessor old) :
    skipPermitted = true ∧ index.nodeVersionsAbove revision = [] ∧
      (index.nodeVersionBefore revision).bind Prod.snd = some old := by
  cases skipPermitted with
  | true =>
    rw [resolveBaseline_skipping exact fresh] at resolved
    dsimp only at resolved
    split_ifs at resolved with above
    refine ⟨rfl, above, ?_⟩
    cases prior : (index.nodeVersionBefore revision).bind Prod.snd with
    | none =>
      rw [prior] at resolved
      cases resolved
    | some stored =>
      rw [prior] at resolved
      cases resolved
      rfl
  | false =>
    rw [resolveBaseline, if_neg Bool.false_ne_true] at resolved
    split at resolved
    · cases resolved
    · cases resolved

/-! Each kind of arrival keeps the index exact. -/

/-- No unchanged entry of a skipping write shares its key with an entry that ends. -/
def SkipsApart (ctx : IndexCtx) (index : PropertyIndex) (node : Node) (revision : HLC) : Prop :=
  index.nodeVersionsAbove revision = [] →
    ∀ old ∈ (index.nodeVersionBefore revision).bind Prod.snd, KeepsApart ctx old node

theorem PropertyIndex.Exact.write (exact : index.Exact ctx) (fits : Fits revision)
    (fresh : index.nodes.get () revision = none) {node : Node} {skipPermitted : Bool}
    (keeps : KeepsKeys ctx codec node)
    (apart : skipPermitted = true → SkipsApart ctx index node revision) :
    (index.write ctx codec node revision skipPermitted).Exact ctx := by
  obtain ⟨old, successors⟩ := resolveBaseline_right exact fresh skipPermitted
  refine exact.store_write fits fresh old successors (fun stored resolved => ?_) keeps
  obtain ⟨permitted, last, prior⟩ := of_resolveBaseline_predecessor exact fresh resolved
  exact apart permitted last stored prior

theorem PropertyIndex.Exact.delete (exact : index.Exact ctx) (fits : Fits revision)
    (fresh : index.nodes.get () revision = none) : (index.delete ctx codec revision).Exact ctx := by
  rw [PropertyIndex.delete]
  split
  · exact exact
  · exact exact.store_delete fits fresh fun _ holds => holds

theorem nodeVersionAtOrBefore_eq (exact : index.Exact ctx)
    (fresh : index.nodes.get () revision = none) :
    index.nodeVersionAtOrBefore (some revision) = index.nodeVersionBefore revision := by
  rw [PropertyIndex.nodeVersionBefore_eq exact.fits]
  exact VersionedStore.newestAtOrBefore_eq_newestBefore fresh

theorem PropertyIndex.Exact.applyReplicatedUpsert (exact : index.Exact ctx) (fits : Fits revision)
    (fresh : index.nodes.get () revision = none) {node : Node} (keeps : KeepsKeys ctx codec node) :
    (index.applyReplicatedUpsert ctx codec node revision).Exact ctx := by
  rw [PropertyIndex.applyReplicatedUpsert, nodeVersionAtOrBefore_eq exact fresh]
  cases above : index.nodeVersionsAbove revision with
  | nil => exact exact.store_write fits fresh rfl above.symm (by rintro _ ⟨⟩) keeps
  | cons first rest => exact exact.store_write fits fresh rfl above.symm (by rintro _ ⟨⟩) keeps

/-- The version that a delete carries has every key of the version that is stored below it. -/
def CarriesAll (ctx : IndexCtx) (index : PropertyIndex) (carried : Node) (revision : HLC) : Prop :=
  ∀ key ∈ versionKeys ctx ((index.nodeVersionBefore revision).bind Prod.snd),
    key ∈ versionKeys ctx (some carried)

theorem PropertyIndex.Exact.applyDeleteNodeSnapshot (exact : index.Exact ctx)
    (fits : Fits revision) (fresh : index.nodes.get () revision = none) {carried : Option Node}
    (carries : ∀ node ∈ carried, CarriesAll ctx index node revision) :
    (index.applyDeleteNodeSnapshot ctx codec carried revision).Exact ctx := by
  cases carried with
  | some node => exact exact.store_delete fits fresh (carries node rfl)
  | none =>
    unfold PropertyIndex.applyDeleteNodeSnapshot
    dsimp only
    split
    · exact exact
    · refine exact.store_delete fits fresh fun key holds => ?_
      rw [nodeVersionAtOrBefore_eq exact fresh]
      cases prior : (index.nodeVersionBefore revision).bind Prod.snd with
      | none =>
        rw [prior] at holds
        cases holds
      | some old =>
        rw [prior] at holds
        exact holds

end Steps

/-! ## Runs -/

/-- An event at a revision of its own. -/
structure Arrives (index : PropertyIndex) (event : IndexEvent) : Prop where
  fits : Fits event.revision
  fresh : index.nodes.get () event.revision = none

/-- A version is stored with the keys it is written with, a replicated delete carries every key of
the version below it, and a skipping write keeps the keys of unchanged entries apart from those
that end. -/
def EndsRight (ctx : IndexCtx) (codec : PropertyCodec) (index : PropertyIndex) : IndexEvent → Prop
  | .write node revision skipPermitted =>
      KeepsKeys ctx codec node ∧ (skipPermitted = true → SkipsApart ctx index node revision)
  | .upsertSnapshot node _ => KeepsKeys ctx codec node
  | .deleteSnapshot (some carried) revision => CarriesAll ctx index carried revision
  | _ => True

instance decidableArrives (index : PropertyIndex) (event : IndexEvent) :
    Decidable (Arrives index event) :=
  decidable_of_iff
    ((event.revision.timestampMs ≤ maxU64 ∧ event.revision.counter ≤ maxU64) ∧
      index.nodes.get () event.revision = none)
    ⟨fun both => ⟨both.1, both.2⟩, fun arrives => ⟨arrives.fits, arrives.fresh⟩⟩

instance decidableKeepsApart (ctx : IndexCtx) (old new : Node) :
    Decidable (KeepsApart ctx old new) :=
  inferInstanceAs (Decidable (∀ kept ∈ entriesOf old, kept ∈ entriesOf new →
    ∀ dropped ∈ difference (entriesOf old) (entriesOf new),
      kept.valuePrefix ctx ≠ dropped.valuePrefix ctx))

instance decidableKeepsKeys (ctx : IndexCtx) (codec : PropertyCodec) (node : Node) :
    Decidable (KeepsKeys ctx codec node) := inferInstanceAs (Decidable (_ ∧ _))

instance decidableEndsRight (ctx : IndexCtx) (codec : PropertyCodec) (index : PropertyIndex) :
    (event : IndexEvent) → Decidable (EndsRight ctx codec index event)
  | .write node revision skipPermitted =>
      inferInstanceAs (Decidable (KeepsKeys ctx codec node ∧ (skipPermitted = true →
        index.nodeVersionsAbove revision = [] →
          ∀ old ∈ (index.nodeVersionBefore revision).bind Prod.snd, KeepsApart ctx old node)))
  | .delete _ => .isTrue trivial
  | .upsertSnapshot node _ => inferInstanceAs (Decidable (KeepsKeys ctx codec node))
  | .deleteSnapshot none _ => .isTrue trivial
  | .deleteSnapshot (some carried) revision =>
      inferInstanceAs (Decidable
        (∀ key ∈ versionKeys ctx ((index.nodeVersionBefore revision).bind Prod.snd),
          key ∈ versionKeys ctx (some carried)))

theorem exact_step (ctx : IndexCtx) (codec : PropertyCodec) (index : PropertyIndex)
    (event : IndexEvent) (exact : index.Exact ctx)
    (right : Arrives index event ∧ EndsRight ctx codec index event) :
    ((indexMachine ctx codec).step index event).1.Exact ctx := by
  obtain ⟨⟨fits, fresh⟩, ends⟩ := right
  cases event with
  | write node revision skipPermitted =>
    obtain ⟨keeps, apart⟩ := ends
    exact exact.write fits fresh keeps apart
  | delete revision => exact exact.delete fits fresh
  | upsertSnapshot node revision => exact exact.applyReplicatedUpsert fits fresh ends
  | deleteSnapshot carried revision =>
    refine exact.applyDeleteNodeSnapshot fits fresh ?_
    rintro node ⟨⟩
    exact ends

theorem exact_empty (ctx : IndexCtx) : PropertyIndex.empty.Exact ctx where
  fits revision present := by cases present
  delta :=
    { anchored := fun _ _ _ => rfl
      explained := fun _ _ stored => by cases stored }

def docs : IndexCtx := ⟨"acme", "web", "main", "docs"⟩

/-- No text is a time. -/
def plainTexts : PropertyCodec := ⟨fun _ => none, id⟩

/-- A page with one property of its own. -/
def page (title : String) : Node where
  properties := AList.insert "title" (.string title) ∅
  nodeType := "page"
  name := "home"
  archetype := none
  createdBy := none
  updatedBy := none
  createdAt := none
  updatedAt := none
  publishedAt := none

/-- A write that skips, a delete of the version that its origin has seen and a delete. -/
def olderEvents : List IndexEvent :=
  [.write (page "draft") ⟨1, 0⟩ false, .write (page "draft") ⟨4, 0⟩ true,
    .upsertSnapshot (page "final") ⟨2, 0⟩, .deleteSnapshot (some (page "draft")) ⟨6, 0⟩,
    .delete ⟨5, 0⟩]

end RaisinDB.Indexing
