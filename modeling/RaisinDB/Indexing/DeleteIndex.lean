import RaisinDB.Indexing.PropertyEntries
import RaisinDB.Indexing.RevisionScan

/-!
# The delete index

Whether a translation has ended can be read off all versions of its node, newest
first, or off the recorded deletes of the node.  The recorded deletes may name
revisions that are no tombstones any more, so each is looked up before it counts.
-/

namespace RaisinDB.Indexing

open RaisinDB.Branches RaisinDB.Clock RaisinDB.Foundation RaisinDB.Oplog List
open RaisinDB.Replication (HLC)

/-! ## The walk -/

/-- The two column families that a lifeline is read from. -/
structure LifelineSource where
  nodes : Rows
  nodeDeletes : Rows

/-- `{tenant}\0{repo}\0{branch}\0{workspace}\0nodes\0{node}\0` -/
def nodeKeyPrefix (scope : IndexCtx) (nodeId : String) : Key :=
  buildPrefix [utf8Bytes scope.tenantId, utf8Bytes scope.repoId, utf8Bytes scope.branch,
    utf8Bytes scope.workspace, utf8Bytes "nodes", utf8Bytes nodeId]

/-- `{tenant}\0{repo}\0{branch}\0{workspace}\0{node}\0` -/
def nodePrefix (scope : IndexCtx) (nodeId : String) : Key :=
  buildPrefix [utf8Bytes scope.tenantId, utf8Bytes scope.repoId, utf8Bytes scope.branch,
    utf8Bytes scope.workspace, utf8Bytes nodeId]

/-- A tombstone, or the single zero byte that merges used to write. -/
def isTombstoneValue (value : List UInt8) : Bool := value = [84] ∨ value = [0]

/-- The items up to and including the first that stops. -/
def takeThrough {α : Type} (stop : α → Bool) : List α → List α
  | [] => []
  | item :: rest => if stop item then [item] else item :: takeThrough stop rest

/-- The records of a node at or below the bound, newest first, with whether each is a tombstone. -/
def walkRecords (nodes : Rows) (base : Key) (bound : Option HLC) : List (HLC × Bool) :=
  (versionsUnder nodes base bound).map fun version => (version.1, isTombstoneValue version.2)

def recordAtOrBefore (nodes : Rows) (base : Key) (revision : HLC) : Option (HLC × Bool) :=
  (walkRecords nodes base (some revision)).head?

/-- All records from the oldest revision that will be asked for, and one below it. -/
def walkedIn (source : LifelineSource) (scope : IndexCtx) (nodeId : String) (oldest : HLC)
    (bound : Option HLC) : List (HLC × Bool) :=
  takeThrough (fun record => record.1 < oldest)
    (walkRecords source.nodes (nodeKeyPrefix scope nodeId) bound)

def walkedEnds (records : List (HLC × Bool)) (version : HLC) : Bool :=
  match records with
  | [] => false
  | (revision, tomb) :: rest =>
      if version < revision then
        if tomb then true else walkedEnds rest version
      else tomb

/-! ## The index -/

/-- The base of the node's records and its recorded deletes, newest first. -/
structure IndexedLifeline where
  nodesPrefix : Key
  deletes : List HLC

/-- The recorded delete is a tombstone of the node. -/
def confirm (nodes : Rows) (nodesPrefix : Key) (revision : HLC) : Bool :=
  match recordAtOrBefore nodes nodesPrefix revision with
  | some (found, tomb) => found = revision && tomb
  | none => false

/-- Recorded deletes from a key on, through the first below a revision, and that one. -/
def scanEntries (nodeDeletes : Rows) (base seek : Key) (bound : Option HLC) (stopBelow : HLC) :
    List HLC × Option HLC :=
  let entries := takeThrough (fun revision => revision < stopBelow)
    ((versionsFrom nodeDeletes base seek bound).map Prod.fst)
  (entries, entries.getLast?.filter fun revision => revision < stopBelow)

/-- Recorded deletes are read one by one until one is confirmed.  There are no more steps than
rows. -/
def readBelow (source : LifelineSource) (nodesPrefix base : Key) (bound : Option HLC) :
    Nat → HLC → List HLC
  | 0, _ => []
  | fuel + 1, last =>
      if confirm source.nodes nodesPrefix last then []
      else
        let scanned := scanEntries source.nodeDeletes base
          (base ++ (encodeDescending last ++ [0])) bound last
        scanned.1 ++ scanned.2.elim [] (readBelow source nodesPrefix base bound fuel)

namespace IndexedLifeline

def readIn (source : LifelineSource) (scope : IndexCtx) (nodeId : String) (oldest : HLC)
    (bound : Option HLC) : IndexedLifeline :=
  let base := nodePrefix scope nodeId
  let scanned := scanEntries source.nodeDeletes base (seekKey base bound) bound oldest
  { nodesPrefix := nodeKeyPrefix scope nodeId
    deletes := scanned.1 ++ scanned.2.elim [] (readBelow source (nodeKeyPrefix scope nodeId) base
      bound source.nodeDeletes.rows.length) }

/-- The answer from recorded deletes, newest first. -/
def endsFrom (nodes : Rows) (nodesPrefix : Key) (version : HLC) : List HLC → Bool
  | [] => false
  | revision :: rest =>
      if version < revision then
        if confirm nodes nodesPrefix revision then true
        else endsFrom nodes nodesPrefix version rest
      else if ¬confirm nodes nodesPrefix revision then endsFrom nodes nodesPrefix version rest
      else if revision = version then true
      else (recordAtOrBefore nodes nodesPrefix version).any Prod.snd

def endsIn (lifeline : IndexedLifeline) (source : LifelineSource) (version : HLC) : Bool :=
  endsFrom source.nodes lifeline.nodesPrefix version lifeline.deletes

end IndexedLifeline

/-- A lifeline of a node, read in one of two ways. -/
inductive NodeLifeline where
  | walked (records : List (HLC × Bool))
  | indexed (lifeline : IndexedLifeline)

namespace NodeLifeline

/-- The index is used when it is ready. -/
def readIn (ready : Bool) (source : LifelineSource) (scope : IndexCtx) (nodeId : String)
    (oldest : HLC) (bound : Option HLC) : NodeLifeline :=
  if ready then .indexed (IndexedLifeline.readIn source scope nodeId oldest bound)
  else .walked (walkedIn source scope nodeId oldest bound)

def endsIn (source : LifelineSource) (version : HLC) : NodeLifeline → Bool
  | .walked records => walkedEnds records version
  | .indexed lifeline => lifeline.endsIn source version

end NodeLifeline

/-! ## Records and confirmation -/

theorem takeThrough_cases {α : Type} (stop : α → Bool) (items : List α) :
    (takeThrough stop items = items ∧ ∀ item ∈ items, stop item = false) ∨
      ∃ early item late, items = early ++ item :: late ∧
        takeThrough stop items = early ++ [item] ∧ stop item = true ∧
        ∀ other ∈ early, stop other = false := by
  induction items with
  | nil => exact .inl ⟨rfl, fun _ hmem => by cases hmem⟩
  | cons head rest ih =>
    rw [takeThrough]
    by_cases stops : stop head = true
    · rw [if_pos stops]
      exact .inr ⟨[], head, rest, rfl, rfl, stops, fun _ hmem => by cases hmem⟩
    · rw [if_neg stops]
      have passes : stop head = false := Bool.eq_false_of_not_eq_true stops
      rcases ih with ⟨whole, none⟩ | ⟨early, item, late, split, through, found, before⟩
      · exact .inl ⟨by rw [whole], forall_mem_cons.mpr ⟨passes, none⟩⟩
      · refine .inr ⟨head :: early, item, late, by rw [split, cons_append], ?_, found, ?_⟩
        · rw [through, cons_append]
        · exact forall_mem_cons.mpr ⟨passes, before⟩

section Records

variable {nodes : Rows} {base : Key}

theorem walkRecords_sorted (bound : Option HLC) :
    (walkRecords nodes base bound).Pairwise fun first second => second.1 < first.1 :=
  pairwise_map.mpr (versionsUnder_sorted nodes base bound)

theorem walkRecords_some {bound : Option HLC} {revision : HLC} (fits : Fits revision)
    (limits : ∀ limit ∈ bound, Fits limit) (within : Within bound revision) :
    walkRecords nodes base (some revision) =
      (walkRecords nodes base bound).filter fun record => record.1 ≤ revision := by
  rw [walkRecords, versionsUnder_some fits limits within, walkRecords, filter_map]
  rfl

/-- The newest record at or before a revision is at the revision when there is one. -/
theorem recordAtOrBefore_eq_some_self {bound : Option HLC} {revision : HLC} {tomb : Bool}
    (fits : Fits revision) (limits : ∀ limit ∈ bound, Fits limit)
    (within : Within bound revision) :
    recordAtOrBefore nodes base revision = some (revision, tomb) ↔
      (revision, tomb) ∈ walkRecords nodes base bound := by
  have sorted : ((walkRecords nodes base bound).filter fun record => record.1 ≤ revision).Pairwise
      fun first second => second.1 < first.1 := (walkRecords_sorted bound).filter _
  have member : (revision, tomb) ∈ walkRecords nodes base bound ↔
      (revision, tomb) ∈ (walkRecords nodes base bound).filter
        fun record => record.1 ≤ revision := by
    rw [mem_filter]
    exact ⟨fun hmem => ⟨hmem, decide_eq_true le_rfl⟩, And.left⟩
  rw [recordAtOrBefore, walkRecords_some fits limits within, member]
  cases shape : (walkRecords nodes base bound).filter fun record => record.1 ≤ revision with
  | nil => exact iff_of_false nofun not_mem_nil
  | cons head rest =>
    rw [shape] at sorted
    have hhead : head ∈ (walkRecords nodes base bound).filter fun record => record.1 ≤ revision := by
      rw [shape]
      exact mem_cons_self
    have below := of_decide_eq_true (mem_filter.mp hhead).2
    constructor
    · intro same
      rw [← Option.some.inj same]
      exact mem_cons_self
    · intro hmem
      rcases mem_cons.mp hmem with same | later
      · rw [same]
        rfl
      · exact absurd ((pairwise_cons.mp sorted).1 _ later) (not_lt.mpr below)

/-- A recorded delete is confirmed exactly when the node has a tombstone there. -/
theorem confirm_iff {bound : Option HLC} {revision : HLC} (fits : Fits revision)
    (limits : ∀ limit ∈ bound, Fits limit) (within : Within bound revision) :
    confirm nodes base revision = true ↔ (revision, true) ∈ walkRecords nodes base bound := by
  rw [← recordAtOrBefore_eq_some_self fits limits within, confirm]
  cases recordAtOrBefore nodes base revision with
  | none => simp
  | some record =>
    obtain ⟨found, tomb⟩ := record
    simp

end Records

/-! ## The two answers -/

/-- The answer of the index depends on its first confirmed delete. -/
theorem endsFrom_eq (nodes : Rows) (base : Key) (version : HLC) (deletes : List HLC) :
    IndexedLifeline.endsFrom nodes base version deletes =
      (deletes.find? (confirm nodes base)).any fun revision =>
        version ≤ revision || (recordAtOrBefore nodes base version).any Prod.snd := by
  induction deletes with
  | nil => rfl
  | cons revision rest ih =>
    rw [IndexedLifeline.endsFrom]
    by_cases confirmed : confirm nodes base revision = true
    · rw [find?_cons_of_pos confirmed, if_pos confirmed, if_neg (not_not.mpr confirmed),
        Option.any_some]
      split_ifs with above same
      · simp [above.le]
      · simp [same]
      · have below : ¬version ≤ revision := fun le => above (le.lt_of_ne' same)
        simp [below]
    · rw [find?_cons_of_neg confirmed, if_neg confirmed, if_pos confirmed, ite_self, ih]

/-- The walk finds a tombstone above the version, or a tombstone as the newest record at or below
it. -/
theorem walkedEnds_eq {records : List (HLC × Bool)}
    (sorted : records.Pairwise fun first second => second.1 < first.1) (version : HLC) :
    walkedEnds records version =
      ((records.any fun record => version < record.1 && record.2) ||
        (records.filter fun record => record.1 ≤ version).head?.any Prod.snd) := by
  induction records with
  | nil => rfl
  | cons record rest ih =>
    obtain ⟨revision, tomb⟩ := record
    obtain ⟨older, sortedRest⟩ := pairwise_cons.mp sorted
    rw [walkedEnds, any_cons]
    by_cases above : version < revision
    · rw [if_pos above, filter_cons_of_neg (by simpa using above), ih sortedRest]
      cases tomb <;> simp [above]
    · -- everything behind this record is older than the version
      have none : (rest.any fun record => version < record.1 && record.2) = false := by
        rw [any_eq_false]
        intro other hother
        have less := (older other hother).trans_le (not_lt.mp above)
        simp [less.not_gt]
      rw [if_neg above, filter_cons_of_pos (by simpa using above), none]
      simp [above]

/-- What lies behind a record that is not above the version does not matter to the walk. -/
theorem walkedEnds_append {early late : List (HLC × Bool)} {record : HLC × Bool} {version : HLC}
    (below : record.1 ≤ version) :
    walkedEnds (early ++ record :: late) version = walkedEnds (early ++ [record]) version := by
  induction early with
  | nil =>
    obtain ⟨revision, tomb⟩ := record
    rw [nil_append, nil_append, walkedEnds, walkedEnds, if_neg (not_lt.mpr below),
      if_neg (not_lt.mpr below)]
  | cons first rest ih =>
    obtain ⟨revision, tomb⟩ := first
    rw [cons_append, cons_append, walkedEnds, walkedEnds, ih]

/-! ## What is read of the index -/

/-- All recorded deletes at or below the bound, newest first. -/
def recordedDeletes (nodeDeletes : Rows) (base : Key) (bound : Option HLC) : List HLC :=
  (versionsUnder nodeDeletes base bound).map Prod.fst

section Read

variable {source : LifelineSource} {nodesPrefix base : Key} {bound : Option HLC}

theorem recordedDeletes_sorted (nodeDeletes : Rows) (base : Key) (bound : Option HLC) :
    (recordedDeletes nodeDeletes base bound).Pairwise fun first second => second < first :=
  pairwise_map.mpr (versionsUnder_sorted nodeDeletes base bound)

theorem mem_recordedDeletes (limits : ∀ limit ∈ bound, Fits limit) {revision : HLC} :
    revision ∈ recordedDeletes source.nodeDeletes base bound ↔
      Fits revision ∧ Within bound revision ∧
        ∃ value, (base ++ encodeDescending revision, value) ∈ source.nodeDeletes.rows := by
  rw [recordedDeletes, mem_map]
  constructor
  · rintro ⟨⟨found, value⟩, hmem, rfl⟩
    obtain ⟨fits, stored, within⟩ := (mem_versionsUnder limits).mp hmem
    exact ⟨fits, within, value, stored⟩
  · rintro ⟨fits, within, value, stored⟩
    exact ⟨(revision, value), (mem_versionsUnder limits).mpr ⟨fits, stored, within⟩, rfl⟩

/-- What is older than the first of the older ones is the rest of them. -/
theorem filter_lt_of_filter_lt {revisions : List HLC}
    (sorted : revisions.Pairwise fun first second => second < first) {last next : HLC}
    {rest : List HLC} (shape : (revisions.filter fun revision => revision < last) = next :: rest) :
    (revisions.filter fun revision => revision < next) = rest := by
  have sorted' := sorted.filter fun revision => decide (revision < last)
  rw [shape] at sorted'
  have older := (pairwise_cons.mp sorted').1
  have less : next < last := by
    have hnext : next ∈ revisions.filter fun revision => revision < last := by
      rw [shape]
      exact mem_cons_self
    exact of_decide_eq_true (mem_filter.mp hnext).2
  calc (revisions.filter fun revision => revision < next)
      = (revisions.filter fun revision => revision < last).filter
          fun revision => revision < next := by
        rw [filter_filter]
        refine filter_congr fun revision _ => ?_
        rw [← Bool.decide_and]
        exact decide_eq_decide.mpr ⟨fun lower => ⟨lower, lower.trans less⟩, And.left⟩
    _ = rest := by
        rw [shape, filter_cons_of_neg (by simp)]
        exact filter_eq_self.mpr fun revision hmem => decide_eq_true (older revision hmem)

/-- Behind a recorded delete a scan reads the next one. -/
theorem scanEntries_behind {last : HLC} (fits : Fits last)
    (limits : ∀ limit ∈ bound, Fits limit) :
    let older := (recordedDeletes source.nodeDeletes base bound).filter
      fun revision => revision < last
    scanEntries source.nodeDeletes base (base ++ (encodeDescending last ++ [0])) bound last =
      (older.head?.toList, older.head?) := by
  have behind : ((versionsUnder source.nodeDeletes base bound).filter
        fun version => version.1 < last).map Prod.fst =
      (recordedDeletes source.nodeDeletes base bound).filter fun revision => revision < last := by
    rw [recordedDeletes, filter_map]
    rfl
  rw [scanEntries, versionsFrom_behind fits limits, behind]
  dsimp only
  cases shape : (recordedDeletes source.nodeDeletes base bound).filter
      fun revision => revision < last with
  | nil => rfl
  | cons head rest =>
    have hhead : head ∈ (recordedDeletes source.nodeDeletes base bound).filter
        fun revision => revision < last := by
      rw [shape]
      exact mem_cons_self
    have less := (mem_filter.mp hhead).2
    rw [takeThrough, if_pos less]
    simp only [getLast?_singleton, Option.filter_some, less, head?_cons, Option.toList_some,
      if_true]

/-- Reading on behind a delete finds the first confirmed one of those that are older, unless the
delete itself is confirmed. -/
theorem find?_readBelow (limits : ∀ limit ∈ bound, Fits limit) {fuel : Nat} {last : HLC}
    (fits : Fits last)
    (enough : ((recordedDeletes source.nodeDeletes base bound).filter
      fun revision => revision < last).length ≤ fuel) :
    (readBelow source nodesPrefix base bound fuel last).find? (confirm source.nodes nodesPrefix) =
      if confirm source.nodes nodesPrefix last then none
      else ((recordedDeletes source.nodeDeletes base bound).filter
        fun revision => revision < last).find? (confirm source.nodes nodesPrefix) := by
  induction fuel generalizing last with
  | zero =>
    rw [length_eq_zero_iff.mp (Nat.le_zero.mp enough), find?_nil, ite_self]
    rfl
  | succ fuel ih =>
    rw [readBelow]
    split_ifs with confirmed
    · rfl
    · rw [scanEntries_behind fits limits]
      dsimp only
      cases shape : (recordedDeletes source.nodeDeletes base bound).filter
          fun revision => revision < last with
      | nil => rfl
      | cons next rest =>
        have behind := filter_lt_of_filter_lt
          (recordedDeletes_sorted source.nodeDeletes base bound) shape
        have small : Fits next := by
          have hnext : next ∈ (recordedDeletes source.nodeDeletes base bound).filter
              fun revision => revision < last := by
            rw [shape]
            exact mem_cons_self
          exact ((mem_recordedDeletes limits).mp (mem_filter.mp hnext).1).1
        have enough' : rest.length ≤ fuel := by
          rw [shape] at enough
          exact Nat.le_of_succ_le_succ enough
        rw [head?_cons, Option.toList_some, Option.elim_some, singleton_append, find?_cons,
          find?_cons, ih small (by rw [behind]; exact enough'), behind]
        cases confirm source.nodes nodesPrefix next <;> rfl

theorem length_recordedDeletes (nodeDeletes : Rows) (base : Key) (bound : Option HLC) :
    (recordedDeletes nodeDeletes base bound).length ≤ nodeDeletes.rows.length := by
  rw [recordedDeletes, length_map, versionsUnder, versionsFrom]
  refine (length_filterMap_le _ _).trans ?_
  exact ((takeWhile_sublist _).trans (dropWhile_sublist _)).length_le

/-- All that matters of the recorded deletes is read. -/
theorem find?_readIn (source : LifelineSource) (scope : IndexCtx) (nodeId : String) (oldest : HLC)
    (limits : ∀ limit ∈ bound, Fits limit) :
    let lifeline := IndexedLifeline.readIn source scope nodeId oldest bound
    lifeline.deletes.find? (confirm source.nodes lifeline.nodesPrefix) =
      (recordedDeletes source.nodeDeletes (nodePrefix scope nodeId) bound).find?
        (confirm source.nodes (nodeKeyPrefix scope nodeId)) := by
  have sorted := recordedDeletes_sorted source.nodeDeletes (nodePrefix scope nodeId) bound
  have scanned : (versionsFrom source.nodeDeletes (nodePrefix scope nodeId)
      (seekKey (nodePrefix scope nodeId) bound) bound).map Prod.fst =
      recordedDeletes source.nodeDeletes (nodePrefix scope nodeId) bound := rfl
  dsimp only [IndexedLifeline.readIn, scanEntries]
  rw [scanned]
  rcases takeThrough_cases (fun revision => decide (revision < oldest))
      (recordedDeletes source.nodeDeletes (nodePrefix scope nodeId) bound) with
    ⟨whole, none⟩ | ⟨early, last, late, split, through, below, -⟩
  · have nothing : (recordedDeletes source.nodeDeletes (nodePrefix scope nodeId) bound).getLast?.filter
        (fun revision => decide (revision < oldest)) = Option.none := by
      cases last : (recordedDeletes source.nodeDeletes (nodePrefix scope nodeId) bound).getLast? with
      | none => rfl
      | some revision =>
        have passes := none revision (mem_of_getLast? last)
        exact Option.filter_some_neg (by simpa using passes)
    rw [whole, nothing, Option.elim_none, append_nil]
  · have behind : (recordedDeletes source.nodeDeletes (nodePrefix scope nodeId) bound).filter
        (fun revision => revision < last) = late := by
      rw [split] at sorted
      obtain ⟨-, sorted', newer⟩ := pairwise_append.mp sorted
      rw [split, filter_append, filter_cons_of_neg (by simp), filter_eq_nil_iff.mpr, nil_append]
      · exact filter_eq_self.mpr fun revision hmem =>
          decide_eq_true ((pairwise_cons.mp sorted').1 revision hmem)
      · intro revision hmem
        simpa using (newer revision hmem last mem_cons_self).le
    have hlast : last ∈ recordedDeletes source.nodeDeletes (nodePrefix scope nodeId) bound := by
      rw [split]
      exact mem_append_right _ mem_cons_self
    have fits := ((mem_recordedDeletes limits).mp hlast).1
    have enough : late.length ≤ source.nodeDeletes.rows.length := by
      rw [← behind]
      exact (length_filter_le _ _).trans (length_recordedDeletes ..)
    have kept : (some last).filter (fun revision => decide (revision < oldest)) = some last :=
      Option.filter_some_pos below
    rw [through, getLast?_concat, kept, Option.elim_some, split,
      append_assoc, singleton_append, find?_append, find?_append, find?_cons, find?_cons,
      find?_readBelow limits fits (by rw [behind]; exact enough), behind]
    cases confirm source.nodes (nodeKeyPrefix scope nodeId) last <;> rfl

end Read

/-! ## One answer -/

/-- Every tombstone of the node has its recorded delete. -/
def Complete (source : LifelineSource) (scope : IndexCtx) (nodeId : String) : Prop :=
  ∀ revision value, Fits revision → isTombstoneValue value = true →
    (nodeKeyPrefix scope nodeId ++ encodeDescending revision, value) ∈ source.nodes.rows →
    ∃ entry, (nodePrefix scope nodeId ++ encodeDescending revision, entry) ∈
      source.nodeDeletes.rows

/-- Completeness is a matter of the stored rows. -/
theorem Complete.of_rows {source : LifelineSource} {scope : IndexCtx} {nodeId : String}
    (recorded : ∀ row ∈ source.nodes.rows, isTombstoneValue row.2 = true →
      ∃ entry ∈ source.nodeDeletes.rows,
        entry.1 = nodePrefix scope nodeId ++ row.1.drop (nodeKeyPrefix scope nodeId).length) :
    Complete source scope nodeId := by
  intro revision value _ dead stored
  obtain ⟨⟨key, entry⟩, hentry, same⟩ := recorded _ stored dead
  dsimp only at same
  rw [drop_left] at same
  exact ⟨entry, same ▸ hentry⟩

section Answer

variable {source : LifelineSource} {scope : IndexCtx} {nodeId : String} {bound : Option HLC}

theorem mem_walkRecords {nodes : Rows} {base : Key} (limits : ∀ limit ∈ bound, Fits limit)
    {revision : HLC} {tomb : Bool} :
    (revision, tomb) ∈ walkRecords nodes base bound ↔
      Fits revision ∧ Within bound revision ∧
        ∃ value, (base ++ encodeDescending revision, value) ∈ nodes.rows ∧
          isTombstoneValue value = tomb := by
  rw [walkRecords, mem_map]
  constructor
  · rintro ⟨⟨found, value⟩, hmem, same⟩
    obtain ⟨rfl, rfl⟩ := Prod.mk.inj same
    obtain ⟨fits, stored, within⟩ := (mem_versionsUnder limits).mp hmem
    exact ⟨fits, within, value, stored, rfl⟩
  · rintro ⟨fits, within, value, stored, rfl⟩
    exact ⟨(revision, value), (mem_versionsUnder limits).mpr ⟨fits, stored, within⟩, rfl⟩

/-- The confirmed deletes are the tombstones of the walk. -/
theorem confirmed_iff (complete : Complete source scope nodeId)
    (limits : ∀ limit ∈ bound, Fits limit) {revision : HLC} :
    (revision ∈ recordedDeletes source.nodeDeletes (nodePrefix scope nodeId) bound ∧
        confirm source.nodes (nodeKeyPrefix scope nodeId) revision = true) ↔
      (revision, true) ∈ walkRecords source.nodes (nodeKeyPrefix scope nodeId) bound := by
  constructor
  · rintro ⟨recorded, confirmed⟩
    obtain ⟨fits, within, -⟩ := (mem_recordedDeletes limits).mp recorded
    exact (confirm_iff fits limits within).mp confirmed
  · intro tombstone
    obtain ⟨fits, within, value, stored, dead⟩ := (mem_walkRecords limits).mp tombstone
    refine ⟨(mem_recordedDeletes limits).mpr ⟨fits, within, ?_⟩, ?_⟩
    · exact complete revision value fits dead stored
    · exact (confirm_iff fits limits within).mpr tombstone

/-- No tombstone of the walk is newer than the first confirmed delete. -/
theorem le_first_confirmed (complete : Complete source scope nodeId)
    (limits : ∀ limit ∈ bound, Fits limit) {first : HLC}
    (found : (recordedDeletes source.nodeDeletes (nodePrefix scope nodeId) bound).find?
      (confirm source.nodes (nodeKeyPrefix scope nodeId)) = some first) {revision : HLC}
    (tombstone : (revision, true) ∈ walkRecords source.nodes (nodeKeyPrefix scope nodeId) bound) :
    revision ≤ first := by
  obtain ⟨recorded, confirmed⟩ := (confirmed_iff complete limits).mpr tombstone
  obtain ⟨-, early, late, split, before⟩ := find?_eq_some_iff_append.mp found
  have sorted := recordedDeletes_sorted source.nodeDeletes (nodePrefix scope nodeId) bound
  rw [split] at recorded sorted
  rcases mem_append.mp recorded with newer | here
  · have unconfirmed := before revision newer
    rw [confirmed] at unconfirmed
    cases unconfirmed
  · rcases mem_cons.mp here with rfl | older
    · exact le_rfl
    · exact ((pairwise_cons.mp (pairwise_append.mp sorted).2.1).1 revision older).le

/-- The index and the walk agree on every version from the oldest up to the bound. -/
theorem endsIn_indexed_eq_walked (complete : Complete source scope nodeId) {oldest version : HLC}
    (fits : Fits version) (limits : ∀ limit ∈ bound, Fits limit) (after : oldest ≤ version)
    (within : Within bound version) :
    (NodeLifeline.readIn true source scope nodeId oldest bound).endsIn source version =
      (NodeLifeline.readIn false source scope nodeId oldest bound).endsIn source version := by
  have walk : walkedEnds (walkedIn source scope nodeId oldest bound) version =
      walkedEnds (walkRecords source.nodes (nodeKeyPrefix scope nodeId) bound) version := by
    rw [walkedIn]
    rcases takeThrough_cases (fun record : HLC × Bool => decide (record.1 < oldest))
        (walkRecords source.nodes (nodeKeyPrefix scope nodeId) bound) with
      ⟨whole, -⟩ | ⟨early, record, late, split, through, below, -⟩
    · rw [whole]
    · have older := (of_decide_eq_true below).le.trans after
      rw [through, split]
      exact (walkedEnds_append older).symm
  have index : (NodeLifeline.readIn true source scope nodeId oldest bound).endsIn source version =
      ((recordedDeletes source.nodeDeletes (nodePrefix scope nodeId) bound).find?
        (confirm source.nodes (nodeKeyPrefix scope nodeId))).any fun revision =>
          version ≤ revision ||
            (recordAtOrBefore source.nodes (nodeKeyPrefix scope nodeId) version).any Prod.snd := by
    rw [← find?_readIn source scope nodeId oldest limits]
    exact endsFrom_eq ..
  change _ = walkedEnds (walkedIn source scope nodeId oldest bound) version
  rw [index, walk, walkedEnds_eq (walkRecords_sorted bound), ← walkRecords_some fits limits within]
  change _ = (_ || (recordAtOrBefore source.nodes (nodeKeyPrefix scope nodeId) version).any Prod.snd)
  cases found : (recordedDeletes source.nodeDeletes (nodePrefix scope nodeId) bound).find?
      (confirm source.nodes (nodeKeyPrefix scope nodeId)) with
  | none =>
      have undeleted : ∀ revision,
          (revision, true) ∉ walkRecords source.nodes (nodeKeyPrefix scope nodeId) bound := by
        intro revision tombstone
        obtain ⟨recorded, confirmed⟩ := (confirmed_iff complete limits).mpr tombstone
        exact find?_eq_none.mp found revision recorded confirmed
      symm
      rw [Option.any_none, Bool.or_eq_false_iff, any_eq_false, Option.any_eq_false]
      constructor
      · rintro ⟨revision, tomb⟩ hmem both
        obtain ⟨-, rfl⟩ := (Bool.and_eq_true_iff).mp both
        exact undeleted revision hmem
      · rintro ⟨revision, tomb⟩ newest
        have hmem := mem_of_head? newest
        rw [walkRecords_some fits limits within] at hmem
        refine Bool.eq_false_of_not_eq_true ?_
        rintro rfl
        exact undeleted revision (mem_filter.mp hmem).1
  | some first =>
      obtain ⟨confirmed, early, late, split, -⟩ := find?_eq_some_iff_append.mp found
      have recorded : first ∈ recordedDeletes source.nodeDeletes (nodePrefix scope nodeId) bound := by
        rw [split]
        exact mem_append_right _ mem_cons_self
      have tombstone := (confirmed_iff complete limits).mp ⟨recorded, confirmed⟩
      rw [Option.any_some]
      rcases lt_trichotomy version first with newer | rfl | older
      · -- a delete between the version and the bound
        have ended : ((walkRecords source.nodes (nodeKeyPrefix scope nodeId) bound).any
            fun record => version < record.1 && record.2) = true :=
          any_eq_true.mpr ⟨_, tombstone, by simp [newer]⟩
        rw [ended, decide_eq_true newer.le, Bool.true_or]
      · -- a delete at the version
        rw [(recordAtOrBefore_eq_some_self fits limits within).mpr tombstone, Option.any_some,
          Bool.or_true, Bool.or_true]
      · -- all deletes are older than the version
        have quiet : ((walkRecords source.nodes (nodeKeyPrefix scope nodeId) bound).any
            fun record => version < record.1 && record.2) = false := by
          rw [any_eq_false]
          rintro ⟨revision, tomb⟩ hmem both
          obtain ⟨above, rfl⟩ := (Bool.and_eq_true_iff).mp both
          have below := (le_first_confirmed complete limits found hmem).trans_lt older
          exact absurd (of_decide_eq_true above) below.not_gt
        rw [quiet, decide_eq_false older.not_ge]

end Answer

/-! ## A bound below the version -/

def wiki : IndexCtx := ⟨"acme", "wiki", "main", "pages"⟩

/-- A column family of versions under one base. -/
def rowsUnder (base : Key) (versions : List (HLC × List UInt8)) : Rows :=
  versions.foldl (fun store version =>
    store.put (base ++ encodeDescending version.1) version.2) .empty

/-- A page that was deleted at 2 and created again at 4. -/
def recreated : LifelineSource where
  nodes := rowsUnder (nodeKeyPrefix wiki "home")
    [(⟨1, 0⟩, [1]), (⟨2, 0⟩, [84]), (⟨4, 0⟩, [1])]
  nodeDeletes := rowsUnder (nodePrefix wiki "home") [(⟨2, 0⟩, []), (⟨3, 0⟩, [])]

/-- A version in the dead generation is ended in both readings, a stale entry at 3 aside. -/
theorem dead_generation_agrees :
    (NodeLifeline.readIn true recreated wiki "home" ⟨1, 0⟩ (some ⟨5, 0⟩)).endsIn recreated ⟨1, 0⟩ =
      (NodeLifeline.readIn false recreated wiki "home" ⟨1, 0⟩ (some ⟨5, 0⟩)).endsIn recreated
        ⟨1, 0⟩ :=
  endsIn_indexed_eq_walked (.of_rows (by decide +kernel)) ⟨by decide, by decide⟩
    (by rintro _ ⟨⟩; exact ⟨by decide, by decide⟩) (by decide) (by decide)

/-- With a bound below the version, the walk stops at the bound and the index looks beyond it. -/
theorem bound_below_version_differs :
    ¬(NodeLifeline.readIn true recreated wiki "home" ⟨5, 0⟩ (some ⟨3, 0⟩)).endsIn recreated ⟨5, 0⟩ =
      (NodeLifeline.readIn false recreated wiki "home" ⟨5, 0⟩ (some ⟨3, 0⟩)).endsIn recreated
        ⟨5, 0⟩ := by
  decide +kernel

end RaisinDB.Indexing
