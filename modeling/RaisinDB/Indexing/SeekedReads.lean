import RaisinDB.Foundation.Machine
import RaisinDB.Indexing.RevisionScan

/-!
# Seeked reads

The newest version at or below a bound is the first key from the bound's key on.  Whatever lies
under the base and ends in sixteen bytes is read as a version, so keys of another shape may be
taken for one.  A batch of reads holds one iterator for each column family and answers as single
reads do.
-/

namespace RaisinDB.Indexing

open List RaisinDB.Branches RaisinDB.Clock RaisinDB.Foundation RaisinDB.Oplog
open RaisinDB.Replication (HLC)

/-! ## Iterators -/

/-- The least key behind all that begin with the base, if there is one. -/
def prefixSuccessor (base : Key) : Option Key :=
  match base.reverse.dropWhile fun byte => byte = 0xFF with
  | [] => none
  | last :: before => some (before.reverse ++ [last + 1])

theorem lt_prefixSuccessor {base key upper : Key} (successor : prefixSuccessor base = some upper)
    (under : base <+: key) : key < upper := by
  obtain ⟨rest, rfl⟩ := under
  unfold prefixSuccessor at successor
  have whole : base.reverse.takeWhile (fun byte => byte = 0xFF) ++
      base.reverse.dropWhile (fun byte => byte = 0xFF) = base.reverse :=
    takeWhile_append_dropWhile
  cases dropped : base.reverse.dropWhile fun byte => byte = 0xFF with
  | nil => rw [dropped] at successor; cases successor
  | cons last before =>
    rw [dropped] at successor whole
    have shape := congrArg reverse whole
    rw [reverse_append, reverse_reverse, reverse_cons] at shape
    have small : last ≠ 0xFF := by
      have first := head?_dropWhile_not (fun byte : UInt8 => decide (byte = 0xFF)) base.reverse
      rw [dropped, head?_cons] at first
      simpa using first
    have less : last < last + 1 := by
      rw [UInt8.lt_iff_toNat_lt, UInt8.toNat_add]
      have bound := last.toNat_lt
      have apart : last.toNat ≠ 255 := fun same => small (UInt8.toNat_inj.mp same)
      have one : (1 : UInt8).toNat = 1 := rfl
      omega
    rw [← Option.some.inj successor, ← shape, append_assoc, append_assoc, append_lt_append_left,
      singleton_append, cons_lt_cons_iff]
    exact .inl less

/-! ## One read -/

/-- The first key under the base that ends in a revision within the bound.  Keys too short for a
revision are passed over. -/
def newestLoop (base : Key) (bound : Option HLC) :
    List (Key × List UInt8) → Option (HLC × List UInt8)
  | [] => none
  | (key, value) :: rest =>
      if base.isPrefixOf key then
        match extractRevisionFromKey key with
        | some revision =>
            if Within bound revision then some (revision, value) else newestLoop base bound rest
        | none => newestLoop base bound rest
      else none

/-- An iterator of its own, which ends before the keys behind the base. -/
def newestAtOrBefore (store : Rows) (base : Key) (bound : Option HLC) :
    Option (HLC × List UInt8) :=
  match prefixSuccessor base with
  | some upper =>
      newestLoop base bound ((store.seek (seekKey base bound)).takeWhile fun row => row.1 < upper)
  | none => newestLoop base bound (store.seek (seekKey base bound))

/-- What a key under the base is read as. -/
def readRow (bound : Option HLC) (row : Key × List UInt8) : Option (HLC × List UInt8) :=
  ((extractRevisionFromKey row.1).filter fun revision => Within bound revision).map
    fun revision => (revision, row.2)

theorem newestLoop_eq (base : Key) (bound : Option HLC) (rows : List (Key × List UInt8)) :
    newestLoop base bound rows =
      (rows.takeWhile fun row => base.isPrefixOf row.1).findSome? (readRow bound) := by
  induction rows with
  | nil => rfl
  | cons row rest ih =>
    obtain ⟨key, value⟩ := row
    rw [newestLoop]
    split
    · next under =>
      rw [takeWhile_cons_of_pos (by simpa using under), findSome?_cons, ← ih, readRow]
      cases extractRevisionFromKey key with
      | none => rfl
      | some revision =>
        by_cases within : Within bound revision
        · simp [Option.filter, within]
        · simp [Option.filter, within]
    · next outside =>
      rw [takeWhile_cons_of_neg (by simpa using outside)]
      rfl

/-- The bound of the iterator cuts off no key under the base. -/
theorem newestAtOrBefore_eq (store : Rows) (base : Key) (bound : Option HLC) :
    newestAtOrBefore store base bound =
      (scan store base (seekKey base bound)).findSome? (readRow bound) := by
  unfold newestAtOrBefore scan
  cases successor : prefixSuccessor base with
  | none => exact newestLoop_eq base bound _
  | some upper =>
    dsimp only
    rw [newestLoop_eq, takeWhile_takeWhile]
    congr 2
    funext row
    by_cases under : base.isPrefixOf row.1
    · have less := lt_prefixSuccessor successor ( isPrefixOf_iff_prefix.mp under)
      simp [under, less]
    · simp [under]

/-! ## The newest version -/

/-- The answer is the version with the greatest revision within the bound, if there is any. -/
def IsNewest (store : Rows) (base : Key) (bound : Option HLC) :
    Option (HLC × List UInt8) → Prop
  | some (revision, value) =>
      Fits revision ∧ (base ++ encodeDescending revision, value) ∈ store.rows ∧
        Within bound revision ∧
        ∀ other held, Fits other → (base ++ encodeDescending other, held) ∈ store.rows →
          Within bound other → other ≤ revision
  | none => ∀ other held, Fits other → (base ++ encodeDescending other, held) ∈ store.rows →
      ¬ Within bound other

/-- A key of another shape that ends in a revision within the bound lies before the bound's key,
or behind a version. -/
def Harmless (store : Rows) (base : Key) (bound : Option HLC) : Prop :=
  ∀ row ∈ store.rows, base <+: row.1 → seekKey base bound ≤ row.1 →
    row.1.length ≠ base.length + 16 → readRow bound row ≠ none →
      ∃ revision value, Fits revision ∧ (base ++ encodeDescending revision, value) ∈ store.rows ∧
        Within bound revision ∧ base ++ encodeDescending revision < row.1

/-- The first answers of two readings agree when the second one knows no more, and what only the
first one knows comes behind what both know. -/
theorem findSome?_eq_of_first {α β : Type} {read strict : α → Option β} {items : List α}
    {before : α → α → Prop} (asymmetric : ∀ a b, before a b → ¬ before b a)
    (irreflexive : ∀ a, ¬ before a a) (sorted : items.Pairwise before)
    (knows : ∀ item answer, strict item = some answer → read item = some answer)
    (behind : ∀ item ∈ items, strict item = none → read item ≠ none →
      ∃ earlier ∈ items, before earlier item ∧ strict earlier ≠ none) :
    items.findSome? read = items.findSome? strict := by
  induction items with
  | nil => rfl
  | cons first rest ih =>
    obtain ⟨later, sortedRest⟩ := pairwise_cons.mp sorted
    rw [findSome?_cons, findSome?_cons]
    cases known : strict first with
    | some answer => rw [knows first answer known]
    | none =>
      have unread : read first = none := by
        by_contra some
        obtain ⟨earlier, member, less, -⟩ := behind first mem_cons_self known some
        rcases mem_cons.mp member with rfl | inRest
        · exact irreflexive earlier less
        · exact asymmetric _ _ (later earlier inRest) less
      rw [unread]
      refine ih sortedRest fun item member unknown some => ?_
      obtain ⟨earlier, inside, less, answered⟩ :=
        behind item (mem_cons_of_mem _ member) unknown some
      rcases mem_cons.mp inside with rfl | inRest
      · exact absurd known answered
      · exact ⟨earlier, inRest, less, answered⟩

theorem seekKey_eq (base : Key) (bound : Option HLC) :
    ∃ tail, seekKey base bound = base ++ tail := by
  cases bound with
  | none => exact ⟨[], (append_nil base).symm⟩
  | some limit => exact ⟨encodeDescending limit, rfl⟩

theorem mem_scan_iff {store : Rows} {base : Key} {bound : Option HLC} {row : Key × List UInt8} :
    row ∈ scan store base (seekKey base bound) ↔
      row ∈ store.rows ∧ seekKey base bound ≤ row.1 ∧ base <+: row.1 := by
  obtain ⟨tail, shape⟩ := seekKey_eq base bound
  rw [shape, scan_eq_filter, mem_filter, decide_eq_true_iff, isPrefixOf_iff_prefix]

theorem scan_sorted (store : Rows) (base : Key) (bound : Option HLC) :
    (scan store base (seekKey base bound)).Pairwise fun a b => a.1 < b.1 := by
  obtain ⟨tail, shape⟩ := seekKey_eq base bound
  rw [shape, scan_eq_filter]
  exact store.sorted.filter _

/-- Where foreign keys are harmless, the first key that is read is the first version. -/
theorem newestAtOrBefore_of_harmless {store : Rows} {base : Key} {bound : Option HLC}
    (fits : ∀ limit ∈ bound, Fits limit) (harmless : Harmless store base bound) :
    newestAtOrBefore store base bound = (versionsUnder store base bound).head? := by
  rw [newestAtOrBefore_eq, versionsUnder, versionsFrom, head?_filterMap]
  refine findSome?_eq_of_first (fun a b => lt_asymm) (fun a => lt_irrefl _)
    (scan_sorted store base bound) ?_ ?_
  · intro row version known
    unfold versionOf at known
    unfold readRow
    split_ifs at known with wellFormed
    · exact known
    · cases known
  · intro row member unknown readable
    obtain ⟨stored, behindSeek, under⟩ := mem_scan_iff.mp member
    have foreign : row.1.length ≠ base.length + 16 := by
      intro wellFormed
      rw [versionOf, if_pos wellFormed] at unknown
      exact readable unknown
    obtain ⟨revision, value, small, version, within, less⟩ :=
      harmless row stored under behindSeek foreign readable
    have listed := (mem_versionsUnder fits).mpr ⟨small, version, within⟩
    rw [versionsUnder, versionsFrom, mem_filterMap] at listed
    obtain ⟨earlier, inScan, answered⟩ := listed
    have under' := (mem_scan_iff.mp inScan).2.2
    obtain ⟨⟨-, key⟩, -, -⟩ := (read_eq_some_iff under').mp answered
    refine ⟨earlier, inScan, ?_, ?_⟩
    · rw [key]
      exact less
    · rw [answered]
      exact Option.some_ne_none _

theorem isNewest_head {store : Rows} {base : Key} {bound : Option HLC}
    (fits : ∀ limit ∈ bound, Fits limit) :
    IsNewest store base bound (versionsUnder store base bound).head? := by
  have members := fun revision value =>
    @mem_versionsUnder store base bound fits revision value
  have sorted := versionsUnder_sorted store base bound
  cases versions : versionsUnder store base bound with
  | nil =>
    intro other held small stored within
    have listed := (members other held).mpr ⟨small, stored, within⟩
    rw [versions] at listed
    cases listed
  | cons newest rest =>
    obtain ⟨revision, value⟩ := newest
    rw [versions] at sorted members
    obtain ⟨small, stored, within⟩ := (members revision value).mp mem_cons_self
    refine ⟨small, stored, within, fun other held small' stored' within' => ?_⟩
    rcases mem_cons.mp ((members other held).mpr ⟨small', stored', within'⟩) with same | later
    · exact (Prod.mk.inj same).1.le
    · exact ((pairwise_cons.mp sorted).1 (other, held) later).le

/-! ## A batch of reads -/

abbrev Database := ColumnFamily → Rows

structure VersionedQuery where
  columnFamily : ColumnFamily
  base : Key
  maxRevision : Option HLC

/-- One iterator for each column family, each on the snapshot. -/
structure SnapshotRead where
  snapshot : Database
  iters : List (ColumnFamily × Rows)
  seeks : Nat

namespace SnapshotRead

def new (snapshot : Database) : SnapshotRead := ⟨snapshot, [], 0⟩

/-- The iterator of a column family, opened at its first use. -/
def iter (self : SnapshotRead) (columnFamily : ColumnFamily) : Rows × SnapshotRead :=
  match self.iters.find? fun iter => iter.1 = columnFamily with
  | some iter => (iter.2, self)
  | none =>
      (self.snapshot columnFamily, { self with
        iters := self.iters ++ [(columnFamily, self.snapshot columnFamily)] })

/-- The iterator has no upper bound, so the read ends at the first key outside its base. -/
def newestAtOrBefore (self : SnapshotRead) (query : VersionedQuery) :
    SnapshotRead × Option (HLC × List UInt8) :=
  let (rows, self) := { self with seeks := self.seeks + 1 }.iter query.columnFamily
  (self, newestLoop query.base query.maxRevision
    (rows.seek (seekKey query.base query.maxRevision)))

def machine : Machine SnapshotRead VersionedQuery (Option (HLC × List UInt8)) where
  step := newestAtOrBefore

/-- Every open iterator reads the snapshot. -/
def Pinned (self : SnapshotRead) : Prop :=
  ∀ iter ∈ self.iters, iter.2 = self.snapshot iter.1

variable {self : SnapshotRead}

theorem Pinned.iter (pinned : self.Pinned) (columnFamily : ColumnFamily) :
    (self.iter columnFamily).1 = self.snapshot columnFamily ∧
      (self.iter columnFamily).2.Pinned ∧
      (self.iter columnFamily).2.snapshot = self.snapshot := by
  unfold SnapshotRead.iter
  cases found : self.iters.find? fun iter => iter.1 = columnFamily with
  | some iter =>
    have same : iter.1 = columnFamily := by simpa using find?_some found
    exact ⟨same ▸ pinned iter (mem_of_find?_eq_some found), pinned, rfl⟩
  | none =>
    refine ⟨rfl, fun iter member => ?_, rfl⟩
    rcases mem_append.mp member with old | new
    · exact pinned iter old
    · rw [mem_singleton.mp new]

/-- A read of a batch answers as a read of its own on the snapshot. -/
theorem Pinned.read (pinned : self.Pinned) (query : VersionedQuery) :
    (self.newestAtOrBefore query).2 = Indexing.newestAtOrBefore
        (self.snapshot query.columnFamily) query.base query.maxRevision ∧
      (self.newestAtOrBefore query).1.Pinned ∧
      (self.newestAtOrBefore query).1.snapshot = self.snapshot := by
  have counted : ({ self with seeks := self.seeks + 1 } : SnapshotRead).Pinned := pinned
  obtain ⟨rows, kept, view⟩ := counted.iter query.columnFamily
  refine ⟨?_, kept, view⟩
  rw [newestAtOrBefore_eq]
  exact (congrArg (fun store => newestLoop query.base query.maxRevision
    (OrderedStore.seek store (seekKey query.base query.maxRevision))) rows).trans
      (newestLoop_eq _ _ _)

theorem Pinned.run (pinned : self.Pinned) (queries : List VersionedQuery) :
    machine.outputs self queries = queries.map fun query =>
      Indexing.newestAtOrBefore (self.snapshot query.columnFamily) query.base
        query.maxRevision := by
  induction queries generalizing self with
  | nil => rfl
  | cons query rest ih =>
    obtain ⟨answer, kept, view⟩ := pinned.read query
    have later := ih kept
    rw [view] at later
    rw [map_cons, ← later, ← answer]
    rfl

end SnapshotRead

/-- Two databases with the same entries. -/
def SameEntries (first second : Database) : Prop :=
  ∀ columnFamily row, row ∈ (first columnFamily).rows ↔ row ∈ (second columnFamily).rows

theorem SameEntries.eq {first second : Database} (same : SameEntries first second) :
    first = second := by
  funext columnFamily
  exact OrderedStore.eq_of_mem_iff fun row => same columnFamily row

/-- A batch on a snapshot with the same entries answers as the database does, and each answer is
the newest version at or below the bound wherever foreign keys are harmless. -/
theorem seeked_reads_are_exact (db snapshot : Database) (same : SameEntries snapshot db)
    (queries : List VersionedQuery)
    (fits : ∀ query ∈ queries, ∀ limit ∈ query.maxRevision, Fits limit) :
    SnapshotRead.machine.outputs (.new snapshot) queries =
        queries.map (fun query => newestAtOrBefore (db query.columnFamily) query.base
          query.maxRevision) ∧
      ∀ query ∈ queries,
        Harmless (db query.columnFamily) query.base query.maxRevision →
          IsNewest (db query.columnFamily) query.base query.maxRevision
            (newestAtOrBefore (db query.columnFamily) query.base query.maxRevision) := by
  obtain rfl := same.eq
  have pinned : (SnapshotRead.new snapshot).Pinned := fun iter member => nomatch member
  refine ⟨pinned.run queries, fun query member harmless => ?_⟩
  rw [newestAtOrBefore_of_harmless (fits query member) harmless]
  exact isNewest_head (fits query member)

/-! ## Keys of another shape -/

/-- Two versions of a record, and between them a key that is too short for a revision. -/
def recordRows : Rows where
  rows := [([112, 0] ++ encodeDescending ⟨7, 0⟩, [1]), ([112, 0, 255, 255, 255, 255, 255, 255, 255,
    249, 1], [9]), ([112, 0] ++ encodeDescending ⟨5, 0⟩, [2])]
  sorted := by decide

theorem short_key_passed_over :
    SnapshotRead.machine.outputs (.new fun _ => recordRows)
        [⟨.nodes, [112, 0], some ⟨6, 0⟩⟩, ⟨.nodes, [112, 0], none⟩] =
      [some (⟨5, 0⟩, [2]), some (⟨7, 0⟩, [1])] ∧
      IsNewest recordRows [112, 0] (some ⟨6, 0⟩)
        (newestAtOrBefore recordRows [112, 0] (some ⟨6, 0⟩)) := by
  have fits : ∀ limit ∈ some (⟨6, 0⟩ : HLC), Fits limit := by
    rintro _ ⟨⟩
    exact ⟨by decide, by decide⟩
  obtain ⟨batch, newest⟩ := seeked_reads_are_exact (fun _ => recordRows) (fun _ => recordRows)
    (fun _ _ => Iff.rfl) [⟨.nodes, [112, 0], some ⟨6, 0⟩⟩, ⟨.nodes, [112, 0], none⟩]
    (forall_mem_cons.mpr ⟨fits, forall_mem_singleton.mpr fun _ none => nomatch none⟩)
  refine ⟨batch.trans (by decide +kernel), newest _ mem_cons_self ?_⟩
  have unread : ∀ row ∈ recordRows.rows, row.1.length ≠ 18 →
      readRow (some ⟨6, 0⟩) row = none := by decide +kernel
  exact fun row stored _ _ foreign readable => absurd (unread row stored foreign) readable

/-- A version of a record, and under the same base the key of something else. -/
def adjacentRows : Rows where
  rows := [([112, 0, 97, 100, 106, 0] ++ encodeDescending ⟨5, 0⟩, [1]),
    ([112, 0] ++ encodeDescending ⟨9, 0⟩, [2])]
  sorted := by decide

theorem longer_key_read :
    ¬ ∀ (store : Rows) (base : Key) (bound : Option HLC), (∀ limit ∈ bound, Fits limit) →
      IsNewest store base bound (newestAtOrBefore store base bound) := by
  intro all
  have newest := all adjacentRows [112, 0] none (fun limit none => nomatch none)
  have answer : newestAtOrBefore adjacentRows [112, 0] none = some (⟨5, 0⟩, [1]) := by
    decide +kernel
  rw [answer] at newest
  have stored : ([112, 0] ++ encodeDescending ⟨9, 0⟩, [2]) ∈ adjacentRows.rows :=
    mem_cons_of_mem _ mem_cons_self
  have later := newest.2.2.2 ⟨9, 0⟩ [2] ⟨by decide, by decide⟩ stored fun limit none => nomatch none
  exact absurd later (not_le.mpr (hlc_lt_iff.mpr (.inl (by decide))))

end RaisinDB.Indexing
