import RaisinDB.Indexing.DeleteIndex
import RaisinDB.Indexing.SeekedReads

/-!
# Readers of a path

A path is named by the path index of nodes and by the records of old databases.  The newer one
wins, and the path index decides a tie.  The reader that holds a record and the reader that holds
none follow one rule, but only the second one reads a stored path that is not text.
-/

namespace RaisinDB.Indexing

open RaisinDB.Branches RaisinDB.Clock RaisinDB.Foundation RaisinDB.Oplog
open RaisinDB.Replication (HLC)

/-! ## Text -/

/-- A text is read from its own bytes only. -/
theorem fromUtf8_eq_some_iff {bytes : List UInt8} {text : String} :
    fromUtf8 bytes = some text ↔ bytes = utf8Bytes text := by
  constructor
  · intro read
    rw [fromUtf8, String.fromUTF8?] at read
    split_ifs at read with valid
    have encoded : (utf8Bytes text).toByteArray = text.toByteArray := String.utf8Encode_toList
    rw [← Option.some.inj read] at encoded
    have arrays := congrArg ByteArray.data encoded
    rw [List.data_toByteArray] at arrays
    have stored : bytes.toByteArray.data = bytes.toArray := List.data_toByteArray
    rw [← Option.some.inj read]
    exact (Array.toList_inj.mpr (arrays.trans stored)).symm
  · rintro rfl
    exact fromUtf8_utf8Bytes text

/-! ## The rule -/

/-- The path that a record holds, with the revision of the record. -/
structure EmbeddedPath where
  blobRevision : HLC
  path : String
  deriving DecidableEq

structure NodeScope extends IndexCtx where
  nodeId : String

/-- `{tenant}\0{repo}\0{branch}\0{workspace}\0node_path\0{node}\0` -/
def nodePathKeyPrefix (scope : NodeScope) : Key :=
  buildPrefix [utf8Bytes scope.tenantId, utf8Bytes scope.repoId, utf8Bytes scope.branch,
    utf8Bytes scope.workspace, utf8Bytes "node_path", utf8Bytes scope.nodeId]

/-- `{tenant}\0{repo}\0{branch}\0{workspace}\0path\0{path}\0` -/
def pathIndexKeyPrefix (scope : NodeScope) (path : String) : Key :=
  buildPrefix [utf8Bytes scope.tenantId, utf8Bytes scope.repoId, utf8Bytes scope.branch,
    utf8Bytes scope.workspace, utf8Bytes "path", utf8Bytes path]

/-- The record is not older than the entry. -/
def embeddedPathMayWin (indexedRevision : Option HLC) (blobRevision : HLC) : Bool :=
  indexedRevision.all fun indexed => indexed ≤ blobRevision

/-- The path leads to this node, by an entry of the record's own revision. -/
def pathIndexConfirms (db : Database) (scope : NodeScope) (embedded : EmbeddedPath) : Bool :=
  match newestAtOrBefore (db .pathIndex) (pathIndexKeyPrefix scope embedded.path)
      (some embedded.blobRevision) with
  | some (revision, id) => revision = embedded.blobRevision ∧ id = utf8Bytes scope.nodeId
  | none => false

def embeddedPathWins (db : Database) (scope : NodeScope) (indexed : Option (HLC × List UInt8))
    (embedded : EmbeddedPath) : Bool :=
  match indexed with
  | none => true
  | some (indexedRevision, indexedValue) =>
      if indexedRevision < embedded.blobRevision then true
      else if embedded.blobRevision < indexedRevision then false
      else if indexedValue = utf8Bytes embedded.path then true
      else pathIndexConfirms db scope embedded

/-- An older record never wins. -/
theorem mayWin_of_wins {db : Database} {scope : NodeScope} {indexed : Option (HLC × List UInt8)}
    {embedded : EmbeddedPath} (wins : embeddedPathWins db scope indexed embedded = true) :
    embeddedPathMayWin (indexed.map Prod.fst) embedded.blobRevision = true := by
  cases indexed with
  | none => rfl
  | some entry =>
    refine decide_eq_true (not_lt.mp fun older => ?_)
    have behind : embeddedPathWins db scope (some entry) embedded = false := by
      rw [embeddedPathWins, if_neg (lt_asymm older), if_pos older]
    rw [behind] at wins
    cases wins

/-! ## The reader that holds the record -/

inductive PathError where
  | deleted (nodeId : String)
  | invalidEncoding (value : List UInt8)
  | notFound (nodeId : String) (readAt : HLC)
  deriving DecidableEq

def indexedPath (db : Database) (scope : NodeScope) (bound : Option HLC) :
    Option (HLC × List UInt8) :=
  newestAtOrBefore (db .nodePath) (nodePathKeyPrefix scope) bound

/-- What the path index of nodes alone answers. -/
def materializeIndexed (scope : NodeScope) (readAt : HLC) :
    Option (HLC × List UInt8) → Except PathError String
  | some (_, value) =>
      if isTombstoneValue value then .error (.deleted scope.nodeId)
      else (fromUtf8 value).elim (.error (.invalidEncoding value)) .ok
  | none => .error (.notFound scope.nodeId readAt)

def materializePath (db : Database) (scope : NodeScope) (readAt : HLC)
    (embedded : Option EmbeddedPath) : Except PathError String :=
  let indexed := indexedPath db scope (some readAt)
  match embedded.filter fun embedded => embeddedPathWins db scope indexed embedded with
  | some embedded => .ok embedded.path
  | none => materializeIndexed scope readAt indexed

/-! ## The reader that holds no record -/

section Readers

variable (embeddedPathOf : List UInt8 → Option String) (db : Database) (scope : NodeScope)

structure CurrentPath where
  revision : HLC
  path : Option String

/-- The newest record, unless it is a tombstone, with the path it holds. -/
def embeddedAt (bound : Option HLC) : Option EmbeddedPath :=
  (newestAtOrBefore (db .nodes) (nodeKeyPrefix scope.toIndexCtx scope.nodeId) bound).bind
    fun blob =>
      if isTombstoneValue blob.2 then none
      else (embeddedPathOf blob.2).map fun path => ⟨blob.1, path⟩

/-- Only a record that is not older than the entry is decoded. -/
def candidateAt (indexedRevision : Option HLC) (bound : Option HLC) : Option EmbeddedPath :=
  (newestAtOrBefore (db .nodes) (nodeKeyPrefix scope.toIndexCtx scope.nodeId) bound).bind
    fun blob =>
      if isTombstoneValue blob.2 || !embeddedPathMayWin indexedRevision blob.1 then none
      else (embeddedPathOf blob.2).map fun path => ⟨blob.1, path⟩

def currentIndexed (entry : HLC × List UInt8) : CurrentPath where
  revision := entry.1
  path := if isTombstoneValue entry.2 then none else some (fromUtf8Lossy entry.2)

def currentPath (maxRevision : Option HLC) : Option CurrentPath :=
  let indexed := indexedPath db scope maxRevision
  match (candidateAt embeddedPathOf db scope (indexed.map Prod.fst) maxRevision).filter
      fun embedded => embeddedPathWins db scope indexed embedded with
  | some embedded => some ⟨embedded.blobRevision, some embedded.path⟩
  | none => indexed.map currentIndexed

/-- The record at the bound wins over the entry at the bound. -/
def EmbeddedWins (bound : Option HLC) : Prop :=
  ∃ embedded, embeddedAt embeddedPathOf db scope bound = some embedded ∧
    embeddedPathWins db scope (indexedPath db scope bound) embedded = true

/-- The value is a tombstone or a text. -/
def ReadsAsText (value : List UInt8) : Prop :=
  isTombstoneValue value = true ∨ ∃ path, value = utf8Bytes path

/-! ## Agreement -/

variable {embeddedPathOf db scope}

/-- To pass over a record that cannot win changes nothing. -/
theorem candidateAt_filter (indexed : Option (HLC × List UInt8)) (bound : Option HLC) :
    (candidateAt embeddedPathOf db scope (indexed.map Prod.fst) bound).filter
        (fun embedded => embeddedPathWins db scope indexed embedded) =
      (embeddedAt embeddedPathOf db scope bound).filter
        fun embedded => embeddedPathWins db scope indexed embedded := by
  unfold candidateAt embeddedAt
  cases newestAtOrBefore (db .nodes) (nodeKeyPrefix scope.toIndexCtx scope.nodeId) bound with
  | none => rfl
  | some blob =>
    rw [Option.bind_some, Option.bind_some]
    cases tombstone : isTombstoneValue blob.2 with
    | true => rfl
    | false =>
      cases may : embeddedPathMayWin (indexed.map Prod.fst) blob.1 with
      | true => rfl
      | false =>
        cases decoded : embeddedPathOf blob.2 with
        | none => rfl
        | some path =>
          have loses : embeddedPathWins db scope indexed ⟨blob.1, path⟩ = false := by
            refine Bool.eq_false_iff.mpr fun wins => ?_
            rw [mayWin_of_wins wins] at may
            cases may
          exact (Option.filter_some_neg loses).symm

theorem indexed_agree_iff (readAt : HLC) (indexed : Option (HLC × List UInt8)) :
    (indexed.map currentIndexed).bind CurrentPath.path =
        (materializeIndexed scope readAt indexed).toOption ↔
      ∀ entry ∈ indexed, ReadsAsText entry.2 := by
  cases indexed with
  | none => exact iff_of_true rfl fun entry absent => nomatch absent
  | some entry =>
    obtain ⟨revision, value⟩ := entry
    have single : (∀ entry ∈ some (revision, value), ReadsAsText entry.2) ↔
        ReadsAsText value := by simp
    rw [single, Option.map_some, Option.bind_some, currentIndexed, materializeIndexed]
    dsimp only
    cases tombstone : isTombstoneValue value with
    | true => exact ⟨fun _ => .inl tombstone, fun _ => rfl⟩
    | false =>
      rw [if_neg Bool.false_ne_true, if_neg Bool.false_ne_true]
      constructor
      · intro same
        cases read : fromUtf8 value with
        | none =>
          rw [read] at same
          cases same
        | some path => exact .inr ⟨path, fromUtf8_eq_some_iff.mp read⟩
      · rintro (deleted | ⟨path, rfl⟩)
        · rw [deleted] at tombstone
          cases tombstone
        · rw [fromUtf8_utf8Bytes, fromUtf8Lossy_utf8Bytes]
          rfl

end Readers

/-! ## No bound -/

/-- The bound of a read without a bound. -/
def newestRevision : HLC := ⟨maxU64, maxU64⟩

theorem le_newest_of_fits {revision : HLC} (fits : Fits revision) : revision ≤ newestRevision := by
  obtain ⟨stamp, count⟩ := fits
  rcases stamp.lt_or_eq with earlier | same
  · exact (hlc_lt_iff.mpr (.inl earlier)).le
  · exact hlc_le_iff.mpr (.inr ⟨same, count⟩)

theorem extracted_le_newest {key : Key} {revision : HLC}
    (read : extractRevisionFromKey key = some revision) : revision ≤ newestRevision := by
  unfold extractRevisionFromKey decodeDescending at read
  split_ifs at read with short whole
  rw [← Option.some.inj read]
  exact le_newest_of_fits ⟨Nat.sub_le _ _, Nat.sub_le _ _⟩

theorem newest_le_bytes {bytes : List UInt8} (long : 16 ≤ bytes.length) :
    encodeDescending newestRevision ≤ bytes := by
  obtain ⟨revision, fits, first⟩ :=
    exists_encodeDescending (List.length_take_of_le long : (bytes.take 16).length = 16)
  have whole : Fits newestRevision := ⟨le_refl maxU64, le_refl maxU64⟩
  have least := (encodeDescending_le_iff whole fits).mpr (le_newest_of_fits fits)
  rw [first] at least
  have longer := le_append (bytes.take 16) (bytes.drop 16)
  rw [List.take_append_drop] at longer
  exact least.trans longer

/-- Keys with room for a revision lie behind the key of the newest one. -/
theorem newestAtOrBefore_none {store : Rows} {base : Key}
    (long : ∀ row ∈ store.rows, base <+: row.1 → base.length + 16 ≤ row.1.length) :
    newestAtOrBefore store base none = newestAtOrBefore store base (some newestRevision) := by
  have reads : readRow none = readRow (some newestRevision) := by
    funext row
    unfold readRow
    cases read : extractRevisionFromKey row.1 with
    | none => rfl
    | some revision =>
      have below : Within (some newestRevision) revision := by
        rintro _ ⟨⟩
        exact extracted_le_newest read
      have free : Within none revision := fun limit absent => nomatch absent
      simp [Option.filter, below, free]
  have scans : scan store base (seekKey base none) =
      scan store base (seekKey base (some newestRevision)) := by
    have start : seekKey base none = base ++ [] := (List.append_nil base).symm
    rw [start, seekKey, scan_eq_filter, scan_eq_filter]
    refine List.filter_congr fun row stored => decide_eq_decide.mpr ?_
    refine and_congr_left fun under => ?_
    have under' : base <+: row.1 := List.isPrefixOf_iff_prefix.mp under
    have room := long row stored under'
    obtain ⟨rest, key⟩ := under'
    rw [← key, List.length_append] at room
    have least := newest_le_bytes (Nat.le_of_add_le_add_left room)
    rw [← key]
    refine iff_of_true ?_ ?_
    · rw [List.append_nil]
      exact le_append base rest
    · rwa [← not_lt, append_lt_append_left, not_lt]
  rw [newestAtOrBefore_eq, newestAtOrBefore_eq, reads, scans]

/-! ## The readers agree on text -/

/-- The readers answer with one path exactly when a record wins or the stored path is text. -/
theorem path_readers_agree_iff (embeddedPathOf : List UInt8 → Option String) (db : Database)
    (scope : NodeScope) (bound : Option HLC)
    (long : bound = none → ∀ row ∈ (db .nodePath).rows, nodePathKeyPrefix scope <+: row.1 →
      (nodePathKeyPrefix scope).length + 16 ≤ row.1.length) :
    (currentPath embeddedPathOf db scope bound).bind CurrentPath.path =
        (materializePath db scope (bound.getD newestRevision)
          (embeddedAt embeddedPathOf db scope bound)).toOption ↔
      EmbeddedWins embeddedPathOf db scope bound ∨
        ∀ entry ∈ indexedPath db scope bound, ReadsAsText entry.2 := by
  have one : indexedPath db scope (some (bound.getD newestRevision)) =
      indexedPath db scope bound := by
    cases bound with
    | some limit => rfl
    | none => exact (newestAtOrBefore_none (long rfl)).symm
  unfold currentPath materializePath
  dsimp only
  rw [one, candidateAt_filter]
  cases decided : (embeddedAt embeddedPathOf db scope bound).filter fun embedded =>
      embeddedPathWins db scope (indexedPath db scope bound) embedded with
  | some embedded =>
      obtain ⟨held, wins⟩ := Option.filter_eq_some_iff.mp decided
      exact iff_of_true rfl (.inl ⟨embedded, held, wins⟩)
  | none =>
      have loses : ¬ EmbeddedWins embeddedPathOf db scope bound := by
        rintro ⟨embedded, held, wins⟩
        rw [held, Option.filter_some_pos wins] at decided
        cases decided
      rw [or_iff_right loses]
      exact indexed_agree_iff (bound.getD newestRevision) (indexedPath db scope bound)

def readerScope : NodeScope := ⟨⟨"t", "r", "b", "w"⟩, "n"⟩

/-- One entry in the path index of nodes, and no record. -/
def onePath (revision : HLC) (value : List UInt8) : Database
  | .nodePath => ⟨[(nodePathKeyPrefix readerScope ++ encodeDescending revision, value)],
      List.pairwise_singleton _ _⟩
  | _ => ⟨[], List.Pairwise.nil⟩

/-- The record and the newest entry are of one revision, and the path of the record leads here. -/
def tiedPaths : Database
  | .nodePath => ⟨[(nodePathKeyPrefix readerScope ++ encodeDescending ⟨3, 0⟩, utf8Bytes "/moved"),
      (nodePathKeyPrefix readerScope ++ encodeDescending ⟨2, 0⟩, utf8Bytes "/old")],
        by decide +kernel⟩
  | .nodes => ⟨[(nodeKeyPrefix readerScope.toIndexCtx "n" ++ encodeDescending ⟨3, 0⟩,
      utf8Bytes "/page")], List.pairwise_singleton _ _⟩
  | .pathIndex => ⟨[(pathIndexKeyPrefix readerScope "/page" ++ encodeDescending ⟨3, 0⟩,
      utf8Bytes "n")], List.pairwise_singleton _ _⟩
  | _ => ⟨[], List.Pairwise.nil⟩

/-- Both readers take the record's path. -/
theorem text_read_alike :
    (currentPath fromUtf8 tiedPaths readerScope none).bind CurrentPath.path =
        (materializePath tiedPaths readerScope newestRevision
          (embeddedAt fromUtf8 tiedPaths readerScope none)).toOption ∧
      (currentPath fromUtf8 tiedPaths readerScope none).bind CurrentPath.path =
        some "/page" := by
  refine ⟨(path_readers_agree_iff fromUtf8 tiedPaths readerScope none
    fun _ row stored under => ?_).mpr (.inl ⟨⟨⟨3, 0⟩, "/page"⟩, ?_, ?_⟩), ?_⟩
  · have rooms : ∀ row ∈ (tiedPaths .nodePath).rows,
        (nodePathKeyPrefix readerScope).length + 16 ≤ row.1.length := by decide +kernel
    exact rooms row stored
  · decide +kernel
  · decide +kernel
  · decide +kernel

theorem bytes_read_apart :
    ¬ ∀ (embeddedPathOf : List UInt8 → Option String) (db : Database) (scope : NodeScope)
      (readAt : HLC), (currentPath embeddedPathOf db scope (some readAt)).bind CurrentPath.path =
        (materializePath db scope readAt
          (embeddedAt embeddedPathOf db scope (some readAt))).toOption := by
  intro all
  have same := all (fun _ => none) (onePath ⟨3, 0⟩ [255]) readerScope ⟨3, 0⟩
  have read : (currentPath (fun _ => none) (onePath ⟨3, 0⟩ [255]) readerScope
      (some ⟨3, 0⟩)).bind CurrentPath.path = some "\uFFFD" := by decide +kernel
  have refused : (materializePath (onePath ⟨3, 0⟩ [255]) readerScope ⟨3, 0⟩
      (embeddedAt (fun _ => none) (onePath ⟨3, 0⟩ [255]) readerScope
        (some ⟨3, 0⟩))).toOption = none := by decide +kernel
  rw [read, refused] at same
  cases same

end RaisinDB.Indexing
