import RaisinDB.Foundation.Bytes
import RaisinDB.Foundation.Separator

/-!
# Keys of the operation log

A row of the log is found under tenant, repository, node, sequence number and
timestamp, joined by NUL bytes; the clock snapshot of a repository sits among
them.  Names free of NUL bytes can be read back from a key, but a key may begin
with the name of a repository without belonging to it.
-/

namespace RaisinDB.Oplog

open RaisinDB.Foundation List

abbrev Key := List UInt8

/-- The separator of key parts. -/
def sep : UInt8 := 0

def build (parts : List (List UInt8)) : Key := [sep].intercalate parts

def buildPrefix (parts : List (List UInt8)) : Key := build parts ++ [sep]

def encodeU64 (value : Nat) : List UInt8 := bigEndian 8 value

def decodeU64 (bytes : List UInt8) : Option Nat :=
  if bytes.length = 8 then some (ofBigEndian bytes) else none

/-- `{tenant}\0{repo}\0{node_id}\0{op_seq}\0{timestamp_ms}` -/
def oplogKey (tenantId repoId nodeId : String) (opSeq timestampMs : Nat) : Key :=
  build [utf8Bytes tenantId, utf8Bytes repoId, utf8Bytes nodeId, encodeU64 opSeq,
    encodeU64 timestampMs]

/-- `{tenant}\0{repo}\0` -/
def oplogTenantRepoPrefix (tenantId repoId : String) : Key :=
  buildPrefix [utf8Bytes tenantId, utf8Bytes repoId]

/-- `{tenant}\0{repo}\0{node_id}\0` -/
def oplogNodePrefix (tenantId repoId nodeId : String) : Key :=
  buildPrefix [utf8Bytes tenantId, utf8Bytes repoId, utf8Bytes nodeId]

/-- `{tenant}\0{repo}\0vc_snapshot` -/
def vectorClockSnapshotKey (tenantId repoId : String) : Key :=
  build [utf8Bytes tenantId, utf8Bytes repoId, utf8Bytes "vc_snapshot"]

/-! ## Shapes -/

/-- The beginning that all keys of a repository share, without its last separator. -/
def repoBase (tenantId repoId : String) : Key :=
  utf8Bytes tenantId ++ sep :: utf8Bytes repoId

/-- What follows the node in the key of an operation. -/
def stampBytes (opSeq timestampMs : Nat) : List UInt8 :=
  encodeU64 opSeq ++ sep :: encodeU64 timestampMs

theorem oplogKey_eq (tenantId repoId nodeId : String) (opSeq timestampMs : Nat) :
    oplogKey tenantId repoId nodeId opSeq timestampMs =
      repoBase tenantId repoId ++
        sep :: (utf8Bytes nodeId ++ sep :: stampBytes opSeq timestampMs) := by
  simp [oplogKey, build, intercalate, repoBase, stampBytes]

theorem vectorClockSnapshotKey_eq (tenantId repoId : String) :
    vectorClockSnapshotKey tenantId repoId =
      repoBase tenantId repoId ++ sep :: utf8Bytes "vc_snapshot" := by
  simp [vectorClockSnapshotKey, build, intercalate, repoBase]

theorem oplogTenantRepoPrefix_eq (tenantId repoId : String) :
    oplogTenantRepoPrefix tenantId repoId = repoBase tenantId repoId ++ [sep] := by
  simp [oplogTenantRepoPrefix, buildPrefix, build, intercalate, repoBase]

theorem oplogNodePrefix_eq (tenantId repoId nodeId : String) :
    oplogNodePrefix tenantId repoId nodeId =
      repoBase tenantId repoId ++ sep :: (utf8Bytes nodeId ++ [sep]) := by
  simp [oplogNodePrefix, buildPrefix, build, intercalate, repoBase]

@[simp] theorem length_encodeU64 (value : Nat) : (encodeU64 value).length = 8 :=
  length_bigEndian 8 value

@[simp] theorem length_stampBytes (opSeq timestampMs : Nat) :
    (stampBytes opSeq timestampMs).length = 17 := by
  simp [stampBytes]

theorem decodeU64_encodeU64 {value : Nat} (small : value < 2 ^ 64) :
    decodeU64 (encodeU64 value) = some value := by
  rw [decodeU64, if_pos (length_encodeU64 value), encodeU64]
  rw [ofBigEndian_bigEndian (small.trans_eq (by norm_num))]

theorem encodeU64_injective {first second : Nat} (hfirst : first < 2 ^ 64)
    (hsecond : second < 2 ^ 64) (same : encodeU64 first = encodeU64 second) : first = second := by
  have decoded := congrArg decodeU64 same
  rw [decodeU64_encodeU64 hfirst, decodeU64_encodeU64 hsecond] at decoded
  exact Option.some.inj decoded

/-! ## Reading names back -/

/-- The text has no NUL byte. -/
def NulFree (text : String) : Prop := sep ∉ utf8Bytes text

instance (text : String) : Decidable (NulFree text) := by
  unfold NulFree
  infer_instance

theorem nulFree_snapshot : NulFree "vc_snapshot" := by decide

theorem repoBase_append_inj {tenantId repoId tenantId' repoId' : String}
    {rest rest' : List UInt8} (tenant : NulFree tenantId) (tenant' : NulFree tenantId')
    (repo : NulFree repoId) (repo' : NulFree repoId')
    (same : repoBase tenantId repoId ++ sep :: rest = repoBase tenantId' repoId' ++ sep :: rest') :
    tenantId = tenantId' ∧ repoId = repoId' ∧ rest = rest' := by
  simp only [repoBase, append_assoc, cons_append] at same
  obtain ⟨sameTenant, others⟩ := split_at_first tenant tenant' same
  obtain ⟨sameRepo, tails⟩ := split_at_first repo repo' others
  exact ⟨utf8Bytes_injective sameTenant, utf8Bytes_injective sameRepo, tails⟩

/-- A key begins with tenant and repository when it belongs to the tenant and to a
repository whose name begins so. -/
theorem repoBase_prefix_iff {tenantId repoId tenantId' repoId' : String} {rest : List UInt8}
    (tenant : NulFree tenantId) (tenant' : NulFree tenantId') (repo : NulFree repoId) :
    repoBase tenantId repoId <+: repoBase tenantId' repoId' ++ sep :: rest ↔
      tenantId = tenantId' ∧ ∃ others, repoId' = repoId ++ others := by
  constructor
  · rintro ⟨tail, same⟩
    simp only [repoBase, append_assoc, cons_append] at same
    obtain ⟨sameTenant, others⟩ := split_at_first tenant tenant' same
    refine ⟨utf8Bytes_injective sameTenant, ?_⟩
    rcases append_eq_append_iff.mp others with ⟨middle, whole, _⟩ | ⟨middle, whole, back⟩
    · obtain ⟨chars, split, _⟩ := utf8_append_eq whole.symm
      refine ⟨String.ofList chars, ?_⟩
      rw [← String.toList_inj, String.toList_append, String.toList_ofList, split]
    · -- the name would reach into the separator behind the other one
      cases middle with
      | nil =>
          rw [append_nil] at whole
          exact ⟨"", by rw [utf8Bytes_injective whole, String.append_empty]⟩
      | cons byte bytes =>
          have first := (cons.inj back).1
          exact absurd (whole ▸ mem_append_right _ (first ▸ mem_cons_self)) repo
  · rintro ⟨rfl, others, rfl⟩
    have bytes : utf8Bytes (repoId ++ others) = utf8Bytes repoId ++ utf8Bytes others := by
      rw [utf8Bytes, String.toList_append]
      exact flatMap_append
    rw [repoBase, repoBase, bytes, append_assoc, cons_append]
    rw [prefix_append_right_inj, cons_prefix_cons, append_assoc]
    exact ⟨rfl, prefix_append _ _⟩

end RaisinDB.Oplog
