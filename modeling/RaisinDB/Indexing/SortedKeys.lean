import RaisinDB.Branches.BranchKeys

/-!
# The order of index keys

A number in a key is written in two's complement, most significant byte first, so the keys of
numbers of one sign compare like the numbers and those of different signs the other way.  A text
ends at its separator, below every byte it may have.
-/

namespace RaisinDB.Indexing

open List RaisinDB.Branches RaisinDB.Clock RaisinDB.Foundation RaisinDB.Oplog
open RaisinDB.Replication

/-! ## Numbers -/

/-- A signed 64-bit number. -/
def IsI64 (value : Int) : Prop := -2 ^ 63 ≤ value ∧ value < 2 ^ 63

instance (value : Int) : Decidable (IsI64 value) := inferInstanceAs (Decidable (_ ∧ _))

def SameSign (first second : Int) : Prop := first < 0 ↔ second < 0

theorem bigEndian_lt_iff {width first second : Nat} (small : first < 256 ^ width)
    (small' : second < 256 ^ width) :
    bigEndian width first < bigEndian width second ↔ first < second := by
  rcases lt_trichotomy first second with less | equal | greater
  · exact iff_of_true (bigEndian_lt less small') less
  · rw [equal]
    exact iff_of_false (lt_irrefl _) (lt_irrefl _)
  · exact iff_of_false (bigEndian_lt greater small).not_gt greater.not_gt

theorem signedBytes_lt_iff {first second : Int} :
    signedBytes first < signedBytes second ↔ first % 2 ^ 64 < second % 2 ^ 64 := by
  have small : ∀ value : Int, (value % 2 ^ 64).toNat < 256 ^ 8 := by
    intro value
    omega
  rw [signedBytes, signedBytes, bigEndian_lt_iff (small first) (small second)]
  omega

/-- Numbers of one sign keep their order in two's complement, and those of different signs lose
it. -/
theorem signedBytes_compare_iff {first second : Int} (range : IsI64 first)
    (range' : IsI64 second) :
    (signedBytes first < signedBytes second ↔ first < second) ↔ SameSign first second := by
  obtain ⟨lower, upper⟩ := range
  obtain ⟨lower', upper'⟩ := range'
  rw [signedBytes_lt_iff]
  unfold SameSign
  omega

@[simp] theorem length_signedBytes (value : Int) : (signedBytes value).length = 8 :=
  length_bigEndian 8 _

/-- What follows two parts of one length does not matter when they differ. -/
theorem append_lt_append_iff {first second : List UInt8} (same : first.length = second.length)
    (different : first ≠ second) (tail tail' : List UInt8) :
    first ++ tail < second ++ tail' ↔ first < second := by
  rcases lt_trichotomy first second with less | equal | greater
  · exact iff_of_true (lt_append_of_lt same less tail tail') less
  · exact absurd equal different
  · exact iff_of_false (lt_append_of_lt same.symm greater tail' tail).not_gt greater.not_gt

theorem signedBytes_injective {first second : Int} (range : IsI64 first) (range' : IsI64 second)
    (same : signedBytes first = signedBytes second) : first = second := by
  obtain ⟨lower, upper⟩ := range
  obtain ⟨lower', upper'⟩ := range'
  have notBefore : ¬ signedBytes first < signedBytes second := same ▸ lt_irrefl _
  have notBehind : ¬ signedBytes second < signedBytes first := same ▸ lt_irrefl _
  rw [signedBytes_lt_iff] at notBefore notBehind
  omega

theorem signedParts_compare_iff {first second : Int} (different : first ≠ second)
    (range : IsI64 first) (range' : IsI64 second) (tail tail' : List UInt8) :
    (signedBytes first ++ tail < signedBytes second ++ tail' ↔ first < second) ↔
      SameSign first second := by
  rw [append_lt_append_iff (by simp) (mt (signedBytes_injective range range') different),
    signedBytes_compare_iff range range']

/-! ## Texts -/

/-- Texts free of the separator compare like their bytes when the separator follows. -/
theorem texts_compare {first second : List UInt8} (free : sep ∉ first) (free' : sep ∉ second)
    (different : first ≠ second) (tail tail' : List UInt8) :
    first ++ sep :: tail < second ++ sep :: tail' ↔ first < second := by
  have least : ∀ byte : UInt8, byte ≠ sep → sep < byte := by
    intro byte some
    rw [UInt8.lt_iff_toNat_lt]
    have positive : byte.toNat ≠ 0 := fun zero => some (UInt8.toNat_inj.mp zero)
    exact Nat.pos_of_ne_zero positive
  induction first generalizing second with
  | nil =>
    cases second with
    | nil => exact absurd rfl different
    | cons byte rest =>
      have some : byte ≠ sep := fun same => free' (same ▸ mem_cons_self)
      rw [nil_append, cons_append, cons_lt_cons_iff]
      exact iff_of_true (.inl (least byte some)) (nil_lt_cons byte rest)
  | cons byte rest ih =>
    cases second with
    | nil =>
      have some : byte ≠ sep := fun same => free (same ▸ mem_cons_self)
      rw [nil_append, cons_append, cons_lt_cons_iff]
      refine iff_of_false ?_ (not_lt_nil _)
      rintro (before | ⟨same, -⟩)
      · exact (least byte some).not_gt before
      · exact some same
    | cons byte' rest' =>
      rw [cons_append, cons_append, cons_lt_cons_iff, cons_lt_cons_iff]
      by_cases same : byte = byte'
      · subst same
        have apart : rest ≠ rest' := fun equal => different (by rw [equal])
        have inner := ih (mt (mem_cons_of_mem _) free) (mt (mem_cons_of_mem _) free') apart
        exact or_congr Iff.rfl (and_congr Iff.rfl inner)
      · simp [same]

/-! ## Columns -/

/-- Two columns of one kind. -/
def SameKind : CompoundColumnValue → CompoundColumnValue → Prop
  | .string _, .string _ => True
  | .integer _, .integer _ => True
  | .timestampDesc _, .timestampDesc _ => True
  | .timestampAsc _, .timestampAsc _ => True
  | .boolean _, .boolean _ => True
  | _, _ => False

/-- A text without separators, or a number of 64 bits. -/
def ValidColumn : CompoundColumnValue → Prop
  | .string value => NulFree value
  | .integer value => IsI64 value
  | .timestampDesc micros => IsI64 micros
  | .timestampAsc micros => IsI64 micros
  | .boolean _ => True

/-- The order of the values of a column. -/
def ColumnLess : CompoundColumnValue → CompoundColumnValue → Prop
  | .string value, .string value' => utf8Bytes value < utf8Bytes value'
  | .integer value, .integer value' => value < value'
  | .timestampDesc micros, .timestampDesc micros' => micros' < micros
  | .timestampAsc micros, .timestampAsc micros' => micros < micros'
  | .boolean value, .boolean value' => value = false ∧ value' = true
  | _, _ => False

/-- Numbers have the same sign. -/
def ColumnSigns : CompoundColumnValue → CompoundColumnValue → Prop
  | .integer value, .integer value' => SameSign value value'
  | .timestampDesc micros, .timestampDesc micros' => SameSign micros micros'
  | .timestampAsc micros, .timestampAsc micros' => SameSign micros micros'
  | _, _ => True

/-- Where two tuples differ first, numbers have the same sign. -/
def SignsAgree : List CompoundColumnValue → List CompoundColumnValue → Prop
  | first :: rest, second :: rest' =>
      (first = second → SignsAgree rest rest') ∧ (first ≠ second → ColumnSigns first second)
  | _, _ => True

/-- Keys that differ in a column compare like its values exactly where the signs agree. -/
theorem column_compare_iff {first second : CompoundColumnValue} (kind : SameKind first second)
    (valid : ValidColumn first) (valid' : ValidColumn second) (different : first ≠ second)
    (tail tail' : List UInt8) :
    (first.part.bytes ++ sep :: tail < second.part.bytes ++ sep :: tail' ↔
      ColumnLess first second) ↔ ColumnSigns first second := by
  cases first with
  | string value =>
    cases second with
    | string value' =>
      have apart : utf8Bytes value ≠ utf8Bytes value' := fun same =>
        different (congrArg _ (utf8Bytes_injective same))
      exact iff_of_true (texts_compare valid valid' apart tail tail') trivial
    | _ => exact absurd kind id
  | integer value =>
    cases second with
    | integer value' =>
      exact signedParts_compare_iff (fun same => different (congrArg _ same)) valid valid' _ _
    | _ => exact absurd kind id
  | timestampDesc micros =>
    cases second with
    | timestampDesc micros' =>
      have flipped : -micros - 1 ≠ -micros' - 1 := fun same =>
        different (congrArg _ (by omega))
      have range : IsI64 (-micros - 1) := by
        obtain ⟨lower, upper⟩ : IsI64 micros := valid
        exact ⟨by omega, by omega⟩
      have range' : IsI64 (-micros' - 1) := by
        obtain ⟨lower, upper⟩ : IsI64 micros' := valid'
        exact ⟨by omega, by omega⟩
      have compared := signedParts_compare_iff flipped range range' (sep :: tail) (sep :: tail')
      have order : -micros - 1 < -micros' - 1 ↔ micros' < micros := by omega
      have signs : SameSign (-micros - 1) (-micros' - 1) ↔ SameSign micros micros' := by
        unfold SameSign
        omega
      rw [order, signs] at compared
      exact compared
    | _ => exact absurd kind id
  | timestampAsc micros =>
    cases second with
    | timestampAsc micros' =>
      exact signedParts_compare_iff (fun same => different (congrArg _ same)) valid valid' _ _
    | _ => exact absurd kind id
  | boolean value =>
    cases second with
    | boolean value' =>
      have less : ∀ more more' : List UInt8, [0] ++ more < [1] ++ more' :=
        lt_append_of_lt rfl (by decide)
      refine iff_of_true ?_ trivial
      cases value with
      | false =>
        cases value' with
        | false => exact absurd rfl different
        | true => exact iff_of_true (less _ _) ⟨rfl, rfl⟩
      | true =>
        cases value' with
        | false =>
          exact iff_of_false (less _ _).not_gt fun order =>
            Bool.false_ne_true order.1.symm
        | true => exact absurd rfl different
    | _ => exact absurd kind id

/-! ## Tuples -/

/-- What the columns and the rest of a key make. -/
def columnBytes (columns : List CompoundColumnValue) : List UInt8 :=
  columns.flatMap fun column => column.part.bytes ++ [sep]

theorem columnBytes_cons (column : CompoundColumnValue) (columns : List CompoundColumnValue)
    (tail : List UInt8) :
    columnBytes (column :: columns) ++ tail =
      column.part.bytes ++ sep :: (columnBytes columns ++ tail) := by
  simp [columnBytes]

theorem columnLess_irrefl (column : CompoundColumnValue) : ¬ ColumnLess column column := by
  cases column with
  | string value => exact lt_irrefl _
  | integer value => exact lt_irrefl _
  | timestampDesc micros => exact lt_irrefl _
  | timestampAsc micros => exact lt_irrefl _
  | boolean value => exact fun both => Bool.false_ne_true (both.1.symm.trans both.2)

/-- Keys of different tuples compare like the tuples exactly where the signs agree. -/
theorem tuples_compare_iff {columns columns' : List CompoundColumnValue}
    (shape : Forall₂ SameKind columns columns') (valid : ∀ column ∈ columns, ValidColumn column)
    (valid' : ∀ column ∈ columns', ValidColumn column) (different : columns ≠ columns')
    (tail tail' : List UInt8) :
    (columnBytes columns ++ tail < columnBytes columns' ++ tail' ↔
      Lex ColumnLess columns columns') ↔ SignsAgree columns columns' := by
  induction shape with
  | nil => exact absurd rfl different
  | cons kind shape ih =>
    rename_i first second rest rest'
    obtain ⟨here, later⟩ := forall_mem_cons.mp valid
    obtain ⟨here', later'⟩ := forall_mem_cons.mp valid'
    rw [columnBytes_cons, columnBytes_cons, cons_lex_cons_iff, SignsAgree]
    by_cases same : first = second
    · subst same
      have apart : rest ≠ rest' := fun equal => different (by rw [equal])
      rw [append_lt_append_left, cons_lt_cons_self, or_iff_right (columnLess_irrefl first),
        and_iff_right rfl, ih later later' apart]
      simp
    · have compared := column_compare_iff kind here here' same
        (columnBytes rest ++ tail) (columnBytes rest' ++ tail')
      simp only [same, false_and, or_false, false_implies, true_and, ne_eq, not_false_eq_true,
        true_implies]
      exact compared

/-! ## Keys -/

/-- The key of an entry of a compound index. -/
def compoundIndexKeyVersioned (tenantId repoId branch workspace indexName : String)
    (columnValues : List CompoundColumnValue) (revision : HLC) (nodeId : String)
    (published : Bool) : Key :=
  (BranchKey.compoundIndex workspace published indexName columnValues revision nodeId).bytes
    tenantId repoId branch

/-- The key of an entry of a property index with a timestamp. -/
def propertyIndexKeyVersionedTimestamp (tenantId repoId branch workspace propertyName : String)
    (timestampMicros : Int) (revision : HLC) (nodeId : String) (published : Bool) : Key :=
  (BranchKey.propertyIndex workspace published propertyName (.timestamp timestampMicros) revision
    nodeId).bytes tenantId repoId branch

theorem compoundIndexKey_eq (tenantId repoId branch workspace indexName : String)
    (published : Bool) :
    ∃ base, ∀ columnValues revision nodeId, compoundIndexKeyVersioned tenantId repoId branch
      workspace indexName columnValues revision nodeId published =
        base ++ (columnBytes columnValues ++ (encodeDescending revision ++ sep ::
          utf8Bytes nodeId)) := by
  refine ⟨branchPrefix tenantId repoId branch ++ ((([.text workspace,
    .text (if published then "cidx_pub" else "cidx"), .text indexName] : List KeyPart).map
      KeyPart.bytes).flatMap (· ++ [sep])), fun columnValues revision nodeId => ?_⟩
  rw [compoundIndexKeyVersioned, BranchKey.bytes_eq,
    @BranchKey.rest_eq (.compoundIndex workspace published indexName columnValues revision nodeId)
      revision rfl]
  simp only [BranchKey.layout, columnBytes, map_map, flatMap_map,
    append_assoc, Function.comp_def, map_cons, map_nil, flatMap_cons, flatMap_nil, append_nil,
    cons_append, nil_append]

theorem propertyIndexKey_eq (tenantId repoId branch workspace propertyName : String)
    (published : Bool) :
    ∃ base, ∀ timestampMicros revision nodeId, propertyIndexKeyVersionedTimestamp tenantId repoId
      branch workspace propertyName timestampMicros revision nodeId published =
        base ++ (signedBytes timestampMicros ++ (sep :: (encodeDescending revision ++ sep ::
          utf8Bytes nodeId))) := by
  refine ⟨branchPrefix tenantId repoId branch ++ ((([.text workspace,
    .text (if published then "prop_pub" else "prop"), .text propertyName] : List KeyPart).map
      KeyPart.bytes).flatMap (· ++ [sep])), fun timestampMicros revision nodeId => ?_⟩
  rw [propertyIndexKeyVersionedTimestamp, BranchKey.bytes_eq,
    @BranchKey.rest_eq (.propertyIndex workspace published propertyName
      (.timestamp timestampMicros) revision nodeId) revision rfl]
  simp [BranchKey.layout, PropertyKeyValue.part, KeyPart.bytes]

/-- Keys of a compound index compare like the tuples, and those of a timestamp index like the
timestamps, exactly where the numbers that differ first have the same sign. -/
theorem index_keys_compare_iff (tenantId repoId branch workspace : String) (published : Bool) :
    (∀ indexName columns columns' revision revision' nodeId nodeId',
      Forall₂ SameKind columns columns' → (∀ column ∈ columns, ValidColumn column) →
        (∀ column ∈ columns', ValidColumn column) → columns ≠ columns' →
        ((compoundIndexKeyVersioned tenantId repoId branch workspace indexName columns revision
            nodeId published < compoundIndexKeyVersioned tenantId repoId branch workspace
              indexName columns' revision' nodeId' published ↔
          Lex ColumnLess columns columns') ↔ SignsAgree columns columns')) ∧
    ∀ propertyName timestamp timestamp' revision revision' nodeId nodeId',
      IsI64 timestamp → IsI64 timestamp' → timestamp ≠ timestamp' →
        ((propertyIndexKeyVersionedTimestamp tenantId repoId branch workspace propertyName
            timestamp revision nodeId published < propertyIndexKeyVersionedTimestamp tenantId
              repoId branch workspace propertyName timestamp' revision' nodeId' published ↔
          timestamp < timestamp') ↔ SameSign timestamp timestamp') := by
  refine ⟨fun indexName columns columns' revision revision' nodeId nodeId' shape valid valid'
    different => ?_, fun propertyName timestamp timestamp' revision revision' nodeId nodeId' range
    range' different => ?_⟩
  · obtain ⟨base, keys⟩ :=
      compoundIndexKey_eq tenantId repoId branch workspace indexName published
    rw [keys, keys, append_lt_append_left]
    exact tuples_compare_iff shape valid valid' different _ _
  · obtain ⟨base, keys⟩ :=
      propertyIndexKey_eq tenantId repoId branch workspace propertyName published
    rw [keys, keys, append_lt_append_left]
    exact signedParts_compare_iff different range range' _ _

theorem positive_keys_compare :
    (compoundIndexKeyVersioned "t" "r" "main" "w" "by_age" [.string "a", .integer 255] ⟨7, 0⟩ "x"
        false < compoundIndexKeyVersioned "t" "r" "main" "w" "by_age"
          [.string "a", .integer 256] ⟨3, 0⟩ "y" false ↔
      Lex ColumnLess [.string "a", .integer 255] [.string "a", .integer 256]) ∧
    (propertyIndexKeyVersionedTimestamp "t" "r" "main" "w" "born" (-5) ⟨7, 0⟩ "x" false <
        propertyIndexKeyVersionedTimestamp "t" "r" "main" "w" "born" (-4) ⟨3, 0⟩ "y" false ↔
      (-5 : Int) < -4) := by
  obtain ⟨compound, property⟩ := index_keys_compare_iff "t" "r" "main" "w" false
  have free : NulFree "a" := by decide
  have range : ∀ value ∈ ([255, 256, -5, -4] : List Int), IsI64 value := by decide
  refine ⟨(compound "by_age" [.string "a", .integer 255] [.string "a", .integer 256] _ _ _ _
    (.cons trivial (.cons trivial .nil)) ?_ ?_ (by decide)).mpr ?_,
    (property "born" (-5) (-4) _ _ _ _ (range _ (by decide)) (range _ (by decide))
      (by decide)).mpr (by unfold SameSign; decide)⟩
  · exact forall_mem_cons.mpr ⟨free, forall_mem_singleton.mpr (range _ (by decide))⟩
  · exact forall_mem_cons.mpr ⟨free, forall_mem_singleton.mpr (range _ (by decide))⟩
  · exact ⟨fun _ => ⟨fun same => absurd same (by decide), fun _ => iff_of_false (by decide)
      (by decide)⟩, fun different => absurd rfl different⟩

/-- A negative number sorts behind a positive one. -/
theorem negative_key_behind :
    (¬ (compoundIndexKeyVersioned "t" "r" "main" "w" "by_age" [.integer (-1)] ⟨7, 0⟩ "x" false <
        compoundIndexKeyVersioned "t" "r" "main" "w" "by_age" [.integer 1] ⟨7, 0⟩ "x" false ↔
      Lex ColumnLess [.integer (-1)] [.integer 1])) ∧
    ¬ (propertyIndexKeyVersionedTimestamp "t" "r" "main" "w" "born" (-1) ⟨7, 0⟩ "x" false <
        propertyIndexKeyVersionedTimestamp "t" "r" "main" "w" "born" 1 ⟨7, 0⟩ "x" false ↔
      (-1 : Int) < 1) := by
  have compound : ¬ compoundIndexKeyVersioned "t" "r" "main" "w" "by_age" [.integer (-1)] ⟨7, 0⟩
      "x" false < compoundIndexKeyVersioned "t" "r" "main" "w" "by_age" [.integer 1] ⟨7, 0⟩ "x"
        false := by decide +kernel
  have property : ¬ propertyIndexKeyVersionedTimestamp "t" "r" "main" "w" "born" (-1) ⟨7, 0⟩ "x"
      false < propertyIndexKeyVersionedTimestamp "t" "r" "main" "w" "born" 1 ⟨7, 0⟩ "x" false := by
    decide +kernel
  have less : Lex ColumnLess [.integer (-1)] [.integer 1] := .rel (by decide : (-1 : Int) < 1)
  exact ⟨fun same => compound (same.mpr less), fun same => property (same.mpr (by decide))⟩

end RaisinDB.Indexing
