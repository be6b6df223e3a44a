import RaisinDB.Branches.BranchCopy

/-!
# A fork is a copy

The copy asks for each key whether the target holds it, with a cursor that only
moves forwards, and writes what is missing.  On an empty target this leaves every
entry that is within the bound, so far as its revision is read where it stands.
-/

namespace RaisinDB.Branches

open RaisinDB.Clock RaisinDB.Foundation RaisinDB.Oplog RaisinDB.Replication List

/-! ## One column family -/

section Loop

variable (targetBranch : String) (maxRevision : HLC) (cf : ColumnFamily)

/-- The row is within the bound, as the copy reads its revision. -/
def admitted (row : Row) : Bool :=
  admits maxRevision cf (locateRevision (copyPlan cf).revision row.1 row.2 (row.1.splitOn sep))

/-- The row under the target. -/
def moved (row : Row) : Row := (buildKeyWithBranch (row.1.splitOn sep) targetBranch, row.2)

/-- The copy writes the row. -/
def missing (existing : List Row) (row : Row) : Bool :=
  admitted maxRevision cf row &&
    !(skipExisting cf && decide ((moved targetBranch row).1 ∈ existing.map Prod.fst))

variable {targetBranch}

theorem existingContains_eq {cursor : List Row} (sorted : cursor.Pairwise fun a b => a.1 < b.1)
    (key : Key) :
    existingContains cursor key =
      (cursor.filter (fun row => key ≤ row.1), decide (key ∈ cursor.map Prod.fst)) := by
  have ahead : cursor.dropWhile (fun row => row.1 < key) = cursor.filter fun row => key ≤ row.1 := by
    rw [dropWhile_eq_filter]
    · exact filter_congr fun row _ => by simp only [← decide_not, not_lt]
    · refine sorted.imp fun less below => ?_
      simp only [decide_eq_true_eq] at below ⊢
      exact less.trans below
  have found : (cursor.filter fun row => key ≤ row.1).head?.map Prod.fst = some key ↔
      key ∈ cursor.map Prod.fst := by
    constructor
    · intro first
      obtain ⟨row, hrow, rfl⟩ := Option.map_eq_some_iff.mp first
      exact mem_map_of_mem (mem_filter.mp (mem_of_head? hrow)).1
    · intro present
      obtain ⟨row, hrow, rfl⟩ := mem_map.mp present
      have kept : row ∈ cursor.filter fun other => row.1 ≤ other.1 :=
        mem_filter.mpr ⟨hrow, decide_eq_true le_rfl⟩
      cases shape : cursor.filter fun other => row.1 ≤ other.1 with
      | nil => rw [shape] at kept; cases kept
      | cons first others =>
        -- the first row from the key on is the row of the key
        have least := sorted.filter fun other => decide (row.1 ≤ other.1)
        rw [shape] at least kept
        have lower : row.1 ≤ first.1 := by
          have hfirst : first ∈ cursor.filter fun other => row.1 ≤ other.1 :=
            shape ▸ mem_cons_self
          exact of_decide_eq_true (mem_filter.mp hfirst).2
        rcases mem_cons.mp kept with rfl | later
        · rfl
        · exact absurd ((pairwise_cons.mp least).1 row later) (not_lt.mpr lower)
  rw [existingContains, ahead]
  exact congrArg _ (decide_eq_decide.mpr found)

/-- What the loop adds to its batch and to the touched parents. -/
theorem foldl_copyRow {rows cursor : List Row} (cursorSorted : cursor.Pairwise fun a b => a.1 < b.1)
    (ascending : rows.Pairwise fun a b => (moved targetBranch a).1 < (moved targetBranch b).1)
    (batch : List Row) (touched : List (String × String)) :
    let final := rows.foldl (copyRow targetBranch maxRevision cf) ⟨cursor, batch, touched⟩
    let written := rows.filter (missing targetBranch maxRevision cf cursor)
    final.batch = batch ++ written.map (moved targetBranch) ∧
      ((skipExisting cf → written = []) → final.touchedParents = touched) := by
  induction rows generalizing cursor batch touched with
  | nil => exact ⟨(append_nil batch).symm, fun _ => rfl⟩
  | cons row rows ih =>
    obtain ⟨below, ascending⟩ := pairwise_cons.mp ascending
    have agrees : ∀ other ∈ rows,
        missing targetBranch maxRevision cf
            (cursor.filter fun old => (moved targetBranch row).1 ≤ old.1) other =
          missing targetBranch maxRevision cf cursor other := by
      intro other hother
      have same : (moved targetBranch other).1 ∈
            (cursor.filter fun old => (moved targetBranch row).1 ≤ old.1).map Prod.fst ↔
          (moved targetBranch other).1 ∈ cursor.map Prod.fst := by
        constructor
        · intro present
          obtain ⟨old, hold, key⟩ := mem_map.mp present
          exact mem_map.mpr ⟨old, (mem_filter.mp hold).1, key⟩
        · intro present
          obtain ⟨old, hold, key⟩ := mem_map.mp present
          refine mem_map.mpr ⟨old, mem_filter.mpr ⟨hold, decide_eq_true ?_⟩, key⟩
          exact key ▸ (below other hother).le
      rw [missing, missing, decide_eq_decide.mpr same]
    have step : copyRow targetBranch maxRevision cf ⟨cursor, batch, touched⟩ row =
        if admitted maxRevision cf row then
          if skipExisting cf then
            if (moved targetBranch row).1 ∈ cursor.map Prod.fst then
              ⟨cursor.filter fun old => (moved targetBranch row).1 ≤ old.1, batch, touched⟩
            else
              ⟨cursor.filter fun old => (moved targetBranch row).1 ≤ old.1,
                batch ++ [moved targetBranch row], touched ++
                  if cf = .orderedChildren then touchedParent (row.1.splitOn sep) else []⟩
          else ⟨cursor, batch ++ [moved targetBranch row], touched⟩
        else ⟨cursor, batch, touched⟩ := by
      unfold copyRow
      dsimp only
      rw [existingContains_eq cursorSorted]
      simp only [decide_eq_true_eq]
      rfl
    dsimp only
    rw [foldl_cons, step]
    by_cases within : admitted maxRevision cf row
    · rw [if_pos within]
      by_cases skips : skipExisting cf
      · rw [if_pos skips]
        by_cases present : (moved targetBranch row).1 ∈ cursor.map Prod.fst
        · have out : missing targetBranch maxRevision cf cursor row = false := by
            simp [missing, within, skips, present]
          rw [if_pos present, filter_cons_of_neg (by simp [out]), ← filter_congr agrees]
          exact ih (cursorSorted.filter _) ascending _ _
        · have isIn : missing targetBranch maxRevision cf cursor row = true := by
            simp [missing, within, skips, present]
          obtain ⟨batched, _⟩ := ih (cursorSorted.filter
            fun old => decide ((moved targetBranch row).1 ≤ old.1)) ascending
            (batch ++ [moved targetBranch row])
            (touched ++ if cf = .orderedChildren then touchedParent (row.1.splitOn sep) else [])
          rw [if_neg present, filter_cons_of_pos isIn, ← filter_congr agrees]
          refine ⟨batched.trans ?_, fun none => absurd (none skips) (cons_ne_nil _ _)⟩
          rw [map_cons, append_assoc, singleton_append]
      · have isIn : missing targetBranch maxRevision cf cursor row = true := by
          simp [missing, within, skips]
        obtain ⟨batched, untouched⟩ :=
          ih cursorSorted ascending (batch ++ [moved targetBranch row]) touched
        rw [if_neg skips, filter_cons_of_pos isIn]
        refine ⟨batched.trans ?_, fun _ => untouched fun skips' => absurd skips' skips⟩
        rw [map_cons, append_assoc, singleton_append]
    · have out : missing targetBranch maxRevision cf cursor row = false := by
        simp [missing, within]
      rw [if_neg within, filter_cons_of_neg (by simp [out])]
      exact ih cursorSorted ascending batch touched

end Loop

/-- The rows of an iterator that stops where the keys leave the branch. -/
theorem seek_takeWhile_branchPrefix (store : CfStore) (base : Key) :
    (store.seek base).takeWhile (fun row => base.isPrefixOf row.1) =
      store.rows.filter fun row => base.isPrefixOf row.1 := by
  have interval : ∀ a b : Key, base ≤ a → a < b → base.isPrefixOf b → base.isPrefixOf a := by
    intro a b lower less inside
    rw [ isPrefixOf_iff_prefix] at inside ⊢
    obtain ⟨tail, rfl⟩ := inside
    exact prefix_of_between lower less.le
  rw [store.seek_takeWhile base (fun key => base.isPrefixOf key) interval]
  refine filter_congr fun row _ => ?_
  by_cases inside : base.isPrefixOf row.1
  · obtain ⟨tail, joined⟩ := isPrefixOf_iff_prefix.mp inside
    have lower : base ≤ row.1 := joined ▸ le_append base tail
    simp [inside, lower]
  · simp [inside]

section OneFamily

variable {tenantId repoId sourceBranch targetBranch : String} (tenant : NulFree tenantId)
  (repo : NulFree repoId) (source : NulFree sourceBranch) (target : NulFree targetBranch)
  {maxRevision : HLC} {cf : ColumnFamily} {store : CfStore}

/-- Different branches have no key in common. -/
theorem branch_of_branchPrefix {branch branch' : String} (hbranch : NulFree branch)
    (hbranch' : NulFree branch') {rest rest' : List UInt8}
    (same : branchPrefix tenantId repoId branch ++ rest =
      branchPrefix tenantId repoId branch' ++ rest') : branch = branch' ∧ rest = rest' := by
  have shape (name : String) (others : List UInt8) :
      branchPrefix tenantId repoId name ++ others =
        utf8Bytes tenantId ++ sep :: (utf8Bytes repoId ++ sep :: (utf8Bytes name ++ sep :: others)) := by
    rw [branchPrefix, buildPrefix, build_cons_cons, build_cons_cons, build_singleton]
    simp only [append_assoc, cons_append, nil_append]
  rw [shape, shape, append_right_inj, cons_inj_right, append_right_inj, cons_inj_right] at same
  obtain ⟨names, rests⟩ := split_at_first hbranch hbranch' same
  exact ⟨utf8Bytes_injective names, rests⟩

include tenant repo source in
theorem moved_key {row : Row} {rest : List UInt8}
    (key : row.1 = branchPrefix tenantId repoId sourceBranch ++ rest) :
    (moved targetBranch row).1 = branchPrefix tenantId repoId targetBranch ++ rest := by
  rw [moved, key]
  exact buildKeyWithBranch_eq tenant repo source targetBranch rest

variable (tenantId repoId sourceBranch) in
/-- The rows of the source. -/
def sourceRows (store : CfStore) : List Row :=
  store.rows.filter fun row => (branchPrefix tenantId repoId sourceBranch).isPrefixOf row.1

theorem mem_sourceRows {row : Row} :
    row ∈ sourceRows tenantId repoId sourceBranch store ↔
      row ∈ store.rows ∧ branchPrefix tenantId repoId sourceBranch <+: row.1 := by
  rw [sourceRows, mem_filter, isPrefixOf_iff_prefix]

include tenant repo source in
/-- Replacing the branch keeps the order of the rows. -/
theorem ascending_sourceRows (targetBranch : String) (store : CfStore) :
    (sourceRows tenantId repoId sourceBranch store).Pairwise fun a b =>
      (moved targetBranch a).1 < (moved targetBranch b).1 := by
  refine (store.sorted.filter _).imp_of_mem fun {a b} ha hb less => ?_
  obtain ⟨_, rest, keyA⟩ := mem_sourceRows.mp ha
  obtain ⟨_, rest', keyB⟩ := mem_sourceRows.mp hb
  rw [moved_key tenant repo source keyA.symm, moved_key tenant repo source keyB.symm]
  rw [← keyA, ← keyB, append_lt_append_left] at less
  exact (append_lt_append_left _).mpr less

/-- The rows the copy writes. -/
def writtenRows (tenantId repoId sourceBranch targetBranch : String) (maxRevision : HLC)
    (cf : ColumnFamily) (store : CfStore) : List Row :=
  ((sourceRows tenantId repoId sourceBranch store).filter
    (missing targetBranch maxRevision cf
      (store.seek (branchPrefix tenantId repoId targetBranch)))).map (moved targetBranch)

include tenant repo source in
theorem nodup_writtenRows :
    ((writtenRows tenantId repoId sourceBranch targetBranch maxRevision cf store).map
      Prod.fst).Nodup := by
  have ascending := (ascending_sourceRows tenant repo source targetBranch store).filter
    (missing targetBranch maxRevision cf (store.seek (branchPrefix tenantId repoId targetBranch)))
  rw [writtenRows, map_map]
  exact pairwise_map.mpr (ascending.imp fun less => ne_of_lt less)

/-- No key lies under the branch. -/
def Vacant (tenantId repoId branch : String) (store : CfStore) : Prop :=
  ∀ row ∈ store.rows, ¬ branchPrefix tenantId repoId branch <+: row.1

include tenant repo source in
theorem copyCfEntries_of_vacant (vacant : Vacant tenantId repoId targetBranch store) :
    copyCfEntries tenantId repoId sourceBranch targetBranch maxRevision cf store =
      (writtenRows tenantId repoId sourceBranch targetBranch maxRevision cf store).foldl
        (fun store row => store.put row.1 row.2) store := by
  have sorted : (store.seek (branchPrefix tenantId repoId targetBranch)).Pairwise
      fun a b => a.1 < b.1 := store.sorted.sublist (dropWhile_sublist _)
  have none : (store.seek (branchPrefix tenantId repoId targetBranch)).head?.any
      (fun row => (branchPrefix tenantId repoId targetBranch).isPrefixOf row.1) = false := by
    cases first : (store.seek (branchPrefix tenantId repoId targetBranch)).head? with
    | none => rfl
    | some row =>
      have hrow : row ∈ store.rows := (dropWhile_sublist _).subset (mem_of_head? first)
      exact Bool.eq_false_iff.mpr fun inside =>
        vacant row hrow ( isPrefixOf_iff_prefix.mp inside)
  have looped := foldl_copyRow maxRevision cf sorted
    (ascending_sourceRows tenant repo source targetBranch store) [] []
  unfold copyCfEntries
  dsimp only
  rw [none, seek_takeWhile_branchPrefix]
  simp only [Bool.false_eq_true, if_false]
  rw [← sourceRows, looped.1, nil_append, writtenRows]

include tenant repo source in
/-- Nothing happens when the target has every row within the bound. -/
theorem copyCfEntries_of_present
    (present : ∀ row ∈ sourceRows tenantId repoId sourceBranch store,
      admitted maxRevision cf row → moved targetBranch row ∈ store.rows) :
    copyCfEntries tenantId repoId sourceBranch targetBranch maxRevision cf store = store := by
  have sorted : (store.seek (branchPrefix tenantId repoId targetBranch)).Pairwise
      fun a b => a.1 < b.1 := store.sorted.sublist (dropWhile_sublist _)
  have skipped : skipExisting cf → (sourceRows tenantId repoId sourceBranch store).filter
      (missing targetBranch maxRevision cf
        (store.seek (branchPrefix tenantId repoId targetBranch))) = [] := by
    intro skips
    rw [filter_eq_nil_iff]
    intro row hrow written
    obtain ⟨within, absent⟩ := Bool.and_eq_true_iff.mp written
    obtain ⟨_, rest, key⟩ := mem_sourceRows.mp hrow
    have held : (moved targetBranch row).1 ∈
        (store.seek (branchPrefix tenantId repoId targetBranch)).map Prod.fst := by
      refine mem_map_of_mem ?_
      rw [store.seek_eq_filter, mem_filter]
      refine ⟨present row hrow within, decide_eq_true ?_⟩
      rw [moved_key tenant repo source key.symm]
      exact le_append _ _
    rw [skips, decide_eq_true held] at absent
    cases absent
  have looped := foldl_copyRow maxRevision cf sorted
    (ascending_sourceRows tenant repo source targetBranch store) [] []
  have rewritten : (writtenRows tenantId repoId sourceBranch targetBranch maxRevision cf
      store).foldl (fun store row => store.put row.1 row.2) store = store := by
    refine OrderedStore.eq_of_mem_iff fun row => ?_
    rw [OrderedStore.mem_rows_foldl_put (nodup_writtenRows tenant repo source)]
    have held : ∀ other ∈ writtenRows tenantId repoId sourceBranch targetBranch maxRevision cf
        store, other ∈ store.rows := by
      intro other hother
      obtain ⟨old, hold, rfl⟩ := mem_map.mp hother
      obtain ⟨hold, written⟩ := mem_filter.mp hold
      exact present old hold (Bool.and_eq_true_iff.mp written).1
    constructor
    · rintro (written | ⟨old, _⟩)
      · exact held row written
      · exact old
    · intro old
      by_cases written : row.1 ∈ (writtenRows tenantId repoId sourceBranch targetBranch maxRevision
          cf store).map Prod.fst
      · obtain ⟨other, hother, key⟩ := mem_map.mp written
        have same : other = row :=
          inj_on_of_nodup_map store.nodup_keys (held other hother) old key
        exact Or.inl (same ▸ hother)
      · exact Or.inr ⟨old, written⟩
  unfold copyCfEntries
  dsimp only
  rw [seek_takeWhile_branchPrefix, ← sourceRows, looped.1, looped.2 skipped, nil_append]
  rw [writtenRows] at rewritten
  rw [rewritten, foldl_nil, ite_self]

include tenant repo source in
/-- A copy into an empty target keeps the rows and adds those of the source within the bound. -/
theorem mem_copyCfEntries (vacant : Vacant tenantId repoId targetBranch store) {row : Row} :
    row ∈ (copyCfEntries tenantId repoId sourceBranch targetBranch maxRevision cf store).rows ↔
      row ∈ store.rows ∨ ∃ old ∈ sourceRows tenantId repoId sourceBranch store,
        admitted maxRevision cf old ∧ row = moved targetBranch old := by
  have absent : ∀ old ∈ sourceRows tenantId repoId sourceBranch store,
      ∀ other ∈ store.rows, other.1 ≠ (moved targetBranch old).1 := by
    intro old hold other hother same
    obtain ⟨_, rest, key⟩ := mem_sourceRows.mp hold
    rw [moved_key tenant repo source key.symm] at same
    exact vacant other hother ⟨rest, same.symm⟩
  have written : row ∈ writtenRows tenantId repoId sourceBranch targetBranch maxRevision cf store ↔
      ∃ old ∈ sourceRows tenantId repoId sourceBranch store,
        admitted maxRevision cf old ∧ row = moved targetBranch old := by
    have fresh : ∀ old ∈ sourceRows tenantId repoId sourceBranch store,
        missing targetBranch maxRevision cf
          (store.seek (branchPrefix tenantId repoId targetBranch)) old =
            admitted maxRevision cf old := by
      intro old hold
      have out : (moved targetBranch old).1 ∉
          (store.seek (branchPrefix tenantId repoId targetBranch)).map Prod.fst := by
        intro held
        obtain ⟨other, hother, key⟩ := mem_map.mp held
        exact absent old hold other ((dropWhile_sublist _).subset hother) key
      rw [missing, decide_eq_false out, Bool.and_false, Bool.not_false, Bool.and_true]
    rw [writtenRows, filter_congr fresh, mem_map]
    constructor
    · rintro ⟨old, hold, rfl⟩
      obtain ⟨hold, within⟩ := mem_filter.mp hold
      exact ⟨old, hold, within, rfl⟩
    · rintro ⟨old, hold, within, rfl⟩
      exact ⟨old, mem_filter.mpr ⟨hold, within⟩, rfl⟩
  rw [copyCfEntries_of_vacant tenant repo source vacant,
    OrderedStore.mem_rows_foldl_put (nodup_writtenRows tenant repo source), ← written]
  constructor
  · rintro (new | ⟨old, _⟩)
    · exact Or.inr new
    · exact Or.inl old
  · rintro (old | new)
    · refine Or.inr ⟨old, fun held => ?_⟩
      obtain ⟨other, hother, key⟩ := mem_map.mp held
      obtain ⟨origin, horigin, rfl⟩ := mem_map.mp hother
      exact absent origin (mem_filter.mp horigin).1 row old key.symm
    · exact Or.inl new

include tenant repo source target in
/-- A second copy finds everything in place. -/
theorem copyCfEntries_twice (vacant : Vacant tenantId repoId targetBranch store) :
    copyCfEntries tenantId repoId sourceBranch targetBranch maxRevision cf
        (copyCfEntries tenantId repoId sourceBranch targetBranch maxRevision cf store) =
      copyCfEntries tenantId repoId sourceBranch targetBranch maxRevision cf store := by
  refine copyCfEntries_of_present tenant repo source fun row hrow within => ?_
  obtain ⟨hrow, inside⟩ := mem_sourceRows.mp hrow
  rw [mem_copyCfEntries tenant repo source vacant]
  refine Or.inr ⟨row, mem_sourceRows.mpr ⟨?_, inside⟩, within, rfl⟩
  rcases (mem_copyCfEntries tenant repo source vacant).mp hrow with old | ⟨origin, horigin, _, rfl⟩
  · exact old
  · -- a row of the target lies under the source only if both are one branch, which is empty
    obtain ⟨held, rest, key⟩ := mem_sourceRows.mp horigin
    obtain ⟨rest', key'⟩ := inside
    rw [moved_key tenant repo source key.symm] at key'
    obtain ⟨rfl, _⟩ := branch_of_branchPrefix source target key'
    exact absurd ⟨rest, key⟩ (vacant origin held)

end OneFamily

/-! ## Every column family -/

theorem foldl_update {γ σ : Type} [DecidableEq γ] (change : γ → σ → σ) {order : List γ}
    (nodup : order.Nodup) (state : γ → σ) (item : γ) :
    order.foldl (fun state item => Function.update state item (change item (state item))) state
      item = if item ∈ order then change item (state item) else state item := by
  induction order generalizing state with
  | nil => rfl
  | cons first order ih =>
    obtain ⟨fresh, nodup⟩ := nodup_cons.mp nodup
    rw [foldl_cons, ih nodup]
    by_cases same : item = first
    · subst same
      rw [if_neg fresh, if_pos mem_cons_self, Function.update_self]
    · rw [Function.update_of_ne same]
      simp only [mem_cons, same, false_or]

theorem mem_cfsToCopy (cf : ColumnFamily) : cf ∈ cfsToCopy := by
  cases cf <;> decide

theorem copyBranchIndexes_apply (tenantId repoId sourceBranch targetBranch : String)
    (maxRevision : HLC) (db : Database) (cf : ColumnFamily) :
    copyBranchIndexes tenantId repoId sourceBranch targetBranch maxRevision db cf =
      copyCfEntries tenantId repoId sourceBranch targetBranch maxRevision cf (db cf) := by
  have nodup : cfsToCopy.Nodup := by decide
  rw [copyBranchIndexes, foldl_update _ nodup, if_pos (mem_cfsToCopy cf)]

/-! ## Revisions that the copy misreads -/

/-- How many trailing names the copy skips where it then does not find the revision: relations of
a workspace named like the tag of the global ones, and the cached last label. -/
def BranchKey.misplaced : BranchKey → Option Nat
  | .relationForward workspace .. | .relationReverse workspace .. =>
      if workspace = "rel_global" then some 4 else none
  | .lastChildMetadata .. => some 1
  | _ => none

section Located

variable {tenantId repoId branch : String} (tenant : NulFree tenantId) (repo : NulFree repoId)
  (hbranch : NulFree branch) (value : List UInt8)

/-- The revision the copy reads. -/
def located (tenantId repoId branch : String) (key : BranchKey) (value : List UInt8) : Option HLC :=
  locateRevision (copyPlan key.columnFamily).revision (key.bytes tenantId repoId branch) value
    ((key.bytes tenantId repoId branch).splitOn sep)

include tenant repo hbranch

theorem located_relation {key : BranchKey} (wellFormed : key.WellFormed)
    (family : key.columnFamily = .relationIndex) {first : String} {second : List UInt8}
    {others : List (List UInt8)} (lead : .text first ∈ key.layout.lead)
    (parts : key.layout.parts = utf8Bytes first :: second :: others) :
    located tenantId repoId branch key value =
      revisionBeforeTrailingSegments (key.bytes tenantId repoId branch)
        (if first = "rel_global" then 4 else 1) := by
  have same : some (utf8Bytes first) = some (utf8Bytes "rel_global") ↔ first = "rel_global" :=
    ⟨fun equal => utf8Bytes_injective (Option.some.inj equal), fun equal => by rw [equal]⟩
  rw [located, family]
  change revisionBeforeTrailingSegments _ (if _ then 4 else 1) = _
  rw [wellFormed.fourth tenant repo hbranch lead parts]
  exact congrArg _ (if_congr same rfl rfl)

/-- A definition or a version lookup. -/
theorem located_schema {key : BranchKey} (wellFormed : key.WellFormed)
    (plan : (copyPlan key.columnFamily).revision = .schemaOrVersionValue) {tag : String}
    {second : List UInt8} {others : List (List UInt8)} (lead : .text tag ∈ key.layout.lead)
    (parts : key.layout.parts = utf8Bytes tag :: second :: others) :
    located tenantId repoId branch key value =
      if utf8Bytes tag ∈ schemaTags.map fun tags => utf8Bytes tags.1 then
        extractRevisionFromKey (key.bytes tenantId repoId branch)
      else if utf8Bytes tag ∈ schemaTags.map fun tags => utf8Bytes tags.2 then
        decodeDescending value
      else none := by
  rw [located, plan]
  change schemaRevision _ _ _ = _
  rw [schemaRevision, wellFormed.fourth tenant repo hbranch lead parts]

theorem located_eq {key : BranchKey} (wellFormed : key.WellFormed) :
    located tenantId repoId branch key value =
      match key.misplaced with
      | some count => revisionBeforeTrailingSegments (key.bytes tenantId repoId branch) count
      | none => key.trueRevision value := by
  cases key with
  | node | nodeAdjacency | pathIndex | nodePath | referenceForward | referenceReverse
  | translation | translationMeta | blockTranslation | uniqueIndex | embeddingV2
  | embeddingLegacy | localizedNameForward | localizedNameReverse | nodeDelete | secret =>
    exact wellFormed.tail rfl rfl tenantId repoId branch
  | propertyIndex | orderedChild | compoundIndex =>
    exact wellFormed.trailing rfl tenantId repoId branch
  | lastChildMetadata => rfl
  | spatialIndex => exact wellFormed.spatial tenant repo hbranch
  | relationGlobal =>
    rw [located_relation tenant repo hbranch value wellFormed rfl mem_cons_self rfl]
    exact wellFormed.trailing rfl tenantId repoId branch
  | relationForward workspace | relationReverse workspace =>
    rw [located_relation tenant repo hbranch value wellFormed rfl mem_cons_self rfl]
    by_cases tagged : workspace = "rel_global"
    · simp only [BranchKey.misplaced, if_pos tagged]
    · simp only [BranchKey.misplaced, if_neg tagged]
      exact wellFormed.trailing rfl tenantId repoId branch
  | nodetype | archetype | elementType =>
    rw [located_schema tenant repo hbranch value wellFormed rfl mem_cons_self rfl,
      if_pos (by decide)]
    exact wellFormed.tail rfl rfl tenantId repoId branch
  | nodetypeVersionIndex | archetypeVersionIndex | elementTypeVersionIndex =>
    rw [located_schema tenant repo hbranch value wellFormed rfl mem_cons_self rfl,
      if_neg (by decide), if_pos (by decide)]
    rfl

end Located

/-! ## Forks -/

abbrev Entry := BranchKey × List UInt8

/-- What a branch holds: the rows under it are those of the entries, each row once. -/
structure Holds (db : Database) (tenantId repoId branch : String) (content : List Entry) :
    Prop where
  wellFormed : ∀ entry ∈ content, entry.1.WellFormed
  stored : ∀ entry ∈ content,
    (entry.1.bytes tenantId repoId branch, entry.2) ∈ (db entry.1.columnFamily).rows
  rows : ∀ cf, ∀ row ∈ (db cf).rows, branchPrefix tenantId repoId branch <+: row.1 →
    ∃ entry ∈ content, entry.1.columnFamily = cf ∧
      row = (entry.1.bytes tenantId repoId branch, entry.2)
  once : ∀ first ∈ content, ∀ second ∈ content,
    first.1.columnFamily = second.1.columnFamily → first.1.rest = second.1.rest → first = second

/-- The newest version of a series of keys that is not beyond a revision. -/
def Reads (db : Database) (tenantId repoId branch : String) (series : HLC → BranchKey)
    (maxRevision : HLC) (value : List UInt8) : Prop :=
  ∃ revision ≤ maxRevision, Fits revision ∧
    ((series revision).bytes tenantId repoId branch, value) ∈
      (db (series revision).columnFamily).rows ∧
    ∀ newer ≤ maxRevision, Fits newer → revision < newer → ∀ other,
      ((series newer).bytes tenantId repoId branch, other) ∉ (db (series newer).columnFamily).rows

/-- A series has a key for each revision, and what the branch holds under such a key is an
entry of the series. -/
structure IsSeries (content : List Entry) (series : HLC → BranchKey) : Prop where
  revision : ∀ revision, (series revision).layout.revision = some revision
  own : ∀ revision, Fits revision → ∀ entry ∈ content,
    entry.1.columnFamily = (series revision).columnFamily →
      entry.1.rest = (series revision).rest → entry.1 = series revision

/-- The target has the entries within the bound and no others, reads within the bound agree, and
another copy changes nothing. -/
structure ExactCopy (tenantId repoId sourceBranch targetBranch : String) (maxRevision : HLC)
    (content : List Entry) (before after : Database) : Prop where
  rows : ∀ cf row, row ∈ (after cf).rows ↔ row ∈ (before cf).rows ∨
    ∃ entry ∈ content, entry.1.columnFamily = cf ∧
      admits maxRevision cf (entry.1.trueRevision entry.2) ∧
        row = (entry.1.bytes tenantId repoId targetBranch, entry.2)
  reads : ∀ series, IsSeries content series → ∀ revision ≤ maxRevision, ∀ value,
    Reads after tenantId repoId targetBranch series revision value ↔
      Reads before tenantId repoId sourceBranch series revision value
  again : copyBranchIndexes tenantId repoId sourceBranch targetBranch maxRevision after = after

/-- What the copy reads in place of a misplaced revision is on the same side of the bound as the
revision of the entry. -/
def Legible (tenantId repoId sourceBranch : String) (maxRevision : HLC) (entry : Entry) : Prop :=
  ∀ count ∈ entry.1.misplaced,
    admits maxRevision entry.1.columnFamily (revisionBeforeTrailingSegments
        (entry.1.bytes tenantId repoId sourceBranch) count) =
      admits maxRevision entry.1.columnFamily (entry.1.trueRevision entry.2)

theorem trueRevision_of_versioned {key : BranchKey} {revision : HLC}
    (versioned : key.layout.revision = some revision) (value : List UInt8) :
    key.trueRevision value = some revision := by
  cases key with
  | nodetypeVersionIndex | archetypeVersionIndex | elementTypeVersionIndex => cases versioned
  | _ => exact versioned

theorem admits_of_le {maxRevision revision : HLC} (within : revision ≤ maxRevision)
    (cf : ColumnFamily) : admits maxRevision cf (some revision) = true := by
  simp [admits, within]

/-! ## Writing entries -/

/-- Write an entry under the branch. -/
def storeEntry (tenantId repoId branch : String) (db : Database) (entry : Entry) : Database :=
  Function.update db entry.1.columnFamily
    ((db entry.1.columnFamily).put (entry.1.bytes tenantId repoId branch) entry.2)

theorem mem_storeEntry {tenantId repoId branch : String} {db : Database} {entry : Entry}
    {cf : ColumnFamily} {row : Row} :
    row ∈ (storeEntry tenantId repoId branch db entry cf).rows ↔
      (entry.1.columnFamily = cf ∧ row = (entry.1.bytes tenantId repoId branch, entry.2)) ∨
        (row ∈ (db cf).rows ∧
          ¬ (entry.1.columnFamily = cf ∧ row.1 = entry.1.bytes tenantId repoId branch)) := by
  rw [storeEntry]
  by_cases same : cf = entry.1.columnFamily
  · subst same
    simp only [Function.update_self, OrderedStore.mem_rows_put, true_and]
  · simp only [Function.update_of_ne same, Ne.symm same, false_and, false_or, not_false_eq_true,
      and_true]

/-- Entries of different keys are what the branch then holds. -/
theorem holds_storeEntry {tenantId repoId branch : String} {db : Database} {content : List Entry}
    (holds : Holds db tenantId repoId branch content) (entry : Entry)
    (wellFormed : entry.1.WellFormed)
    (fresh : ∀ other ∈ content, other.1.columnFamily = entry.1.columnFamily →
      other.1.rest ≠ entry.1.rest) :
    Holds (storeEntry tenantId repoId branch db entry) tenantId repoId branch
      (entry :: content) := by
  refine ⟨forall_mem_cons.mpr ⟨wellFormed, holds.wellFormed⟩, ?_, ?_, ?_⟩
  · intro other hother
    rw [mem_storeEntry]
    rcases mem_cons.mp hother with rfl | old
    · exact Or.inl ⟨rfl, rfl⟩
    · refine Or.inr ⟨holds.stored other old, fun ⟨family, key⟩ => ?_⟩
      rw [BranchKey.bytes_eq, BranchKey.bytes_eq, append_cancel_left_eq] at key
      exact fresh other old family.symm key
  · intro cf row hrow inside
    rcases mem_storeEntry.mp hrow with ⟨family, rfl⟩ | ⟨old, _⟩
    · exact ⟨entry, mem_cons_self, family, rfl⟩
    · obtain ⟨other, hother, family, same⟩ := holds.rows cf row old inside
      exact ⟨other, mem_cons_of_mem _ hother, family, same⟩
  · intro first hfirst second hsecond family rest
    rcases mem_cons.mp hfirst with rfl | oldFirst
    · rcases mem_cons.mp hsecond with rfl | oldSecond
      · rfl
      · exact absurd rest.symm (fresh second oldSecond family.symm)
    · rcases mem_cons.mp hsecond with rfl | oldSecond
      · exact absurd rest (fresh first oldFirst family)
      · exact holds.once first oldFirst second oldSecond family rest

theorem vacant_storeEntry {tenantId repoId branch other : String} {db : Database}
    (vacant : ∀ cf, Vacant tenantId repoId other (db cf)) (hbranch : NulFree branch)
    (hother : NulFree other) (different : branch ≠ other) (entry : Entry) :
    ∀ cf, Vacant tenantId repoId other (storeEntry tenantId repoId branch db entry cf) := by
  intro cf row hrow inside
  rcases mem_storeEntry.mp hrow with ⟨_, rfl⟩ | ⟨old, _⟩
  · obtain ⟨rest, key⟩ := inside
    rw [BranchKey.bytes_eq] at key
    exact different (branch_of_branchPrefix hother hbranch key).1.symm
  · exact vacant cf row old inside

def noRows : Database := fun _ => OrderedStore.empty

theorem holds_noRows (tenantId repoId branch : String) :
    Holds noRows tenantId repoId branch [] :=
  ⟨forall_mem_nil _, forall_mem_nil _, fun _ row hrow => absurd hrow (OrderedStore.mem_rows_empty row),
    forall_mem_nil _⟩

theorem vacant_noRows (tenantId repoId branch : String) (cf : ColumnFamily) :
    Vacant tenantId repoId branch (noRows cf) :=
  fun row hrow => absurd hrow (OrderedStore.mem_rows_empty row)

/-! ## The fork -/

section Fork

variable {tenantId repoId sourceBranch targetBranch : String} {db : Database}
  {content : List Entry}

/-- The rows of the source are those of its entries. -/
theorem Holds.mem_sourceRows (holds : Holds db tenantId repoId sourceBranch content)
    (cf : ColumnFamily) {row : Row} :
    row ∈ sourceRows tenantId repoId sourceBranch (db cf) ↔
      ∃ entry ∈ content, entry.1.columnFamily = cf ∧
        row = (entry.1.bytes tenantId repoId sourceBranch, entry.2) := by
  rw [Branches.mem_sourceRows]
  constructor
  · rintro ⟨hrow, inside⟩
    exact holds.rows cf row hrow inside
  · rintro ⟨entry, hentry, rfl, rfl⟩
    refine ⟨holds.stored entry hentry, entry.1.rest, ?_⟩
    exact (BranchKey.bytes_eq tenantId repoId sourceBranch entry.1).symm

variable (tenant : NulFree tenantId) (repo : NulFree repoId) (source : NulFree sourceBranch)
  (target : NulFree targetBranch) (maxRevision : HLC)
  (vacant : ∀ cf, Vacant tenantId repoId targetBranch (db cf))

include tenant repo source target vacant in
theorem copyBranchIndexes_twice :
    copyBranchIndexes tenantId repoId sourceBranch targetBranch maxRevision
        (copyBranchIndexes tenantId repoId sourceBranch targetBranch maxRevision db) =
      copyBranchIndexes tenantId repoId sourceBranch targetBranch maxRevision db := by
  funext cf
  rw [copyBranchIndexes_apply, copyBranchIndexes_apply]
  exact copyCfEntries_twice tenant repo source target (vacant cf)

variable (holds : Holds db tenantId repoId sourceBranch content)

include tenant repo source holds vacant in
theorem mem_copyBranchIndexes (cf : ColumnFamily) (row : Row) :
    row ∈ (copyBranchIndexes tenantId repoId sourceBranch targetBranch maxRevision db cf).rows ↔
      row ∈ (db cf).rows ∨ ∃ entry ∈ content, entry.1.columnFamily = cf ∧
        admits maxRevision cf (located tenantId repoId sourceBranch entry.1 entry.2) ∧
          row = (entry.1.bytes tenantId repoId targetBranch, entry.2) := by
  have under (entry : Entry) : moved targetBranch
      (entry.1.bytes tenantId repoId sourceBranch, entry.2) =
        (entry.1.bytes tenantId repoId targetBranch, entry.2) := by
    refine Prod.ext ?_ rfl
    rw [moved_key tenant repo source (BranchKey.bytes_eq tenantId repoId sourceBranch entry.1)]
    exact (BranchKey.bytes_eq tenantId repoId targetBranch entry.1).symm
  rw [copyBranchIndexes_apply, mem_copyCfEntries tenant repo source (vacant cf)]
  refine or_congr_right ⟨?_, ?_⟩
  · rintro ⟨old, hold, within, rfl⟩
    obtain ⟨entry, hentry, rfl, rfl⟩ := (holds.mem_sourceRows cf).mp hold
    exact ⟨entry, hentry, rfl, within, under entry⟩
  · rintro ⟨entry, hentry, rfl, within, rfl⟩
    exact ⟨_, (holds.mem_sourceRows _).mpr ⟨entry, hentry, rfl, rfl⟩, within, (under entry).symm⟩

include target vacant in
/-- A row under the target is one that the copy wrote, for one entry. -/
theorem entry_of_target_row
    {present : Entry → Prop} {key : BranchKey} {value : List UInt8} {cf : ColumnFamily}
    (hrow : (key.bytes tenantId repoId targetBranch, value) ∈ (db cf).rows ∨
      ∃ entry ∈ content, entry.1.columnFamily = cf ∧ present entry ∧
        (key.bytes tenantId repoId targetBranch, value) =
          (entry.1.bytes tenantId repoId targetBranch, entry.2)) :
    ∃ entry ∈ content, entry.1.columnFamily = cf ∧ present entry ∧
      entry.1.rest = key.rest ∧ entry.2 = value := by
  rcases hrow with old | ⟨entry, hentry, family, chosen, same⟩
  · refine absurd ⟨key.rest, ?_⟩ (vacant cf _ old)
    exact (BranchKey.bytes_eq tenantId repoId targetBranch key).symm
  · obtain ⟨keys, values⟩ := Prod.mk.inj same
    rw [BranchKey.bytes_eq, BranchKey.bytes_eq] at keys
    exact ⟨entry, hentry, family, chosen, (branch_of_branchPrefix target target keys).2.symm,
      values.symm⟩

include target vacant in
/-- Within the bound, a version is in the target if and only if it is in the source. -/
theorem version_copied_iff (holds : Holds db tenantId repoId sourceBranch content)
    {after : Database}
    (rows : ∀ cf row, row ∈ (after cf).rows ↔ row ∈ (db cf).rows ∨
      ∃ entry ∈ content, entry.1.columnFamily = cf ∧
        admits maxRevision cf (entry.1.trueRevision entry.2) ∧
          row = (entry.1.bytes tenantId repoId targetBranch, entry.2))
    {series : HLC → BranchKey} (isSeries : IsSeries content series) {revision : HLC}
    (fits : Fits revision) (within : revision ≤ maxRevision) (value : List UInt8) :
    ((series revision).bytes tenantId repoId targetBranch, value) ∈
        (after (series revision).columnFamily).rows ↔
      ((series revision).bytes tenantId repoId sourceBranch, value) ∈
        (db (series revision).columnFamily).rows := by
  rw [rows]
  constructor
  · intro hrow
    obtain ⟨entry, hentry, family, _, rest, rfl⟩ :=
      entry_of_target_row target vacant hrow
    rw [← isSeries.own revision fits entry hentry family rest]
    exact holds.stored entry hentry
  · intro hrow
    obtain ⟨entry, hentry, family, same⟩ := holds.rows _ _ hrow
      ⟨_, (BranchKey.bytes_eq tenantId repoId sourceBranch (series revision)).symm⟩
    obtain ⟨keys, rfl⟩ := Prod.mk.inj same
    rw [BranchKey.bytes_eq, BranchKey.bytes_eq, append_cancel_left_eq] at keys
    have own := isSeries.own revision fits entry hentry family keys.symm
    refine Or.inr ⟨entry, hentry, family, ?_, by rw [own]⟩
    rw [own, trueRevision_of_versioned (isSeries.revision revision)]
    exact admits_of_le within _

include tenant repo source target vacant in
/-- A fork is an exact copy if and only if the misplaced revisions happen to be on the right side
of the bound. -/
theorem fork_exact_iff (holds : Holds db tenantId repoId sourceBranch content) :
    ExactCopy tenantId repoId sourceBranch targetBranch maxRevision content db
        (copyBranchIndexes tenantId repoId sourceBranch targetBranch maxRevision db) ↔
      ∀ entry ∈ content, Legible tenantId repoId sourceBranch maxRevision entry := by
  have copied := mem_copyBranchIndexes tenant repo source maxRevision vacant holds
  constructor
  · intro exact' entry hentry count misplaced
    have found : located tenantId repoId sourceBranch entry.1 entry.2 =
        revisionBeforeTrailingSegments (entry.1.bytes tenantId repoId sourceBranch) count := by
      rw [located_eq tenant repo source entry.2 (holds.wellFormed entry hentry),
        Option.mem_def.mp misplaced]
    rw [← found, Bool.eq_iff_iff]
    -- both sides say that the copy wrote the row of the entry
    have target_iff {present : Entry → Prop}
        (rows : ∀ row, row ∈ (copyBranchIndexes tenantId repoId sourceBranch targetBranch
            maxRevision db entry.1.columnFamily).rows ↔
          row ∈ (db entry.1.columnFamily).rows ∨ ∃ other ∈ content,
            other.1.columnFamily = entry.1.columnFamily ∧ present other ∧
              row = (other.1.bytes tenantId repoId targetBranch, other.2)) :
        (entry.1.bytes tenantId repoId targetBranch, entry.2) ∈ (copyBranchIndexes tenantId repoId
          sourceBranch targetBranch maxRevision db entry.1.columnFamily).rows ↔ present entry := by
      rw [rows]
      constructor
      · intro hrow
        obtain ⟨other, hother, family, chosen, rest, _⟩ := entry_of_target_row target vacant hrow
        rwa [holds.once other hother entry hentry family rest] at chosen
      · exact fun chosen => Or.inr ⟨entry, hentry, rfl, chosen, rfl⟩
    rw [← target_iff (copied entry.1.columnFamily), target_iff (exact'.rows entry.1.columnFamily)]
  · intro legible
    have agrees : ∀ entry ∈ content,
        admits maxRevision entry.1.columnFamily
            (located tenantId repoId sourceBranch entry.1 entry.2) =
          admits maxRevision entry.1.columnFamily (entry.1.trueRevision entry.2) := by
      intro entry hentry
      rw [located_eq tenant repo source entry.2 (holds.wellFormed entry hentry)]
      cases misplaced : entry.1.misplaced with
      | none => rfl
      | some count => exact legible entry hentry count misplaced
    have rows : ∀ cf row, row ∈ (copyBranchIndexes tenantId repoId sourceBranch targetBranch
          maxRevision db cf).rows ↔ row ∈ (db cf).rows ∨
        ∃ entry ∈ content, entry.1.columnFamily = cf ∧
          admits maxRevision cf (entry.1.trueRevision entry.2) ∧
            row = (entry.1.bytes tenantId repoId targetBranch, entry.2) := by
      intro cf row
      rw [copied]
      refine or_congr_right (exists_congr fun entry => and_congr_right fun hentry =>
        and_congr_right fun family => ?_)
      rw [← family, agrees entry hentry]
    refine ⟨rows, fun series isSeries revision bound value => ?_,
      copyBranchIndexes_twice tenant repo source target maxRevision vacant⟩
    have version {newer : HLC} (fits : Fits newer) (within : newer ≤ revision) :=
      version_copied_iff target maxRevision vacant holds rows isSeries fits (within.trans bound)
    refine exists_congr fun found => and_congr_right fun within => and_congr_right fun fits =>
      and_congr (version fits within value) ?_
    refine forall_congr' fun newer => forall_congr' fun within => forall_congr' fun fits =>
      forall_congr' fun _ => forall_congr' fun other => not_congr (version fits within other)

end Fork

/-- A page whose revision has separators among its bytes, and a secret that is newer than the
bound. -/
def pageAndSecret : List Entry :=
  [(.secret "token" ⟨1900000000000, 0⟩, [2]),
    (.node "content" "page" ⟨1700000000255, 2 ^ 64 - 1⟩, [1])]

theorem page_and_secret_fork_exactly :
    let db := pageAndSecret.foldr
      (fun entry db => storeEntry "acme" "site" "main" db entry) noRows
    ExactCopy "acme" "site" "main" "draft" ⟨1800000000000, 0⟩ pageAndSecret db
      (copyBranchIndexes "acme" "site" "main" "draft" ⟨1800000000000, 0⟩ db) := by
  have main : NulFree "main" := by decide
  have draft : NulFree "draft" := by decide
  have page := holds_storeEntry (holds_noRows "acme" "site" "main")
    (.node "content" "page" ⟨1700000000255, 2 ^ 64 - 1⟩, [1]) (by decide) (forall_mem_nil _)
  have both := holds_storeEntry page (.secret "token" ⟨1900000000000, 0⟩, [2]) (by decide)
    (fun other hother family => absurd family (by rw [mem_singleton.mp hother]; decide))
  have vacant := vacant_storeEntry (vacant_storeEntry (vacant_noRows "acme" "site" "draft") main
    draft (by decide) (.node "content" "page" ⟨1700000000255, 2 ^ 64 - 1⟩, [1])) main draft
    (by decide) (.secret "token" ⟨1900000000000, 0⟩, [2])
  refine (fork_exact_iff (by decide) (by decide) main draft _ vacant both).mpr ?_
  intro entry hentry count misplaced
  rcases mem_cons.mp hentry with rfl | hpage
  · cases misplaced
  · rw [mem_singleton.mp hpage] at misplaced
    cases misplaced

/-- A relation in a workspace that is named like the tag of the global relations. -/
def taggedRelation : Entry :=
  (.relationForward "rel_global" "page" "links" ⟨1700000000000, 0⟩ "image", [1])

/-- The fork at a later revision loses the relation. -/
theorem tagged_relation_is_lost :
    Holds (storeEntry "acme" "site" "main" noRows taggedRelation) "acme" "site" "main"
        [taggedRelation] ∧
      (∀ cf, Vacant "acme" "site" "draft"
        (storeEntry "acme" "site" "main" noRows taggedRelation cf)) ∧
      ¬ ExactCopy "acme" "site" "main" "draft" ⟨1800000000000, 0⟩ [taggedRelation]
        (storeEntry "acme" "site" "main" noRows taggedRelation)
        (copyBranchIndexes "acme" "site" "main" "draft" ⟨1800000000000, 0⟩
          (storeEntry "acme" "site" "main" noRows taggedRelation)) := by
  have main : NulFree "main" := by decide
  have holds := holds_storeEntry (holds_noRows "acme" "site" "main") taggedRelation (by decide)
    (forall_mem_nil _)
  have vacant := vacant_storeEntry (vacant_noRows "acme" "site" "draft") main (by decide)
    (by decide) taggedRelation
  refine ⟨holds, vacant, fun exact' => ?_⟩
  have copied : (taggedRelation.1.bytes "acme" "site" "draft", taggedRelation.2) ∈
      (copyBranchIndexes "acme" "site" "main" "draft" ⟨1800000000000, 0⟩
        (storeEntry "acme" "site" "main" noRows taggedRelation) .relationIndex).rows :=
    (exact'.rows _ _).mpr (Or.inr ⟨taggedRelation, mem_cons_self, rfl, by decide, rfl⟩)
  rw [mem_copyBranchIndexes (by decide) (by decide) main _ vacant holds] at copied
  rcases copied with old | ⟨entry, hentry, _, within, _⟩
  · refine vacant _ _ old ⟨taggedRelation.1.rest, ?_⟩
    exact (BranchKey.bytes_eq _ _ _ _).symm
  · -- the sixteen bytes before the fourth separator from the end decode to a far later revision
    obtain rfl := mem_singleton.mp hentry
    exact absurd within (by decide +kernel)

end RaisinDB.Branches
