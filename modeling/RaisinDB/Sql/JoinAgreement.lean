import RaisinDB.Sql.JoinExecution

/-!
# The hash join against the nested loop

The two joins put out the same rows exactly if, on every pair of rows, the condition on the merged
row is true when the keys meet in the hash table and no other time.
-/

namespace RaisinDB.Sql

open List RaisinDB.Foundation

variable {engine : Engine} {format : DebugFormat}

/-! ## Keys of a row -/

/-- The value of a key that is a column. -/
def keyValue (engine : Engine) (row : Row) (key : TypedExpr) : Literal :=
  match evalExpr engine row key with
  | .ok value => value
  | .error _ => .null

theorem evalExpr_column {key : TypedExpr} (column : key.column?.isSome) (row : Row) :
    evalExpr engine row key = .ok (keyValue engine row key) := by
  obtain ⟨⟨table, name⟩, named⟩ := Option.isSome_iff_exists.mp column
  obtain ⟨type, rfl⟩ := TypedExpr.column?_eq_some.mp named
  simp only [keyValue, evalExpr]

theorem extractKeyValues_columns {keys : List TypedExpr}
    (columns : ∀ key ∈ keys, key.column?.isSome) (row : Row) :
    extractKeyValues engine row keys = .ok (keys.map (keyValue engine row)) := by
  induction keys with
  | nil => rfl
  | cons key rest ih =>
    rw [extractKeyValues, evalExpr_column (columns key mem_cons_self),
      ih fun other mem => columns other (mem_cons_of_mem _ mem)]
    rfl

theorem hashRows_columns {keys : List TypedExpr} (columns : ∀ key ∈ keys, key.column?.isSome)
    (orders : MapOrders) (place : Nat) (rows : List Row) :
    hashRows engine format orders keys place rows =
      .ok ((rows.zipIdx place).map fun row =>
        (row.1, hashKey engine format orders row.2 (keys.map (keyValue engine row.1)))) := by
  induction rows generalizing place with
  | nil => rfl
  | cons row rest ih =>
    rw [hashRows, extractKeyValues_columns columns, ih]
    rfl

/-! ## Equality of keys -/

theorem hashKey_eq_iff {orders orders' : MapOrders} {place place' : Nat} {xs ys : List Literal}
    (lengths : xs.length = ys.length) :
    hashKey engine format orders place xs = hashKey engine format orders' place' ys ↔
      ∀ k : Nat, ∀ x y, xs[k]? = some x → ys[k]? = some y →
        literalToPropertyValue engine format orders [k, place] x =
          literalToPropertyValue engine format orders' [k, place'] y := by
  have hashed : ∀ (orders : MapOrders) (place : Nat) (values : List Literal) (k : Nat),
      (values.zipIdx.map fun value =>
        literalToPropertyValue engine format orders [value.2, place] value.1)[k]? =
          values[k]?.map fun value =>
            literalToPropertyValue engine format orders [k, place] value := by
    intro orders place values k
    rw [getElem?_map, getElem?_zipIdx, Option.map_map, zero_add]
    rfl
  unfold hashKey
  constructor
  · intro same k x y first second
    have lists := valuesToHashKey_injective (by simpa using lengths) same
    have entry := congrArg (fun values => values[k]?) lists
    rw [hashed, hashed, first, second] at entry
    exact Option.some.inj entry
  · intro agree
    refine congrArg _ (ext_getElem? fun k => ?_)
    rw [hashed, hashed]
    cases first : xs[k]? with
    | none =>
      rw [getElem?_eq_none (lengths ▸ getElem?_eq_none_iff.mp first)]
      rfl
    | some x =>
      obtain ⟨inside, _⟩ := List.getElem?_eq_some_iff.mp first
      have inside' : k < ys.length := lengths ▸ inside
      have second : ys[k]? = some ys[k] := getElem?_eq_getElem inside'
      rw [second, Option.map_some, Option.map_some, agree k x _ first second]

/-- The key values of two rows, side by side. -/
def keyPairs (engine : Engine) (extraction : JoinKeyExtraction) (left right : Row) :
    List (Literal × Literal) :=
  (extraction.leftKeys.map (keyValue engine left)).zip
    (extraction.rightKeys.map (keyValue engine right))

theorem mem_keyPairs {extraction : JoinKeyExtraction} {left right : Row} {pair : Literal × Literal} :
    pair ∈ keyPairs engine extraction left right ↔ ∃ k : Nat,
      (extraction.leftKeys.map (keyValue engine left))[k]? = some pair.1 ∧
        (extraction.rightKeys.map (keyValue engine right))[k]? = some pair.2 := by
  rw [keyPairs, mem_iff_getElem?]
  exact exists_congr fun k => getElem?_zip_eq_some

/-! ## Rows of columns -/

/-- The JSON objects of a row are maps. -/
def JsonMaps (row : Row) : Prop :=
  ∀ column ∈ row.columns, distinctLiteral (fromPropertyValue column.2)

theorem mem_of_find {name : String} {value : PropertyValue}
    {columns : List (String × PropertyValue)} (found : Row.find name columns = some value) :
    (name, value) ∈ columns := by
  induction columns with
  | nil => cases found
  | cons column rest ih =>
    rw [Row.find] at found
    split at found
    · next same =>
      cases found
      rw [← same]
      exact mem_cons_self
    · exact mem_cons_of_mem _ (ih found)

theorem mem_of_columnValue {table name : String} {row : Row} {value : PropertyValue}
    (found : Row.columnValue table name row = some value) :
    ∃ column ∈ row.columns, column.2 = value := by
  have plain : ∀ value, row.getByUnqualified name = some value →
      ∃ column ∈ row.columns, column.2 = value := by
    intro value found
    unfold Row.getByUnqualified at found
    split at found
    · next direct =>
      cases found
      exact ⟨_, mem_of_find direct, rfl⟩
    · obtain ⟨column, there, rfl⟩ := Option.map_eq_some_iff.mp found
      exact ⟨column, mem_of_find?_eq_some there, rfl⟩
  unfold Row.columnValue at found
  split at found
  · next direct =>
    cases found
    split at direct
    · cases direct
    · exact ⟨_, mem_of_find direct, rfl⟩
  · exact plain value found

theorem distinct_keyValue {row : Row} (maps : JsonMaps row) {key : TypedExpr}
    (column : key.column?.isSome) : distinctLiteral (keyValue engine row key) := by
  obtain ⟨⟨table, name⟩, named⟩ := Option.isSome_iff_exists.mp column
  obtain ⟨type, rfl⟩ := TypedExpr.column?_eq_some.mp named
  have read : keyValue engine row (.column table name type) = columnLiteral table name row := by
    simp only [keyValue, evalExpr]
  rw [read, columnLiteral]
  split
  · next value found =>
    obtain ⟨column, mem, rfl⟩ := mem_of_columnValue found
    exact maps column mem
  · rfl

/-! ## Filtered inputs -/

/-- The filter does not fail on the row. -/
def FiltersCleanly (engine : Engine) (predicates : List TypedExpr) (row : Row) : Prop :=
  ∃ keep, matchesAll engine row predicates = .ok keep

def passes (engine : Engine) (predicates : List TypedExpr) (row : Row) : Bool :=
  match matchesAll engine row predicates with
  | .ok keep => keep
  | .error _ => false

theorem executeFilter_eq_ok {predicates : List TypedExpr} {rows kept : List Row} :
    executeFilter engine predicates rows = .ok kept ↔
      (∀ row ∈ rows, FiltersCleanly engine predicates row) ∧
        kept = rows.filter (passes engine predicates) := by
  induction rows generalizing kept with
  | nil => simp [executeFilter, eq_comm]
  | cons row rest ih =>
    rw [executeFilter]
    cases filtered : matchesAll engine row predicates with
    | error refused =>
      constructor
      · intro failed
        cases failed
      · intro clean
        obtain ⟨keep, kept⟩ := clean.1 row mem_cons_self
        rw [filtered] at kept
        cases kept
    | ok keep =>
      have passed : passes engine predicates row = keep := by rw [passes, filtered]
      rw [filter_cons, passed]
      cases later : executeFilter engine predicates rest with
      | error refused =>
        have absurd_later : ∀ kept, ¬ executeFilter engine predicates rest = .ok kept := by
          intro kept same
          rw [later] at same
          cases same
        constructor
        · intro failed
          cases failed
        · intro clean
          exact absurd (ih.mpr ⟨fun other mem => clean.1 other (mem_cons_of_mem _ mem), rfl⟩)
            (absurd_later _)
      | ok others =>
        obtain ⟨clean, rfl⟩ := ih.mp later
        constructor
        · intro same
          refine ⟨?_, (Except.ok.inj same).symm⟩
          intro other mem
          rcases mem_cons.mp mem with rfl | among
          · exact ⟨keep, filtered⟩
          · exact clean other among
        · rintro ⟨_, rfl⟩
          rfl

/-! ## The agreement -/

/-- The comparison of two values is true: neither is NULL and they are equal. -/
def SqlEqual (engine : Engine) (left right : Literal) : Prop :=
  left.isNull = false ∧ right.isNull = false ∧
    literalsEqual engine.parseTimestamp left right = .ok true

/-- Every equality of the condition holds of the columns as they are read in the merged row. -/
def EqualitiesHold (engine : Engine) (merged : Row) : TypedExpr → Prop
  | .binaryOp left .and right _ =>
      EqualitiesHold engine merged left ∧ EqualitiesHold engine merged right
  | .binaryOp left .eq right _ =>
      SqlEqual engine (keyValue engine merged left) (keyValue engine merged right)
  | _ => False

/-- Either the equalities hold on the merged row, both rows pass their filters and all keys surely
meet; or some equality does not hold, and a filter drops a row or some pair of keys never meets. -/
def RowsAgree (engine : Engine) (format : DebugFormat) (condition : TypedExpr)
    (extraction : JoinKeyExtraction) (left right : Row) : Prop :=
  (EqualitiesHold engine (left.merge right) condition ∧
      passes engine extraction.leftResiduals left = true ∧
      passes engine extraction.rightResiduals right = true ∧
      ∀ pair ∈ keyPairs engine extraction left right, SurelyAlike engine format pair.1 pair.2) ∨
    (¬ EqualitiesHold engine (left.merge right) condition ∧
      (passes engine extraction.leftResiduals left = false ∨
        passes engine extraction.rightResiduals right = false ∨
          ∃ pair ∈ keyPairs engine extraction left right, ¬ Alike engine format pair.1 pair.2))

theorem comparisonOp_eq_true {left right : Literal} :
    comparisonOp engine.parseTimestamp left .eq right = .ok (.boolean true) ↔
      SqlEqual engine left right := by
  unfold comparisonOp SqlEqual
  cases first : left.isNull with
  | true => simp
  | false =>
    cases second : right.isNull with
    | true => simp
    | false =>
      simp only [Bool.or_self, Bool.false_eq_true, if_false, true_and]
      cases literalsEqual engine.parseTimestamp left right with
      | error refused => simp [bind, Except.bind]
      | ok same => cases same <;> simp [bind, Except.bind, pure, Except.pure]

theorem evalExpr_equalities {condition : TypedExpr} (equalities : ColumnEqualities condition)
    (merged : Row) :
    evalExpr engine merged condition = .ok (.boolean true) ↔
      EqualitiesHold engine merged condition := by
  fun_induction ColumnEqualities condition with
  | case1 left right type ihLeft ihRight =>
    rw [EqualitiesHold, ← ihLeft equalities.1, ← ihRight equalities.2]
    simp only [evalExpr, binaryOp]
    cases evalExpr engine merged left with
    | error refused => simp [bind, Except.bind]
    | ok first =>
      cases evalExpr engine merged right with
      | error refused => simp [bind, Except.bind]
      | ok second => simp [bind, Except.bind, logicalAnd_true]
  | case2 left right type =>
    rw [EqualitiesHold, ← comparisonOp_eq_true]
    simp only [evalExpr, evalExpr_column equalities.1, evalExpr_column equalities.2]
    rfl
  | case3 => exact equalities.elim

theorem evaluateJoinCondition_iff {condition : TypedExpr} (equalities : ColumnEqualities condition)
    (left right : Row) :
    evaluateJoinCondition engine (some condition) left right = true ↔
      EqualitiesHold engine (left.merge right) condition := by
  rw [← evalExpr_equalities equalities, evaluateJoinCondition, matchesMerged]
  cases evalExpr engine (left.merge right) condition with
  | error refused => simp
  | ok value => cases value <;> simp

structure InputsAgree (engine : Engine) (format : DebugFormat) (condition : TypedExpr)
    (extraction : JoinKeyExtraction) (left right : List Row) : Prop where
  leftFilter : ∀ row ∈ left, FiltersCleanly engine extraction.leftResiduals row
  rightFilter : ∀ row ∈ right, FiltersCleanly engine extraction.rightResiduals row
  rows : ∀ row ∈ left, ∀ other ∈ right, RowsAgree engine format condition extraction row other

/-- Whatever the join type and the orders of the maps, the planned join puts out what the nested
loop does. -/
def JoinsAlike (engine : Engine) (format : DebugFormat) (leftQualifiers rightQualifiers : List String)
    (condition : TypedExpr) (left right : List Row) : Prop :=
  ∀ (orders : JoinSide → MapOrders) (joinType : JoinType), joinType ≠ .cross →
    ∃ rows, executeJoin engine format orders left right
        (planJoin leftQualifiers rightQualifiers joinType (some condition)) = .ok rows ∧
      rows ~ executeNestedLoopJoin engine joinType (some condition) left right

/-! ## The loops as joins -/

def JoinType.keepsLeft : JoinType → Bool
  | .left | .full => true
  | _ => false

def JoinType.keepsRight : JoinType → Bool
  | .right | .full => true
  | _ => false

theorem executeNestedLoopJoin_eq {joinType : JoinType} (supported : joinType ≠ .cross)
    (condition : Option TypedExpr) (left right : List Row) :
    executeNestedLoopJoin engine joinType condition left right =
      joinBy Row.merge id id joinType.keepsLeft joinType.keepsRight
        (evaluateJoinCondition engine condition) left right := by
  cases joinType with
  | cross => exact absurd rfl supported
  | inner | left | right | full => exact joinLoop_eq fun _ _ => rfl

/-- The rows of one input with their keys. -/
def keyed (engine : Engine) (format : DebugFormat) (orders : MapOrders) (keys : List TypedExpr)
    (rows : List Row) : List (Row × String) :=
  rows.zipIdx.map fun row =>
    (row.1, hashKey engine format orders row.2 (keys.map (keyValue engine row.1)))

def sameKey (row other : Row × String) : Bool := decide (other.2 = row.2)

theorem executeHashJoin_eq {orders : JoinSide → MapOrders} {joinType : JoinType}
    (supported : joinType ≠ .cross) {leftKeys rightKeys : List TypedExpr}
    (leftColumns : ∀ key ∈ leftKeys, key.column?.isSome)
    (rightColumns : ∀ key ∈ rightKeys, key.column?.isSome) (left right : List Row) :
    executeHashJoin engine format orders joinType leftKeys rightKeys left right =
      .ok (joinBy (fun row other => row.1.merge other.1) Prod.fst Prod.fst joinType.keepsLeft
        joinType.keepsRight sameKey (keyed engine format (orders .left) leftKeys left)
        (keyed engine format (orders .right) rightKeys right)) := by
  have loop : ∀ keepLeft keepRight left right, hashLoop keepLeft keepRight left right =
      joinBy (fun row other => row.1.merge other.1) Prod.fst Prod.fst keepLeft keepRight sameKey
        left right := fun _ _ _ right => joinLoop_eq fun row _ => lookUp_buildTable right row.2
  rw [executeHashJoin, hashRows_columns rightColumns, hashRows_columns leftColumns]
  cases joinType with
  | cross => exact absurd rfl supported
  | inner | left | right | full => exact congrArg Except.ok (loop _ _ _ _)

theorem planJoin_eq {leftQualifiers rightQualifiers : List String} {condition : TypedExpr}
    {extraction : JoinKeyExtraction}
    (extracted : extractEqualityJoinKeys leftQualifiers rightQualifiers (some condition) =
      some extraction) (joinType : JoinType) :
    planJoin leftQualifiers rightQualifiers joinType (some condition) =
      if mayPush joinType extraction then .hashJoin joinType extraction
      else .nestedLoopJoin joinType (some condition) := by
  rw [planJoin, extracted, Option.filter_some]
  by_cases push : mayPush joinType extraction
  · rw [if_pos push, if_pos push]
  · rw [if_neg push, if_neg push]

/-- The filters of an input that the join preserves are empty. -/
theorem residuals_of_mayPush {joinType : JoinType} {extraction : JoinKeyExtraction}
    (push : mayPush joinType extraction) :
    (joinType.keepsLeft = false ∨ extraction.leftResiduals = []) ∧
      (joinType.keepsRight = false ∨ extraction.rightResiduals = []) := by
  cases joinType <;> simp_all [mayPush, JoinType.keepsLeft, JoinType.keepsRight]

theorem passes_nil (row : Row) : passes engine [] row = true := rfl

/-! ## Agreement of the rows is enough -/

section Agreement

variable {condition : TypedExpr} {extraction : JoinKeyExtraction} {left right : List Row}

theorem distinct_left (columns : extraction.Columns) {row : Row} (maps : JsonMaps row) {k : Nat}
    {value : Literal}
    (found : (extraction.leftKeys.map (keyValue engine row))[k]? = some value) :
    distinctLiteral value := by
  obtain ⟨key, among, rfl⟩ := mem_map.mp (mem_of_getElem? found)
  exact distinct_keyValue maps (columns.left key among)

theorem distinct_right (columns : extraction.Columns) {row : Row} (maps : JsonMaps row) {k : Nat}
    {value : Literal}
    (found : (extraction.rightKeys.map (keyValue engine row))[k]? = some value) :
    distinctLiteral value := by
  obtain ⟨key, among, rfl⟩ := mem_map.mp (mem_of_getElem? found)
  exact distinct_keyValue maps (columns.right key among)

theorem keys_meet_iff (equalities : ColumnEqualities condition) (columns : extraction.Columns)
    {row other : Row} (maps : JsonMaps other)
    (agree : RowsAgree engine format condition extraction row other)
    (passLeft : passes engine extraction.leftResiduals row = true)
    (passRight : passes engine extraction.rightResiduals other = true)
    (orders orders' : MapOrders) (place place' : Nat) :
    hashKey engine format orders place (extraction.leftKeys.map (keyValue engine row)) =
        hashKey engine format orders' place' (extraction.rightKeys.map (keyValue engine other)) ↔
      evaluateJoinCondition engine (some condition) row other = true := by
  have lengths : (extraction.leftKeys.map (keyValue engine row)).length =
      (extraction.rightKeys.map (keyValue engine other)).length := by
    rw [length_map, length_map, columns.paired]
  rw [hashKey_eq_iff lengths, evaluateJoinCondition_iff equalities]
  rcases agree with ⟨joined, _, _, surely⟩ | ⟨apart, dropped⟩
  · refine ⟨fun _ => joined, fun _ k x y first second => ?_⟩
    exact converted_of_surelyAlike (surely (x, y) (mem_keyPairs.mpr ⟨k, first, second⟩))
  · refine ⟨fun meet => ?_, fun joined => absurd joined apart⟩
    rw [passLeft, passRight] at dropped
    obtain ⟨pair, mem, never⟩ :=
      (dropped.resolve_left Bool.noConfusion).resolve_left Bool.noConfusion
    obtain ⟨k, first, second⟩ := mem_keyPairs.mp mem
    exact absurd (alike_of_converted (distinct_right columns maps second)
      (meet k _ _ first second)) never

theorem map_fst_keyed (orders : MapOrders) (keys : List TypedExpr) (rows : List Row) :
    (keyed engine format orders keys rows).map Prod.fst = rows := by
  rw [keyed, map_map]
  exact zipIdx_map_fst 0 rows

theorem of_mem_keyed {orders : MapOrders} {keys : List TypedExpr} {rows : List Row}
    {row : Row × String} (mem : row ∈ keyed engine format orders keys rows) :
    ∃ place, row.1 ∈ rows ∧
      row.2 = hashKey engine format orders place (keys.map (keyValue engine row.1)) := by
  obtain ⟨entry, among, rfl⟩ := mem_map.mp mem
  exact ⟨entry.2, fst_mem_of_mem_zipIdx among, rfl⟩

/-- The join by a relation on rows, through the filters that the planner pushes. -/
theorem joinBy_filtered {joinType : JoinType} (push : mayPush joinType extraction)
    {matched : Row → Row → Bool}
    (filtered : ∀ row ∈ left, ∀ other ∈ right, matched row other = true →
      passes engine extraction.leftResiduals row = true ∧
        passes engine extraction.rightResiduals other = true) :
    joinBy Row.merge id id joinType.keepsLeft joinType.keepsRight matched
        (left.filter (passes engine extraction.leftResiduals))
        (right.filter (passes engine extraction.rightResiduals)) =
      joinBy Row.merge id id joinType.keepsLeft joinType.keepsRight matched left right := by
  obtain ⟨keptLeft, keptRight⟩ := residuals_of_mayPush push
  have dropped : ∀ row ∈ left, ∀ other ∈ right,
      (passes engine extraction.leftResiduals row = false ∨
        passes engine extraction.rightResiduals other = false) → matched row other = false := by
    intro row mem other mem' drop
    cases found : matched row other with
    | false => rfl
    | true =>
      obtain ⟨first, second⟩ := filtered row mem other mem' found
      rw [first, second] at drop
      exact absurd drop (by decide)
  rw [joinBy_filter_left, joinBy_filter_right]
  · exact keptRight.imp_right fun none _ _ => by rw [none, passes_nil]
  · exact fun other mem drop row mem' => dropped row mem' other mem (Or.inr drop)
  · exact keptLeft.imp_right fun none _ _ => by rw [none, passes_nil]
  · exact fun row mem drop other mem' =>
      dropped row mem other (mem_filter.mp mem').1 (Or.inl drop)

theorem joinsAlike_of_agree {leftQualifiers rightQualifiers : List String}
    (equalities : ColumnEqualities condition) (columns : extraction.Columns)
    (extracted : extractEqualityJoinKeys leftQualifiers rightQualifiers (some condition) =
      some extraction)
    (maps : ∀ row ∈ right, JsonMaps row)
    (agree : InputsAgree engine format condition extraction left right) :
    JoinsAlike engine format leftQualifiers rightQualifiers condition left right := by
  intro orders joinType supported
  rw [planJoin_eq extracted, executeNestedLoopJoin_eq supported]
  by_cases push : mayPush joinType extraction
  · rw [if_pos push, executeJoin, executeFilter_eq_ok.mpr ⟨agree.rightFilter, rfl⟩,
      executeFilter_eq_ok.mpr ⟨agree.leftFilter, rfl⟩]
    refine ⟨_, executeHashJoin_eq supported columns.left columns.right _ _, ?_⟩
    -- Behind the filters the keys of two rows meet where the condition is true.
    have meet : ∀ row ∈ keyed engine format (orders .left) extraction.leftKeys
        (left.filter (passes engine extraction.leftResiduals)),
        ∀ other ∈ keyed engine format (orders .right) extraction.rightKeys
          (right.filter (passes engine extraction.rightResiduals)),
          sameKey row other = evaluateJoinCondition engine (some condition) row.1 other.1 := by
      intro row mem other mem'
      obtain ⟨place, among, key⟩ := of_mem_keyed mem
      obtain ⟨place', among', key'⟩ := of_mem_keyed mem'
      obtain ⟨inLeft, passLeft⟩ := mem_filter.mp among
      obtain ⟨inRight, passRight⟩ := mem_filter.mp among'
      rw [Bool.eq_iff_iff, sameKey, decide_eq_true_iff, eq_comm, key, key']
      exact keys_meet_iff equalities columns (maps _ inRight) (agree.rows _ inLeft _ inRight) passLeft
        passRight _ _ _ _
    rw [joinBy_congr meet]
    have rows := joinBy_map Row.merge id id joinType.keepsLeft joinType.keepsRight
      (evaluateJoinCondition engine (some condition)) Prod.fst Prod.fst
      (keyed engine format (orders .left) extraction.leftKeys
        (left.filter (passes engine extraction.leftResiduals)))
      (keyed engine format (orders .right) extraction.rightKeys
        (right.filter (passes engine extraction.rightResiduals)))
    rw [map_fst_keyed, map_fst_keyed, joinBy_filtered push] at rows
    · exact Perm.of_eq rows
    · intro row mem other mem' joined
      rcases agree.rows row mem other mem' with ⟨_, passLeft, passRight, _⟩ | ⟨apart, _⟩
      · exact ⟨passLeft, passRight⟩
      · exact absurd ((evaluateJoinCondition_iff equalities row other).mp joined) apart
  · rw [if_neg push]
    exact ⟨_, rfl, Perm.of_eq (executeNestedLoopJoin_eq supported _ _ _)⟩

end Agreement

/-! ## And it is necessary -/

section Necessity

variable {condition : TypedExpr} {extraction : JoinKeyExtraction} {left right : List Row}

theorem literalToPropertyValue_place (hash : HashOrder (String × HashValue)) (value : Literal)
    (place place' : List Nat) :
    literalToPropertyValue engine format (fun _ => hash) place value =
      literalToPropertyValue engine format (fun _ => hash) place' value := by
  cases value with
  | jsonB json => exact converted_place hash _ place place'
  | _ => rfl

/-- The key of a row where all maps of its input are written in one order. -/
def uniformKey (engine : Engine) (format : DebugFormat) (hash : HashOrder (String × HashValue))
    (keys : List TypedExpr) (row : Row) : String :=
  hashKey engine format (fun _ => hash) 0 (keys.map (keyValue engine row))

theorem keyed_uniform (hash : HashOrder (String × HashValue)) (keys : List TypedExpr)
    (rows : List Row) :
    keyed engine format (fun _ => hash) keys rows =
      rows.map fun row => (row, uniformKey engine format hash keys row) := by
  have same : ∀ place row, hashKey engine format (fun _ => hash) place
      (keys.map (keyValue engine row)) = uniformKey engine format hash keys row := by
    intro place row
    refine (hashKey_eq_iff rfl).mpr fun k x y first second => ?_
    rw [first] at second
    rw [Option.some.inj second]
    exact literalToPropertyValue_place hash y _ _
  simp only [keyed, same]
  conv_rhs => rw [← zipIdx_map_fst 0 rows, map_map]
  rfl

theorem ok_of_bind {α β ε : Type} {action : Except ε α} {next : α → Except ε β} {result : β}
    (bound : action >>= next = .ok result) :
    ∃ value, action = .ok value ∧ next value = .ok result := by
  cases action with
  | error refused => cases bound
  | ok value => exact ⟨value, rfl, bound⟩

/-- The pairs of rows that pass the filters and have one key, where the maps of each side are
written in one order. -/
def selects (engine : Engine) (format : DebugFormat)
    (hash : JoinSide → HashOrder (String × HashValue)) (extraction : JoinKeyExtraction)
    (row other : Row) : Bool :=
  passes engine extraction.leftResiduals row && passes engine extraction.rightResiduals other &&
    decide (uniformKey engine format (hash .right) extraction.rightKeys other =
      uniformKey engine format (hash .left) extraction.leftKeys row)

/-- What the planned inner join selects where the maps of each side are written in one order. -/
theorem selected_of_joinsAlike {leftQualifiers rightQualifiers : List String}
    (columns : extraction.Columns)
    (extracted : extractEqualityJoinKeys leftQualifiers rightQualifiers (some condition) =
      some extraction)
    (alike : JoinsAlike engine format leftQualifiers rightQualifiers condition left right)
    (hash : JoinSide → HashOrder (String × HashValue)) {row other : Row} (mem : row ∈ left)
    (mem' : other ∈ right) :
    selects engine format hash extraction row other =
      evaluateJoinCondition engine (some condition) row other := by
  obtain ⟨rows, executed, perm⟩ := alike (fun side _ => hash side) .inner (by decide)
  have push : mayPush .inner extraction = true := by simp [mayPush]
  rw [planJoin_eq extracted, if_pos push, executeJoin] at executed
  obtain ⟨rightRows, filteredRight, executed⟩ := ok_of_bind executed
  obtain ⟨leftRows, filteredLeft, executed⟩ := ok_of_bind executed
  obtain ⟨_, rfl⟩ := executeFilter_eq_ok.mp filteredRight
  obtain ⟨_, rfl⟩ := executeFilter_eq_ok.mp filteredLeft
  rw [executeHashJoin_eq (by decide) columns.left columns.right] at executed
  obtain rfl := Except.ok.inj executed
  rw [executeNestedLoopJoin_eq (by decide), keyed_uniform, keyed_uniform, ← joinBy_map] at perm
  have selected : ∀ row ∈ left.filter (passes engine extraction.leftResiduals),
      ∀ other ∈ right.filter (passes engine extraction.rightResiduals),
        sameKey (row, uniformKey engine format (hash .left) extraction.leftKeys row)
            (other, uniformKey engine format (hash .right) extraction.rightKeys other) =
          selects engine format hash extraction row other := by
    intro row mem other mem'
    rw [selects, (mem_filter.mp mem).2, (mem_filter.mp mem').2]
    rfl
  have filtered : ∀ row ∈ left, ∀ other ∈ right,
      selects engine format hash extraction row other = true →
        passes engine extraction.leftResiduals row = true ∧
          passes engine extraction.rightResiduals other = true := by
    intro row _ other _ found
    rw [selects, Bool.and_eq_true, Bool.and_eq_true] at found
    exact found.1
  have whole : joinBy Row.merge id id false false (selects engine format hash extraction) left
      right ~ joinBy Row.merge id id false false
        (fun row other => matchesMerged engine (some condition) (row.merge other)) left right := by
    refine Perm.trans (Perm.of_eq ?_) perm
    calc joinBy Row.merge id id false false (selects engine format hash extraction) left right
        = joinBy Row.merge id id false false (selects engine format hash extraction)
            (left.filter (passes engine extraction.leftResiduals))
            (right.filter (passes engine extraction.rightResiduals)) :=
          (joinBy_filtered push filtered).symm
      _ = _ := (joinBy_congr selected).symm
  exact joinBy_perm_iff.mp whole row mem other mem'

theorem filters_of_joinsAlike {leftQualifiers rightQualifiers : List String}
    (extracted : extractEqualityJoinKeys leftQualifiers rightQualifiers (some condition) =
      some extraction)
    (alike : JoinsAlike engine format leftQualifiers rightQualifiers condition left right) :
    (∀ row ∈ left, FiltersCleanly engine extraction.leftResiduals row) ∧
      ∀ row ∈ right, FiltersCleanly engine extraction.rightResiduals row := by
  obtain ⟨rows, executed, _⟩ := alike (fun _ => inserted) .inner (by decide)
  have push : mayPush .inner extraction = true := by simp [mayPush]
  rw [planJoin_eq extracted, if_pos push, executeJoin] at executed
  obtain ⟨rightRows, filteredRight, executed⟩ := ok_of_bind executed
  obtain ⟨leftRows, filteredLeft, _⟩ := ok_of_bind executed
  exact ⟨(executeFilter_eq_ok.mp filteredLeft).1, (executeFilter_eq_ok.mp filteredRight).1⟩

/-- The maps of the left side turned round. -/
def turnedMaps : JoinSide → HashOrder (String × HashValue)
  | .left => reversed []
  | .right => inserted []

theorem agree_of_joinsAlike {leftQualifiers rightQualifiers : List String}
    (equalities : ColumnEqualities condition) (columns : extraction.Columns)
    (extracted : extractEqualityJoinKeys leftQualifiers rightQualifiers (some condition) =
      some extraction)
    (leftMaps : ∀ row ∈ left, JsonMaps row) (rightMaps : ∀ row ∈ right, JsonMaps row)
    (alike : JoinsAlike engine format leftQualifiers rightQualifiers condition left right) :
    InputsAgree engine format condition extraction left right := by
  obtain ⟨leftFilter, rightFilter⟩ := filters_of_joinsAlike extracted alike
  refine ⟨leftFilter, rightFilter, fun row mem other mem' => ?_⟩
  have selected := fun hash => selected_of_joinsAlike columns extracted alike hash mem mem'
  have lengths : (extraction.leftKeys.map (keyValue engine row)).length =
      (extraction.rightKeys.map (keyValue engine other)).length := by
    rw [length_map, length_map, columns.paired]
  by_cases joined : evaluateJoinCondition engine (some condition) row other = true
  · refine Or.inl ⟨(evaluateJoinCondition_iff equalities row other).mp joined, ?_⟩
    -- The keys meet with the maps of the left side as they are and turned round.
    have meets : ∀ hash : JoinSide → HashOrder (String × HashValue),
        passes engine extraction.leftResiduals row = true ∧
          passes engine extraction.rightResiduals other = true ∧
            uniformKey engine format (hash .left) extraction.leftKeys row =
              uniformKey engine format (hash .right) extraction.rightKeys other := by
      intro hash
      have found := selected hash
      rw [joined, selects, Bool.and_eq_true, Bool.and_eq_true, decide_eq_true_iff] at found
      exact ⟨found.1.1, found.1.2, found.2.symm⟩
    obtain ⟨passLeft, passRight, straight⟩ := meets fun _ => HashOrder.inserted _
    obtain ⟨_, _, turned⟩ := meets turnedMaps
    refine ⟨passLeft, passRight, fun pair paired => ?_⟩
    obtain ⟨k, first, second⟩ := mem_keyPairs.mp paired
    exact surelyAlike_of_converted (distinct_left columns (leftMaps row mem) first)
      (distinct_right columns (rightMaps other mem') second)
      ((hashKey_eq_iff lengths).mp straight k _ _ first second)
      ((hashKey_eq_iff lengths).mp turned k _ _ first second)
  · refine Or.inr ⟨fun holds => joined ((evaluateJoinCondition_iff equalities row other).mpr holds),
      ?_⟩
    by_contra same
    simp only [not_or, Bool.not_eq_false, not_exists, not_and, not_not] at same
    obtain ⟨passLeft, passRight, alikeKeys⟩ := same
    refine joined ?_
    rw [← selected fun _ => canonical [], selects, passLeft, passRight, Bool.true_and,
      Bool.true_and, decide_eq_true_iff]
    refine ((hashKey_eq_iff lengths).mpr fun k x y first second => ?_).symm
    exact converted_canonical (distinct_left columns (leftMaps row mem) first)
      (alikeKeys (x, y) (mem_keyPairs.mpr ⟨k, first, second⟩))

end Necessity

/-- The planned join of a conjunction of column equalities puts out the rows of the nested loop, for
every join type and every order of the maps, if and only if the inputs agree. -/
theorem hash_join_is_nested_loop_join {leftQualifiers rightQualifiers : List String}
    {condition : TypedExpr} {extraction : JoinKeyExtraction} (equalities : ColumnEqualities condition)
    (extracted : extractEqualityJoinKeys leftQualifiers rightQualifiers (some condition) =
      some extraction)
    {left right : List Row} (leftMaps : ∀ row ∈ left, JsonMaps row)
    (rightMaps : ∀ row ∈ right, JsonMaps row) :
    JoinsAlike engine format leftQualifiers rightQualifiers condition left right ↔
      InputsAgree engine format condition extraction left right :=
  have columns := JoinKeyExtraction.columns_of_extract equalities extracted
  ⟨agree_of_joinsAlike equalities columns extracted leftMaps rightMaps,
    joinsAlike_of_agree equalities columns extracted rightMaps⟩

/-- A row of a table with one column. -/
def singleRow (table : String) (value : PropertyValue) : Row :=
  ⟨[(table ++ ".k", value)], nodup_singleton _⟩

def keysEqual : TypedExpr :=
  .binaryOp (.column "a" "k" .text) .eq (.column "b" "k" .text) .boolean

theorem jsonMaps_singleRow (table : String) {value : PropertyValue}
    (distinct : distinctLiteral (fromPropertyValue value)) : JsonMaps (singleRow table value) := by
  intro column mem
  rw [mem_singleton.mp mem]
  exact distinct

theorem text_keys_join_alike : JoinsAlike asciiEngine fractionFormat ["a"] ["b"] keysEqual
    [singleRow "a" (.string "x")] [singleRow "b" (.string "x")] := by
  have equalities : ColumnEqualities keysEqual := ⟨rfl, rfl⟩
  have extracted : extractEqualityJoinKeys ["a"] ["b"] (some keysEqual) =
      some ⟨[.column "a" "k" .text], [.column "b" "k" .text], [], []⟩ := by
    simp [extractEqualityJoinKeys, keysEqual, collectEqualityKeys, exprSide, collectExprQualifiers,
      JoinKeyExtraction.empty]
  refine (hash_join_is_nested_loop_join equalities extracted ?_ ?_).mpr ⟨?_, ?_, ?_⟩
  · intro row mem
    rw [mem_singleton.mp mem]
    exact jsonMaps_singleRow "a" rfl
  · intro row mem
    rw [mem_singleton.mp mem]
    exact jsonMaps_singleRow "b" rfl
  · exact fun _ _ => ⟨true, rfl⟩
  · exact fun _ _ => ⟨true, rfl⟩
  · intro row mem other mem'
    rw [mem_singleton.mp mem, mem_singleton.mp mem']
    refine Or.inl ⟨⟨by decide +kernel, by decide +kernel, by decide +kernel⟩, rfl, rfl, ?_⟩
    intro pair paired
    rw [mem_singleton.mp paired]
    have left : keyValue asciiEngine (singleRow "a" (.string "x")) (.column "a" "k" .text) =
        .text "x" := by decide +kernel
    have right : keyValue asciiEngine (singleRow "b" (.string "x")) (.column "b" "k" .text) =
        .text "x" := by decide +kernel
    rw [left, right]
    exact ⟨.text rfl rfl, rfl⟩

/-- NULL keys meet in the hash table. -/
theorem null_keys_meet : ¬ JoinsAlike asciiEngine fractionFormat ["a"] ["b"] keysEqual
    [singleRow "a" .null] [singleRow "b" .null] := by
  intro alike
  obtain ⟨rows, executed, perm⟩ := alike (fun _ => inserted) .inner (by decide)
  have count : (executeJoin asciiEngine fractionFormat (fun _ => inserted)
      [singleRow "a" .null] [singleRow "b" .null]
      (planJoin ["a"] ["b"] .inner (some keysEqual))).toOption.map length = some 1 := by
    decide +kernel
  have looped : (executeNestedLoopJoin asciiEngine .inner (some keysEqual)
      [singleRow "a" .null] [singleRow "b" .null]).length = 0 := by
    decide +kernel
  rw [executed] at count
  have lengths := perm.length_eq
  rw [looped] at lengths
  rw [Except.toOption, Option.map_some, lengths] at count
  cases count

end RaisinDB.Sql
