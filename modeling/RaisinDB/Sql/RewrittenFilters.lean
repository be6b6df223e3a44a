import Mathlib
import RaisinDB.Foundation.JsonText
import RaisinDB.Sql.RewrittenCalls

/-!
# What hierarchy rewriting keeps

A filter is true on a row exactly when the expressions of its predicates are, conjunct by conjunct,
except where the rewriting reads a literal or a stored value otherwise than the evaluator does.
-/

namespace RaisinDB.Sql

open List
open RaisinDB.Foundation (Binary64 Value Segments)

section Meaning

variable {engine : Engine} {checkForReference : PropertyValue → String → String → Bool} {row : Row}

/-! ## Ranges -/

theorem fromBinaryOp_eq_some {op : BinaryOperator} {comparison : ComparisonOp} :
    ComparisonOp.fromBinaryOp op = some comparison ↔ op = comparison.toBinaryOp := by
  cases op <;> cases comparison <;> simp [ComparisonOp.fromBinaryOp, ComparisonOp.toBinaryOp]

/-- An order compares in one direction as its reverse does in the other one. -/
theorem compareLiterals_reverse (parseTimestamp : String → Option Int) (op : ComparisonOp)
    (left right : Literal) :
    compareLiterals parseTimestamp right left op.reverse.toBinaryOp = .ok true ↔
      compareLiterals parseTimestamp left right op.toBinaryOp = .ok true := by
  have numbers (a b : Binary64) : compareNumbers op.reverse.toBinaryOp b a =
      compareNumbers op.toBinaryOp a b := by cases op <;> rfl
  have texts (a b : String) : compareTexts op.reverse.toBinaryOp b a =
      compareTexts op.toBinaryOp a b := by cases op <;> rfl
  have times (a b : Int) : compareTimestamps op.reverse.toBinaryOp b a =
      compareTimestamps op.toBinaryOp a b := by cases op <;> rfl
  have booleans (a b : Bool) : compareBooleans op.reverse.toBinaryOp b a =
      compareBooleans op.toBinaryOp a b := by cases op <;> rfl
  cases left <;> cases right <;>
    simp [compareLiterals, Literal.isNull, Literal.isNumeric, literalToNumber, numbers, texts,
      times, booleans, bind, Except.bind]

theorem trueOn_order (op : ComparisonOp) (left right : TypedExpr) (ty : DataType) :
    TrueOn engine checkForReference row (.binaryOp left op.toBinaryOp right ty) ↔
      ∃ first second, evalExpr (engine.withHierarchy checkForReference) row left = .ok first ∧
        evalExpr (engine.withHierarchy checkForReference) row right = .ok second ∧
        compareLiterals engine.parseTimestamp first second op.toBinaryOp = .ok true := by
  have compared (first second : Literal) : binaryOp (engine.withHierarchy checkForReference)
      op.toBinaryOp first second = .ok (.boolean true) ↔
        compareLiterals engine.parseTimestamp first second op.toBinaryOp = .ok true := by
    have order : binaryOp (engine.withHierarchy checkForReference) op.toBinaryOp first second =
        comparisonOp engine.parseTimestamp first op.toBinaryOp second := by cases op <;> rfl
    rw [order, comparisonOp]
    by_cases null : (first.isNull || second.isNull) = true
    · simp [null, compareLiterals]
    · rw [if_neg null]
      cases op <;> cases compareLiterals engine.parseTimestamp first second _ <;>
        simp [ComparisonOp.toBinaryOp, bind, Except.bind, pure, Except.pure]
  rw [TrueOn, evalExpr]
  cases evalExpr (engine.withHierarchy checkForReference) row left with
  | error refused => simp [bind, Except.bind]
  | ok first =>
    cases evalExpr (engine.withHierarchy checkForReference) row right with
    | error refused => simp [bind, Except.bind]
    | ok second => simpa [bind, Except.bind] using compared first second

theorem comparison_kept (left right : TypedExpr) (op : ComparisonOp) (ty : DataType) :
    (∀ predicate ∈ rewriteComparison left op.toBinaryOp right
        (.binaryOp left op.toBinaryOp right ty),
        TrueOn engine checkForReference row predicate.toExpr) ↔
      TrueOn engine checkForReference row (.binaryOp left op.toBinaryOp right ty) := by
  have direct : ComparisonOp.fromBinaryOp op.toBinaryOp = some op := fromBinaryOp_eq_some.mpr rfl
  unfold rewriteComparison
  split
  · next table column _ other first same =>
    obtain ⟨given, rfl⟩ := TypedExpr.column?_eq_some.mp first
    cases direct.symm.trans same
    simp only [mem_singleton, forall_eq, TrueOn, CanonicalPredicate.toExpr, evalExpr]
  · next table column other first second same =>
    obtain ⟨given, rfl⟩ := TypedExpr.column?_eq_some.mp second
    cases direct.symm.trans same
    simp only [mem_singleton, forall_eq, CanonicalPredicate.toExpr, trueOn_order, evalExpr,
      compareLiterals_reverse]
    constructor
    · rintro ⟨first, second, column, value, holds⟩
      exact ⟨second, first, value, column, holds⟩
    · rintro ⟨first, second, value, column, holds⟩
      exact ⟨second, first, column, value, holds⟩
  · simp [CanonicalPredicate.toExpr]

/-! ## JSON members -/

/-- The object in the column has the member, and it contains the value. -/
def Contained (row : Row) (table column key : String) (value : Value) : Prop :=
  ∃ members member, columnLiteral table column row = .jsonB (.object members) ∧
    Value.lookup key members = some member ∧ jsonContains member value = true

/-- A member is shown as the text of a value exactly when it contains the value: null is shown as
NULL, a string may be the text of a value of another kind, of the two zeros one may be stored and the
other asked for, and an array or an object may hold the items or the members in another way. -/
def ShownAsContained : Value → Value → Prop
  | .null, value => value ≠ .null
  | .string _, .string _ => True
  | .string text, value => text ≠ jsonText value
  | member, .string text => text ≠ jsonText member
  | .number left, .number right => isFloatZero left = true → isFloatZero right = true → left = right
  | .array items, .array pattern =>
      (∀ wanted ∈ pattern, ∃ item ∈ items, jsonContains item wanted = true) → items = pattern
  | .object members, .object pattern =>
      (∀ wanted ∈ pattern, ∃ member, Value.lookup wanted.1 members = some member ∧
        jsonContains member wanted.2 = true) → members = pattern
  | _, _ => True

theorem jsonText_inj {left right : Value} (spelled : left.WellSpelled)
    (spelled' : right.WellSpelled) : jsonText left = jsonText right ↔ left = right :=
  ⟨fun same => Value.chars_inj spelled spelled' (String.ofList_injective same), congrArg jsonText⟩

theorem itemsContain_iff (items pattern : List Value) :
    itemsContain items pattern = true ↔
      ∀ wanted ∈ pattern, ∃ item ∈ items, jsonContains item wanted = true := by
  induction pattern with
  | nil => simp [itemsContain]
  | cons wanted rest ih => simp [itemsContain, ih]

theorem membersContain_iff (members pattern : List (String × Value)) :
    membersContain members pattern = true ↔
      ∀ wanted ∈ pattern, ∃ member, Value.lookup wanted.1 members = some member ∧
        jsonContains member wanted.2 = true := by
  induction pattern with
  | nil => simp [membersContain]
  | cons wanted rest ih =>
    cases found : Value.lookup wanted.1 members <;> simp [membersContain, ih, found]

mutual

/-- A value contains itself. -/
theorem jsonContains_self (value : Value) (spelled : value.WellSpelled) :
    jsonContains value value = true := by
  cases value with
  | array items =>
    rw [jsonContains, itemsContain_iff]
    exact fun item mem => ⟨item, mem, items_contain_self items spelled item mem⟩
  | object members =>
    rw [jsonContains, membersContain_iff]
    exact fun member mem => ⟨member.2, Value.lookup_of_nodup spelled.1 mem,
      members_contain_self members spelled.2 member mem⟩
  | _ => simp [jsonContains, jsonEq, numbersEq]

theorem items_contain_self (items : List Value) (spelled : Value.ItemsWellSpelled items) :
    ∀ item ∈ items, jsonContains item item = true := by
  match items with
  | [] => simp
  | first :: rest =>
    rw [forall_mem_cons]
    exact ⟨jsonContains_self first spelled.1, items_contain_self rest spelled.2⟩

theorem members_contain_self (members : List (String × Value))
    (spelled : Value.FieldsWellSpelled members) :
    ∀ member ∈ members, jsonContains member.2 member.2 = true := by
  match members with
  | [] => simp
  | (_, first) :: rest =>
    rw [forall_mem_cons]
    exact ⟨jsonContains_self first spelled.1, members_contain_self rest spelled.2⟩

end

/-- Values that are no strings are written alike only if they are the same, and contain themselves. -/
theorem contains_iff_written {member value : Value} (spelled : member.WellSpelled)
    (spelled' : value.WellSpelled) :
    (jsonContains member value = true ↔ jsonText member = jsonText value) ↔
      (jsonContains member value = true → member = value) := by
  rw [jsonText_inj spelled spelled']
  exact ⟨Iff.mp, fun only => ⟨only, fun same => same ▸ jsonContains_self _ spelled⟩⟩

theorem shownAsContained_iff {member value : Value} (spelled : member.WellSpelled)
    (spelled' : value.WellSpelled) :
    (jsonContains member value = true ↔
        jsonMemberText member = .text (CanonicalPredicate.valueText value)) ↔
      ShownAsContained member value := by
  have written := contains_iff_written spelled spelled'
  cases member with
  | null => cases value <;> simp [ShownAsContained, jsonContains, jsonEq, jsonMemberText]
  | string text =>
    cases value <;> simp [ShownAsContained, jsonContains, jsonEq, jsonMemberText,
      CanonicalPredicate.valueText]
  | number left =>
    cases value with
    | string text => simp [ShownAsContained, jsonContains, jsonEq, jsonMemberText,
        CanonicalPredicate.valueText, eq_comm]
    | number right =>
      refine Iff.trans (by simp [jsonMemberText, CanonicalPredicate.valueText]) (written.trans ?_)
      simp only [jsonContains, jsonEq, numbersEq, ShownAsContained, Bool.or_eq_true, beq_iff_eq,
        Bool.and_eq_true, Value.number.injEq]
      tauto
    | _ =>
      refine Iff.trans (by simp [jsonMemberText, CanonicalPredicate.valueText]) (written.trans ?_)
      simp [ShownAsContained, jsonContains, jsonEq]
  | _ =>
    cases value with
    | string text => simp [ShownAsContained, jsonContains, jsonEq, jsonMemberText,
        CanonicalPredicate.valueText, eq_comm]
    | _ =>
      refine Iff.trans (by simp [jsonMemberText, CanonicalPredicate.valueText]) (written.trans ?_)
      simp only [ShownAsContained, jsonContains, jsonEq, itemsContain_iff, membersContain_iff,
        Value.array.injEq, Value.object.injEq, Value.bool.injEq, beq_iff_eq, imp_self,
        Bool.false_eq_true, false_implies]

variable (engine) in
/-- The text of the member that an earlier operator left in the row is the text of the value exactly
when the member contains it, and without one the member itself is shown so. -/
def ContainsKept (row : Row) (object pattern : TypedExpr) : Prop :=
  match object, pattern with
  | .column table column _, .literal (.jsonB (.object [(key, value)])) _ =>
      match row.get (table ++ "." ++ column ++ "_" ++ key) with
      | some held => EqualTo engine (.ok (fromPropertyValue held))
            (.text (CanonicalPredicate.valueText value)) ↔
          Contained row table column key value
      | none => ∀ members member, columnLiteral table column row = .jsonB (.object members) →
          Value.lookup key members = some member → ShownAsContained member value
  | _, _ => True

theorem trueOn_contains (table column key : String) (value : Value) (given given' ty : DataType) :
    TrueOn engine checkForReference row (.json .contains (.column table column given)
        (.literal (.jsonB (.object [(key, value)])) given') ty) ↔
      Contained row table column key value := by
  have unread : memberOf row .contains (.column table column given)
      (.literal (.jsonB (.object [(key, value)])) given') = none := by
    unfold memberOf
    cases storedMembers row (.column table column given)
      (.literal (.jsonB (.object [(key, value)])) given') <;> rfl
  have answer : evalExpr (engine.withHierarchy checkForReference) row
      (.json .contains (.column table column given)
        (.literal (.jsonB (.object [(key, value)])) given') ty) =
      jsonContainsOp (columnLiteral table column row) (.jsonB (.object [(key, value)])) := by
    rw [evalExpr]
    simp only [preExtracted, unread, evalExpr]
    rfl
  rw [TrueOn, answer, Contained]
  cases columnLiteral table column row with
  | jsonB json =>
    cases json with
    | object members =>
      cases found : Value.lookup key members <;>
        simp [jsonContainsOp, nullOr, jsonContains, membersContain, found]
    | _ => simp [jsonContainsOp, nullOr, jsonContains, jsonEq]
  | _ => simp [jsonContainsOp, nullOr, Literal.isNull]

theorem evalExpr_memberText (table column key : String) :
    evalExpr (engine.withHierarchy checkForReference) row
        (CanonicalPredicate.memberText table column key) =
      heldOr row (table ++ "." ++ column ++ "_" ++ key)
        (jsonExtractText (columnLiteral table column row) (.text key)) := by
  rw [CanonicalPredicate.memberText, evalExpr]
  have stored : preExtracted row .extractText (.column table column .jsonB)
      (.ofLiteral (.text key)) = row.get (table ++ "." ++ column ++ "_" ++ key) := rfl
  rw [stored, heldOr]
  cases row.get (table ++ "." ++ column ++ "_" ++ key) with
  | some held => rfl
  | none =>
    cases stored : Row.columnValue table column row with
    | none => simp [memberOf, storedMembers, TypedExpr.column?, stored, evalExpr, columnLiteral,
        jsonOp, TypedExpr.ofLiteral, TypedExpr.literal?, bind, Except.bind]
    | some value =>
      cases value with
      | object members =>
        simp [memberOf, storedMembers, memberLiteral, TypedExpr.column?, stored,
          columnLiteral, TypedExpr.ofLiteral, TypedExpr.literal?, fromPropertyValue,
          jsonExtractText, Value.get]
        cases Value.lookup key members <;> rfl
      | _ =>
        simp [memberOf, storedMembers, TypedExpr.column?, stored, evalExpr, columnLiteral,
          jsonOp, TypedExpr.ofLiteral, TypedExpr.literal?, bind, Except.bind]

theorem equalTo_extractText (value : Literal) (key text : String) :
    EqualTo engine (jsonExtractText value (.text key)) (.text text) ↔
      ∃ members member, value = .jsonB (.object members) ∧ Value.lookup key members = some member ∧
        jsonMemberText member = .text text := by
  cases value with
  | jsonB json =>
    cases json with
    | object members =>
      cases found : Value.lookup key members with
      | none => simp [EqualTo, jsonExtractText, Value.get, found, comparisonOp, Literal.isNull,
          Except.bind]
      | some member =>
        cases member <;> simp [EqualTo, jsonExtractText, Value.get, found, comparisonOp,
          Literal.isNull, Except.bind, jsonMemberText, literalsEqual, bind, pure, Except.pure]
    | _ => simp [EqualTo, jsonExtractText, Value.get, comparisonOp, Literal.isNull, Except.bind]
  | _ => simp [EqualTo, jsonExtractText, comparisonOp, Literal.isNull, Except.bind]

/-- The JSON of an object and of a pattern is spelled as serde writes it. -/
def ReadsJson (row : Row) (object pattern : TypedExpr) : Prop :=
  match object, pattern with
  | .column table column _, .literal (.jsonB json) _ =>
      json.WellSpelled ∧ ∀ stored, columnLiteral table column row = .jsonB stored →
        stored.WellSpelled
  | _, _ => True

theorem wellSpelled_of_lookup {key : String} {members : List (String × Value)} {member : Value}
    (spelled : Value.FieldsWellSpelled members) (found : Value.lookup key members = some member) :
    member.WellSpelled := by
  fun_induction Value.lookup key members with
  | case1 => cases found
  | case2 value rest => exact Option.some.inj found ▸ spelled.1
  | case3 name value rest other ih => exact ih spelled.2 found

theorem contains_kept (object pattern : TypedExpr) (ty : DataType)
    (json : ReadsJson row object pattern) :
    ((∀ predicate ∈ rewriteJsonContains object pattern (.json .contains object pattern ty),
        TrueOn engine checkForReference row predicate.toExpr) ↔
      TrueOn engine checkForReference row (.json .contains object pattern ty)) ↔
    ContainsKept engine row object pattern := by
  unfold rewriteJsonContains
  split
  · next table column given key value given' =>
    simp only [mem_singleton, forall_eq]
    rw [CanonicalPredicate.toExpr, TypedExpr.ofLiteral, trueOn_equality, evalExpr_memberText,
      trueOn_contains, ContainsKept]
    cases held : row.get (table ++ "." ++ column ++ "_" ++ key) with
    | some value =>
      rw [heldOr, held]
    | none =>
      rw [heldOr, held, equalTo_extractText]
      by_cases reads : ∃ members member, columnLiteral table column row = .jsonB (.object members) ∧
          Value.lookup key members = some member
      · obtain ⟨members, member, stored, found⟩ := reads
        have alike := shownAsContained_iff (wellSpelled_of_lookup (json.2 _ stored).2 found)
          json.1.2.1
        simp only [Contained, stored, Literal.jsonB.injEq, Value.object.injEq, exists_and_left,
          exists_eq_left', found, Option.some.injEq]
        refine (iff_comm.trans alike).trans ⟨fun shown => ?_, fun all => all members member rfl found⟩
        rintro _ _ rfl again
        exact Option.some.inj (found.symm.trans again) ▸ shown
      · refine iff_of_true (iff_of_false ?_ ?_) ?_
        · rintro ⟨members, member, stored, found, -⟩
          exact reads ⟨members, member, stored, found⟩
        · rintro ⟨members, member, stored, found, -⟩
          exact reads ⟨members, member, stored, found⟩
        · exact fun members member stored found => absurd ⟨members, member, stored, found⟩ reads
  · refine (other_kept _).trans (iff_of_true trivial ?_)
    simp only [ContainsKept]

/-! ## Filters -/

/-- The conjuncts that are rewritten one by one. -/
def conjunctsOf : TypedExpr → List TypedExpr
  | .binaryOp left .and right _ => conjunctsOf left ++ conjunctsOf right
  | expr => [expr]

variable (engine checkForReference) in
/-- The condition for a conjunct.  What is read as a spatial predicate stays as it is written. -/
def ConjunctKept (consts : SpatialConsts) (row : Row) (expr : TypedExpr) : Prop :=
  (extractSpatialPredicate consts expr).isSome ∨
    match expr with
    | .function name args _ filter _ =>
        match engine.uppercase name with
        | "CHILD_OF" => ChildOfKept engine row args filter
        | "PATH_STARTS_WITH" => PathStartsWithKept engine row args filter
        | "REFERENCES" => ReferencesKept engine checkForReference row args filter
        | _ => True
    | .binaryOp left .eq right _ => EqualityKept engine row left right
    | .json .contains object pattern _ => ContainsKept engine row object pattern
    | _ => True

theorem toExpr_spatial {consts : SpatialConsts} {expr : TypedExpr} {predicate : CanonicalPredicate}
    (found : extractSpatialPredicate consts expr = some predicate) : predicate.toExpr = expr := by
  have build {source : String × String × String} {center : Value} {radius : Binary64} {flag : Bool}
      (built : buildDwithin consts source center radius flag expr = some predicate) :
      predicate.toExpr = expr := by
    unfold buildDwithin at built
    split at built
    · obtain ⟨⟨lon, lat, inflate⟩, -, rfl⟩ := Option.map_eq_some_iff.mp built
      rfl
    · cases built
  have within {args : List TypedExpr} {flag : Bool}
      (matched : matchDwithin consts args expr flag = some predicate) :
      predicate.toExpr = expr := by
    unfold matchDwithin at matched
    split at matched
    · obtain ⟨radius, -, matched⟩ := Option.bind_eq_some_iff.mp matched
      obtain ⟨⟨source, center⟩, -, built⟩ := Option.bind_eq_some_iff.mp matched
      exact build built
    · cases matched
  have bound {left right : TypedExpr} {op : BinaryOperator}
      (matched : matchDistanceBound consts left right op expr = some predicate) :
      predicate.toExpr = expr := by
    unfold matchDistanceBound at matched
    split at matched
    · split at matched
      · obtain ⟨radius, -, matched⟩ := Option.bind_eq_some_iff.mp matched
        obtain ⟨⟨source, center⟩, -, built⟩ := Option.bind_eq_some_iff.mp matched
        exact build built
      · cases matched
    · cases matched
  unfold extractSpatialPredicate at found
  split at found
  · split at found
    · exact within found
    · split at found
      · exact within found
      · cases found
  · exact bound found
  · exact bound found
  · exact bound found
  · exact bound found
  · cases found

variable (engine checkForReference) in
/-- All predicates of the filter are true on the row. -/
def RewrittenTrueOn (consts : SpatialConsts) (row : Row) (expr : TypedExpr) : Prop :=
  ∀ predicate ∈ rewriteHierarchyPredicates engine.uppercase consts expr,
    TrueOn engine checkForReference row predicate.toExpr

variable (engine) in
/-- What the equations with PARENT among the conjuncts read as paths are node paths. -/
def AbsolutePaths (row : Row) (expr : TypedExpr) : Prop :=
  ∀ left right ty, .binaryOp left .eq right ty ∈ conjunctsOf expr → ReadsPaths engine row left

/-- The JSON that the containments among the conjuncts read is spelled as serde writes it. -/
def SpelledJson (row : Row) (expr : TypedExpr) : Prop :=
  ∀ object pattern ty, .json .contains object pattern ty ∈ conjunctsOf expr →
    ReadsJson row object pattern

instance (consts : SpatialConsts) (row : Row) (expr : TypedExpr) :
    Decidable (RewrittenTrueOn engine checkForReference consts row expr) :=
  inferInstanceAs (Decidable (∀ predicate ∈ _, _))

theorem conjunct_kept (capitals : KeepsCapitals engine) (consts : SpatialConsts) {expr : TypedExpr}
    (single : ∀ left right ty, expr ≠ .binaryOp left .and right ty)
    (paths : ∀ left right ty, expr = .binaryOp left .eq right ty → ReadsPaths engine row left)
    (json : ∀ object pattern ty, expr = .json .contains object pattern ty →
      ReadsJson row object pattern) :
    (RewrittenTrueOn engine checkForReference consts row expr ↔
      TrueOn engine checkForReference row expr) ↔
    ConjunctKept engine checkForReference consts row expr := by
  unfold RewrittenTrueOn ConjunctKept
  rw [rewriteHierarchyPredicates.eq_def]
  cases spatial : extractSpatialPredicate consts expr with
  | some predicate => simp [toExpr_spatial spatial]
  | none =>
    simp only [Option.isSome_none, Bool.false_eq_true, false_or]
    cases expr with
    | function name args signature filter ty =>
      by_cases child : engine.uppercase name = "CHILD_OF"
      · simp only [child]
        exact childOf_kept capitals args signature filter ty child
      by_cases start : engine.uppercase name = "PATH_STARTS_WITH"
      · simp only [start]
        exact pathStartsWith_kept capitals args signature filter ty start
      by_cases refs : engine.uppercase name = "REFERENCES"
      · simp only [refs]
        exact references_kept capitals args signature filter ty refs
      simp only
      exact (other_kept _).trans (iff_of_true trivial trivial)
    | binaryOp left op right ty =>
      cases op with
      | eq => exact equality_kept capitals left right ty (paths left right ty rfl)
      | gt => exact iff_of_true (comparison_kept left right .gt ty) trivial
      | gtEq => exact iff_of_true (comparison_kept left right .gtEq ty) trivial
      | lt => exact iff_of_true (comparison_kept left right .lt ty) trivial
      | ltEq => exact iff_of_true (comparison_kept left right .ltEq ty) trivial
      | and => exact absurd rfl (single left right ty)
      | _ => exact other_kept _
    | json op object pattern ty =>
      cases op with
      | contains => exact contains_kept object pattern ty (json object pattern ty rfl)
      | _ => exact other_kept _
    | _ => exact other_kept _

theorem single_of_mem {expr conjunct : TypedExpr} (mem : conjunct ∈ conjunctsOf expr) :
    ∀ left right ty, conjunct ≠ .binaryOp left .and right ty := by
  fun_induction conjunctsOf expr with
  | case1 left right ty ihl ihr => exact (mem_append.mp mem).elim ihl ihr
  | case2 expr single =>
    obtain rfl := mem_singleton.mp mem
    exact fun left right ty same => single left right ty same

theorem trueOn_conjuncts (expr : TypedExpr) :
    TrueOn engine checkForReference row expr ↔
      ∀ conjunct ∈ conjunctsOf expr, TrueOn engine checkForReference row conjunct := by
  fun_induction conjunctsOf expr with
  | case1 left right ty ihl ihr =>
    have both : TrueOn engine checkForReference row (.binaryOp left .and right ty) ↔
        TrueOn engine checkForReference row left ∧
          TrueOn engine checkForReference row right := by
      simp only [TrueOn, evalExpr]
      cases evalExpr (engine.withHierarchy checkForReference) row left with
      | error refused => simp [bind, Except.bind]
      | ok first =>
        cases evalExpr (engine.withHierarchy checkForReference) row right with
        | error refused => simp [bind, Except.bind]
        | ok second => simpa [bind, Except.bind, binaryOp] using logicalAnd_true
    rw [both, ihl, ihr]
    simp only [mem_append, or_imp, forall_and]
  | case2 expr single => simp

theorem rewrittenTrueOn_conjuncts (consts : SpatialConsts) (expr : TypedExpr) :
    RewrittenTrueOn engine checkForReference consts row expr ↔
      ∀ conjunct ∈ conjunctsOf expr,
        RewrittenTrueOn engine checkForReference consts row conjunct := by
  fun_induction conjunctsOf expr with
  | case1 left right ty ihl ihr =>
    have both :
        rewriteHierarchyPredicates engine.uppercase consts (.binaryOp left .and right ty) =
        rewriteHierarchyPredicates engine.uppercase consts left ++
          rewriteHierarchyPredicates engine.uppercase consts right := by
      rw [rewriteHierarchyPredicates.eq_def]
      rfl
    rw [RewrittenTrueOn, both]
    simp only [mem_append, or_imp, forall_and]
    exact and_congr ihl ihr
  | case2 expr single => simp

/-- Two conjunctions over the same items hold alike, if the conjuncts do on all items, or on one
where both fail, or if each of them fails somewhere. -/
theorem conjunction_alike {α : Type*} {items : List α} {alike rewritten original : α → Prop}
    (each : ∀ item ∈ items, (rewritten item ↔ original item) ↔ alike item) :
    ((∀ item ∈ items, rewritten item) ↔ ∀ item ∈ items, original item) ↔
      (∀ item ∈ items, alike item) ∨ (∃ item ∈ items, alike item ∧ ¬original item) ∨
        (∃ item ∈ items, ¬alike item ∧ original item) ∧
          ∃ item ∈ items, ¬alike item ∧ ¬original item := by
  constructor
  · intro same
    by_contra unlike
    simp only [not_or, not_and, not_exists, not_forall, not_not] at unlike
    obtain ⟨⟨changed, mem, unlikely⟩, kept, others⟩ := unlike
    by_cases holds : original changed
    · have all : ∀ item ∈ items, original item := fun item mem' => by
        by_cases like : alike item
        · exact kept item mem' like
        · exact others ⟨changed, mem, unlikely, holds⟩ item mem' like
      exact unlikely ((each changed mem).mp (iff_of_true (same.mpr all changed mem) holds))
    · have all : ∀ item ∈ items, rewritten item := fun item mem' => by
        by_cases like : alike item
        · exact ((each item mem').mpr like).mpr (kept item mem' like)
        · by_contra fails
          have elsewhere : original item := by
            by_contra fails'
            exact like ((each item mem').mp (iff_of_false fails fails'))
          exact holds (others ⟨item, mem', like, elsewhere⟩ changed mem unlikely)
      exact holds (same.mp all changed mem)
  · rintro (all | ⟨item, mem, like, fails⟩ | ⟨⟨first, mem, unlike, holds⟩, item, mem', -, fails⟩)
    · exact forall₂_congr fun item mem => (each item mem).mpr (all item mem)
    · exact iff_of_false
        (fun rewritten => fails (((each item mem).mpr like).mp (rewritten item mem)))
        fun original => fails (original item mem)
    · refine iff_of_false (fun rewritten => unlike ((each first mem).mp ?_))
        fun original => fails (original item mem')
      exact iff_of_true (rewritten first mem) holds

variable (engine checkForReference) in
/-- Every conjunct is kept, or a kept one fails on the row, or of the others one holds and another
one fails. -/
def FilterKept (consts : SpatialConsts) (row : Row) (expr : TypedExpr) : Prop :=
  (∀ conjunct ∈ conjunctsOf expr, ConjunctKept engine checkForReference consts row conjunct) ∨
    (∃ conjunct ∈ conjunctsOf expr, ConjunctKept engine checkForReference consts row conjunct ∧
      ¬TrueOn engine checkForReference row conjunct) ∨
    (∃ conjunct ∈ conjunctsOf expr, ¬ConjunctKept engine checkForReference consts row conjunct ∧
      TrueOn engine checkForReference row conjunct) ∧
    ∃ conjunct ∈ conjunctsOf expr, ¬ConjunctKept engine checkForReference consts row conjunct ∧
      ¬TrueOn engine checkForReference row conjunct

end Meaning

/-- The predicates of a filter are all true on a row exactly when the filter is, if and only if the
filter is kept on the row. -/
theorem hierarchy_rewriting_keeps_filter (engine : Engine)
    (checkForReference : PropertyValue → String → String → Bool) (consts : SpatialConsts)
    (row : Row) (filter : TypedExpr) (capitals : KeepsCapitals engine)
    (paths : AbsolutePaths engine row filter) (json : SpelledJson row filter) :
    (RewrittenTrueOn engine checkForReference consts row filter ↔
      TrueOn engine checkForReference row filter) ↔
    FilterKept engine checkForReference consts row filter := by
  rw [rewrittenTrueOn_conjuncts, trueOn_conjuncts]
  refine conjunction_alike fun conjunct mem => ?_
  refine conjunct_kept capitals consts (single_of_mem mem) ?_ ?_
  · rintro left right ty rfl
    exact paths left right ty mem
  · rintro object pattern ty rfl
    exact json object pattern ty mem

theorem asciiEngine_keepsCapitals : KeepsCapitals asciiEngine := by
  intro text capitals
  refine String.toList_inj.mp ?_
  rw [asciiEngine, String.toList_ofList]
  refine (map_congr_left fun char mem => ?_).trans (map_id _)
  have capital := all_eq_true.mp capitals char mem
  simp only [Char.isUpper, Bool.or_eq_true, decide_eq_true_eq, beq_iff_eq] at capital
  rw [Char.toUpper, dif_neg]
  · rfl
  · intro lower
    rcases capital with ⟨-, high⟩ | rfl
    · exact absurd (UInt32.le_trans lower.1 high) (by decide)
    · exact absurd lower.1 (by decide)

/-- The columns of a stored node at a path. -/
def nodeRow (path : String) : Row := Row.empty.insert "path" (.string path)

def noSpatialConsts : SpatialConsts := ⟨fun _ => none, fun _ => none, fun _ => false, fun _ => none⟩

/-- `PARENT(path) = '...'` -/
def parentIs (path : String) : TypedExpr :=
  .binaryOp (.function "PARENT" [.column "" "path" .path] ⟨"PARENT", true⟩ none .path) .eq
    (.ofLiteral (.text path)) .boolean

theorem children_kept : RewrittenTrueOn asciiEngine (fun _ _ _ => false) noSpatialConsts
      (nodeRow "/a/b") (parentIs "/a") ↔
    TrueOn asciiEngine (fun _ _ _ => false) (nodeRow "/a/b") (parentIs "/a") := by
  have stored : columnLiteral "" "path" (nodeRow "/a/b") = .text "/a/b" := by decide +kernel
  refine (hierarchy_rewriting_keeps_filter asciiEngine (fun _ _ _ => false) noSpatialConsts
    (nodeRow "/a/b") (parentIs "/a") asciiEngine_keepsCapitals ?_ ?_).mpr (Or.inl ?_)
  · intro left right ty mem
    cases mem_singleton.mp mem
    intro _ path named
    rw [stored] at named
    cases named
    exact ⟨[['a'], ['b']], by decide, rfl⟩
  · intro object pattern ty mem
    cases mem_singleton.mp mem
  · intro conjunct mem
    cases mem_singleton.mp mem
    refine Or.inr fun path spelled => ?_
    cases spelled
    refine ⟨fun held => absurd held ?_, fun _ name named => ?_⟩
    · unfold HoldsResults
      decide +kernel
    · rw [stored] at named
      cases named
      refine ⟨Or.inl (by decide +kernel), fun far => ?_⟩
      obtain ⟨-, turns, some, deep⟩ := far
      have : (segments "/a/b").length = 2 := by decide +kernel
      have : (segments "/a").length = 1 := by decide +kernel
      omega

/-- A parent with a slash at its end has no children before the rewriting, and has them after. -/
theorem trailing_slash_finds_children :
    RewrittenTrueOn asciiEngine (fun _ _ _ => false) noSpatialConsts (nodeRow "/a/b")
        (parentIs "/a/") ∧
      ¬TrueOn asciiEngine (fun _ _ _ => false) (nodeRow "/a/b") (parentIs "/a/") := by
  decide +kernel

end RaisinDB.Sql
