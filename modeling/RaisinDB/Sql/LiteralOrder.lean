import Mathlib.Data.Rat.Defs
import RaisinDB.Sql.Comparisons

/-!
# The order of literals

Window functions and aggregates order all literals by one table, which compares kinds where it has
no row for two literals.  It is a total order up to ties.  It lacks the rows in which the operator
`<` compares timestamps, and texts with paths and timestamps.
-/

namespace RaisinDB.Sql

open RaisinDB.Foundation (Binary64 Value)

/-! ## Literals with exact numbers -/

inductive ExactLiteral where
  | null
  | boolean (flag : Bool)
  | int (value : Int32)
  | bigInt (value : Int64)
  | double (value : ℚ)
  | text (text : String)
  | uuid (text : String)
  | path (text : String)
  | jsonB (json : Value)
  | vector (entries : List ℚ)
  | geometry (json : Value)
  | timestamp (nanos : Int)
  | interval (nanos : Int)
  | parameter (name : String)
  deriving DecidableEq

namespace ExactLiteral

def discriminantValue : ExactLiteral → Nat
  | null => 0
  | boolean _ => 1
  | int _ => 2
  | bigInt _ => 3
  | double _ => 4
  | text _ => 5
  | uuid _ => 6
  | path _ => 7
  | jsonB _ => 8
  | vector _ => 9
  | geometry _ => 10
  | timestamp _ => 11
  | interval _ => 12
  | parameter _ => 13

end ExactLiteral

/-! ## The table of windows and aggregates -/

def compareF64 (a b : ℚ) : Ordering := if a < b then .lt else if b < a then .gt else .eq

/-- The first entries that differ decide, and then the lengths. -/
def compareVectors (a b : List ℚ) : Ordering :=
  ((a.zip b).findSome? fun entries =>
    if entries.1 < entries.2 then some .lt
    else if entries.2 < entries.1 then some .gt
    else none).getD (compare a.length b.length)

/-- The table, which shows JSON as text. -/
def orderLiterals (jsonText : Value → String) (a b : ExactLiteral) : Ordering :=
  match a, b with
  | .null, .null => .eq
  | .null, _ => .lt
  | _, .null => .gt
  | .boolean a, .boolean b => compare a b
  | .int a, .int b => compare a.toInt b.toInt
  | .bigInt a, .bigInt b => compare a.toInt b.toInt
  | .double a, .double b => compareF64 a b
  | .int a, .bigInt b => compare a.toInt b.toInt
  | .bigInt a, .int b => compare a.toInt b.toInt
  | .int a, .double b => compareF64 a.toInt b
  | .bigInt a, .double b => compareF64 a.toInt b
  | .double a, .int b => compareF64 a b.toInt
  | .double a, .bigInt b => compareF64 a b.toInt
  | .text a, .text b => compare a b
  | .path a, .path b => compare a b
  | .uuid a, .uuid b => compare a b
  | .jsonB a, .jsonB b => compare (jsonText a) (jsonText b)
  | .vector a, .vector b => compareVectors a b
  | a, b => compare a.discriminantValue b.discriminantValue

/-! ## A total order up to ties -/

theorem compareF64_eq (a b : ℚ) : compareF64 a b = compare a b := by
  unfold compareF64
  rcases lt_trichotomy a b with less | rfl | more
  · rw [if_pos less, compare_lt_iff_lt.mpr less]
  · rw [if_neg (lt_irrefl a), if_neg (lt_irrefl a), compare_eq_iff_eq.mpr rfl]
  · rw [if_neg (lt_asymm more), if_pos more, compare_gt_iff_gt.mpr more]

theorem compare_succ (m n : Nat) : compare (m + 1) (n + 1) = compare m n := by
  rcases lt_trichotomy m n with less | rfl | more
  · rw [compare_lt_iff_lt.mpr less, compare_lt_iff_lt.mpr (Nat.succ_lt_succ less)]
  · rw [compare_eq_iff_eq.mpr rfl, compare_eq_iff_eq.mpr rfl]
  · rw [compare_gt_iff_gt.mpr more, compare_gt_iff_gt.mpr (Nat.succ_lt_succ more)]

theorem compareVectors_eq (a b : List ℚ) : compareVectors a b = List.compareLex compare a b := by
  induction a generalizing b with
  | nil =>
    cases b with
    | nil => rfl
    | cons entry rest => rfl
  | cons entry rest ih =>
    cases b with
    | nil => rfl
    | cons entry' rest' =>
      have later := ih rest'
      unfold compareVectors at later ⊢
      rw [List.zip_cons_cons, List.findSome?_cons, List.compareLex]
      rcases lt_trichotomy entry entry' with less | rfl | more
      · rw [if_pos less, compare_lt_iff_lt.mpr less]
        rfl
      · rw [if_neg (lt_irrefl entry), if_neg (lt_irrefl entry), compare_eq_iff_eq.mpr rfl,
          ← later, List.length_cons, List.length_cons, compare_succ]
      · rw [if_neg (lt_asymm more), if_pos more, compare_gt_iff_gt.mpr more]
        rfl

theorem compare_cast (a b : Int) : compare (a : ℚ) (b : ℚ) = compare a b := by
  rcases lt_trichotomy a b with less | rfl | more
  · rw [compare_lt_iff_lt.mpr less, compare_lt_iff_lt.mpr (Int.cast_lt.mpr less)]
  · rw [compare_eq_iff_eq.mpr rfl, compare_eq_iff_eq.mpr rfl]
  · rw [compare_gt_iff_gt.mpr more, compare_gt_iff_gt.mpr (Int.cast_lt.mpr more)]

namespace ExactLiteral

/-- The kinds in order, where all numbers are one kind. -/
def kindRank : ExactLiteral → Nat
  | bigInt _ | double _ => 2
  | other => other.discriminantValue

def sortNumber : ExactLiteral → ℚ
  | boolean flag => if flag then 1 else 0
  | int value => value.toInt
  | bigInt value => value.toInt
  | double value => value
  | _ => 0

def sortText (jsonText : Value → String) : ExactLiteral → String
  | text shown | uuid shown | path shown => shown
  | jsonB json => jsonText json
  | _ => ""

def sortEntries : ExactLiteral → List ℚ
  | vector entries => entries
  | _ => []

end ExactLiteral

open ExactLiteral

/-- Kind, number, text and vector, one after the other. -/
def orderOfParts (jsonText : Value → String) : ExactLiteral → ExactLiteral → Ordering :=
  compareLex (compareOn kindRank) (compareLex (compareOn sortNumber)
    (compareLex (compareOn (sortText jsonText)) fun a b =>
      List.compareLex compare a.sortEntries b.sortEntries))

theorem orderLiterals_eq (jsonText : Value → String) (a b : ExactLiteral) :
    orderLiterals jsonText a b = orderOfParts jsonText a b := by
  unfold orderOfParts compareLex compareOn
  cases a <;> cases b
  case boolean.boolean a b => cases a <;> cases b <;> rfl
  all_goals
    first
    | rfl
    | simp [orderLiterals, kindRank, sortNumber, sortText, sortEntries, compareF64_eq,
        compareVectors_eq, compare_cast, discriminantValue, List.compareLex]

instance entriesTransCmp : Std.TransCmp fun a b : ExactLiteral =>
    List.compareLex compare a.sortEntries b.sortEntries where
  eq_swap := by
    intro a b
    exact Std.OrientedCmp.eq_swap
  isLE_trans := by
    intro a b c
    exact Std.TransCmp.isLE_trans

instance orderTransCmp (jsonText : Value → String) : Std.TransCmp (orderLiterals jsonText) := by
  have same : orderLiterals jsonText = orderOfParts jsonText := by
    funext a b
    exact orderLiterals_eq jsonText a b
  rw [same]
  unfold orderOfParts
  infer_instance

/-! ## MIN and MAX -/

/-- One value of MIN (`.lt`) or MAX (`.gt`).  The first of equal values is kept. -/
def updateExtreme {α : Type} (cmp : α → α → Ordering) (wanted : Ordering) (extreme : Option α)
    (value : α) : Option α :=
  match extreme with
  | none => some value
  | some current => if cmp value current = wanted then some value else some current

/-- MIN or MAX of a frame or a group, which passes over NULL. -/
def extremeOf (jsonText : Value → String) (wanted : Ordering) (values : List ExactLiteral) :
    ExactLiteral :=
  ((values.filter fun value => value ≠ .null).foldl (updateExtreme (orderLiterals jsonText) wanted)
    none).getD .null

section Extremes

variable {α : Type} (cmp : α → α → Ordering) [Std.TransCmp cmp]

theorem foldl_updateExtreme (start : α) (values : List α) :
    ∃ least, values.foldl (updateExtreme cmp .lt) (some start) = some least ∧
      (least = start ∨ least ∈ values) ∧ (cmp least start).isLE ∧
        ∀ value ∈ values, (cmp least value).isLE := by
  induction values generalizing start with
  | nil => exact ⟨start, rfl, .inl rfl, Std.ReflCmp.isLE_rfl, fun _ none => nomatch none⟩
  | cons value rest ih =>
    rw [List.foldl_cons, updateExtreme]
    by_cases better : cmp value start = .lt
    · rw [if_pos better]
      obtain ⟨least, folded, from', below, all⟩ := ih value
      refine ⟨least, folded, .inr ?_, ?_, List.forall_mem_cons.mpr ⟨below, all⟩⟩
      · exact from'.elim (fun same => same ▸ List.mem_cons_self) (List.mem_cons_of_mem _)
      · exact Std.TransCmp.isLE_trans below (Ordering.isLE_of_eq_lt better)
    · rw [if_neg better]
      obtain ⟨least, folded, from', below, all⟩ := ih start
      refine ⟨least, folded, from'.imp_right (List.mem_cons_of_mem _), below,
        List.forall_mem_cons.mpr ⟨Std.TransCmp.isLE_trans below ?_, all⟩⟩
      have notLess : (cmp value start).isGE := by
        cases order : cmp value start with
        | lt => exact absurd order better
        | eq => rfl
        | gt => rfl
      exact Std.OrientedCmp.isGE_iff_isLE.mp notLess

/-- MAX is MIN of the turned order. -/
theorem updateExtreme_gt :
    updateExtreme cmp .gt = updateExtreme (fun a b => cmp b a) .lt := by
  funext extreme value
  cases extreme with
  | none => rfl
  | some current =>
    have turned : cmp value current = .gt ↔ cmp current value = .lt := Std.OrientedCmp.gt_iff_lt
    simp only [updateExtreme, turned]

/-- An extreme of values is one of them, and no value lies before it. -/
theorem exists_least {values : List α} (nonempty : values ≠ []) :
    ∃ least ∈ values, values.foldl (updateExtreme cmp .lt) none = some least ∧
      ∀ value ∈ values, (cmp least value).isLE := by
  obtain ⟨start, rest, rfl⟩ := List.exists_cons_of_ne_nil nonempty
  obtain ⟨least, folded, member, below, all⟩ := foldl_updateExtreme cmp start rest
  exact ⟨least, List.mem_cons.mpr member, folded, List.forall_mem_cons.mpr ⟨below, all⟩⟩

end Extremes

/-- MIN and MAX are values that lie before and behind all others that are not NULL. -/
theorem extremeOf_bounds (jsonText : Value → String) {values : List ExactLiteral}
    {value : ExactLiteral} (member : value ∈ values) (present : value ≠ .null) :
    (extremeOf jsonText .lt values ∈ values ∧ extremeOf jsonText .gt values ∈ values) ∧
      (orderLiterals jsonText (extremeOf jsonText .lt values) value).isLE ∧
      (orderLiterals jsonText value (extremeOf jsonText .gt values)).isLE := by
  have kept : value ∈ values.filter fun value => value ≠ .null :=
    List.mem_filter.mpr ⟨member, decide_eq_true present⟩
  have nonempty := List.ne_nil_of_mem kept
  obtain ⟨least, inside, folded, below⟩ :=
    exists_least (orderLiterals jsonText) nonempty
  obtain ⟨greatest, inside', folded', above⟩ :=
    exists_least (fun a b => orderLiterals jsonText b a) nonempty
  unfold extremeOf
  rw [updateExtreme_gt, folded, folded']
  exact ⟨⟨List.mem_of_mem_filter inside, List.mem_of_mem_filter inside'⟩, below value kept,
    above value kept⟩

def mixedValues : List ExactLiteral :=
  [.null, .int 3, .text "b", .double (5 / 2), .null, .bigInt 2, .text "a", .boolean true]

/-- The flag is before and the text behind the numbers. -/
theorem extremes_of_mixed_values :
    extremeOf (fun _ => "") .lt mixedValues = .boolean true ∧
      extremeOf (fun _ => "") .gt mixedValues = .text "b" ∧
      (extremeOf (fun _ => "") .lt mixedValues ∈ mixedValues ∧
        extremeOf (fun _ => "") .gt mixedValues ∈ mixedValues) ∧
      (orderLiterals (fun _ => "") (extremeOf (fun _ => "") .lt mixedValues) (.bigInt 2)).isLE ∧
      (orderLiterals (fun _ => "") (.bigInt 2) (extremeOf (fun _ => "") .gt mixedValues)).isLE :=
  ⟨by decide +kernel, by decide +kernel, extremeOf_bounds (fun _ => "") (by decide) (by decide)⟩

/-! ## The operator `<` -/

inductive OrderError where
  | cannotCompare (left right : ExactLiteral)
  | invalidComparison
  | notTimestamp (text : String)
  deriving DecidableEq

namespace ExactLiteral

def number? : ExactLiteral → Option ℚ
  | int value => some value.toInt
  | bigInt value => some value.toInt
  | double value => some value
  | _ => none

end ExactLiteral

section Less

variable (parseTimestamp : String → Option Int)

def parsedTimestamp (text : String) : Except OrderError Int :=
  match parseTimestamp text with
  | some nanos => .ok nanos
  | none => .error (.notTimestamp text)

/-- The operator on values that are not both numbers. -/
def lessOthers (left right : ExactLiteral) : Except OrderError Bool :=
  match left, right with
  | .text a, .text b | .path a, .path b | .path a, .text b | .text a, .path b =>
      .ok (decide (a < b))
  | .timestamp a, .timestamp b => .ok (decide (a < b))
  | .timestamp a, .text b => do
      let nanos ← parsedTimestamp parseTimestamp b
      return decide (a < nanos)
  | .text a, .timestamp b => do
      let nanos ← parsedTimestamp parseTimestamp a
      return decide (nanos < b)
  | .boolean _, .boolean _ => .error .invalidComparison
  | _, _ => .error (.cannotCompare left right)

def lessLiterals (left right : ExactLiteral) : Except OrderError Bool :=
  match left.number?, right.number? with
  | some a, some b => .ok (decide (a < b))
  | _, _ => lessOthers parseTimestamp left right

/-- NULL makes the comparison unknown. -/
def comparisonLess (left right : ExactLiteral) : Except OrderError (Option Bool) :=
  if left = .null ∨ right = .null then .ok none
  else (lessLiterals parseTimestamp left right).map some

/-- Where the operator answers for two values, the table puts the first one before the second one
exactly when the answer is true. -/
def AgreesAt (jsonText : Value → String) (left right : ExactLiteral) : Prop :=
  ∀ flag, comparisonLess parseTimestamp left right = .ok (some flag) →
    (flag = true ↔ orderLiterals jsonText left right = .lt)

/-- The order of kinds is right for the two values, where the table has no row for them. -/
def KindsAgree : ExactLiteral → ExactLiteral → Prop
  | .timestamp a, .timestamp b => ¬ a < b
  | .path a, .text b => ¬ a < b
  | .text a, .path b => a < b
  | .timestamp a, .text b => ∀ nanos ∈ parseTimestamp b, ¬ a < nanos
  | .text a, .timestamp b => ∀ nanos ∈ parseTimestamp a, nanos < b
  | _, _ => True

variable {parseTimestamp}

theorem compareF64_lt {a b : ℚ} : compareF64 a b = .lt ↔ a < b := by
  rw [compareF64_eq, compare_lt_iff_lt]

theorem compare_text {a b : String} : compare a b = .lt ↔ a < b := compareOfLessAndEq_eq_lt

theorem agreesAt_iff (jsonText : Value → String) (left right : ExactLiteral) :
    AgreesAt parseTimestamp jsonText left right ↔ KindsAgree parseTimestamp left right := by
  have textFirst : compare 5 11 = Ordering.lt := rfl
  have timeFirst : compare 11 5 = Ordering.gt := rfl
  cases left <;> cases right
  case text.timestamp text nanos =>
    cases parsed : parseTimestamp text <;>
      simp [AgreesAt, comparisonLess, lessLiterals, lessOthers, parsedTimestamp, number?,
        KindsAgree, orderLiterals, discriminantValue, parsed, textFirst, Except.map, bind,
        Except.bind, pure, Except.pure]
  case timestamp.text nanos text =>
    cases parsed : parseTimestamp text <;>
      simp [AgreesAt, comparisonLess, lessLiterals, lessOthers, parsedTimestamp, number?,
        KindsAgree, orderLiterals, discriminantValue, parsed, timeFirst, Except.map, bind,
        Except.bind, pure, Except.pure]
  case text.text | path.path =>
    simp [AgreesAt, comparisonLess, lessLiterals, lessOthers, number?, KindsAgree, orderLiterals,
      compare_text, Except.map]
  all_goals
    simp [AgreesAt, comparisonLess, lessLiterals, lessOthers, number?, KindsAgree, orderLiterals,
      discriminantValue, compareF64_lt, compare_lt_iff_lt, Except.map]

end Less

/-! ## Floating-point numbers -/

/-- The literal with the exact values of its finite numbers. -/
def Literal.exactValue? (single : UInt32 → ℚ) : Literal → Option ExactLiteral
  | .null => some .null
  | .boolean flag => some (.boolean flag)
  | .int value => some (.int value)
  | .bigInt value => some (.bigInt value)
  | .double value => value.value?.map .double
  | .text shown => some (.text shown)
  | .uuid shown => some (.uuid shown)
  | .path shown => some (.path shown)
  | .jsonB json => some (.jsonB json)
  | .vector entries => some (.vector (entries.map single))
  | .geometry json => some (.geometry json)
  | .timestamp nanos => some (.timestamp nanos)
  | .interval nanos => some (.interval nanos)
  | .parameter name => some (.parameter name)

/-- A double holds the literal, if it is an integer. -/
def Literal.Narrow : Literal → Prop
  | .bigInt value => |value.toInt| ≤ 2 ^ 53
  | _ => True

section Exact

variable {single : UInt32 → ℚ} {literal : Literal} {exact : ExactLiteral}

theorem int32_narrow (value : Int32) : |value.toInt| ≤ 2 ^ 53 := by
  have low := value.le_toInt
  have high := value.toInt_lt
  rw [abs_le]
  constructor <;> omega

theorem exact_double {number : Binary64}
    (read : (Literal.double number).exactValue? single = some exact) :
    ∃ value, number.value? = some value ∧ .double value = exact :=
  Option.map_eq_some_iff.mp read

theorem exact_number (read : literal.exactValue? single = some exact) (narrow : literal.Narrow) :
    (literal.isNumeric = false ∧ exact.number? = none) ∨
      literal.isNumeric = true ∧ ∃ number value, literalToNumber literal = .ok number ∧
        number.value? = some value ∧ exact.number? = some value := by
  cases literal
  case int value =>
    cases read
    exact .inr ⟨rfl, _, _, rfl, Binary64.value_ofInt (int32_narrow value), rfl⟩
  case bigInt value =>
    cases read
    exact .inr ⟨rfl, _, _, rfl, Binary64.value_ofInt narrow, rfl⟩
  case double number =>
    obtain ⟨value, finite, rfl⟩ := exact_double read
    exact .inr ⟨rfl, number, value, rfl, finite, rfl⟩
  all_goals
    cases read
    exact .inl ⟨rfl, rfl⟩

theorem parsed_bind (parseTimestamp : String → Option Int) (text : String) (flag : Bool)
    (test : Int → Bool) (compared : Int → Except EvalError Bool)
    (same : ∀ nanos, compared nanos = .ok (test nanos)) :
    (parsed parseTimestamp text >>= compared) = .ok flag ↔
      (parsedTimestamp parseTimestamp text >>= fun nanos => pure (test nanos)) = .ok flag := by
  unfold parsed parsedTimestamp
  cases parseTimestamp text with
  | none => exact iff_of_false nofun nofun
  | some nanos => simp [bind, Except.bind, pure, Except.pure, same]

theorem compareLiterals_others (parseTimestamp : String → Option Int) {left right : Literal}
    {x y : ExactLiteral} (readLeft : left.exactValue? single = some x)
    (readRight : right.exactValue? single = some y)
    (others : (left.isNumeric && right.isNumeric) = false) (flag : Bool) :
    compareLiterals parseTimestamp left right .lt = .ok flag ∧
        (left.isNull || right.isNull) = false ↔ lessOthers parseTimestamp x y = .ok flag := by
  cases left
  case double number =>
    obtain ⟨value, finite, rfl⟩ := exact_double readLeft
    cases right
    case double number => cases others
    all_goals
      cases readRight
      simp [compareLiterals, lessOthers, Literal.isNull, others]
  all_goals
    cases readLeft
    cases right
    case double number =>
      obtain ⟨value, finite, rfl⟩ := exact_double readRight
      simp [compareLiterals, lessOthers, Literal.isNull, others]
    all_goals cases readRight
  case text.refl.timestamp.refl text nanos =>
    simpa [compareLiterals, lessOthers, Literal.isNull, others] using
      parsed_bind parseTimestamp text flag (fun time => decide (time < nanos))
        (fun time => compareTimestamps .lt time nanos) fun time => rfl
  case timestamp.refl.text.refl nanos text =>
    simpa [compareLiterals, lessOthers, Literal.isNull, others] using
      parsed_bind parseTimestamp text flag (fun time => decide (nanos < time))
        (fun time => compareTimestamps .lt nanos time) fun time => rfl
  all_goals
    simp [compareLiterals, lessOthers, Literal.isNull, others, compareTexts, compareTimestamps,
      compareBooleans, compareBy]

theorem isNull_of_isNumeric (number : literal.isNumeric = true) : literal.isNull = false := by
  cases literal <;> first | rfl | cases number

theorem comparisonOp_eq_iff (parseTimestamp : String → Option Int) (left right : Literal)
    (flag : Bool) :
    comparisonOp parseTimestamp left .lt right = .ok (.boolean flag) ↔
      compareLiterals parseTimestamp left right .lt = .ok flag ∧
        (left.isNull || right.isNull) = false := by
  unfold comparisonOp
  cases null : left.isNull || right.isNull with
  | true => exact iff_of_false nofun nofun
  | false =>
    cases compareLiterals parseTimestamp left right .lt <;>
      simp [bind, Except.bind, pure, Except.pure]

theorem comparisonLess_eq_iff (parseTimestamp : String → Option Int) (left right : ExactLiteral)
    (flag : Bool) :
    comparisonLess parseTimestamp left right = .ok (some flag) ↔
      lessLiterals parseTimestamp left right = .ok flag := by
  unfold comparisonLess
  split_ifs with null
  · refine iff_of_false nofun ?_
    rcases null with rfl | rfl
    · cases right <;> nofun
    · cases left <;> nofun
  · cases lessLiterals parseTimestamp left right <;> simp [Except.map]

/-- On literals that a double holds, the operator answers as it does on the exact values. -/
theorem comparisonOp_exact (parseTimestamp : String → Option Int) {left right : Literal}
    {x y : ExactLiteral} (readLeft : left.exactValue? single = some x)
    (readRight : right.exactValue? single = some y) (narrowLeft : left.Narrow)
    (narrowRight : right.Narrow) (flag : Bool) :
    comparisonOp parseTimestamp left .lt right = .ok (.boolean flag) ↔
      comparisonLess parseTimestamp x y = .ok (some flag) := by
  rw [comparisonOp_eq_iff, comparisonLess_eq_iff]
  have others := compareLiterals_others parseTimestamp readLeft readRight
  unfold lessLiterals
  rcases exact_number readLeft narrowLeft with
    ⟨noNumber, none⟩ | ⟨isNumber, p, a, read, held, value⟩
  · rw [none]
    exact others (by rw [noNumber, Bool.false_and]) flag
  · rcases exact_number readRight narrowRight with
      ⟨noNumber, none⟩ | ⟨isNumber', q, b, read', held', value'⟩
    · rw [none, value]
      exact others (by rw [noNumber, Bool.and_false]) flag
    · rw [value, value']
      have present : (left.isNull || right.isNull) = false := by
        rw [isNull_of_isNumeric isNumber, isNull_of_isNumeric isNumber', Bool.or_self]
      have answer : compareNumbers .lt p q = .ok (decide (a < b)) :=
        congrArg Except.ok (Binary64.less_of_values held held')
      simp [compareLiterals, present, isNumber, isNumber', read, read', answer, bind, Except.bind]

end Exact

theorem one_below_two :
    comparisonOp (fun _ => none) (.int 1) .lt (.bigInt 2) = .ok (.boolean true) ↔
      comparisonLess (fun _ => none) (.int 1) (.bigInt 2) = .ok (some true) :=
  @comparisonOp_exact (fun _ => 0) (fun _ => none) (.int 1) (.bigInt 2) _ _ rfl rfl trivial
    (by unfold Literal.Narrow; decide) true

/-! ## One order -/

/-- The table is a total order up to ties.  It agrees with the operator `<` exactly on the values
for which the order of kinds does. -/
theorem literal_order_agrees_iff (jsonText : Value → String)
    (parseTimestamp : String → Option Int) :
    (∀ a b, orderLiterals jsonText b a = (orderLiterals jsonText a b).swap) ∧
      (∀ a b c, (orderLiterals jsonText a b).isLE → (orderLiterals jsonText b c).isLE →
        (orderLiterals jsonText a c).isLE) ∧
      ∀ a b, AgreesAt parseTimestamp jsonText a b ↔ KindsAgree parseTimestamp a b := by
  refine ⟨fun a b => Std.OrientedCmp.eq_swap, fun a b c first second => ?_, fun a b =>
    agreesAt_iff jsonText a b⟩
  exact Std.TransCmp.isLE_trans first second

theorem timestamps_tied :
    ¬ ∀ (jsonText : Value → String) (parseTimestamp : String → Option Int) (a b : ExactLiteral),
      AgreesAt parseTimestamp jsonText a b := by
  intro all
  have agrees := all (fun _ => "") (fun _ => none) (.timestamp 0) (.timestamp 1) true (by decide)
  exact absurd (agrees.mp rfl) (by decide)

end RaisinDB.Sql
