import RaisinDB.Foundation.JsonText
import RaisinDB.Sql.JoinExecution

/-!
# Semi joins

`x IN (subquery)` is executed with a set of keys: the texts of the inner values, each behind the
name of its type.  The list form compares `x` with the values one after the other, in three-valued
logic and across types.
-/

namespace RaisinDB.Sql

open List RaisinDB.Foundation

/-- How the libraries display the values that have no text of their own here. -/
structure DisplayFormat where
  double : Binary64 → List Char
  timestamp : Int → List Char
  interval : Int → List Char
  geometry : Value → List Char
  vector : List UInt32 → List Char
  double_injective : ∀ x y, double x = double y → x = y
  timestamp_injective : ∀ x y, timestamp x = timestamp y → x = y

/-! ## Execution -/

section Execution

variable (engine : Engine) (format : DisplayFormat)

/-- The type of a value, as its key begins with. -/
def Literal.keyWord : Literal → String
  | .null => "NULL"
  | .boolean _ => "BOOL"
  | .int _ => "INT"
  | .bigInt _ => "BIGINT"
  | .double _ => "DOUBLE"
  | .text _ => "TEXT"
  | .uuid _ => "UUID"
  | .path _ => "PATH"
  | .timestamp _ => "TS"
  | .interval _ => "INTERVAL"
  | .jsonB _ => "JSON"
  | .geometry _ => "GEOM"
  | .vector _ => "VEC"
  | .parameter _ => "PARAM"

/-- The value as it is written behind its type. -/
def Literal.keyText : Literal → List Char
  | .null => []
  | .boolean flag => boolChars flag
  | .int value => (toString value.toInt).toList
  | .bigInt value => (toString value.toInt).toList
  | .double value => format.double value
  | .text body | .uuid body | .path body => body.toList
  | .timestamp nanos => format.timestamp nanos
  | .interval nanos => format.interval nanos
  | .jsonB json => json.chars
  | .geometry json => format.geometry json
  | .vector entries => format.vector entries
  | .parameter name => name.toList

def valueToHashKey (value : Literal) : String :=
  match value with
  | .null => "NULL"
  | value => String.ofList (value.keyWord.toList ++ ':' :: value.keyText format)

/-- The values of an expression on the rows of one side. -/
def keyValues (key : TypedExpr) : List Row → Except EvalError (List Literal)
  | [] => .ok []
  | row :: rest => do
      let value ← evalExpr engine row key
      let values ← keyValues key rest
      return value :: values

/-- The rows of the outer side whose key is in the set, or is not. -/
def probe (key : TypedExpr) (anti : Bool) (keys : List String) :
    List Row → Except EvalError (List Row)
  | [] => .ok []
  | row :: rest => do
      let value ← evalExpr engine row key
      let keyExists := keys.contains (valueToHashKey format value)
      let kept ← probe key anti keys rest
      return if keyExists != anti then row :: kept else kept

def executeHashSemiJoin (leftKey rightKey : TypedExpr) (anti : Bool) (left right : List Row) :
    Except EvalError (List Row) := do
  let inner ← keyValues engine rightKey right
  probe engine format leftKey anti (inner.map (valueToHashKey format)) left

end Execution

/-! ## Keys -/

section Keys

variable {engine : Engine} {format : DisplayFormat}

/-- Two values of one type with one text. -/
def Identical (format : DisplayFormat) (left right : Literal) : Prop :=
  left.keyWord = right.keyWord ∧ left.keyText format = right.keyText format

theorem not_mem_keyWord (value : Literal) : ':' ∉ value.keyWord.toList := by
  cases value <;> simp only [Literal.keyWord] <;> decide

theorem keyWord_ne_null {value : Literal} (some : value ≠ .null) : value.keyWord ≠ "NULL" := by
  cases value with
  | null => exact absurd rfl some
  | _ => simp only [Literal.keyWord]; decide

theorem valueToHashKey_of_ne {value : Literal} (some : value ≠ .null) :
    valueToHashKey format value =
      String.ofList (value.keyWord.toList ++ ':' :: value.keyText format) := by
  cases value with
  | null => exact absurd rfl some
  | _ => rfl

theorem colon_mem_key {value : Literal} (some : value ≠ .null) :
    ':' ∈ (valueToHashKey format value).toList := by
  rw [valueToHashKey_of_ne some, String.toList_ofList]
  exact mem_append_right _ mem_cons_self

theorem colon_not_mem_null : ':' ∉ (valueToHashKey format .null).toList := by
  simp only [valueToHashKey]
  decide

theorem valueToHashKey_eq_iff {left right : Literal} :
    valueToHashKey format left = valueToHashKey format right ↔ Identical format left right := by
  by_cases noLeft : left = .null
  · subst noLeft
    by_cases noRight : right = .null
    · subst noRight
      exact iff_of_true rfl ⟨rfl, rfl⟩
    · refine iff_of_false ?_ fun same => keyWord_ne_null noRight same.1.symm
      exact fun same => colon_not_mem_null (same ▸ colon_mem_key noRight)
  by_cases noRight : right = .null
  · subst noRight
    refine iff_of_false ?_ fun same => keyWord_ne_null noLeft same.1
    exact fun same => colon_not_mem_null (same ▸ colon_mem_key noLeft)
  rw [valueToHashKey_of_ne noLeft, valueToHashKey_of_ne noRight, String.ofList_inj]
  constructor
  · intro same
    obtain ⟨words, texts⟩ := split_at_first (not_mem_keyWord left) (not_mem_keyWord right) same
    exact ⟨String.toList_inj.mp words, texts⟩
  · rintro ⟨words, texts⟩
    rw [words, texts]

end Keys

/-! ## The list form -/

section List

variable (engine : Engine)

/-- `x IN (v1, v2, …)`, or NOT IN, with the inner values written out. -/
def inValues (key : TypedExpr) (inner : List Literal) (negated : Bool) : TypedExpr :=
  .inList key (inner.map fun value => .literal value value.dataType) negated .boolean

/-- Is the list form true on a row? -/
def keptByList (key : TypedExpr) (inner : List Literal) (negated : Bool) (row : Row) : Bool :=
  evalExpr engine row (inValues key inner negated) = .ok (.boolean true)

/-- The evaluator finds the two values equal. -/
def Matches (value item : Literal) : Prop :=
  comparisonOp engine.parseTimestamp value .eq item = .ok (.boolean true)

/-- The evaluator finds the two values different. -/
def Differs (value item : Literal) : Prop :=
  comparisonOp engine.parseTimestamp value .eq item = .ok (.boolean false)

def Comparable (value item : Literal) : Prop :=
  ∃ answer, comparisonOp engine.parseTimestamp value .eq item = .ok answer

/-- An equal value stands before all that cannot be compared. -/
def Found (value : Literal) (inner : List Literal) : Prop :=
  ∃ before item after, inner = before ++ item :: after ∧ Matches engine value item ∧
    ∀ other ∈ before, Comparable engine value other

variable {engine}

theorem comparison_cases (engine : Engine) (value item : Literal) :
    (∃ refused, comparisonOp engine.parseTimestamp value .eq item = .error refused) ∨
      comparisonOp engine.parseTimestamp value .eq item = .ok .null ∨
        Matches engine value item ∨ Differs engine value item := by
  unfold Matches Differs comparisonOp
  split_ifs
  · exact .inr (.inl rfl)
  · cases literalsEqual engine.parseTimestamp value item with
    | error refused => exact .inl ⟨refused, rfl⟩
    | ok equal => cases equal <;> simp [bind, Except.bind, pure, Except.pure]

theorem found_cons {value item : Literal} {rest : List Literal} :
    Found engine value (item :: rest) ↔
      Matches engine value item ∨ Comparable engine value item ∧ Found engine value rest := by
  constructor
  · rintro ⟨before, equal, after, split, same, comparable⟩
    cases before with
    | nil => exact .inl ((cons.inj split).1 ▸ same)
    | cons first before =>
      obtain ⟨rfl, rfl⟩ := cons.inj split
      exact .inr ⟨comparable _ mem_cons_self, before, equal, after, rfl, same,
        fun other mem => comparable other (mem_cons_of_mem _ mem)⟩
  · rintro (same | ⟨comparable, before, equal, after, rfl, same, others⟩)
    · exact ⟨[], item, rest, rfl, same, fun _ mem => (nomatch mem)⟩
    · refine ⟨item :: before, equal, after, rfl, same, ?_⟩
      intro other mem
      rcases mem_cons.mp mem with rfl | old
      · exact comparable
      · exact others other old

/-- One item of the list that can be compared. -/
theorem evalInList_item (row : Row) {value result item answer : Literal} (rest : List TypedExpr)
    (compared : comparisonOp engine.parseTimestamp value .eq item = .ok answer) :
    evalInList engine row value result (.literal item item.dataType :: rest) =
      (logicalOr result answer).bind fun result =>
        if result = .boolean true then .ok result
        else evalInList engine row value result rest := by
  simp only [evalInList, evalExpr, inListStep, bind, Except.bind, compared]
  rfl

/-- The comparisons of the list, from a result that is false or unknown so far. -/
theorem evalInList_values (row : Row) (value : Literal) (inner : List Literal) {result : Literal}
    (undecided : result = .boolean false ∨ result = .null) :
    (evalInList engine row value result
        (inner.map fun item => .literal item item.dataType) = .ok (.boolean true) ↔
      Found engine value inner) ∧
    (evalInList engine row value result
        (inner.map fun item => .literal item item.dataType) = .ok (.boolean false) ↔
      result = .boolean false ∧ ∀ item ∈ inner, Differs engine value item) := by
  induction inner generalizing result with
  | nil =>
    constructor
    · refine iff_of_false ?_ ?_
      · rcases undecided with rfl | rfl <;> simp [evalInList]
      · rintro ⟨before, item, after, split, -⟩
        simp at split
    · simp [evalInList]
  | cons item rest ih =>
    rw [map_cons, found_cons, forall_mem_cons]
    rcases comparison_cases engine value item with
      ⟨refused, error⟩ | unknown | same | other
    · have fails : ∀ items, evalInList engine row value result
          (.literal item item.dataType :: items) = .error refused := by
        intro items
        simp only [evalInList, evalExpr, inListStep, bind, Except.bind, error]
      simp [fails, Matches, Comparable, Differs, error]
    · have next := @ih .null (.inr rfl)
      have step : logicalOr result .null = .ok .null := by
        rcases undecided with rfl | rfl <;> rfl
      rw [evalInList_item row _ unknown, step]
      simpa [Matches, Comparable, Differs, unknown, Except.bind] using next
    · have step : logicalOr result (.boolean true) = .ok (.boolean true) := by
        rcases undecided with rfl | rfl <;> rfl
      rw [evalInList_item row _ same, step]
      have equal := same
      unfold Matches at equal
      simp [same, Differs, equal, Except.bind]
    · have next := ih undecided
      have step : logicalOr result (.boolean false) = .ok result := by
        rcases undecided with rfl | rfl <;> rfl
      have open' : result ≠ .boolean true := by
        rcases undecided with rfl | rfl <;> simp
      rw [evalInList_item row _ other, step]
      have differs := other
      unfold Differs at differs
      simpa [other, Matches, Comparable, differs, Except.bind, open'] using next

theorem evalExpr_inValues {key : TypedExpr} {row : Row} {value : Literal}
    (evaluated : evalExpr engine row key = .ok value) (inner : List Literal) (negated : Bool) :
    evalExpr engine row (inValues key inner negated) =
      (evalInList engine row value (.boolean false)
        (inner.map fun item => .literal item item.dataType)).map (negatedIn negated) := by
  rw [inValues, evalExpr, evaluated]
  rfl

theorem negatedIn_true {negated : Bool} {outcome : Outcome} :
    outcome.map (negatedIn negated) = .ok (.boolean true) ↔ outcome = .ok (.boolean !negated) := by
  cases outcome with
  | error refused => simp [Except.map]
  | ok result =>
    cases result with
    | boolean found => cases found <;> cases negated <;> simp [Except.map, negatedIn]
    | _ => simp [Except.map, negatedIn]

/-- The list form is true exactly when an equal value is found. -/
theorem keptByList_in {key : TypedExpr} {row : Row} {value : Literal}
    (evaluated : evalExpr engine row key = .ok value) (inner : List Literal) :
    keptByList engine key inner false row = true ↔ Found engine value inner := by
  rw [keptByList, decide_eq_true_iff, evalExpr_inValues evaluated, negatedIn_true]
  exact (evalInList_values row value inner (.inl rfl)).1

/-- Its negation is true exactly when every value is different. -/
theorem keptByList_notIn {key : TypedExpr} {row : Row} {value : Literal}
    (evaluated : evalExpr engine row key = .ok value) (inner : List Literal) :
    keptByList engine key inner true row = true ↔ ∀ item ∈ inner, Differs engine value item := by
  rw [keptByList, decide_eq_true_iff, evalExpr_inValues evaluated, negatedIn_true]
  exact (evalInList_values row value inner (.inl rfl)).2.trans (and_iff_right rfl)

end List

/-! ## Types and spellings -/

section Spellings

variable (engine : Engine)

/-- The types that an equality compares with one another. -/
def typesCompare : Literal → Literal → Bool
  | .boolean _, .boolean _ | .timestamp _, .timestamp _ | .jsonB _, .jsonB _ => true
  | .text _, .text _ | .uuid _, .uuid _ | .path _, .path _ => true
  | .text _, .uuid _ | .uuid _, .text _ | .text _, .path _ | .path _, .text _ => true
  | .text _, .timestamp _ | .timestamp _, .text _ => true
  | left, right => left.isNumeric && right.isNumeric

/-- The item is NULL or of a type that the value is compared with. -/
def Read (value item : Literal) : Prop := item = .null ∨ typesCompare value item = true

/-- One value in two types or in two spellings: a text that is also a uuid or a path, or the text of
an instant, two numbers closer than the rounding of 1, and JSON up to the order of members and the
sign of a zero. -/
def Respelled : Literal → Literal → Prop
  | .text left, .uuid right | .uuid left, .text right => left = right
  | .text left, .path right | .path left, .text right => left = right
  | .text body, .timestamp nanos | .timestamp nanos, .text body =>
      engine.parseTimestamp body = some nanos
  | .jsonB left, .jsonB right => left ≠ right ∧ jsonEq left right = true
  | .double left, .double right => left ≠ right ∧ left.closeTo right = true
  | .int left, .bigInt right => (Binary64.ofInt left.toInt).closeTo (.ofInt right.toInt) = true
  | .bigInt left, .int right => (Binary64.ofInt left.toInt).closeTo (.ofInt right.toInt) = true
  | .int left, .double right => (Binary64.ofInt left.toInt).closeTo right = true
  | .bigInt left, .double right => (Binary64.ofInt left.toInt).closeTo right = true
  | .double left, .int right => left.closeTo (.ofInt right.toInt) = true
  | .double left, .bigInt right => left.closeTo (.ofInt right.toInt) = true
  | _, _ => False

/-- Values that equal themselves: not NULL, no double that is not finite, and of a type that is
compared at all. -/
def equalsItself : Literal → Bool
  | .double value => value.value?.isSome
  | .null | .interval _ | .geometry _ | .vector _ | .parameter _ => false
  | _ => true

/-- The JSON of a value is spelled as serde writes it. -/
def SerdeJson (value : Literal) : Prop := ∀ json, value = .jsonB json → json.WellSpelled

mutual

theorem jsonEq_self (value : Value) (spelled : value.WellSpelled) : jsonEq value value = true := by
  cases value with
  | array items =>
    rw [jsonEq]
    exact jsonItemsEq_self items spelled
  | object members =>
    rw [jsonEq, beq_self_eq_true, Bool.true_and]
    exact jsonMembersIn_self members members spelled.2 fun member mem =>
      Value.lookup_of_nodup spelled.1 mem
  | _ => simp [jsonEq, numbersEq]

theorem jsonItemsEq_self (items : List Value) (spelled : Value.ItemsWellSpelled items) :
    jsonItemsEq items items = true := by
  match items with
  | [] => rfl
  | item :: rest =>
    rw [jsonItemsEq, jsonEq_self item spelled.1, jsonItemsEq_self rest spelled.2]
    rfl

theorem jsonMembersIn_self (members all : List (String × Value))
    (spelled : Value.FieldsWellSpelled members)
    (found : ∀ member ∈ members, Value.lookup member.1 all = some member.2) :
    jsonMembersIn members all = true := by
  match members with
  | [] => rfl
  | (key, value) :: rest =>
    rw [forall_mem_cons] at found
    rw [jsonMembersIn, found.1]
    simp only [jsonEq_self value spelled.1, Bool.true_and]
    exact jsonMembersIn_self rest all spelled.2 found.2

end

variable {engine} {format : DisplayFormat}

theorem comparable_iff {value item : Literal} (some : value ≠ .null) :
    Comparable engine value item ↔ Read value item := by
  unfold Comparable comparisonOp Read
  cases value <;> cases item <;>
    simp [literalsEqual, typesCompare, Literal.isNull, Literal.isNumeric, literalToNumber, bind,
      Except.bind, pure, Except.pure] at some ⊢
  all_goals cases engine.parseTimestamp _ <;> simp

theorem not_matches {value : Literal} (never : equalsItself value = false) (item : Literal) :
    ¬Matches engine value item := by
  unfold Matches comparisonOp
  cases value with
  | double value =>
    have far (other : Binary64) : value.closeTo other = false := by
      by_contra close
      have finite := Binary64.value?_of_closeTo (Bool.eq_true_of_not_eq_false close)
      simp [equalsItself] at never
      simp [never] at finite
    cases item <;>
      simp [literalsEqual, Literal.isNull, Literal.isNumeric, literalToNumber, far, bind,
        Except.bind, pure, Except.pure]
  | null | interval | geometry | vector | parameter =>
    cases item <;> simp [literalsEqual, Literal.isNull, Literal.isNumeric, bind, Except.bind]
  | _ => cases never

theorem boolChars_inj {left right : Bool} (same : boolChars left = boolChars right) :
    left = right := by
  revert left right
  decide

/-- A value of a type that is compared is told by its type and its text. -/
theorem identical_iff {value item : Literal} (itself : equalsItself value = true)
    (json : SerdeJson value) (json' : SerdeJson item) :
    Identical format value item ↔ value = item := by
  refine ⟨?_, fun same => same ▸ ⟨rfl, rfl⟩⟩
  rintro ⟨types, texts⟩
  cases value <;> try (cases itself; done)
  all_goals cases item <;> try (simp [Literal.keyWord] at types; done)
  case boolean.boolean => rw [boolChars_inj texts]
  case int.int => rw [Int32.toInt_inj.mp (Int.repr_injective (String.toList_inj.mp texts))]
  case bigInt.bigInt => rw [Int64.toInt_inj.mp (Int.repr_injective (String.toList_inj.mp texts))]
  case double.double => rw [format.double_injective _ _ texts]
  case timestamp.timestamp => rw [format.timestamp_injective _ _ texts]
  case jsonB.jsonB => rw [Value.chars_inj (json _ rfl) (json' _ rfl) texts]
  all_goals rw [String.toList_inj.mp texts]

/-- A value that equals itself is found equal to itself, and to it in other spellings. -/
theorem matches_iff {value item : Literal} (itself : equalsItself value = true)
    (json : SerdeJson value) (json' : SerdeJson item) :
    Matches engine value item ↔ Identical format value item ∨ Respelled engine value item := by
  rw [identical_iff itself json json']
  unfold Matches comparisonOp
  cases value <;> try (cases itself; done)
  all_goals cases item <;>
    simp [literalsEqual, Respelled, Literal.isNull, Literal.isNumeric, literalToNumber, bind,
      Except.bind, pure, Except.pure]
  case double.double value item =>
    by_cases same : value = item
    · simpa [same] using Binary64.closeTo_self (same ▸ itself)
    · simp [same]
  case jsonB.jsonB value item =>
    by_cases same : value = item
    · simpa [same] using jsonEq_self item (json' _ rfl)
    · simp [same]
  all_goals cases engine.parseTimestamp _ <;> simp
  all_goals exact eq_comm

theorem differs_iff {value item : Literal} (some : value ≠ .null) :
    Differs engine value item ↔
      item ≠ .null ∧ typesCompare value item = true ∧ ¬Matches engine value item := by
  by_cases none : item = .null
  · simp [Differs, comparisonOp, none, Literal.isNull]
  have read : Comparable engine value item ↔ Read value item := comparable_iff some
  rw [Read, or_iff_right none] at read
  rw [and_iff_right none, ← read]
  rcases comparison_cases engine value item with ⟨refused, error⟩ | unknown | same | other
  · simp [Differs, Comparable, error]
  · refine absurd unknown ?_
    unfold comparisonOp
    rw [if_neg (by cases value <;> cases item <;> simp_all [Literal.isNull])]
    cases literalsEqual engine.parseTimestamp value item <;>
      simp [bind, Except.bind, pure, Except.pure]
  · refine iff_of_false ?_ fun parts => parts.2 same
    unfold Matches at same
    simp [Differs, same]
  · refine iff_of_true other ⟨⟨_, other⟩, ?_⟩
    unfold Differs at other
    simp [Matches, other]

end Spellings

/-! ## Agreement -/

section Agreement

variable (engine : Engine) (format : DisplayFormat)

/-- When a semi join keeps a row with this key like the list form.  The join finds NULL among the
inner values, and nothing but values of the same type with the same text. -/
def SemiAgrees (value : Literal) (inner : List Literal) : Prop :=
  if value = .null then .null ∉ inner
  else if equalsItself value then
    ((∃ item ∈ inner, Identical format value item) →
      ∃ before item after, inner = before ++ item :: after ∧
        (Identical format value item ∨ Respelled engine value item) ∧
        ∀ other ∈ before, Read value other) ∧
    ((∀ item ∈ inner, ¬Identical format value item) →
      ∀ before item after, inner = before ++ item :: after → Respelled engine value item →
        ∃ other ∈ before, ¬Read value other)
  else ∀ item ∈ inner, ¬Identical format value item

/-- When an anti join keeps a row with this key like the list form. -/
def AntiAgrees (value : Literal) (inner : List Literal) : Prop :=
  if value = .null then inner = [] ∨ .null ∈ inner
  else if equalsItself value then
    (∃ item ∈ inner, Identical format value item) ∨
      ∀ item ∈ inner, item ≠ .null ∧ typesCompare value item = true ∧ ¬Respelled engine value item
  else
    (∃ item ∈ inner, Identical format value item) ↔
      ∃ item ∈ inner, item = .null ∨ typesCompare value item = false

def Agrees (anti : Bool) (value : Literal) (inner : List Literal) : Prop :=
  if anti then AntiAgrees engine format value inner else SemiAgrees engine format value inner

variable {engine format}

theorem not_matches_null (item : Literal) : ¬Matches engine .null item := by
  simp [Matches, comparisonOp, Literal.isNull]

theorem not_differs_null (item : Literal) : ¬Differs engine .null item := by
  simp [Differs, comparisonOp, Literal.isNull]

theorem identical_null {item : Literal} : Identical format .null item ↔ item = .null := by
  constructor
  · intro same
    by_contra some
    exact keyWord_ne_null some same.1.symm
  · rintro rfl
    exact ⟨rfl, rfl⟩

section Lists

variable {value : Literal} {inner : List Literal} (json : SerdeJson value)
  (json' : ∀ item ∈ inner, SerdeJson item)

include json json'

theorem semiAgrees_iff :
    SemiAgrees engine format value inner ↔
      ((∃ item ∈ inner, Identical format value item) ↔ Found engine value inner) := by
  unfold SemiAgrees
  split_ifs with none itself
  · subst none
    have nothing : ¬Found engine .null inner := by
      rintro ⟨before, item, after, -, same, -⟩
      exact not_matches_null item same
    simp [nothing, identical_null]
  · have found {before after : List Literal} {item : Literal}
        (split : inner = before ++ item :: after) :
        Matches engine value item ↔ Identical format value item ∨ Respelled engine value item :=
      matches_iff itself json (json' item (split ▸ mem_append_right before mem_cons_self))
    constructor
    · rintro ⟨reached, hidden⟩
      constructor
      · intro identical
        obtain ⟨before, item, after, split, same, read⟩ := reached identical
        exact ⟨before, item, after, split, (found split).mpr same,
          fun other mem => (comparable_iff none).mpr (read other mem)⟩
      · rintro ⟨before, item, after, split, same, comparable⟩
        by_contra missing
        have mem : item ∈ inner := split ▸ mem_append_right before mem_cons_self
        have absent : ∀ item ∈ inner, ¬Identical format value item :=
          fun item mem identical => missing ⟨item, mem, identical⟩
        have respelled := ((found split).mp same).resolve_left (absent item mem)
        obtain ⟨other, early, unread⟩ := hidden absent before item after split respelled
        exact unread ((comparable_iff none).mp (comparable other early))
    · intro same
      constructor
      · intro identical
        obtain ⟨before, item, after, split, equal, comparable⟩ := same.mp identical
        exact ⟨before, item, after, split, (found split).mp equal,
          fun other mem => (comparable_iff none).mp (comparable other mem)⟩
      · intro absent before item after split respelled
        by_contra hidden
        obtain ⟨other, mem, identical⟩ := same.mpr ⟨before, item, after, split,
          (found split).mpr (Or.inr respelled), fun other mem => by
            by_contra unread
            exact hidden ⟨other, mem, fun read => unread ((comparable_iff none).mpr read)⟩⟩
        exact absent other mem identical
  · have nothing : ¬Found engine value inner := by
      rintro ⟨before, item, after, -, same, -⟩
      exact not_matches (by simpa using itself) item same
    simp [nothing]

theorem antiAgrees_iff :
    AntiAgrees engine format value inner ↔
      ((∃ item ∈ inner, Identical format value item) ↔
        ∃ item ∈ inner, ¬Differs engine value item) := by
  unfold AntiAgrees
  split_ifs with none itself
  · subst none
    simp only [identical_null, exists_eq_right, not_differs_null, not_false_eq_true, and_true]
    cases inner with
    | nil => simp
    | cons item rest => simp
  · have found {item : Literal} (mem : item ∈ inner) :
        Matches engine value item ↔ Identical format value item ∨ Respelled engine value item :=
      matches_iff itself json (json' item mem)
    by_cases present : ∃ item ∈ inner, Identical format value item
    · obtain ⟨item, mem, identical⟩ := id present
      refine iff_of_true (Or.inl present) (iff_of_true present ⟨item, mem, fun differs => ?_⟩)
      exact ((differs_iff none).mp differs).2.2 ((found mem).mpr (Or.inl identical))
    · have absent {item : Literal} (mem : item ∈ inner) : ¬Identical format value item :=
        fun identical => present ⟨item, mem, identical⟩
      rw [or_iff_right present, iff_false_left present, not_exists]
      refine forall_congr' fun item => ?_
      rw [not_and, not_not]
      refine forall_congr' fun mem => ?_
      rw [differs_iff none, found mem, or_iff_right (absent mem)]
  · refine iff_congr Iff.rfl (exists_congr fun item => and_congr_right fun _ => ?_)
    have never : ¬Matches engine value item := not_matches (by simpa using itself) item
    rw [differs_iff none, and_iff_left never, not_and_or, not_not, Bool.not_eq_true]

end Lists

theorem contains_key_iff (format : DisplayFormat) (value : Literal) (inner : List Literal) :
    (inner.map (valueToHashKey format)).contains (valueToHashKey format value) = true ↔
      ∃ item ∈ inner, Identical format value item := by
  rw [contains_iff_mem, mem_map]
  refine exists_congr fun item => and_congr_right fun _ => ?_
  rw [eq_comm, valueToHashKey_eq_iff]

/-- Whether one row is kept alike. -/
theorem agrees_iff (format : DisplayFormat) {key : TypedExpr} {row : Row} {value : Literal}
    (evaluated : evalExpr engine row key = .ok value) (anti : Bool) {inner : List Literal}
    (json : SerdeJson value) (json' : ∀ item ∈ inner, SerdeJson item) :
    ((inner.map (valueToHashKey format)).contains (valueToHashKey format value) != anti) =
        keptByList engine key inner anti row ↔
      Agrees engine format anti value inner := by
  have kept := contains_key_iff format value inner
  cases anti with
  | false =>
    rw [Bool.bne_false, Bool.eq_iff_iff, kept, keptByList_in evaluated]
    exact (semiAgrees_iff json json').symm
  | true =>
    rw [Bool.bne_true, Bool.eq_iff_iff, Bool.not_eq_true', ← Bool.not_eq_true, kept,
      keptByList_notIn evaluated]
    refine Iff.trans ?_ (antiAgrees_iff json json').symm
    rw [not_iff_comm]
    simp only [not_forall, exists_prop]
    exact iff_comm

/-- Whether the key of a row is in the set, or is not. -/
def keepsRow (engine : Engine) (format : DisplayFormat) (key : TypedExpr) (anti : Bool)
    (keys : List String) (row : Row) : Bool :=
  match evalExpr engine row key with
  | .ok value => keys.contains (valueToHashKey format value) != anti
  | .error _ => false

/-- What is probed is what the key of each row decides. -/
theorem probe_filter {key : TypedExpr} {anti : Bool} {keys : List String} {rows kept : List Row}
    (probed : probe engine format key anti keys rows = .ok kept) :
    (∀ row ∈ rows, ∃ value, evalExpr engine row key = .ok value) ∧
      kept = rows.filter (keepsRow engine format key anti keys) := by
  induction rows generalizing kept with
  | nil => exact ⟨fun _ mem => (nomatch mem), (Except.ok.inj probed).symm⟩
  | cons row rest ih =>
    rw [probe] at probed
    cases evaluated : evalExpr engine row key with
    | error refused => rw [evaluated] at probed; cases probed
    | ok value =>
      cases later : probe engine format key anti keys rest with
      | error refused => rw [evaluated, later] at probed; cases probed
      | ok others =>
        rw [evaluated, later] at probed
        obtain ⟨evaluates, rfl⟩ := ih later
        constructor
        · intro other mem
          rcases mem_cons.mp mem with rfl | old
          · exact ⟨value, evaluated⟩
          · exact evaluates other old
        · have here : keepsRow engine format key anti keys row =
              (keys.contains (valueToHashKey format value) != anti) := by
            rw [keepsRow, evaluated]
          rw [← Except.ok.inj probed, filter_cons, here]

theorem filter_eq_iff {α : Type*} {p q : α → Bool} {items : List α} :
    items.filter p = items.filter q ↔ ∀ item ∈ items, p item = q item := by
  constructor
  · intro same item mem
    have inBoth := congrArg (item ∈ ·) same
    simp only [mem_filter, mem, true_and, eq_iff_iff] at inBoth
    exact Bool.eq_iff_iff.mpr inBoth
  · exact filter_congr

/-- A semi join keeps the rows on which IN over the inner values is true, and an anti join those
on which NOT IN is, exactly when it agrees with the list form on the key of every row. -/
theorem semiJoin_means_in_iff {leftKey rightKey : TypedExpr} {anti : Bool}
    {left right kept : List Row}
    (executed : executeHashSemiJoin engine format leftKey rightKey anti left right = .ok kept)
    {inner : List Literal} (values : keyValues engine rightKey right = .ok inner)
    (json : ∀ row ∈ left, ∀ value, evalExpr engine row leftKey = .ok value → SerdeJson value)
    (json' : ∀ item ∈ inner, SerdeJson item) :
    kept = left.filter (keptByList engine leftKey inner anti) ↔
      ∀ row ∈ left, ∀ value, evalExpr engine row leftKey = .ok value →
        Agrees engine format anti value inner := by
  rw [executeHashSemiJoin, values] at executed
  obtain ⟨evaluates, rfl⟩ := probe_filter executed
  rw [filter_eq_iff]
  refine forall₂_congr fun row mem => ?_
  obtain ⟨value, evaluated⟩ := evaluates row mem
  have same := agrees_iff format evaluated anti (json row mem value evaluated) json'
  rw [keepsRow, evaluated]
  constructor
  · intro alike other evaluatedOther
    rw [← Except.ok.inj evaluatedOther]
    exact same.mp alike
  · exact fun agrees => same.mpr (agrees value rfl)

end Agreement

/-! ## A NULL key among NULLs -/

/-- Numbers as fractions, and nothing for the other kinds. -/
def fractionDisplay : DisplayFormat where
  double := fractionText
  timestamp := fun nanos => (toString nanos).toList
  interval := fun _ => []
  geometry := fun _ => []
  vector := fun _ => []
  double_injective := fractionText_injective
  timestamp_injective := fun _ _ same => Int.repr_injective (String.toList_inj.mp same)

def nullKey : TypedExpr := .literal .null .unknown

theorem keyValues_nullKey : keyValues asciiEngine nullKey [Row.empty] = .ok [.null] := by
  simp [keyValues, nullKey, evalExpr, bind, Except.bind, pure, Except.pure]

theorem executeHashSemiJoin_nullKey :
    executeHashSemiJoin asciiEngine fractionDisplay nullKey nullKey false [Row.empty] [Row.empty] =
      .ok [Row.empty] := by
  simp [executeHashSemiJoin, keyValues, probe, nullKey, evalExpr, valueToHashKey, bind,
    Except.bind, pure, Except.pure]

/-- `NULL IN (NULL)` is not true, but the semi join keeps the row. -/
theorem semiJoin_keeps_null :
    executeHashSemiJoin asciiEngine fractionDisplay nullKey nullKey false [Row.empty] [Row.empty] =
        .ok [Row.empty] ∧
      keptByList asciiEngine nullKey [.null] false Row.empty = false := by
  refine ⟨executeHashSemiJoin_nullKey, ?_⟩
  have evaluated : evalExpr asciiEngine Row.empty nullKey = .ok .null := by
    simp [nullKey, evalExpr]
  rw [← Bool.not_eq_true, keptByList_in evaluated]
  rintro ⟨before, item, after, -, same, -⟩
  exact not_matches_null item same

/-! ## A text and NULL among texts -/

def keyColumn : TypedExpr := .column "" "x" .text

/-- A row with a key in its only column. -/
def keyRow (key : PropertyValue) : Row := Row.empty.insert "x" key

theorem evalExpr_keyColumn (key : PropertyValue) :
    evalExpr asciiEngine (keyRow key) keyColumn = .ok (fromPropertyValue key) := by
  rw [keyColumn, evalExpr]
  rfl

/-- Of the keys 'a' and NULL the semi join with 'b' and 'a' keeps the first, as IN does. -/
theorem semiJoin_means_in_texts :
    [keyRow (.string "a")] = [keyRow (.string "a"), keyRow .null].filter
      (keptByList asciiEngine keyColumn [.text "b", .text "a"] false) := by
  have values : keyValues asciiEngine keyColumn [keyRow (.string "b"), keyRow (.string "a")] =
      .ok [.text "b", .text "a"] := by
    simp [keyValues, evalExpr_keyColumn, fromPropertyValue, bind, Except.bind, pure, Except.pure]
  have executed : executeHashSemiJoin asciiEngine fractionDisplay keyColumn keyColumn false
      [keyRow (.string "a"), keyRow .null] [keyRow (.string "b"), keyRow (.string "a")] =
      .ok [keyRow (.string "a")] := by
    have held : (map (valueToHashKey fractionDisplay) [.text "b", .text "a"]).contains
        (valueToHashKey fractionDisplay (.text "a")) = true := by decide +kernel
    have missing : (map (valueToHashKey fractionDisplay) [.text "b", .text "a"]).contains
        (valueToHashKey fractionDisplay .null) = false := by decide +kernel
    simp only [executeHashSemiJoin, values, probe, evalExpr_keyColumn, fromPropertyValue, bind,
      Except.bind, pure, Except.pure, held, missing]
    rfl
  have keys {row : Row} (mem : row ∈ [keyRow (.string "a"), keyRow .null]) {value : Literal}
      (evaluated : evalExpr asciiEngine row keyColumn = .ok value) :
      value = .text "a" ∨ value = .null := by
    rcases mem_pair.mp mem with rfl | rfl <;> rw [evalExpr_keyColumn] at evaluated <;>
      cases evaluated
    · exact Or.inl rfl
    · exact Or.inr rfl
  refine (semiJoin_means_in_iff executed values ?_ ?_).mpr ?_
  · rintro row mem value evaluated json rfl
    rcases keys mem evaluated with same | same <;> cases same
  · rintro item mem json rfl
    simp at mem
  · intro row mem value evaluated
    rcases keys mem evaluated with rfl | rfl
    · refine ⟨fun _ => ⟨[.text "b"], .text "a", [], rfl, Or.inl ⟨rfl, rfl⟩, ?_⟩, fun absent => ?_⟩
      · exact fun other mem => mem_singleton.mp mem ▸ Or.inr rfl
      · exact absurd ⟨rfl, rfl⟩ (absent (.text "a") (by simp))
    · simp [Agrees, SemiAgrees]

end RaisinDB.Sql
