import Mathlib.Data.List.Basic
import Mathlib.Data.List.Induction
import RaisinDB.Sql.Evaluator

/-!
# Columns of computed results

The hash aggregate writes every result into its output row twice: under the alias of the aggregate
and under a name made from the call.  The window operator writes every result under an alias.  The
expressions above the operators read the results back by name.
-/

namespace RaisinDB.Sql

open List

/-! ## The last write -/

/-- The last of the items that write is this one. -/
def IsLast {α : Type} (writes : α → Prop) (items : List α) (item : α) : Prop :=
  ∃ front back, items = front ++ item :: back ∧ writes item ∧ ∀ later ∈ back, ¬ writes later

/-- The value that a list of writes leaves under a name. -/
def lastWrite {β : Type} (name : String) (written : List (String × β)) : Option β :=
  (written.reverse.find? fun write => write.1 == name).map Prod.snd

section LastWrites

variable {α β γ : Type}

theorem lastWrite_append (name : String) (early late : List (String × β)) :
    lastWrite name (early ++ late) = (lastWrite name late).or (lastWrite name early) := by
  rw [lastWrite, reverse_append, find?_append]
  cases found : late.reverse.find? fun write => write.1 == name with
  | none => simp [lastWrite, found]
  | some write => simp [lastWrite, found]

theorem lastWrite_map (name : String) (change : β → γ) (written : List (String × β)) :
    lastWrite name (written.map fun write => (write.1, change write.2)) =
      (lastWrite name written).map change := by
  rw [lastWrite, ← map_reverse, find?_map, lastWrite, Option.map_map, Option.map_map]
  rfl

theorem lastWrite_eq_none {name : String} {written : List (String × β)} :
    lastWrite name written = none ↔ ∀ write ∈ written, write.1 ≠ name := by
  simp [lastWrite]

theorem isLast_append_singleton {writes : α → Prop} {items : List α} {last item : α} :
    IsLast writes (items ++ [last]) item ↔
      writes last ∧ item = last ∨ ¬ writes last ∧ IsLast writes items item := by
  constructor
  · rintro ⟨front, back, shape, here, later⟩
    rcases eq_nil_or_concat' back with rfl | ⟨init, other, rfl⟩
    · obtain ⟨_, same⟩ := append_inj' shape rfl
      have same := singleton_inj.mp same
      exact .inl ⟨same ▸ here, same.symm⟩
    · rw [← cons_append, ← append_assoc] at shape
      obtain ⟨front', same⟩ := append_inj' shape rfl
      have same := singleton_inj.mp same
      refine .inr ⟨same ▸ later other (by simp), front, init, front', here, ?_⟩
      exact fun item mem => later item (mem_append_left _ mem)
  · rintro (⟨here, rfl⟩ | ⟨missed, front, back, rfl, here, later⟩)
    · exact ⟨items, [], rfl, here, nofun⟩
    · refine ⟨front, back ++ [last], by simp, here, ?_⟩
      intro item mem
      rcases mem_append.mp mem with old | new
      · exact later item old
      · rw [mem_singleton.mp new]
        exact missed

/-- The value that one item leaves under a name, when it writes the value under several names. -/
theorem lastWrite_names (name : String) (names : List String) (value : β) :
    lastWrite name (names.map fun called => (called, value)) =
      if name ∈ names then some value else none := by
  induction names using List.reverseRecOn with
  | nil => rfl
  | append_singleton names last ih =>
      rw [map_append, lastWrite_append, ih]
      by_cases here : last = name
      · simp [lastWrite, here]
      · have missed : lastWrite name [(last, value)] = none := by simp [lastWrite, here]
        simp [missed, Ne.symm here]

/-- What a list of items leaves under a name comes from the last item that writes it. -/
theorem lastWrite_flatMap (name : String) (names : α → List String) (value : α → β)
    (items : List α) {found : β} :
    lastWrite name (items.flatMap fun item => (names item).map fun called => (called, value item)) =
        some found ↔
      ∃ item, IsLast (fun item => name ∈ names item) items item ∧ value item = found := by
  induction items using List.reverseRecOn with
  | nil => simp [lastWrite, IsLast]
  | append_singleton items last ih =>
      rw [flatMap_append, lastWrite_append, flatMap_singleton, lastWrite_names]
      simp only [isLast_append_singleton]
      by_cases here : name ∈ names last
      · simp [here]
      · simp [here, ih]

end LastWrites

/-- Write in turn. -/
def Row.writeAll (row : Row) (written : List (String × PropertyValue)) : Row :=
  written.foldl (fun row write => row.insert write.1 write.2) row

theorem Row.get_writeAll (row : Row) (written : List (String × PropertyValue)) (name : String) :
    (row.writeAll written).get name = (lastWrite name written).or (row.get name) := by
  induction written using List.reverseRecOn with
  | nil => rfl
  | append_singleton written last ih =>
      rw [Row.writeAll, foldl_append]
      simp only [foldl_cons, foldl_nil, Row.get_insert]
      rw [lastWrite_append]
      by_cases here : name = last.1
      · simp [lastWrite, here]
      · have missed : lastWrite name [last] = none := by simp [lastWrite, Ne.symm here]
        rw [if_neg here, missed, Option.none_or]
        exact ih

/-! ## Aggregates -/

inductive AggregateFunction where
  | count
  | countDistinct
  | sum
  | avg
  | min
  | max
  | arrayAgg
  deriving DecidableEq

def AggregateFunction.base : AggregateFunction → String
  | .count | .countDistinct => "COUNT"
  | .sum => "SUM"
  | .avg => "AVG"
  | .min => "MIN"
  | .max => "MAX"
  | .arrayAgg => "ARRAY_AGG"

/-- The modifiers of a call that the analyzer puts into the name of the function. -/
structure AggregateSpec where
  base : String
  distinct : Bool
  orderDesc : List Bool

def orderMark (desc : Bool) : String := if desc then "d" else "a"

def AggregateSpec.encode (spec : AggregateSpec) : String :=
  spec.base ++ (if spec.distinct then " DISTINCT" else "") ++
    (if spec.orderDesc = [] then ""
    else " ORDER BY " ++ ",".intercalate (spec.orderDesc.map orderMark))

/-- One aggregate call.  The analyzer tells a `COUNT` of distinct values from the others. -/
structure AggregateCall where
  func : AggregateFunction
  args : List TypedExpr
  filter : Option TypedExpr
  distinct : Bool
  orderBy : List (TypedExpr × Bool)
  counts : (func = .count → distinct = false) ∧ (func = .countDistinct → distinct = true)
  valued : args = [] → orderBy = []

/-- A call that the hash aggregate computes, under its alias. -/
structure AggregateExpr extends AggregateCall where
  outputName : String

namespace AggregateCall

def spec (call : AggregateCall) : AggregateSpec :=
  ⟨call.func.base, call.distinct, call.orderBy.map Prod.snd⟩

/-- The expression that the projection holds: the keys of an inner `ORDER BY` are the last
arguments. -/
def expr (call : AggregateCall) : TypedExpr :=
  .function call.spec.encode (call.args ++ call.orderBy.map Prod.fst) ⟨call.spec.encode, true⟩
    call.filter .unknown

def shownArgument (call : AggregateCall) : String :=
  if call.args.length + call.orderBy.length = 0 then ""
  else if call.args.length + call.orderBy.length = 1 then
    match call.args with
    | .column table column _ :: _ => table ++ "." ++ column
    | _ => "..."
  else "..."

end AggregateCall

section Names

variable (engine : Engine)

/-- The name under which the hash aggregate stores the result beside the alias. -/
def generateCanonicalAggregateName (call : AggregateCall) : String :=
  withFilter engine (call.spec.encode ++ "(" ++ call.shownArgument ++ ")") call.filter

/-- The name under which the expression looks for it. -/
def AggregateCall.lookupName (call : AggregateCall) : String :=
  functionColumnName engine call.spec.encode (call.args ++ call.orderBy.map Prod.fst) call.filter

def aggregateNames : List String := ["COUNT", "SUM", "AVG", "MIN", "MAX", "ARRAY_AGG"]

def replaceDots (text : String) : String :=
  String.ofList (text.toList.map fun char => if char = '.' then '_' else char)

/-- The name under which an aggregate of the function registry looks for its result. -/
def generateAggregateColumnName (funcName : String) (args : List TypedExpr) : String :=
  if engine.uppercase funcName = "COUNT" then "count_star"
  else
    match args with
    | [] => engine.lowercase funcName ++ "_star"
    | [.column table column _] =>
        engine.lowercase funcName ++ "_" ++ replaceDots (table ++ "." ++ column)
    | [_] => engine.lowercase funcName ++ "_" ++ replaceDots "expr"
    | _ => engine.lowercase funcName ++ "_multi"

def aggregateLookup (name : String) (args : List TypedExpr) (row : Row) : Outcome :=
  match row.get (generateAggregateColumnName engine name args) with
  | some value => .ok (fromPropertyValue value)
  | none => .error (.arguments name "result not found in row")

/-- The registry holds the aggregates under their plain names. -/
def withAggregates : Engine :=
  { engine with
    call := fun name args results row =>
      if name ∈ aggregateNames then aggregateLookup engine name args row
      else if String.ofList (name.toList.takeWhile (· != ' ')) ∈ aggregateNames then
        .error (.unknownFunction name)
      else engine.call name args results row }

/-- Letters of ASCII texts change as they do everywhere, and a hash is written in hexadecimal. -/
structure PlainTexts : Prop where
  uppercase : ∀ text : String, (∀ char ∈ text.toList, char.toNat < 128) →
    engine.uppercase text = String.ofList (text.toList.map Char.toUpper)
  lowercase : ∀ text : String, (∀ char ∈ text.toList, char.toNat < 128) →
    engine.lowercase text = String.ofList (text.toList.map Char.toLower)
  filterHash : ∀ filter, ∀ char ∈ (engine.filterHash filter).toList,
    char ∈ "0123456789abcdef".toList

end Names

/-! ## Windows -/

structure WindowCall where
  function : WindowKind
  argument : Option TypedExpr
  partitionBy : List TypedExpr
  orderBy : List (TypedExpr × Bool)
  frame : Option String

/-- A call that the window operator computes, under its alias. -/
structure WindowExpr extends WindowCall where
  outputName : String

/-- An occurrence of a call: where the builder has taken it out, a column stands in its place. -/
structure WindowUse extends WindowCall where
  extracted : Option String

namespace WindowUse

def expr (use : WindowUse) : TypedExpr :=
  match use.extracted with
  | some name => .column "" name .unknown
  | none =>
      .window use.function use.argument use.partitionBy use.orderBy use.frame .unknown

def lookupName (use : WindowUse) : String := use.extracted.getD (windowName use.function)

end WindowUse

/-! ## Output rows -/

/-- The name of a group key. -/
def groupKeyColumnName (engine : Engine) (structuralHash : TypedExpr → String) :
    TypedExpr → String
  | .column table column _ => table ++ "." ++ column
  | .function name [] _ _ _ => engine.uppercase name ++ "()"
  | .function name [arg] _ _ _ =>
      engine.uppercase name ++ "(" ++ groupKeyColumnName engine structuralHash arg ++ ")"
  | .function name (_ :: _ :: _) _ _ _ => engine.uppercase name ++ "(...)"
  | .json op object key ty =>
      match op, object.column?, key.literal? with
      | .extractText, some (table, column), some (.text text) =>
          table ++ "." ++ column ++ "_" ++ text
      | _, _, _ => "group_" ++ structuralHash (.json op object key ty)
  | .cast inner _ _ => groupKeyColumnName engine structuralHash inner
  | other => "group_" ++ structuralHash other

/-- The columns that a group has before its aggregates. -/
def groupRow (engine : Engine) (structuralHash : TypedExpr → String) (groupBy : List TypedExpr)
    (values : List PropertyValue) : Row :=
  Row.empty.writeAll ((groupBy.map (groupKeyColumnName engine structuralHash)).zip values)

/-- The row that results are added to: the keys of a group, or the row that the operator reads. -/
inductive ResultSource where
  | group (groupBy : List TypedExpr) (values : List PropertyValue)
  | input (row : Row)

def ResultSource.row (engine : Engine) (structuralHash : TypedExpr → String) : ResultSource → Row
  | .group groupBy values => groupRow engine structuralHash groupBy values
  | .input row => row

/-- What a query computes, and every call that its expressions hold. -/
structure ComputedQuery where
  aggregates : List AggregateExpr
  windows : List WindowExpr
  calls : List AggregateCall
  uses : List WindowUse
  /-- What the builder takes out it also computes. -/
  extracts : ∀ use ∈ uses, ∀ name, use.extracted = some name →
    ∃ computed ∈ windows, computed.toWindowCall = use.toWindowCall ∧ computed.outputName = name

namespace ComputedQuery

variable (engine : Engine)

def aggregateRow (aggregates : List AggregateExpr) (source : Row)
    (results : AggregateCall → PropertyValue) : Row :=
  source.writeAll (aggregates.flatMap fun computed =>
    [(computed.outputName, results computed.toAggregateCall),
      (generateCanonicalAggregateName engine computed.toAggregateCall,
        results computed.toAggregateCall)])

def windowRow (windows : List WindowExpr) (row : Row)
    (results : WindowCall → PropertyValue) : Row :=
  row.writeAll (windows.map fun computed => (computed.outputName, results computed.toWindowCall))

/-- A row above the operators. -/
def outputRow (query : ComputedQuery) (source : Row) (results : AggregateCall → PropertyValue)
    (windowResults : WindowCall → PropertyValue) : Row :=
  windowRow query.windows (aggregateRow engine query.aggregates source results) windowResults

end ComputedQuery

end RaisinDB.Sql
