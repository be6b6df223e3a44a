import RaisinDB.Sql.Literals

/-!
# Operators on literals

Arithmetic is done in floating point, equality and order convert between some kinds and refuse the
others, and NULL makes a comparison or a connective unknown.
-/

namespace RaisinDB.Sql

open RaisinDB.Foundation (Binary64 Value)

inductive BinaryOperator where
  | add
  | subtract
  | multiply
  | divide
  | modulo
  | eq
  | notEq
  | lt
  | ltEq
  | gt
  | gtEq
  | and
  | or
  | jsonExtract
  | jsonContains
  | jsonConcat
  | stringConcat
  | textSearchMatch
  | vectorL2Distance
  | vectorCosineDistance
  | vectorInnerProduct
  deriving DecidableEq

inductive UnaryOperator where
  | not
  | negate
  deriving DecidableEq

/-- What an evaluation is refused for.  The literals are those that the message shows. -/
inductive EvalError where
  | notNumber (value : Literal)
  | cannotCompare (left right : Literal)
  | invalidComparison
  | notTimestamp (text : String)
  | divisionByZero
  | andOperands
  | orOperands
  | notOperand
  | negateOperand
  | jsonConcatOperands
  | jsonOperator
  | textSearchOperator
  | notVector (value : Literal)
  | likeOperands (caseInsensitive : Bool) (value pattern : Literal)
  | caseCondition (value : Literal)
  | cannotCast (value : Literal) (target : DataType)
  | regexPattern (source : String)
  | notArray (value : Literal)
  | jsonOperands (operator : String) (left right : Literal)
  | unboundSubquery
  | inSubquery
  | windowNotEvaluated (name : String)
  | unknownFunction (name : String)
  | arguments (function message : String)
  | values (function : String) (left right : Literal)
  deriving DecidableEq

abbrev Outcome := Except EvalError Literal

/-! ## Numbers -/

def literalToNumber : Literal → Except EvalError Binary64
  | .int i => .ok (.ofInt i.toInt)
  | .bigInt i => .ok (.ofInt i.toInt)
  | .double f => .ok f
  | other => .error (.notNumber other)

def isZero : Literal → Bool
  | .int i => i == 0
  | .bigInt i => i == 0
  | .double f => f.isZero
  | _ => false

def arithmeticOp (left right : Literal) (op : Binary64 → Binary64 → Binary64) : Outcome :=
  if left.isNull || right.isNull then .ok .null
  else do
    let leftNum ← literalToNumber left
    let rightNum ← literalToNumber right
    return .double (op leftNum rightNum)

/-! ## JSON equality -/

/-- The text of a zero of f64 in JSON. -/
def isFloatZero (text : String) : Bool := text == "0.0" || text == "-0.0"

/-- A number is kept as serde writes it: equal numbers are written alike, but for the two zeros. -/
def numbersEq (left right : String) : Bool :=
  left == right || isFloatZero left && isFloatZero right

mutual

/-- Objects are equal up to the order of their members. -/
def jsonEq : Value → Value → Bool
  | .null, .null => true
  | .bool left, .bool right => left == right
  | .number left, .number right => numbersEq left right
  | .string left, .string right => left == right
  | .array left, .array right => jsonItemsEq left right
  | .object left, .object right => left.length == right.length && jsonMembersIn left right
  | _, _ => false

def jsonItemsEq : List Value → List Value → Bool
  | [], [] => true
  | left :: lefts, right :: rights => jsonEq left right && jsonItemsEq lefts rights
  | _, _ => false

def jsonMembersIn : List (String × Value) → List (String × Value) → Bool
  | [], _ => true
  | (key, left) :: rest, members =>
      (match Value.lookup key members with
        | some right => jsonEq left right
        | none => false) && jsonMembersIn rest members

end

/-! ## Comparisons -/

section Comparison

variable (parseTimestamp : String → Option Int)

def literalsEqual (left right : Literal) : Except EvalError Bool :=
  match left, right with
  | .null, .null => .ok true
  | .null, _ | _, .null => .ok false
  | .boolean a, .boolean b => .ok (a == b)
  | .int a, .int b => .ok (a == b)
  | .bigInt a, .bigInt b => .ok (a == b)
  | .double a, .double b => .ok (a.closeTo b)
  | .text a, .text b => .ok (a == b)
  | .uuid a, .uuid b => .ok (a == b)
  | .uuid a, .text b | .text a, .uuid b => .ok (a == b)
  | .path a, .path b => .ok (a == b)
  | .path a, .text b | .text a, .path b => .ok (a == b)
  | .jsonB a, .jsonB b => .ok (jsonEq a b)
  | .timestamp a, .timestamp b => .ok (a == b)
  | .timestamp a, .text b | .text b, .timestamp a =>
      match parseTimestamp b with
      | some parsed => .ok (a == parsed)
      | none => .ok false
  | a, b =>
      if a.isNumeric && b.isNumeric then do
        let aNum ← literalToNumber a
        let bNum ← literalToNumber b
        return aNum.closeTo bNum
      else .error (.cannotCompare left right)

/-- The answer of a comparison operator from equality and the two orders. -/
def compareBy (op : BinaryOperator) (equal less lessEq greater greaterEq : Bool) :
    Except EvalError Bool :=
  match op with
  | .eq => .ok equal
  | .notEq => .ok !equal
  | .lt => .ok less
  | .ltEq => .ok lessEq
  | .gt => .ok greater
  | .gtEq => .ok greaterEq
  | _ => .error .invalidComparison

def compareNumbers (op : BinaryOperator) (a b : Binary64) : Except EvalError Bool :=
  match op with
  | .eq => .ok (a.closeTo b)
  | .notEq => .ok (Binary64.lessEq .epsilon (Binary64.abs (a.sub b)))
  | .lt => .ok (a.less b)
  | .ltEq => .ok (a.lessEq b)
  | .gt => .ok (b.less a)
  | .gtEq => .ok (b.lessEq a)
  | _ => .error .invalidComparison

def compareTexts (op : BinaryOperator) (a b : String) : Except EvalError Bool :=
  compareBy op (a == b) (decide (a < b)) (decide (a ≤ b)) (decide (b < a)) (decide (b ≤ a))

def compareTimestamps (op : BinaryOperator) (a b : Int) : Except EvalError Bool :=
  compareBy op (a == b) (decide (a < b)) (decide (a ≤ b)) (decide (b < a)) (decide (b ≤ a))

def compareBooleans (op : BinaryOperator) (a b : Bool) : Except EvalError Bool :=
  match op with
  | .eq => .ok (a == b)
  | .notEq => .ok (a != b)
  | _ => .error .invalidComparison

def parsed (text : String) : Except EvalError Int :=
  match parseTimestamp text with
  | some nanos => .ok nanos
  | none => .error (.notTimestamp text)

def compareLiterals (left right : Literal) (op : BinaryOperator) : Except EvalError Bool :=
  if left.isNull || right.isNull then .ok false
  else if left.isNumeric && right.isNumeric then do
    let leftNum ← literalToNumber left
    let rightNum ← literalToNumber right
    compareNumbers op leftNum rightNum
  else
    match left, right with
    | .text a, .text b | .path a, .path b | .path a, .text b | .text a, .path b =>
        compareTexts op a b
    | .timestamp a, .timestamp b => compareTimestamps op a b
    | .timestamp a, .text b => do
        let nanos ← parsed parseTimestamp b
        compareTimestamps op a nanos
    | .text a, .timestamp b => do
        let nanos ← parsed parseTimestamp a
        compareTimestamps op nanos b
    | .boolean a, .boolean b => compareBooleans op a b
    | _, _ => .error (.cannotCompare left right)

/-- A comparison in three-valued logic. -/
def comparisonOp (left : Literal) (op : BinaryOperator) (right : Literal) : Outcome :=
  if left.isNull || right.isNull then .ok .null
  else do
    let result ← match op with
      | .eq => literalsEqual parseTimestamp left right
      | .notEq => (literalsEqual parseTimestamp left right).map not
      | _ => compareLiterals parseTimestamp left right op
    return .boolean result

end Comparison

/-! ## Connectives -/

def logicalAnd : Literal → Literal → Outcome
  | .boolean a, .boolean b => .ok (.boolean (a && b))
  | .boolean false, .null | .null, .boolean false => .ok (.boolean false)
  | .boolean true, .null | .null, .boolean true | .null, .null => .ok .null
  | _, _ => .error .andOperands

def logicalOr : Literal → Literal → Outcome
  | .boolean a, .boolean b => .ok (.boolean (a || b))
  | .boolean true, .null | .null, .boolean true => .ok (.boolean true)
  | .boolean false, .null | .null, .boolean false | .null, .null => .ok .null
  | _, _ => .error .orOperands

theorem logicalAnd_true {left right : Literal} :
    logicalAnd left right = .ok (.boolean true) ↔
      left = .boolean true ∧ right = .boolean true := by
  cases left with
  | boolean a => cases a <;> cases right <;> simp [logicalAnd]
  | null => cases right with
    | boolean b => cases b <;> simp [logicalAnd]
    | _ => simp [logicalAnd]
  | _ => simp [logicalAnd]

end RaisinDB.Sql
