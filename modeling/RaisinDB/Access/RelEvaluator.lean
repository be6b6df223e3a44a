import Mathlib.Data.Int.Log
import Mathlib.Data.List.Basic

/-!
# The expression language

Expressions of the permission language and what they evaluate to.  An arithmetic
overflow and a cut inside a character end the process; they stand among the errors
here, as `panic`.
-/

namespace RaisinDB.Access

open List

/-- Doubles and Unicode, as the standard library has them. -/
class RustStd (F : Type) where
  add : F → F → F
  sub : F → F → F
  mul : F → F → F
  div : F → F → F
  rem : F → F → F
  neg : F → F
  ofInt : Int → F
  /-- `as i64` -/
  toInt : F → Int
  /-- `f == 0.0` -/
  isZero : F → Bool
  /-- `f.fract() == 0.0` -/
  isWhole : F → Bool
  /-- `(a - b).abs() < f64::EPSILON` -/
  isNear : F → F → Bool
  partialCmp : F → F → Option Ordering
  display : F → String
  toLowercase : String → String
  toUppercase : String → String
  trim : String → String

/-! ## Expressions -/

inductive BinOp where
  | eq | neq | lt | gt | lte | gte
  | and | or
  | add | sub | mul | div | mod
  deriving DecidableEq

inductive UnOp where
  | not | neg
  deriving DecidableEq

inductive RelDirection where
  | outgoing | incoming | any
  deriving DecidableEq

inductive Literal (F : Type) where
  | null
  | boolean (value : Bool)
  | integer (value : Int)
  | float (value : F)
  | string (value : String)
  | array (items : List (Literal F))
  | object (fields : List (String × Literal F))

inductive Expr (F : Type) where
  | literal (value : Literal F)
  | variable (name : String)
  | propertyAccess (object : Expr F) (property : String)
  | indexAccess (object index : Expr F)
  | binaryOp (left : Expr F) (op : BinOp) (right : Expr F)
  | unaryOp (op : UnOp) (expr : Expr F)
  | methodCall (object : Expr F) (method : String) (args : List (Expr F))
  | grouped (inner : Expr F)
  | relates (source target : Expr F) (relationTypes : List String) (minDepth maxDepth : Nat)
      (direction : RelDirection)

/-! ## Values -/

inductive RelValue (F : Type) where
  | null
  | boolean (value : Bool)
  | integer (value : Int)
  | float (value : F)
  | string (value : String)
  | array (items : List (RelValue F))
  | object (fields : List (String × RelValue F))

inductive EvalError where
  | undefinedVariable (name : String)
  | propertyNotFound (property valueType : String)
  | indexOutOfBounds (index : Int) (length : Nat)
  | invalidIndexType (actual : String)
  | typeError (operation expected actual : String)
  | unknownMethod (name : String)
  | wrongArgCount (function : String) (expected actual : Nat)
  | divisionByZero
  | incomparableTypes (left right : String)
  | panic
  deriving DecidableEq

variable {F : Type}

/-- The value of a key of a map. -/
def field? {Value : Type} (fields : List (String × Value)) (name : String) : Option Value :=
  (fields.find? fun field => field.1 = name).map Prod.snd

/-- `HashMap::insert` -/
def insertField {Value : Type} (fields : List (String × Value)) (name : String) (value : Value) :
    List (String × Value) :=
  (name, value) :: fields.filter fun field => field.1 ≠ name

namespace RelValue

def typeName : RelValue F → String
  | null => "null"
  | boolean _ => "boolean"
  | integer _ => "integer"
  | float _ => "float"
  | string _ => "string"
  | array _ => "array"
  | object _ => "object"

def asStr : RelValue F → Option String
  | string value => some value
  | _ => none

section Numbers

variable [RustStd F]

def isTruthy : RelValue F → Bool
  | null => false
  | boolean value => value
  | integer value => value != 0
  | float value => !RustStd.isZero value
  | string value => value != ""
  | array items => !items.isEmpty
  | object fields => !fields.isEmpty

def asInteger : RelValue F → Option Int
  | integer value => some value
  | float value => if RustStd.isWhole value then some (RustStd.toInt value) else none
  | _ => none

end Numbers

end RelValue

/-- What does not fit into 64 bits ends the process. -/
def i64 (value : Int) : Except EvalError (RelValue F) :=
  if -2 ^ 63 ≤ value ∧ value < 2 ^ 63 then .ok (.integer value) else .error .panic

/-! ## Comparison -/

section Comparison

variable [RustStd F]

mutual

def valuesEqual : RelValue F → RelValue F → Bool
  | .null, .null => true
  | .boolean left, .boolean right => left == right
  | .integer left, .integer right => left == right
  | .float left, .float right => RustStd.isNear left right
  | .integer left, .float right => RustStd.isNear (RustStd.ofInt left) right
  | .float left, .integer right => RustStd.isNear (RustStd.ofInt right) left
  | .string left, .string right => left == right
  | .array left, .array right => itemsEqual left right
  | .object left, .object right => left.length == right.length && fieldsEqual left right
  | _, _ => false

/-- As many items, equal one by one. -/
def itemsEqual : List (RelValue F) → List (RelValue F) → Bool
  | [], [] => true
  | left :: lefts, right :: rights => valuesEqual left right && itemsEqual lefts rights
  | _, _ => false

/-- The fields have an equal one in the other object. -/
def fieldsEqual : List (String × RelValue F) → List (String × RelValue F) → Bool
  | [], _ => true
  | (name, left) :: lefts, others =>
      (match field? others name with
        | some right => valuesEqual left right
        | none => false) &&
      fieldsEqual lefts others

end

def compareValues (left right : RelValue F) (holds : Ordering → Bool) :
    Except EvalError (RelValue F) :=
  let decided (ordering : Ordering) : Except EvalError (RelValue F) :=
    .ok (.boolean (holds ordering))
  match left, right with
  | .integer left, .integer right => decided (compare left right)
  | .float left, .float right => decided ((RustStd.partialCmp left right).getD .eq)
  | .integer left, .float right =>
      decided ((RustStd.partialCmp (RustStd.ofInt left) right).getD .eq)
  | .float left, .integer right =>
      decided ((RustStd.partialCmp left (RustStd.ofInt right)).getD .eq)
  | .string left, .string right => decided (compare left right)
  | _, _ => .error (.incomparableTypes left.typeName right.typeName)

end Comparison

/-! ## Arithmetic -/

section Arithmetic

variable [RustStd F]

/-- Numbers of either kind; the result of two integers has to fit. -/
def evalNumbers (operation : String) (integers : Int → Int → Int) (floats : F → F → F)
    (left right : RelValue F) : Except EvalError (RelValue F) :=
  match left, right with
  | .integer left, .integer right => i64 (integers left right)
  | .float left, .float right => .ok (.float (floats left right))
  | .integer left, .float right => .ok (.float (floats (RustStd.ofInt left) right))
  | .float left, .integer right => .ok (.float (floats left (RustStd.ofInt right)))
  | _, _ => .error (.typeError operation "numbers" (left.typeName ++ " and " ++ right.typeName))

def evalAdd (left right : RelValue F) : Except EvalError (RelValue F) :=
  match left, right with
  | .string left, .string right => .ok (.string (left ++ right))
  | .integer _, .integer _ | .float _, .float _ | .integer _, .float _ | .float _, .integer _ =>
      evalNumbers "addition" (· + ·) RustStd.add left right
  | _, _ =>
      .error (.typeError "addition" "numbers or strings"
        (left.typeName ++ " and " ++ right.typeName))

def evalSub : RelValue F → RelValue F → Except EvalError (RelValue F) :=
  evalNumbers "subtraction" (· - ·) RustStd.sub

def evalMul : RelValue F → RelValue F → Except EvalError (RelValue F) :=
  evalNumbers "multiplication" (· * ·) RustStd.mul

/-- A divisor of either kind must not be zero. -/
def isZeroNumber : RelValue F → Bool
  | .integer value => value == 0
  | .float value => RustStd.isZero value
  | _ => false

def isNumber : RelValue F → Bool
  | .integer _ | .float _ => true
  | _ => false

def evalDiv (left right : RelValue F) : Except EvalError (RelValue F) :=
  if isNumber left && isZeroNumber right then .error .divisionByZero
  else evalNumbers "division" Int.tdiv RustStd.div left right

/-- The remainder of the least integer by minus one overflows although it is zero. -/
def evalMod (left right : RelValue F) : Except EvalError (RelValue F) :=
  if isNumber left && isZeroNumber right then .error .divisionByZero
  else match left, right with
    | .integer left, .integer right =>
        if left = -2 ^ 63 ∧ right = -1 then .error .panic else i64 (left.tmod right)
    | _, _ => evalNumbers "modulo" Int.tmod RustStd.rem left right

def evalBinaryValues (left : RelValue F) (op : BinOp) (right : RelValue F) :
    Except EvalError (RelValue F) :=
  match op with
  | .eq => .ok (.boolean (valuesEqual left right))
  | .neq => .ok (.boolean !(valuesEqual left right))
  | .lt => compareValues left right fun ordering => ordering == .lt
  | .gt => compareValues left right fun ordering => ordering == .gt
  | .lte => compareValues left right fun ordering => ordering != .gt
  | .gte => compareValues left right fun ordering => ordering != .lt
  | .add => evalAdd left right
  | .sub => evalSub left right
  | .mul => evalMul left right
  | .div => evalDiv left right
  | .mod => evalMod left right
  -- `unreachable!`
  | .and | .or => .error .panic

def evalUnaryValue (op : UnOp) (value : RelValue F) : Except EvalError (RelValue F) :=
  match op, value with
  | .not, value => .ok (.boolean !value.isTruthy)
  | .neg, .integer value => i64 (-value)
  | .neg, .float value => .ok (.float (RustStd.neg value))
  | .neg, other => .error (.typeError "negation" "number" other.typeName)

end Arithmetic

/-! ## Texts -/

/-- The characters from a byte on, unless the byte lies inside one. -/
def dropBytes : Nat → List Char → Option (List Char)
  | 0, text => some text
  | _ + 1, [] => none
  | count + 1, char :: text =>
      if char.utf8Size ≤ count + 1 then dropBytes (count + 1 - char.utf8Size) text else none

/-- The characters before a byte, unless the byte lies inside one. -/
def takeBytes : Nat → List Char → Option (List Char)
  | 0, _ => some []
  | _ + 1, [] => none
  | count + 1, char :: text =>
      if char.utf8Size ≤ count + 1 then
        (takeBytes (count + 1 - char.utf8Size) text).map (char :: ·)
      else none

/-- `text[start..end]` -/
def slice (text : String) (start stop : Nat) : Option String := do
  let front ← takeBytes stop text.toList
  let middle ← dropBytes start front
  return String.ofList middle

/-- A signed number as an unsigned one of 64 bits. -/
def asUsize (value : Int) : Nat := (value % 2 ^ 64).toNat

/-- A signed number cut to 32 bits. -/
def asI32 (value : Int) : Int := (value + 2 ^ 31) % 2 ^ 32 - 2 ^ 31

/-- The segments of a path that are not empty. -/
def pathSegments (path : String) : List (List Char) :=
  (path.toList.splitOn '/').filter fun segment => !segment.isEmpty

/-- Where the slashes of a path are, in characters. -/
def slashes (path : List Char) : List Nat := path.findIdxs (· == '/')

def getAncestor (path : String) (depth : Int) : String :=
  if depth ≤ 0 then ""
  else match (slashes path.toList)[depth.toNat]? with
    | some index => String.ofList (path.toList.take index)
    | none => if (pathSegments path).length = depth.toNat then path else ""

def getParentAtLevel (path : String) (levels : Nat) : String :=
  if path = "/" then ""
  else match (slashes path.toList).reverse[levels - 1]? with
    | some 0 => "/"
    | some index => String.ofList (path.toList.take index)
    | none => ""

/-- The path with a slash at its end. -/
def withSlash (path : String) : String := if path.endsWith "/" then path else path ++ "/"

/-! ## Methods -/

section Methods

variable [RustStd F]

def text (operation : String) (value : RelValue F) : Except EvalError String :=
  match value.asStr with
  | some text => .ok text
  | none => .error (.typeError operation "string" value.typeName)

def whole (operation : String) (value : RelValue F) : Except EvalError Int :=
  match value.asInteger with
  | some number => .ok number
  | none => .error (.typeError operation "integer" value.typeName)

def evalLength (value : RelValue F) : Except EvalError (RelValue F) :=
  match value with
  | .string text => .ok (.integer text.utf8ByteSize)
  | .array items => .ok (.integer items.length)
  | .object fields => .ok (.integer fields.length)
  | .null => .ok (.integer 0)
  | _ => .error (.typeError "length" "string, array, or object" value.typeName)

def isEmptyValue : RelValue F → Bool
  | .null => true
  | .string text => text == ""
  | .array items => items.isEmpty
  | .object fields => fields.isEmpty
  | _ => false

def evalContains (value needle : RelValue F) : Except EvalError (RelValue F) :=
  match value with
  | .string hay => do
      let needle ← text "contains" needle
      return .boolean (hay.toList.tails.any needle.toList.isPrefixOf)
  | .array items => .ok (.boolean (items.any fun item => valuesEqual item needle))
  | _ => .error (.typeError "contains" "string or array" value.typeName)

/-- A question about two texts. -/
def evalTexts (operation : String) (holds : String → String → Bool) (value other : RelValue F) :
    Except EvalError (RelValue F) := do
  let value ← text operation value
  let other ← text operation other
  return .boolean (holds value other)

/-- A text made of a text. -/
def evalText (operation : String) (change : String → String) (value : RelValue F) :
    Except EvalError (RelValue F) := do
  let value ← text operation value
  return .string (change value)

def evalSubstring (value start : RelValue F) (stop : Option (RelValue F)) :
    Except EvalError (RelValue F) := do
  let value ← text "substring" value
  let start ← whole "substring" start
  let stop ← match stop with
    | some stop => asUsize <$> whole "substring" stop
    | none => .ok value.utf8ByteSize
  let start := min (asUsize start) value.utf8ByteSize
  let stop := max (min stop value.utf8ByteSize) start
  match slice value start stop with
  | some middle => .ok (.string middle)
  | none => .error .panic

def evalFirst (value : RelValue F) : Except EvalError (RelValue F) :=
  match value with
  | .array items => .ok (items.head?.getD .null)
  | _ => .error (.typeError "first" "array" value.typeName)

def evalLast (value : RelValue F) : Except EvalError (RelValue F) :=
  match value with
  | .array items => .ok (items.getLast?.getD .null)
  | _ => .error (.typeError "last" "array" value.typeName)

def evalIndexOf (value element : RelValue F) : Except EvalError (RelValue F) :=
  match value with
  | .array items =>
      .ok (.integer (match items.findIdx? fun item => valuesEqual item element with
        | some index => index
        | none => -1))
  | _ => .error (.typeError "indexOf" "array" value.typeName)

def joinedItem : RelValue F → String
  | .string text => text
  | .integer number => toString number
  | .float number => RustStd.display number
  | .boolean value => toString value
  | .null => "null"
  | .array _ | .object _ => "[object]"

def evalJoin (value : RelValue F) (separator : Option (RelValue F)) :
    Except EvalError (RelValue F) :=
  match value with
  | .array items =>
      let separator := (separator.bind RelValue.asStr).getD ""
      .ok (.string (separator.intercalate (items.map joinedItem)))
  | _ => .error (.typeError "join" "array" value.typeName)

def evalParent (value : RelValue F) (levels : Option (RelValue F)) :
    Except EvalError (RelValue F) := do
  let path ← text "parent" value
  let levels ← match levels with
    | some levels => asUsize <$> whole "parent" levels
    | none => .ok 1
  return .string (getParentAtLevel path levels)

def evalAncestor (value depth : RelValue F) : Except EvalError (RelValue F) := do
  let path ← text "ancestor" value
  let depth ← whole "ancestor" depth
  return .string (getAncestor path (asI32 depth))

def isBelow (path parent : String) : Bool :=
  path != parent && (withSlash parent).toList.isPrefixOf path.toList

def isChild (path parent : String) : Bool :=
  isBelow path parent && !(path.toList.drop (withSlash parent).length).contains '/'

def evalDepth (value : RelValue F) : Except EvalError (RelValue F) := do
  let path ← text "depth" value
  return .integer (pathSegments path).length

def checkArgCount (method : String) (got expected : Nat) : Except EvalError Unit :=
  if got ≠ expected then .error (.wrongArgCount method expected got) else .ok ()

/-- A method of one argument. -/
def withArgument (method : String) (args : List (RelValue F))
    (apply : RelValue F → Except EvalError (RelValue F)) :
    Except EvalError (RelValue F) :=
  match args with
  | [arg] => apply arg
  | _ => .error (.wrongArgCount method 1 args.length)

def evalMethodOnValues (value : RelValue F) (method : String) (args : List (RelValue F)) :
    Except EvalError (RelValue F) :=
  match value with
  | .null => .ok .null
  | _ =>
    match method with
    | "length" => evalLength value
    | "isEmpty" => .ok (.boolean (isEmptyValue value))
    | "isNotEmpty" => .ok (.boolean !(isEmptyValue value))
    | "contains" => withArgument method args (evalContains value)
    | "startsWith" =>
        withArgument method args
          (evalTexts method (fun text start => start.toList.isPrefixOf text.toList) value)
    | "endsWith" =>
        withArgument method args
          (evalTexts method (fun text ending => ending.toList.isSuffixOf text.toList) value)
    | "toLowerCase" => do
        checkArgCount method args.length 0
        evalText method (RustStd.toLowercase F) value
    | "toUpperCase" => do
        checkArgCount method args.length 0
        evalText method (RustStd.toUppercase F) value
    | "trim" => do
        checkArgCount method args.length 0
        evalText method (RustStd.trim F) value
    | "substring" =>
        match args with
        | [start] => evalSubstring value start none
        | [start, stop] => evalSubstring value start (some stop)
        | _ => .error (.wrongArgCount method 1 args.length)
    | "first" => do
        checkArgCount method args.length 0
        evalFirst value
    | "last" => do
        checkArgCount method args.length 0
        evalLast value
    | "indexOf" => withArgument method args (evalIndexOf value)
    | "join" => evalJoin value args.head?
    | "parent" => evalParent value args.head?
    | "ancestor" => withArgument method args (evalAncestor value)
    | "ancestorOf" =>
        withArgument method args (evalTexts method (fun path other => isBelow other path) value)
    | "descendantOf" => withArgument method args (evalTexts method isBelow value)
    | "childOf" => withArgument method args (evalTexts method isChild value)
    | "depth" => do
        checkArgCount method args.length 0
        evalDepth value
    | _ => .error (.unknownMethod method)

end Methods

/-! ## Evaluation -/

/-- The variables of a condition. -/
abbrev EvalContext (F : Type) := List (String × RelValue F)

mutual

def evalLiteral : Literal F → RelValue F
  | .null => .null
  | .boolean value => .boolean value
  | .integer value => .integer value
  | .float value => .float value
  | .string value => .string value
  | .array items => .array (evalLiterals items)
  | .object fields => .object (evalFields [] fields)

def evalLiterals : List (Literal F) → List (RelValue F)
  | [] => []
  | item :: items => evalLiteral item :: evalLiterals items

/-- Later fields replace earlier ones. -/
def evalFields (done : List (String × RelValue F)) :
    List (String × Literal F) → List (String × RelValue F)
  | [] => done
  | (name, value) :: fields => evalFields (insertField done name (evalLiteral value)) fields

end

def evalVariable (ctx : EvalContext F) (name : String) : Except EvalError (RelValue F) :=
  match field? ctx name with
  | some value => .ok value
  | none => .error (.undefinedVariable name)

def evalProperty (object : RelValue F) (property : String) : RelValue F :=
  match object with
  | .object fields => (field? fields property).getD .null
  | _ => .null

variable [RustStd F]

def evalIndex (object index : RelValue F) : Except EvalError (RelValue F) :=
  match object with
  | .array items =>
      match index.asInteger with
      | none => .error (.invalidIndexType index.typeName)
      | some number =>
          if number < 0 then .error (.indexOutOfBounds number items.length)
          else match items[number.toNat]? with
            | some item => .ok item
            | none => .error (.indexOutOfBounds number items.length)
  | .object fields =>
      match index.asStr with
      | none => .error (.invalidIndexType index.typeName)
      | some key =>
          match field? fields key with
          | some value => .ok value
          | none => .error (.propertyNotFound key "object")
  | .null => .ok .null
  | other => .error (.typeError "index access" "array or object" other.typeName)

mutual

def evaluate (ctx : EvalContext F) : Expr F → Except EvalError (RelValue F)
  | .literal value => .ok (evalLiteral value)
  | .variable name => evalVariable ctx name
  | .propertyAccess object property => do
      let object ← evaluate ctx object
      return evalProperty object property
  | .indexAccess object index => do
      let object ← evaluate ctx object
      let index ← evaluate ctx index
      evalIndex object index
  | .binaryOp left .and right => do
      let left ← evaluate ctx left
      if left.isTruthy then
        let right ← evaluate ctx right
        return .boolean right.isTruthy
      else return .boolean false
  | .binaryOp left .or right => do
      let left ← evaluate ctx left
      if left.isTruthy then return .boolean true
      else
        let right ← evaluate ctx right
        return .boolean right.isTruthy
  | .binaryOp left op right => do
      let left ← evaluate ctx left
      let right ← evaluate ctx right
      evalBinaryValues left op right
  | .unaryOp op expr => do
      let value ← evaluate ctx expr
      evalUnaryValue op value
  | .methodCall object method args => do
      let object ← evaluate ctx object
      match object with
      -- the arguments are not evaluated
      | .null => return .null
      | _ =>
          let args ← evaluateArgs ctx args
          evalMethodOnValues object method args
  | .grouped inner => evaluate ctx inner
  | .relates .. =>
      .error (.typeError "RELATES evaluation" "async evaluation with RelationResolver"
        "synchronous evaluate() function - use evaluate_async instead")

def evaluateArgs (ctx : EvalContext F) : List (Expr F) → Except EvalError (List (RelValue F))
  | [] => .ok []
  | arg :: args => do
      let value ← evaluate ctx arg
      let values ← evaluateArgs ctx args
      return value :: values

end

end RaisinDB.Access
