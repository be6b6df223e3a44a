import RaisinDB.Sql.Expressions
import RaisinDB.Sql.JsonOps

/-!
# Evaluation of expressions

An expression is evaluated against a row.  What the evaluator takes from libraries, and the scalar
functions that are not read here, are an engine.
-/

namespace RaisinDB.Sql

open RaisinDB.Foundation (Binary64 Value)

/-- The text, time, pattern and vector functions of the evaluator's libraries, and the functions of
the registry other than those below.  A function of the registry sees its argument expressions, what
they evaluate to and the row. -/
structure Engine where
  parseTimestamp : String → Option Int
  timestampText : Int → String
  doubleText : Binary64 → String
  parseDouble : String → Option Binary64
  doubleJson : Binary64 → Value
  parseJson : String → Option Value
  lowercase : String → String
  uppercase : String → String
  charLowercase : Char → String
  similarToRegex : String → String
  regexMatch : String → Bool → String → Option Bool
  jsonPath : String → Value → Option Bool
  arrayOfText : String → Option (List Literal)
  vectorItems : List UInt32 → List Literal
  vectorText : List UInt32 → String
  vectorDistance : BinaryOperator → List UInt32 → List UInt32 → Binary64
  filterHash : TypedExpr → String
  call : String → List TypedExpr → List Outcome → Row → Outcome

variable (engine : Engine)

/-! ## Texts of literals -/

def booleanText (flag : Bool) : String := if flag then "true" else "false"

def literalToString : Literal → String
  | .null => ""
  | .boolean flag => booleanText flag
  | .int value => toString value.toInt
  | .bigInt value => toString value.toInt
  | .double value => engine.doubleText value
  | .text text | .uuid text | .path text => text
  | .jsonB json | .geometry json => jsonText json
  | .vector entries => engine.vectorText entries
  | .timestamp nanos => engine.timestampText nanos
  | .interval nanos => toString (nanos.tdiv 1000000000) ++ "s"
  | .parameter name => name

/-- A decimal integer with an optional sign. -/
def parseInt (text : String) : Option Int :=
  match text.toList with
  | '-' :: digits => if isDigits digits then some (-(digitsValue digits : Int)) else none
  | '+' :: digits => if isDigits digits then some (digitsValue digits) else none
  | digits => if isDigits digits then some (digitsValue digits) else none

def parseInt32 (text : String) : Option Int32 :=
  (parseInt text).bind fun value =>
    if -2 ^ 31 ≤ value ∧ value < 2 ^ 31 then some (Int32.ofInt value) else none

def parseInt64 (text : String) : Option Int64 :=
  (parseInt text).bind fun value =>
    if -2 ^ 63 ≤ value ∧ value < 2 ^ 63 then some (Int64.ofInt value) else none

/-! ## Casts -/

def doubleToInt32 (value : Binary64) : Int32 :=
  Int32.ofInt (value.toIntBetween (-2 ^ 31) (2 ^ 31 - 1))

def doubleToInt64 (value : Binary64) : Int64 :=
  Int64.ofInt (value.toIntBetween (-2 ^ 63) (2 ^ 63 - 1))

def intJson (value : Int) : Value := .number (toString value)

def castLiteral (value : Literal) (target : DataType) : Outcome :=
  let refused : Outcome := .error (.cannotCast value target)
  match value, target.baseType with
  | .null, _ => .ok .null
  | v, base =>
      if v.dataType = base then .ok v
      else
        match v, base with
        | .int i, .text => .ok (.text (toString i.toInt))
        | .bigInt i, .text => .ok (.text (toString i.toInt))
        | .double f, .text => .ok (.text (engine.doubleText f))
        | .boolean b, .text => .ok (.text (booleanText b))
        | .path p, .text => .ok (.text p)
        | .jsonB j, .text => .ok (.text (jsonText j))
        | .text s, .int =>
            match parseInt32 s with
            | some i => .ok (.int i)
            | none =>
                match engine.parseDouble s with
                | some f => .ok (.int (doubleToInt32 f))
                | none => refused
        | .double f, .int => .ok (.int (doubleToInt32 f))
        | .bigInt i, .int => .ok (.int (Int32.ofInt i.toInt))
        | .text s, .bigInt =>
            match parseInt64 s with
            | some i => .ok (.bigInt i)
            | none =>
                match engine.parseDouble s with
                | some f => .ok (.bigInt (doubleToInt64 f))
                | none => refused
        | .int i, .bigInt => .ok (.bigInt (Int64.ofInt i.toInt))
        | .double f, .bigInt => .ok (.bigInt (doubleToInt64 f))
        | .int i, .double => .ok (.double (.ofInt i.toInt))
        | .bigInt i, .double => .ok (.double (.ofInt i.toInt))
        | .text s, .double =>
            match engine.parseDouble s with
            | some f => .ok (.double f)
            | none => refused
        | .text s, .boolean =>
            if engine.lowercase s ∈ ["true", "t", "yes", "y", "1"] then .ok (.boolean true)
            else if engine.lowercase s ∈ ["false", "f", "no", "n", "0"] then .ok (.boolean false)
            else refused
        | .text s, .path => if ['/'].isPrefixOf s.toList then .ok (.path s) else refused
        | .text s, .jsonB =>
            match engine.parseJson s with
            | some json => .ok (.jsonB json)
            | none => refused
        | .double f, .jsonB => .ok (.jsonB (engine.doubleJson f))
        | .int i, .jsonB => .ok (.jsonB (intJson i.toInt))
        | .bigInt i, .jsonB => .ok (.jsonB (intJson i.toInt))
        | .boolean b, .jsonB => .ok (.jsonB (.bool b))
        | .path p, .jsonB => .ok (.jsonB (.string p))
        | .timestamp t, .jsonB => .ok (.jsonB (.string (engine.timestampText t)))
        | .text s, .timestampTz =>
            match engine.parseTimestamp s with
            | some nanos => .ok (.timestamp nanos)
            | none => refused
        | .timestamp t, .text => .ok (.text (engine.timestampText t))
        | .text s, .geometry =>
            match engine.parseJson s with
            | some json => .ok (.geometry json)
            | none => refused
        | .jsonB json, .geometry => .ok (.geometry json)
        | .geometry json, .text => .ok (.text (jsonText json))
        | _, _ => refused

/-! ## Operators -/

def stringConcat (left right : Literal) : Literal :=
  if left.isNull || right.isNull then .null
  else .text (literalToString engine left ++ literalToString engine right)

def jsonConcat : Literal → Literal → Outcome
  | .jsonB (.object left), .jsonB (.object right) =>
      .ok (.jsonB (.object (right.foldl (fun merged member =>
        Value.insertField member.1 member.2 merged) left)))
  | .jsonB _, .jsonB right => .ok (.jsonB right)
  | .null, .jsonB json | .jsonB json, .null => .ok (.jsonB json)
  | .null, .null => .ok .null
  | _, _ => .error .jsonConcatOperands

def extractVector : Literal → Except EvalError (List UInt32)
  | .vector entries => .ok entries
  | other => .error (.notVector other)

def vectorOp (op : BinaryOperator) (left right : Literal) : Outcome :=
  if left.isNull || right.isNull then .ok .null
  else do
    let first ← extractVector left
    let second ← extractVector right
    return .double (engine.vectorDistance op first second)

def binaryOp (op : BinaryOperator) (left right : Literal) : Outcome :=
  match op with
  | .add =>
      match left, right with
      | .timestamp t, .interval d | .interval d, .timestamp t => .ok (.timestamp (t + d))
      | _, _ => arithmeticOp left right Binary64.add
  | .subtract =>
      match left, right with
      | .timestamp t, .interval d => .ok (.timestamp (t - d))
      | .timestamp t, .timestamp s => .ok (.interval (t - s))
      | _, _ => arithmeticOp left right Binary64.sub
  | .multiply => arithmeticOp left right Binary64.mul
  | .divide =>
      if isZero right then .error .divisionByZero else arithmeticOp left right Binary64.div
  | .modulo => arithmeticOp left right Binary64.rem
  | .eq | .notEq | .lt | .ltEq | .gt | .gtEq =>
      comparisonOp engine.parseTimestamp left op right
  | .and => logicalAnd left right
  | .or => logicalOr left right
  | .jsonConcat => jsonConcat left right
  | .stringConcat => .ok (stringConcat engine left right)
  | .jsonExtract | .jsonContains => .error .jsonOperator
  | .textSearchMatch => .error .textSearchOperator
  | .vectorL2Distance | .vectorCosineDistance | .vectorInnerProduct =>
      vectorOp engine op left right

def unaryOp : UnaryOperator → Literal → Outcome
  | .not, .boolean flag => .ok (.boolean !flag)
  | .not, .null => .ok .null
  | .not, _ => .error .notOperand
  | .negate, .int value => .ok (.int (-value))
  | .negate, .bigInt value => .ok (.bigInt (-value))
  | .negate, .double value => .ok (.double value.neg)
  | .negate, _ => .error .negateOperand

def jsonOp : JsonOp → Literal → Literal → Outcome
  | .extract => jsonExtract
  | .extractText => jsonExtractText
  | .contains => jsonContainsOp
  | .keyExists => jsonKeyExists
  | .anyKeyExists => jsonAnyKeyExists
  | .allKeyExists => jsonAllKeyExists
  | .extractPath => jsonExtractPath
  | .extractPathText => jsonExtractPathText
  | .remove => jsonRemove
  | .removeAtPath => jsonRemoveAtPath
  | .pathMatch => jsonPathOp "@@" engine.jsonPath
  | .pathExists => jsonPathOp "@?" engine.jsonPath

/-! ## Patterns -/

/-- `%` stands for any characters, `_` for one. -/
def likeMatch (same : Char → Char → Bool) : List Char → List Char → Bool
  | [], text => text.isEmpty
  | '%' :: pattern, text =>
      pattern.isEmpty || text.tails.any fun suffix => likeMatch same pattern suffix
  | '_' :: pattern, text => !text.isEmpty && likeMatch same pattern text.tail
  | char :: pattern, text =>
      match text with
      | first :: rest => same first char && likeMatch same pattern rest
      | [] => false

def sameLowercase (left right : Char) : Bool :=
  engine.charLowercase left == engine.charLowercase right

def likeTexts : Literal → Literal → Option (String × String)
  | .text text, .text pattern | .path text, .text pattern | .text text, .path pattern =>
      some (text, pattern)
  | _, _ => none

def likeOp (caseInsensitive negated : Bool) (value pattern : Literal) : Outcome :=
  if value.isNull || pattern.isNull then .ok .null
  else
    match likeTexts value pattern with
    | some (text, pattern) =>
        let same := if caseInsensitive then sameLowercase engine else (· == ·)
        .ok (.boolean (likeMatch same pattern.toList text.toList != negated))
    | none => .error (.likeOperands caseInsensitive value pattern)

def literalText : Literal → Option String
  | .text text | .uuid text | .path text => some text
  | .int value => some (toString value.toInt)
  | .bigInt value => some (toString value.toInt)
  | .double value => some (engine.doubleText value)
  | .boolean flag => some (booleanText flag)
  | .jsonB (.string text) => some text
  | .jsonB json => some (jsonText json)
  | .timestamp nanos => some (engine.timestampText nanos)
  | _ => none

def regexOp (caseInsensitive negated similarTo : Bool) (value pattern : Literal) : Outcome :=
  match literalText engine value, literalText engine pattern with
  | some text, some source =>
      let source := if similarTo then engine.similarToRegex source else source
      match engine.regexMatch source caseInsensitive text with
      | some matched => .ok (.boolean (matched != negated))
      | none => .error (.regexPattern source)
  | _, _ => .ok .null

def jsonElement : Value → Literal
  | .null => .null
  | .bool flag => .boolean flag
  | .number text =>
      match parseInt64 text with
      | some value => .bigInt value
      | none => .double ((engine.parseDouble text).getD .nan)
  | .string text => .text text
  | other => .jsonB other

def arrayElements : Literal → Except EvalError (List Literal)
  | .null => .ok []
  | .jsonB (.array items) => .ok (items.map (jsonElement engine))
  | .vector entries => .ok (engine.vectorItems entries)
  | .text text =>
      match engine.arrayOfText text with
      | some items => .ok items
      | none => .error (.notArray (.text text))
  | other => .error (.notArray other)

/-- The comparison with each element in turn; `ALL` stops at a miss, `ANY` at a hit. -/
def quantify (left : Literal) (op : BinaryOperator) (all : Bool) :
    Bool → List Literal → Except EvalError Bool
  | result, [] => .ok result
  | result, element :: rest =>
      if element.isNull then quantify left op all (if all then false else result) rest
      else do
        let hit ← compareLiterals engine.parseTimestamp left element op
        if hit == all then quantify left op all result rest else return hit

def quantifiedOp (op : BinaryOperator) (all : Bool) (left : Literal) (right : Outcome) : Outcome :=
  if left.isNull then .ok .null
  else do
    let elements ← arrayElements engine (← right)
    let result ← quantify engine left op all all elements
    return .boolean result

/-! ## Functions -/

def withFilter (base : String) : Option TypedExpr → String
  | some filter => base ++ "_filter_" ++ engine.filterHash filter
  | none => base

/-- The name under which a result of an earlier operator stands in the row. -/
def argName : TypedExpr → String
  | .column table column _ => table ++ "." ++ column
  | .function name [] _ filter _ => withFilter engine (engine.uppercase name ++ "()") filter
  | .function name [arg] _ filter _ =>
      withFilter engine (engine.uppercase name ++ "(" ++ argName arg ++ ")") filter
  | .function name (_ :: _ :: _) _ filter _ =>
      withFilter engine (engine.uppercase name ++ "(...)") filter
  | _ => "..."

def functionColumnName (name : String) (args : List TypedExpr) (filter : Option TypedExpr) :
    String := argName engine (.function name args ⟨name, true⟩ filter .unknown)

def segments (path : String) : List (List Char) :=
  (path.toList.splitOn '/').filter fun segment => !segment.isEmpty

/-- The part of a reversed path behind its `n`-th slash. -/
def cutAtSlash : Nat → List Char → Option (List Char)
  | _, [] => none
  | n, char :: rest =>
      if char = '/' then
        match n with
        | 0 => some rest
        | n + 1 => cutAtSlash n rest
      else cutAtSlash n rest

def getParentAtLevel (path : String) (levels : Nat) : String :=
  if path = "/" then ""
  else
    match cutAtSlash (levels - 1) path.toList.reverse with
    | none => ""
    | some [] => "/"
    | some front => String.ofList front.reverse

def depthFunction (results : List Outcome) : Outcome :=
  match results with
  | [result] => do
      match (← result).pathOrText? with
      | some path => return .int (Int32.ofNat (segments path).length)
      | none => throw (.arguments "DEPTH" "requires a path argument")
  | _ => .error (.arguments "DEPTH" "requires exactly 1 argument")

def parentLevels : Option Outcome → Except EvalError Nat
  | none => .ok 1
  | some result => do
      match ← result with
      | .int levels =>
          if 0 ≤ levels.toInt then return levels.toInt.toNat
          else throw (.arguments "PARENT" ("levels must be non-negative, got " ++
            toString levels.toInt))
      | _ => throw (.arguments "PARENT" "levels must be an integer")

def parentFunction (results : List Outcome) : Outcome :=
  let parent (first : Outcome) (second : Option Outcome) : Outcome := do
    match (← first).pathOrText? with
    | some path => return .path (getParentAtLevel path (← parentLevels second))
    | none => throw (.arguments "PARENT" "requires a path argument")
  match results with
  | [first] => parent first none
  | [first, second] => parent first (some second)
  | _ => .error (.arguments "PARENT" "requires 1 or 2 arguments")

def startsWith (text start : String) : Bool := start.toList.isPrefixOf text.toList

def pathStartsWithFunction (results : List Outcome) : Outcome :=
  match results with
  | [first, second] => do
      let path ← first
      let start ← second
      if path.isNull || start.isNull then return .null
      else
        match path.pathOrText?, start.pathOrText? with
        | some path, some start => return .boolean (startsWith path start)
        | _, _ => throw (.values "PATH_STARTS_WITH" path start)
  | _ => .error (.arguments "PATH_STARTS_WITH" "requires exactly 2 arguments")

/-- All arguments in turn, up to the first that fails. -/
def sequence : List Outcome → Except EvalError (List Literal)
  | [] => .ok []
  | result :: rest => do
      let value ← result
      let values ← sequence rest
      return value :: values

/-- A strict function of one text. -/
def textKernel (name : String) (answer : String → Literal) (results : List Outcome) : Outcome := do
  let values ← sequence results
  if values.any Literal.isNull then return .null
  else
    match values with
    | [.text text] | [.path text] | [.uuid text] => return answer text
    | [_] => throw (.arguments name "argument 1 must be text")
    | _ => throw (.arguments name "expects 1 argument(s)")

def evalFunction (name : String) (args : List TypedExpr) (results : List Outcome) (row : Row) :
    Outcome :=
  match engine.uppercase name with
  | "DEPTH" => depthFunction results
  | "PARENT" => parentFunction results
  | "PATH_STARTS_WITH" => pathStartsWithFunction results
  | "LOWER" => textKernel "LOWER" (fun text => .text (engine.lowercase text)) results
  | "UPPER" => textKernel "UPPER" (fun text => .text (engine.uppercase text)) results
  | "LENGTH" => textKernel "LENGTH" (fun text => .int (Int32.ofNat text.length)) results
  | other => engine.call other args results row

def windowName : WindowKind → String
  | .rowNumber => "row_number"
  | .rank => "rank"
  | .denseRank => "dense_rank"
  | .count => "count"
  | .sum => "sum"
  | .avg => "avg"
  | .min => "min"
  | .max => "max"

/-! ## JSON members of a column -/

/-- An extraction from a column that an earlier operator has left in the row. -/
def preExtracted (row : Row) (op : JsonOp) (object key : TypedExpr) : Option PropertyValue :=
  match op, object.column?, key.literal? with
  | .extractText, some (table, column), some (.text key) =>
      row.get (table ++ "." ++ column ++ "_" ++ key)
  | _, _, _ => none

/-- The members of the column, where one member is read from it without converting the others. -/
def storedMembers (row : Row) (object key : TypedExpr) :
    Option (List (String × Value) × String) :=
  match object.column?, key.literal? with
  | some (table, column), some (.text key) =>
      match Row.columnValue table column row with
      | some (.object members) => some (members, key)
      | _ => none
  | _, _ => none

/-- One member of an object, as `->` or `->>` reads it. -/
def memberLiteral (op : JsonOp) (members : List (String × Value)) (key : String) :
    Option Literal :=
  match op with
  | .extract => some ((Value.lookup key members).elim .null .jsonB)
  | .extractText => some ((Value.lookup key members).elim .null jsonMemberText)
  | _ => none

def memberOf (row : Row) (op : JsonOp) (object key : TypedExpr) : Option Literal :=
  (storedMembers row object key).bind fun found => memberLiteral op found.1 found.2

/-! ## Expressions -/

def columnLiteral (table column : String) (row : Row) : Literal :=
  match Row.columnValue table column row with
  | some value => fromPropertyValue value
  | none => .null

def inListStep (value result : Literal) (item : Outcome) : Except EvalError Literal := do
  let comparison ← comparisonOp engine.parseTimestamp value .eq (← item)
  logicalOr result comparison

def negatedIn (negated : Bool) : Literal → Literal
  | .boolean found => .boolean (found != negated)
  | other => other

mutual

def evalExpr (row : Row) : TypedExpr → Outcome
  | .literal value _ => .ok value
  | .column table column _ => .ok (columnLiteral table column row)
  | .function name args _ filter _ =>
      match row.get (functionColumnName engine name args filter) with
      | some value => .ok (fromPropertyValue value)
      | none => evalFunction engine name args (evalAll row args) row
  | .binaryOp left op right _ => do
      let leftVal ← evalExpr row left
      let rightVal ← evalExpr row right
      binaryOp engine op leftVal rightVal
  | .unaryOp op expr _ => do unaryOp op (← evalExpr row expr)
  | .cast expr target _ => do castLiteral engine (← evalExpr row expr) target
  | .isNull expr _ => do return .boolean (← evalExpr row expr).isNull
  | .isNotNull expr _ => do return .boolean !(← evalExpr row expr).isNull
  | .between expr low high _ => do
      let value ← evalExpr row expr
      let lowVal ← evalExpr row low
      let highVal ← evalExpr row high
      let geLow ← comparisonOp engine.parseTimestamp value .gtEq lowVal
      let leHigh ← comparisonOp engine.parseTimestamp value .ltEq highVal
      logicalAnd geLow leHigh
  | .inList expr list negated _ => do
      let value ← evalExpr row expr
      let result ← evalInList row value (.boolean false) list
      return negatedIn negated result
  | .inSubquery _ _ _ _ _ => .error .inSubquery
  | .existsSubquery _ _ _ | .scalarSubquery _ _ | .quantifiedSubquery _ _ _ _ _ =>
      .error .unboundSubquery
  | .quantified left op right all _ => do
      let leftVal ← evalExpr row left
      quantifiedOp engine op all leftVal (evalExpr row right)
  | .regex expr pattern caseInsensitive negated similarTo _ => do
      let value ← evalExpr row expr
      let patternVal ← evalExpr row pattern
      regexOp engine caseInsensitive negated similarTo value patternVal
  | .like expr pattern negated _ => do
      let value ← evalExpr row expr
      let patternVal ← evalExpr row pattern
      likeOp engine false negated value patternVal
  | .iLike expr pattern negated _ => do
      let value ← evalExpr row expr
      let patternVal ← evalExpr row pattern
      likeOp engine true negated value patternVal
  | .json op object key _ =>
      match preExtracted row op object key with
      | some value => .ok (fromPropertyValue value)
      | none =>
          match memberOf row op object key with
          | some member => .ok member
          | none => do
              let objectVal ← evalExpr row object
              let keyVal ← evalExpr row key
              jsonOp engine op objectVal keyVal
  | .window function _ _ _ _ _ =>
      match row.get (windowName function) with
      | some value => .ok (fromPropertyValue value)
      | none => .error (.windowNotEvaluated (windowName function))
  | .case conditions elseExpr _ =>
      match evalConditions row conditions with
      | some outcome => outcome
      | none => evalElse row elseExpr

def evalAll (row : Row) : List TypedExpr → List Outcome
  | [] => []
  | expr :: rest => evalExpr row expr :: evalAll row rest

/-- The items are compared in turn, up to the first match. -/
def evalInList (row : Row) (value result : Literal) : List TypedExpr → Outcome
  | [] => .ok result
  | item :: rest => do
      let result ← inListStep engine value result (evalExpr row item)
      if result = .boolean true then return result else evalInList row value result rest

/-- The result of the first branch whose condition is true, if there is one. -/
def evalConditions (row : Row) : List (TypedExpr × TypedExpr) → Option Outcome
  | [] => none
  | (condition, result) :: rest =>
      match evalExpr row condition with
      | .ok (.boolean true) => some (evalExpr row result)
      | .ok (.boolean false) | .ok .null => evalConditions row rest
      | .ok other => some (.error (.caseCondition other))
      | .error refused => some (.error refused)

def evalElse (row : Row) : Option TypedExpr → Outcome
  | none => .ok .null
  | some expr => evalExpr row expr

end

/-- Texts of ASCII characters, without times, patterns, vectors and other functions. -/
def asciiEngine : Engine where
  parseTimestamp := fun _ => none
  timestampText := fun _ => ""
  doubleText := fun _ => ""
  parseDouble := fun _ => none
  doubleJson := fun _ => .null
  parseJson := fun _ => none
  lowercase := fun text => String.ofList (text.toList.map Char.toLower)
  uppercase := fun text => String.ofList (text.toList.map Char.toUpper)
  charLowercase := fun char => String.singleton char.toLower
  similarToRegex := id
  regexMatch := fun _ _ _ => none
  jsonPath := fun _ _ => none
  arrayOfText := fun _ => none
  vectorItems := fun _ => []
  vectorText := fun _ => ""
  vectorDistance := fun _ _ _ => .nan
  filterHash := fun _ => ""
  call := fun name _ _ _ => .error (.unknownFunction name)

end RaisinDB.Sql
