import RaisinDB.Sql.Evaluator

/-!
# Constant folding

Operators and functions whose operands have become literals are replaced by their value.  Folding has
no result where the integer arithmetic of the folder overflows.
-/

namespace RaisinDB.Sql

open RaisinDB.Foundation (Binary64 Value)

variable (engine : Engine)

/-- A step of the folder: it overflows, or it leaves the operator, or it gives a literal. -/
abbrev FoldStep := Option (Option Literal)

def keep : FoldStep := some none

def replaceBy (value : Literal) : FoldStep := some (some value)

def checkedInt (value : Int) : FoldStep :=
  if -2 ^ 31 ≤ value ∧ value < 2 ^ 31 then replaceBy (.int (Int32.ofInt value)) else none

def checkedBigInt (value : Int) : FoldStep :=
  if -2 ^ 63 ≤ value ∧ value < 2 ^ 63 then replaceBy (.bigInt (Int64.ofInt value)) else none

/-- The rest of a division; it is computed with the quotient, which must fit. -/
def checkedRem (a b : Int) : FoldStep :=
  if a.tdiv b < 2 ^ 31 then replaceBy (.int (Int32.ofInt (a.tmod b))) else none

def foldBinaryOp (left : Literal) (op : BinaryOperator) (right : Literal) : FoldStep :=
  match left, op, right with
  | .int a, .add, .int b => checkedInt (a.toInt + b.toInt)
  | .int a, .subtract, .int b => checkedInt (a.toInt - b.toInt)
  | .int a, .multiply, .int b => checkedInt (a.toInt * b.toInt)
  | .int a, .divide, .int b => if b = 0 then keep else checkedInt (a.toInt.tdiv b.toInt)
  | .int a, .modulo, .int b => if b = 0 then keep else checkedRem a.toInt b.toInt
  | .int a, .eq, .int b => replaceBy (.boolean (a == b))
  | .int a, .notEq, .int b => replaceBy (.boolean (a != b))
  | .int a, .lt, .int b => replaceBy (.boolean (decide (a.toInt < b.toInt)))
  | .int a, .ltEq, .int b => replaceBy (.boolean (decide (a.toInt ≤ b.toInt)))
  | .int a, .gt, .int b => replaceBy (.boolean (decide (b.toInt < a.toInt)))
  | .int a, .gtEq, .int b => replaceBy (.boolean (decide (b.toInt ≤ a.toInt)))
  | .boolean a, .and, .boolean b => replaceBy (.boolean (a && b))
  | .boolean a, .or, .boolean b => replaceBy (.boolean (a || b))
  | .text a, .eq, .text b => replaceBy (.boolean (a == b))
  | .text a, .notEq, .text b => replaceBy (.boolean (a != b))
  | _, _, _ => keep

def foldUnaryOp : UnaryOperator → Literal → FoldStep
  | .not, .boolean flag => replaceBy (.boolean !flag)
  | .negate, .int value => checkedInt (-value.toInt)
  | .negate, .bigInt value => checkedBigInt (-value.toInt)
  | .negate, .double value => replaceBy (.double value.neg)
  | _, _ => keep

def foldCast (value : Literal) (target : DataType) : Option Literal :=
  match value, target.baseType with
  | .text s, .int => (parseInt32 s).map .int
  | .int n, .text => some (.text (toString n.toInt))
  | .int n, .bigInt => some (.bigInt (Int64.ofInt n.toInt))
  | .int n, .double => some (.double (.ofInt n.toInt))
  | .int n, .int => some (.int n)
  | .text s, .text => some (.text s)
  | _, _ => none

def computeDepth (path : String) : Int32 := Int32.ofNat (segments path).length

/-- All segments but the last one, behind slashes. -/
def joinPath (segments : List (List Char)) : String :=
  String.ofList (segments.flatMap fun segment => '/' :: segment)

def computeParentPath (path : String) : Option String :=
  match segments path with
  | [] => none
  | [_] => some "/"
  | parts => some (joinPath parts.dropLast)

def foldFunction (name : String) (args : List Literal) : Option Literal :=
  match engine.uppercase name, args with
  | "DEPTH", [path] => path.pathOrText?.map fun path => .int (computeDepth path)
  | "PARENT", [path] =>
      path.pathOrText?.map fun path => (computeParentPath path).elim .null .path
  | "PATH_STARTS_WITH", [path, start] =>
      path.pathOrText?.bind fun path => start.pathOrText?.map fun start =>
        .boolean (startsWith path start)
  | "LOWER", [.text text] => some (.text (engine.lowercase text))
  | "UPPER", [.text text] => some (.text (engine.uppercase text))
  | "LENGTH", [.text text] => some (.int (Int32.ofNat text.utf8ByteSize))
  | _, _ => none

/-- The literal that takes the place of the node, or the node. -/
def orKeep (folded : Option Literal) (node : TypedExpr) : TypedExpr :=
  folded.elim node TypedExpr.ofLiteral

def isTrue (expr : TypedExpr) : Bool := expr.literal? == some (.boolean true)

def isFalse (expr : TypedExpr) : Bool := expr.literal? == some (.boolean false)

def foldCase (conditions : List (TypedExpr × TypedExpr)) (elseExpr : Option TypedExpr)
    (dataType : DataType) : TypedExpr :=
  match conditions.find? fun branch => isTrue branch.1 with
  | some branch => branch.2
  | none =>
      match elseExpr with
      | some elseResult =>
          if conditions.all fun branch => isFalse branch.1 then elseResult
          else .case conditions (some elseResult) dataType
      | none => .case conditions none dataType

def foldIsNull (expr : TypedExpr) (negated : Bool) (node : TypedExpr) : TypedExpr :=
  orKeep (expr.literal?.map fun value => .boolean (value.isNull != negated)) node

mutual

def foldConstants : TypedExpr → Option TypedExpr
  | .binaryOp left op right ty => do
      let left ← foldConstants left
      let right ← foldConstants right
      let node := TypedExpr.binaryOp left op right ty
      match left.literal?, right.literal? with
      | some a, some b => do return orKeep (← foldBinaryOp a op b) node
      | _, _ => return node
  | .unaryOp op expr ty => do
      let expr ← foldConstants expr
      let node := TypedExpr.unaryOp op expr ty
      match expr.literal? with
      | some value => do return orKeep (← foldUnaryOp op value) node
      | none => return node
  | .function name args signature filter ty => do
      let args ← foldAll args
      let filter ← foldOption filter
      let node := TypedExpr.function name args signature filter ty
      match signature.isDeterministic, args.mapM TypedExpr.literal? with
      | true, some values => return orKeep (foldFunction engine name values) node
      | _, _ => return node
  | .cast expr target ty => do
      let expr ← foldConstants expr
      return orKeep (expr.literal?.bind fun value => foldCast value target) (.cast expr target ty)
  | .isNull expr ty => do
      let expr ← foldConstants expr
      return foldIsNull expr false (.isNull expr ty)
  | .isNotNull expr ty => do
      let expr ← foldConstants expr
      return foldIsNull expr true (.isNotNull expr ty)
  | .between expr low high ty => do
      return .between (← foldConstants expr) (← foldConstants low) (← foldConstants high) ty
  | .inList expr list negated ty => do
      return .inList (← foldConstants expr) (← foldAll list) negated ty
  | .inSubquery expr subquery subqueryType negated ty => do
      return .inSubquery (← foldConstants expr) subquery subqueryType negated ty
  | .existsSubquery subquery negated ty => some (.existsSubquery subquery negated ty)
  | .scalarSubquery subquery ty => some (.scalarSubquery subquery ty)
  | .quantifiedSubquery left op subquery all ty => do
      return .quantifiedSubquery (← foldConstants left) op subquery all ty
  | .quantified left op right all ty => do
      return .quantified (← foldConstants left) op (← foldConstants right) all ty
  | .regex expr pattern caseInsensitive negated similarTo ty => do
      return .regex (← foldConstants expr) (← foldConstants pattern) caseInsensitive negated
        similarTo ty
  | .like expr pattern negated ty => do
      return .like (← foldConstants expr) (← foldConstants pattern) negated ty
  | .iLike expr pattern negated ty => do
      return .iLike (← foldConstants expr) (← foldConstants pattern) negated ty
  | .json op object key ty => do
      return .json op (← foldConstants object) (← foldConstants key) ty
  | .window function argument partitionBy orderBy frame ty => do
      return .window function argument (← foldAll partitionBy) (← foldOrder orderBy) frame ty
  | .case conditions elseExpr ty => do
      let conditions ← foldBranches conditions
      let elseExpr ← foldOption elseExpr
      return foldCase conditions elseExpr ty
  | .literal value ty => some (.literal value ty)
  | .column table column ty => some (.column table column ty)

def foldAll : List TypedExpr → Option (List TypedExpr)
  | [] => some []
  | expr :: rest => do return (← foldConstants expr) :: (← foldAll rest)

def foldOrder : List (TypedExpr × Bool) → Option (List (TypedExpr × Bool))
  | [] => some []
  | (expr, desc) :: rest => do return (← foldConstants expr, desc) :: (← foldOrder rest)

def foldBranches : List (TypedExpr × TypedExpr) → Option (List (TypedExpr × TypedExpr))
  | [] => some []
  | (condition, result) :: rest => do
      return (← foldConstants condition, ← foldConstants result) :: (← foldBranches rest)

def foldOption : Option TypedExpr → Option (Option TypedExpr)
  | none => some none
  | some expr => do return some (← foldConstants expr)

end

end RaisinDB.Sql
