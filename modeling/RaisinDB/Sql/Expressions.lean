import RaisinDB.Sql.Comparisons

/-!
# Typed expressions

Every node of an expression carries its type.  The expressions over JSON, that all take an object
and one more operand, are one form with an operator.
-/

namespace RaisinDB.Sql

structure FunctionSignature where
  name : String
  isDeterministic : Bool
  deriving DecidableEq

inductive JsonOp where
  | extract
  | extractText
  | contains
  | keyExists
  | anyKeyExists
  | allKeyExists
  | extractPath
  | extractPathText
  | remove
  | removeAtPath
  | pathMatch
  | pathExists
  deriving DecidableEq

inductive WindowKind where
  | rowNumber
  | rank
  | denseRank
  | count
  | sum
  | avg
  | min
  | max
  deriving DecidableEq

inductive TypedExpr where
  | literal (value : Literal) (dataType : DataType)
  | column (table column : String) (dataType : DataType)
  | function (name : String) (args : List TypedExpr) (signature : FunctionSignature)
      (filter : Option TypedExpr) (dataType : DataType)
  | binaryOp (left : TypedExpr) (op : BinaryOperator) (right : TypedExpr) (dataType : DataType)
  | unaryOp (op : UnaryOperator) (expr : TypedExpr) (dataType : DataType)
  | cast (expr : TypedExpr) (targetType dataType : DataType)
  | isNull (expr : TypedExpr) (dataType : DataType)
  | isNotNull (expr : TypedExpr) (dataType : DataType)
  | between (expr low high : TypedExpr) (dataType : DataType)
  | inList (expr : TypedExpr) (list : List TypedExpr) (negated : Bool) (dataType : DataType)
  | inSubquery (expr : TypedExpr) (subquery : String) (subqueryType : DataType) (negated : Bool)
      (dataType : DataType)
  | existsSubquery (subquery : String) (negated : Bool) (dataType : DataType)
  | scalarSubquery (subquery : String) (dataType : DataType)
  | quantified (left : TypedExpr) (op : BinaryOperator) (right : TypedExpr) (all : Bool)
      (dataType : DataType)
  | quantifiedSubquery (left : TypedExpr) (op : BinaryOperator) (subquery : String) (all : Bool)
      (dataType : DataType)
  | regex (expr pattern : TypedExpr) (caseInsensitive negated similarTo : Bool)
      (dataType : DataType)
  | like (expr pattern : TypedExpr) (negated : Bool) (dataType : DataType)
  | iLike (expr pattern : TypedExpr) (negated : Bool) (dataType : DataType)
  | json (op : JsonOp) (object key : TypedExpr) (dataType : DataType)
  | window (function : WindowKind) (argument : Option TypedExpr) (partitionBy : List TypedExpr)
      (orderBy : List (TypedExpr × Bool)) (frame : Option String) (dataType : DataType)
  | case (conditions : List (TypedExpr × TypedExpr)) (elseExpr : Option TypedExpr)
      (dataType : DataType)

namespace TypedExpr

def dataType : TypedExpr → DataType
  | literal _ ty | column _ _ ty | function _ _ _ _ ty | binaryOp _ _ _ ty | unaryOp _ _ ty
  | cast _ _ ty | isNull _ ty | isNotNull _ ty | between _ _ _ ty | inList _ _ _ ty
  | inSubquery _ _ _ _ ty | existsSubquery _ _ ty | scalarSubquery _ ty | quantified _ _ _ _ ty
  | quantifiedSubquery _ _ _ _ ty | regex _ _ _ _ _ ty | like _ _ _ ty | iLike _ _ _ ty
  | json _ _ _ ty | window _ _ _ _ _ ty | case _ _ ty => ty

/-- A literal with the type of its kind. -/
def ofLiteral (value : Literal) : TypedExpr := literal value value.dataType

def literal? : TypedExpr → Option Literal
  | literal value _ => some value
  | _ => none

def column? : TypedExpr → Option (String × String)
  | column table name _ => some (table, name)
  | _ => none

theorem literal?_eq_some {expr : TypedExpr} {value : Literal} :
    expr.literal? = some value ↔ ∃ ty, expr = literal value ty := by
  cases expr <;> simp [literal?]

theorem column?_eq_some {expr : TypedExpr} {table name : String} :
    expr.column? = some (table, name) ↔ ∃ ty, expr = column table name ty := by
  cases expr <;> simp [column?]

end TypedExpr

end RaisinDB.Sql
