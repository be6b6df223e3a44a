import RaisinDB.Foundation.Joins
import RaisinDB.Sql.JoinKeys
import RaisinDB.Sql.KeyMatches

/-!
# Execution of joins

The nested loop evaluates the condition on every merged pair.  The hash join evaluates the keys of a
row on that row, behind the filters that the planner has pushed into its inputs.
-/

namespace RaisinDB.Sql

open List RaisinDB.Foundation

inductive JoinError where
  | eval (error : EvalError)
  | filterNotBoolean (value : Literal)
  | crossHashJoin
  deriving DecidableEq

variable (engine : Engine)

/-! ## Nested loop -/

/-- A condition that is not true, or fails, is no match. -/
def matchesMerged (condition : Option TypedExpr) (merged : Row) : Bool :=
  match condition with
  | none => true
  | some expr =>
      match evalExpr engine merged expr with
      | .ok (.boolean result) => result
      | _ => false

def evaluateJoinCondition (condition : Option TypedExpr) (left right : Row) : Bool :=
  matchesMerged engine condition (left.merge right)

def nestedLoop (keepLeft keepRight : Bool) (condition : Option TypedExpr) (left right : List Row) :
    List Row :=
  joinLoop Row.merge id id keepLeft keepRight
    (fun row => positions (evaluateJoinCondition engine condition row) right) left right

def executeInnerJoin := nestedLoop engine false false

def executeLeftJoin := nestedLoop engine true false

def executeRightJoin := nestedLoop engine false true

def executeFullJoin := nestedLoop engine true true

def executeCrossJoin (left right : List Row) : List Row :=
  left.flatMap fun row => right.map (row.merge ·)

def executeNestedLoopJoin (joinType : JoinType) (condition : Option TypedExpr)
    (left right : List Row) : List Row :=
  match joinType with
  | .inner => executeInnerJoin engine condition left right
  | .left => executeLeftJoin engine condition left right
  | .right => executeRightJoin engine condition left right
  | .full => executeFullJoin engine condition left right
  | .cross => executeCrossJoin left right

/-! ## Filters -/

/-- The predicates are evaluated in turn, up to the first that is not true. -/
def matchesAll (row : Row) : List TypedExpr → Except JoinError Bool
  | [] => .ok true
  | predicate :: rest =>
      match evalExpr engine row predicate with
      | .ok (.boolean true) => matchesAll row rest
      | .ok (.boolean false) | .ok .null => .ok false
      | .ok other => .error (.filterNotBoolean other)
      | .error refused => .error (.eval refused)

def executeFilter (predicates : List TypedExpr) : List Row → Except JoinError (List Row)
  | [] => .ok []
  | row :: rest => do
      let keep ← matchesAll engine row predicates
      let kept ← executeFilter predicates rest
      return if keep then row :: kept else kept

/-! ## Hash join -/

section Hash

variable (format : DebugFormat)

def extractKeyValues (row : Row) : List TypedExpr → Except JoinError (List Literal)
  | [] => .ok []
  | expr :: rest => do
      let value ← (evalExpr engine row expr).mapError .eval
      let values ← extractKeyValues row rest
      return value :: values

/-- The key of the row at that place of its input. -/
def hashKey (orders : MapOrders) (place : Nat) (values : List Literal) : String :=
  valuesToHashKey format
    (values.zipIdx.map fun value => literalToPropertyValue engine format orders [value.2, place] value.1)

def hashRows (orders : MapOrders) (exprs : List TypedExpr) :
    Nat → List Row → Except JoinError (List (Row × String))
  | _, [] => .ok []
  | place, row :: rest => do
      let values ← extractKeyValues engine row exprs
      let keyed ← hashRows orders exprs (place + 1) rest
      return (row, hashKey engine format orders place values) :: keyed

def hashLoop (keepLeft keepRight : Bool) (left right : List (Row × String)) : List Row :=
  joinLoop (fun row other => row.1.merge other.1) Prod.fst Prod.fst keepLeft keepRight
    (fun row => lookUp (buildTable right) row.2) left right

def executeHashInnerJoin := hashLoop false false

def executeHashLeftJoin := hashLoop true false

def executeHashRightJoin := hashLoop false true

def executeHashFullJoin := hashLoop true true

def executeHashJoin (orders : JoinSide → MapOrders) (joinType : JoinType)
    (leftKeys rightKeys : List TypedExpr) (left right : List Row) : Except JoinError (List Row) := do
  let rightRows ← hashRows engine format (orders .right) rightKeys 0 right
  if joinType = .cross then throw .crossHashJoin
  else do
    let leftRows ← hashRows engine format (orders .left) leftKeys 0 left
    return match joinType with
    | .inner => executeHashInnerJoin leftRows rightRows
    | .left => executeHashLeftJoin leftRows rightRows
    | .right => executeHashRightJoin leftRows rightRows
    | .full | .cross => executeHashFullJoin leftRows rightRows

def executeJoin (orders : JoinSide → MapOrders) (left right : List Row) :
    JoinPlan → Except JoinError (List Row)
  | .nestedLoopJoin joinType condition =>
      .ok (executeNestedLoopJoin engine joinType condition left right)
  | .hashJoin joinType extraction => do
      let rightRows ← executeFilter engine extraction.rightResiduals right
      let leftRows ← executeFilter engine extraction.leftResiduals left
      executeHashJoin engine format orders joinType extraction.leftKeys extraction.rightKeys
        leftRows rightRows

end Hash

end RaisinDB.Sql
