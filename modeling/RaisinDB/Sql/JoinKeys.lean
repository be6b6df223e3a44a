import RaisinDB.Sql.Evaluator

/-!
# The keys of a join condition

An equality whose operands belong to opposite inputs gives a pair of keys, any other conjunct must
belong to one input and is left over as a filter of it.  A conjunct that fits neither way leaves the
whole condition to the nested loop.
-/

namespace RaisinDB.Sql

inductive JoinType where
  | inner
  | left
  | right
  | full
  | cross
  deriving DecidableEq

inductive JoinSide where
  | left
  | right
  deriving DecidableEq

structure JoinKeyExtraction where
  leftKeys : List TypedExpr
  rightKeys : List TypedExpr
  leftResiduals : List TypedExpr
  rightResiduals : List TypedExpr

def JoinKeyExtraction.empty : JoinKeyExtraction := ⟨[], [], [], []⟩

mutual

/-- The tables whose columns an expression reads, unless it holds a subquery or a window. -/
def collectExprQualifiers : TypedExpr → Option (List String)
  | .column table _ _ => some [table]
  | .literal _ _ => some []
  | .binaryOp left _ right _ | .quantified left _ right _ _ | .json _ left right _
  | .like left right _ _ | .iLike left right _ _ | .regex left right _ _ _ _ => do
      return (← collectExprQualifiers left) ++ (← collectExprQualifiers right)
  | .unaryOp _ expr _ | .cast expr _ _ | .isNull expr _ | .isNotNull expr _ =>
      collectExprQualifiers expr
  | .between expr low high _ => do
      return (← collectExprQualifiers expr) ++ (← collectExprQualifiers low) ++
        (← collectExprQualifiers high)
  | .inList expr list _ _ => do
      return (← collectExprQualifiers expr) ++ (← collectAllQualifiers list)
  | .function _ args _ filter _ => do
      return (← collectAllQualifiers args) ++ (← collectOptionQualifiers filter)
  | .case conditions elseExpr _ => do
      return (← collectBranchQualifiers conditions) ++ (← collectOptionQualifiers elseExpr)
  | .inSubquery _ _ _ _ _ | .window _ _ _ _ _ _ | .existsSubquery _ _ _ | .scalarSubquery _ _
  | .quantifiedSubquery _ _ _ _ _ => none

def collectAllQualifiers : List TypedExpr → Option (List String)
  | [] => some []
  | expr :: rest => do return (← collectExprQualifiers expr) ++ (← collectAllQualifiers rest)

def collectBranchQualifiers : List (TypedExpr × TypedExpr) → Option (List String)
  | [] => some []
  | (condition, result) :: rest => do
      return (← collectExprQualifiers condition) ++ (← collectExprQualifiers result) ++
        (← collectBranchQualifiers rest)

def collectOptionQualifiers : Option TypedExpr → Option (List String)
  | none => some []
  | some expr => collectExprQualifiers expr

end

section Sides

variable (leftQualifiers rightQualifiers : List String)

/-- The input that all the columns of the expression belong to, if there is just one. -/
def exprSide (expr : TypedExpr) : Option JoinSide :=
  match collectExprQualifiers expr with
  | none | some [] => none
  | some qualifiers =>
      match qualifiers.all (· ∈ leftQualifiers), qualifiers.all (· ∈ rightQualifiers) with
      | true, false => some .left
      | false, true => some .right
      | _, _ => none

/-- A conjunct that is not a key filters the input that it belongs to. -/
def collectResidual (expr : TypedExpr) (out : JoinKeyExtraction) : Option JoinKeyExtraction :=
  (exprSide leftQualifiers rightQualifiers expr).map fun
    | .left => { out with leftResiduals := out.leftResiduals ++ [expr] }
    | .right => { out with rightResiduals := out.rightResiduals ++ [expr] }

def collectEqualityKeys : TypedExpr → JoinKeyExtraction → Option JoinKeyExtraction
  | .binaryOp left .and right _, out =>
      (collectEqualityKeys left out).bind fun next => collectEqualityKeys right next
  | .binaryOp left .eq right type, out =>
      match exprSide leftQualifiers rightQualifiers left,
        exprSide leftQualifiers rightQualifiers right with
      | some .left, some .right =>
          some { out with
            leftKeys := out.leftKeys ++ [left]
            rightKeys := out.rightKeys ++ [right] }
      | some .right, some .left =>
          some { out with
            leftKeys := out.leftKeys ++ [right]
            rightKeys := out.rightKeys ++ [left] }
      | _, _ => collectResidual leftQualifiers rightQualifiers (.binaryOp left .eq right type) out
  | expr, out => collectResidual leftQualifiers rightQualifiers expr out

def extractEqualityJoinKeys (condition : Option TypedExpr) : Option JoinKeyExtraction :=
  (condition.bind fun expr => collectEqualityKeys leftQualifiers rightQualifiers expr .empty).filter
    fun extraction => !extraction.leftKeys.isEmpty

end Sides

/-- The planner hashes unless a filter would drop rows of an input that the join preserves. -/
def mayPush (joinType : JoinType) (extraction : JoinKeyExtraction) : Bool :=
  let allowed : Bool × Bool := match joinType with
    | .inner => (true, true)
    | .left => (false, true)
    | .right => (true, false)
    | .full | .cross => (false, false)
  (extraction.leftResiduals.isEmpty || allowed.1) &&
    (extraction.rightResiduals.isEmpty || allowed.2)

inductive JoinPlan where
  | hashJoin (joinType : JoinType) (extraction : JoinKeyExtraction)
  | nestedLoopJoin (joinType : JoinType) (condition : Option TypedExpr)

/-- The plan of a join whose inputs give no index lookup. -/
def planJoin (leftQualifiers rightQualifiers : List String) (joinType : JoinType)
    (condition : Option TypedExpr) : JoinPlan :=
  match (extractEqualityJoinKeys leftQualifiers rightQualifiers condition).filter
      (mayPush joinType) with
  | some extraction => .hashJoin joinType extraction
  | none => .nestedLoopJoin joinType condition

/-! ## Column equalities -/

/-- A conjunction of equalities between columns. -/
def ColumnEqualities : TypedExpr → Prop
  | .binaryOp left .and right _ => ColumnEqualities left ∧ ColumnEqualities right
  | .binaryOp left .eq right _ => left.column?.isSome ∧ right.column?.isSome
  | _ => False

namespace JoinKeyExtraction

/-- The keys come in pairs of columns. -/
structure Columns (extraction : JoinKeyExtraction) : Prop where
  paired : extraction.leftKeys.length = extraction.rightKeys.length
  left : ∀ key ∈ extraction.leftKeys, key.column?.isSome
  right : ∀ key ∈ extraction.rightKeys, key.column?.isSome

theorem Columns.residual {leftQualifiers rightQualifiers : List String} {expr : TypedExpr}
    {out extraction : JoinKeyExtraction} (columns : out.Columns)
    (collected : collectResidual leftQualifiers rightQualifiers expr out = some extraction) :
    extraction.Columns := by
  unfold collectResidual at collected
  obtain ⟨side, _, rfl⟩ := Option.map_eq_some_iff.mp collected
  cases side with
  | left | right => exact ⟨columns.paired, columns.left, columns.right⟩

theorem Columns.push {out : JoinKeyExtraction} (columns : out.Columns) {left right : TypedExpr}
    (first : left.column?.isSome) (second : right.column?.isSome) :
    Columns { out with leftKeys := out.leftKeys ++ [left], rightKeys := out.rightKeys ++ [right] }
    where
  paired := by
    rw [List.length_append, List.length_append, columns.paired]
    rfl
  left key mem := by
    rcases List.mem_append.mp mem with early | last
    · exact columns.left key early
    · rwa [List.mem_singleton.mp last]
  right key mem := by
    rcases List.mem_append.mp mem with early | last
    · exact columns.right key early
    · rwa [List.mem_singleton.mp last]

theorem Columns.collect {leftQualifiers rightQualifiers : List String} {expr : TypedExpr}
    {out extraction : JoinKeyExtraction} (equalities : ColumnEqualities expr)
    (columns : out.Columns)
    (collected : collectEqualityKeys leftQualifiers rightQualifiers expr out = some extraction) :
    extraction.Columns := by
  fun_induction collectEqualityKeys leftQualifiers rightQualifiers expr out
    generalizing extraction with
  | case1 left right type out ihLeft ihRight =>
      obtain ⟨middle, first, second⟩ := Option.bind_eq_some_iff.mp collected
      exact ihRight middle equalities.2 (ihLeft equalities.1 columns first) second
  | case2 out left right type =>
      cases collected
      exact columns.push equalities.1 equalities.2
  | case3 out left right type =>
      cases collected
      exact columns.push equalities.2 equalities.1
  | case4 => exact columns.residual collected
  | case5 => exact columns.residual collected

theorem columns_of_extract {leftQualifiers rightQualifiers : List String} {expr : TypedExpr}
    {extraction : JoinKeyExtraction} (equalities : ColumnEqualities expr)
    (extracted : extractEqualityJoinKeys leftQualifiers rightQualifiers (some expr) =
      some extraction) : extraction.Columns :=
  Columns.collect equalities ⟨rfl, by simp [empty], by simp [empty]⟩
    (Option.filter_eq_some_iff.mp extracted).1

end JoinKeyExtraction

end RaisinDB.Sql
