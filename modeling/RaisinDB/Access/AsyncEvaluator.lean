import RaisinDB.Access.RelEvaluator

/-!
# Evaluation with a resolver

A second evaluator of the permission language, for expressions with relations.  It asks a resolver,
and does by hand what the first evaluator does.
-/

namespace RaisinDB.Access

variable {F : Type}

mutual

/-- The expression contains a relation. -/
def requiresAsync : Expr F → Bool
  | .relates .. => true
  | .binaryOp left _ right => requiresAsync left || requiresAsync right
  | .unaryOp _ expr => requiresAsync expr
  | .propertyAccess object _ => requiresAsync object
  | .indexAccess object index => requiresAsync object || requiresAsync index
  | .methodCall object _ args => requiresAsync object || anyRequiresAsync args
  | .grouped inner => requiresAsync inner
  | .literal _ | .variable _ => false

def anyRequiresAsync : List (Expr F) → Bool
  | [] => false
  | arg :: args => requiresAsync arg || anyRequiresAsync args

end

/-- What the resolver is asked. -/
structure Question where
  sourceId : String
  targetId : String
  relationTypes : List String
  minDepth : Nat
  maxDepth : Nat
  direction : RelDirection
  deriving DecidableEq

/-- An answer may depend on the questions before. -/
abbrev AsyncRelationResolver := List Question → Question → Except EvalError Bool

/-- Evaluation that keeps the questions in the order in which they were asked. -/
abbrev Asking := ExceptT EvalError (StateM (List Question))

namespace Asking

def of {α : Type} (result : Except EvalError α) : Asking α := ExceptT.mk (pure result)

variable {α β : Type}

@[simp]
theorem of_ok (value : α) : Asking.of (.ok value) = pure value := rfl

@[simp]
theorem of_error_bind (error : EvalError) (next : α → Asking β) :
    (Asking.of (.error error) >>= next) = Asking.of (.error error) := rfl

@[simp]
theorem of_ok_bind (value : α) (next : α → Asking β) :
    (Asking.of (.ok value) >>= next) = next value := rfl

theorem of_bind (result : Except EvalError α) (next : α → Except EvalError β) :
    Asking.of (result >>= next) = Asking.of result >>= fun value => Asking.of (next value) := by
  cases result with
  | error error => rfl
  | ok value => rfl

theorem run_bind_of (first : Asking α) (next : α → Except EvalError β) (asked : List Question) :
    (first >>= fun value => Asking.of (next value)).run asked =
      ((first.run asked).1.bind next, (first.run asked).2) := by
  change ExceptT.bindCont (fun value => Asking.of (next value)) (first.run asked).1
    (first.run asked).2 = _
  cases (first.run asked).1 <;> rfl

end Asking

def hasPath (resolver : AsyncRelationResolver) (question : Question) : Asking Bool :=
  ExceptT.mk fun asked => (resolver asked question, asked ++ [question])

/-- The question between two values, which have to be texts. -/
def relate (resolver : AsyncRelationResolver) (source target : RelValue F)
    (question : String → String → Question) : Asking Bool := do
  let sourceId ← Asking.of (text "RELATES" source)
  let targetId ← Asking.of (text "RELATES" target)
  hasPath resolver (question sourceId targetId)

section Evaluation

variable [RustStd F] (ctx : EvalContext F) (resolver : AsyncRelationResolver)

mutual

def evaluateAsync : Expr F → Asking (RelValue F)
  | .relates source target relationTypes minDepth maxDepth direction => do
      let source ← evaluateAsync source
      let target ← evaluateAsync target
      let found ← relate resolver source target fun sourceId targetId =>
        ⟨sourceId, targetId, relationTypes, minDepth, maxDepth, direction⟩
      return .boolean found
  | .binaryOp left op right => do
      let left ← evaluateAsync left
      match op with
      | .and =>
          if left.isTruthy then
            let right ← evaluateAsync right
            return .boolean right.isTruthy
          else return .boolean false
      | .or =>
          if left.isTruthy then return .boolean true
          else
            let right ← evaluateAsync right
            return .boolean right.isTruthy
      | op =>
          let right ← evaluateAsync right
          Asking.of (evalBinaryValues left op right)
  | .unaryOp op expr => do
      let value ← evaluateAsync expr
      match op, value with
      | .not, value => return .boolean !value.isTruthy
      | .neg, .integer value => Asking.of (i64 (-value))
      | .neg, .float value => return .float (RustStd.neg value)
      | .neg, other => Asking.of (.error (.typeError "negation" "number" other.typeName))
  | .propertyAccess object property => do
      let object ← evaluateAsync object
      match object with
      | .object fields => return (field? fields property).getD .null
      | _ => return .null
  | .indexAccess object index => do
      let object ← evaluateAsync object
      let index ← evaluateAsync index
      match object with
      | .array items =>
          match index.asInteger with
          | none => Asking.of (.error (.invalidIndexType index.typeName))
          | some number =>
              if number < 0 then Asking.of (.error (.indexOutOfBounds number items.length))
              else match items[number.toNat]? with
                | some item => return item
                | none => Asking.of (.error (.indexOutOfBounds number items.length))
      | .object fields =>
          match index.asStr with
          | none => Asking.of (.error (.invalidIndexType index.typeName))
          | some key =>
              match field? fields key with
              | some value => return value
              | none => Asking.of (.error (.propertyNotFound key "object"))
      | .null => return .null
      | other =>
          Asking.of (.error (.typeError "index access" "array or object" other.typeName))
  | .methodCall object method args => do
      let object ← evaluateAsync object
      match object with
      -- the arguments are not evaluated
      | .null => return .null
      | _ =>
          let args ← evaluateAsyncArgs args
          Asking.of (evalMethodOnValues object method args)
  | .grouped inner => evaluateAsync inner
  | .literal value => Asking.of (evaluate ctx (.literal value))
  | .variable name => Asking.of (evaluate ctx (.variable name))

def evaluateAsyncArgs : List (Expr F) → Asking (List (RelValue F))
  | [] => return []
  | arg :: args => do
      let value ← evaluateAsync arg
      let values ← evaluateAsyncArgs args
      return value :: values

end

/-! ## Answers in the place of relations -/

/-- Evaluation goes on behind a value of the expression. -/
def reaches (expr : Expr F) (further : RelValue F → Bool) : Bool :=
  match evaluate ctx expr with
  | .ok value => further value
  | .error _ => false

/-- The right side of the operator is evaluated. -/
def needsRight (op : BinOp) (left : RelValue F) : Bool :=
  match op with
  | .and => left.isTruthy
  | .or => !left.isTruthy
  | _ => true

/-- The arguments of a method are evaluated. -/
def needsArgs : RelValue F → Bool
  | .null => false
  | _ => true

mutual

/-- The expression with the answers in the place of the relations that are reached from left to
right. -/
def answered : Expr F → Asking (Expr F)
  | .relates source target relationTypes minDepth maxDepth direction => do
      let source ← answered source
      let source ← Asking.of (evaluate ctx source)
      let target ← answered target
      let target ← Asking.of (evaluate ctx target)
      let found ← relate resolver source target fun sourceId targetId =>
        ⟨sourceId, targetId, relationTypes, minDepth, maxDepth, direction⟩
      return .literal (.boolean found)
  | .binaryOp left op right => do
      let left ← answered left
      if reaches ctx left (needsRight op) then
        let right ← answered right
        return .binaryOp left op right
      else return .binaryOp left op right
  | .unaryOp op expr => do
      let expr ← answered expr
      return .unaryOp op expr
  | .propertyAccess object property => do
      let object ← answered object
      return .propertyAccess object property
  | .indexAccess object index => do
      let object ← answered object
      if reaches ctx object fun _ => true then
        let index ← answered index
        return .indexAccess object index
      else return .indexAccess object index
  | .methodCall object method args => do
      let object ← answered object
      if reaches ctx object needsArgs then
        let args ← answeredArgs args
        return .methodCall object method args
      else return .methodCall object method args
  | .grouped inner => do
      let inner ← answered inner
      return .grouped inner
  | .literal value => return .literal value
  | .variable name => return .variable name

def answeredArgs : List (Expr F) → Asking (List (Expr F))
  | [] => return []
  | arg :: args => do
      let arg ← answered arg
      if reaches ctx arg fun _ => true then
        let args ← answeredArgs args
        return arg :: args
      else return arg :: args

end

/-! ## Agreement -/

variable {ctx resolver}

theorem reaches_of_error {expr : Expr F} {error : EvalError}
    (found : evaluate ctx expr = .error error) (further : RelValue F → Bool) :
    reaches ctx expr further = false := by
  unfold reaches
  rw [found]

theorem reaches_of_ok {expr : Expr F} {value : RelValue F} (found : evaluate ctx expr = .ok value)
    (further : RelValue F → Bool) : reaches ctx expr further = further value := by
  unfold reaches
  rw [found]

theorem evaluate_and (left right : Expr F) : evaluate ctx (.binaryOp left .and right) =
    evaluate ctx left >>= fun left =>
      if left.isTruthy then evaluate ctx right >>= fun right => .ok (.boolean right.isTruthy)
      else .ok (.boolean false) := rfl

theorem evaluate_or (left right : Expr F) : evaluate ctx (.binaryOp left .or right) =
    evaluate ctx left >>= fun left =>
      if left.isTruthy then .ok (.boolean true)
      else evaluate ctx right >>= fun right => .ok (.boolean right.isTruthy) := rfl

theorem evaluate_binaryOp {op : BinOp} (notAnd : op ≠ .and) (notOr : op ≠ .or)
    (left right : Expr F) : evaluate ctx (.binaryOp left op right) =
      evaluate ctx left >>= fun left => evaluate ctx right >>= fun right =>
        evalBinaryValues left op right := by
  cases op <;> first | rfl | contradiction

theorem evaluate_binaryOp_of_error {left : Expr F} {error : EvalError}
    (found : evaluate ctx left = .error error) (op : BinOp) (right : Expr F) :
    evaluate ctx (.binaryOp left op right) = .error error := by
  by_cases isAnd : op = .and
  · rw [isAnd, evaluate_and, found]
    rfl
  · by_cases isOr : op = .or
    · rw [isOr, evaluate_or, found]
      rfl
    · rw [evaluate_binaryOp isAnd isOr, found]
      rfl

/-- The right side of an operator after the value of the left one. -/
def binaryRest (left : RelValue F) (op : BinOp) (right : Asking (RelValue F)) :
    Asking (RelValue F) :=
  match op with
  | .and => if left.isTruthy then right >>= fun right => pure (.boolean right.isTruthy)
      else pure (.boolean false)
  | .or => if left.isTruthy then pure (.boolean true)
      else right >>= fun right => pure (.boolean right.isTruthy)
  | op => right >>= fun right => Asking.of (evalBinaryValues left op right)

theorem evaluateAsync_binaryOp (left right : Expr F) (op : BinOp) :
    evaluateAsync ctx resolver (.binaryOp left op right) =
      evaluateAsync ctx resolver left >>= fun left =>
        binaryRest left op (evaluateAsync ctx resolver right) := by
  cases op <;> rfl

theorem of_evaluate_binaryOp {left : Expr F} {value : RelValue F}
    (found : evaluate ctx left = .ok value) (op : BinOp) (right : Expr F) :
    Asking.of (evaluate ctx (.binaryOp left op right)) =
      binaryRest value op (Asking.of (evaluate ctx right)) := by
  by_cases isAnd : op = .and
  · subst isAnd
    rw [evaluate_and, found]
    change Asking.of (if value.isTruthy = true then _ else _) = _
    dsimp only [binaryRest]
    by_cases truthy : value.isTruthy = true
    · rw [if_pos truthy, if_pos truthy]
      exact Asking.of_bind _ _
    · rw [if_neg truthy, if_neg truthy]
      rfl
  · by_cases isOr : op = .or
    · subst isOr
      rw [evaluate_or, found]
      change Asking.of (if value.isTruthy = true then _ else _) = _
      dsimp only [binaryRest]
      by_cases truthy : value.isTruthy = true
      · rw [if_pos truthy, if_pos truthy]
        rfl
      · rw [if_neg truthy, if_neg truthy]
        exact Asking.of_bind _ _
    · rw [evaluate_binaryOp isAnd isOr, found]
      change Asking.of (evaluate ctx right >>= fun right => evalBinaryValues value op right) = _
      rw [Asking.of_bind]
      cases op <;> first | rfl | contradiction

/-- A right side that is not needed may be any. -/
theorem binaryRest_of_needless {value : RelValue F} {op : BinOp}
    (needless : needsRight op value = false) (right other : Asking (RelValue F)) :
    binaryRest value op right = binaryRest value op other := by
  cases op <;> simp_all [needsRight, binaryRest]

theorem binaryRest_bind {value : RelValue F} {op : BinOp} (needed : needsRight op value = true)
    {α : Type} (first : Asking α) (next : α → Asking (RelValue F)) :
    binaryRest value op (first >>= next) =
      first >>= fun item => binaryRest value op (next item) := by
  cases op <;> simp_all [needsRight, binaryRest]

/-- Evaluating and then asking are evaluating with the answers. -/
abbrev Agrees (ctx : EvalContext F) (resolver : AsyncRelationResolver) (expr : Expr F) : Prop :=
  evaluateAsync ctx resolver expr =
    answered ctx resolver expr >>= fun expr => Asking.of (evaluate ctx expr)

theorem agrees_binaryOp {left right : Expr F} (ihLeft : Agrees ctx resolver left)
    (ihRight : Agrees ctx resolver right) (op : BinOp) :
    Agrees ctx resolver (.binaryOp left op right) := by
  rw [Agrees, evaluateAsync_binaryOp, answered, ihLeft, ihRight, bind_assoc, bind_assoc]
  refine bind_congr fun left => ?_
  cases found : evaluate ctx left with
  | error error =>
    rw [reaches_of_error found, if_neg Bool.false_ne_true, pure_bind,
      evaluate_binaryOp_of_error found, Asking.of_error_bind]
  | ok value =>
    rw [reaches_of_ok found, Asking.of_ok_bind]
    cases needed : needsRight op value with
    | false =>
      rw [if_neg Bool.false_ne_true, pure_bind, of_evaluate_binaryOp found]
      exact binaryRest_of_needless needed _ _
    | true =>
      rw [if_pos rfl, bind_assoc, binaryRest_bind needed]
      refine bind_congr fun right => ?_
      rw [pure_bind, of_evaluate_binaryOp found]

theorem agrees_unaryOp {expr : Expr F} (ih : Agrees ctx resolver expr) (op : UnOp) :
    Agrees ctx resolver (.unaryOp op expr) := by
  rw [Agrees, evaluateAsync, answered, ih, bind_assoc, bind_assoc]
  refine bind_congr fun expr => ?_
  rw [pure_bind, evaluate]
  cases evaluate ctx expr with
  | error error => rfl
  | ok value => cases op <;> cases value <;> rfl

theorem agrees_propertyAccess {object : Expr F} (ih : Agrees ctx resolver object)
    (property : String) : Agrees ctx resolver (.propertyAccess object property) := by
  rw [Agrees, evaluateAsync, answered, ih, bind_assoc, bind_assoc]
  refine bind_congr fun object => ?_
  rw [pure_bind, evaluate]
  cases evaluate ctx object with
  | error error => rfl
  | ok value => cases value <;> rfl

theorem of_evalIndex (object index : RelValue F) : Asking.of (evalIndex object index) =
    match object with
    | .array items =>
      match index.asInteger with
      | none => Asking.of (.error (.invalidIndexType index.typeName))
      | some number =>
        if number < 0 then Asking.of (.error (.indexOutOfBounds number items.length))
        else match items[number.toNat]? with
          | some item => pure item
          | none => Asking.of (.error (.indexOutOfBounds number items.length))
    | .object fields =>
      match index.asStr with
      | none => Asking.of (.error (.invalidIndexType index.typeName))
      | some key =>
        match field? fields key with
        | some value => pure value
        | none => Asking.of (.error (.propertyNotFound key "object"))
    | .null => pure .null
    | other =>
      Asking.of (.error (.typeError "index access" "array or object" other.typeName)) := by
  cases object with
  | array items =>
    dsimp only [evalIndex]
    cases index.asInteger with
    | none => rfl
    | some number =>
      dsimp only
      by_cases negative : number < 0
      · rw [if_pos negative, if_pos negative]
      · rw [if_neg negative, if_neg negative]
        cases items[number.toNat]? <;> rfl
  | object fields =>
    dsimp only [evalIndex]
    cases index.asStr with
    | none => rfl
    | some key =>
      dsimp only
      cases field? fields key <;> rfl
  | null | boolean | integer | float | string => rfl

theorem agrees_indexAccess {object index : Expr F} (ihObject : Agrees ctx resolver object)
    (ihIndex : Agrees ctx resolver index) : Agrees ctx resolver (.indexAccess object index) := by
  rw [Agrees, evaluateAsync, answered, ihObject, bind_assoc, bind_assoc]
  refine bind_congr fun object => ?_
  cases found : evaluate ctx object with
  | error error =>
    rw [reaches_of_error found, if_neg Bool.false_ne_true, pure_bind, evaluate, found]
    rfl
  | ok value =>
    rw [reaches_of_ok found, if_pos rfl, Asking.of_ok_bind, ihIndex, bind_assoc, bind_assoc]
    refine bind_congr fun index => ?_
    rw [pure_bind, evaluate, found]
    change _ = Asking.of (evaluate ctx index >>= fun index => evalIndex value index)
    rw [Asking.of_bind]
    refine bind_congr fun index => ?_
    exact (of_evalIndex value index).symm

mutual

/-- The second evaluator is the first one on the expression with the answers. -/
theorem evaluateAsync_agrees : ∀ expr : Expr F, Agrees ctx resolver expr
  | .literal value => by rw [Agrees, evaluateAsync, answered, pure_bind]
  | .variable name => by rw [Agrees, evaluateAsync, answered, pure_bind]
  | .propertyAccess object property => agrees_propertyAccess (evaluateAsync_agrees object) property
  | .indexAccess object index =>
    agrees_indexAccess (evaluateAsync_agrees object) (evaluateAsync_agrees index)
  | .binaryOp left op right =>
    agrees_binaryOp (evaluateAsync_agrees left) (evaluateAsync_agrees right) op
  | .unaryOp op expr => agrees_unaryOp (evaluateAsync_agrees expr) op
  | .methodCall object method args => by
    rw [Agrees, evaluateAsync, answered, evaluateAsync_agrees object, bind_assoc, bind_assoc]
    refine bind_congr fun object => ?_
    cases found : evaluate ctx object with
    | error error =>
      rw [reaches_of_error found, if_neg Bool.false_ne_true, pure_bind, evaluate, found]
      rfl
    | ok value =>
      rw [reaches_of_ok found, Asking.of_ok_bind]
      by_cases null : value = .null
      · subst null
        rw [needsArgs, if_neg Bool.false_ne_true, pure_bind, evaluate, found]
        rfl
      · have needed : needsArgs value = true := by
          cases value <;> first | rfl | contradiction
        have called (args : List (Expr F)) :
            Asking.of (evaluate ctx (.methodCall object method args)) =
              Asking.of (evaluateArgs ctx args) >>= fun args =>
                Asking.of (evalMethodOnValues value method args) := by
          rw [evaluate, found, ← Asking.of_bind]
          cases value <;> first | rfl | contradiction
        rw [needed, if_pos rfl, bind_assoc]
        refine Eq.trans ?_ (bind_congr fun args => by rw [pure_bind, called])
        rw [← bind_assoc, ← evaluateAsyncArgs_agrees args]
        cases value <;> first | rfl | contradiction
  | .grouped inner => by
    rw [Agrees, evaluateAsync, answered, evaluateAsync_agrees inner, bind_assoc]
    refine bind_congr fun inner => ?_
    rw [pure_bind, evaluate]
  | .relates source target relationTypes minDepth maxDepth direction => by
    rw [Agrees, evaluateAsync, answered, evaluateAsync_agrees source, evaluateAsync_agrees target]
    simp only [bind_assoc, pure_bind]
    rfl

theorem evaluateAsyncArgs_agrees : ∀ args : List (Expr F),
    evaluateAsyncArgs ctx resolver args =
      answeredArgs ctx resolver args >>= fun args => Asking.of (evaluateArgs ctx args)
  | [] => by rw [evaluateAsyncArgs, answeredArgs, pure_bind, evaluateArgs]; rfl
  | arg :: args => by
    rw [evaluateAsyncArgs, answeredArgs, evaluateAsync_agrees arg, bind_assoc, bind_assoc]
    refine bind_congr fun arg => ?_
    cases found : evaluate ctx arg with
    | error error =>
      rw [reaches_of_error found, if_neg Bool.false_ne_true, pure_bind, evaluateArgs, found]
      rfl
    | ok value =>
      rw [reaches_of_ok found, if_pos rfl, Asking.of_ok_bind, evaluateAsyncArgs_agrees args,
        bind_assoc, bind_assoc]
      refine bind_congr fun args => ?_
      rw [pure_bind, evaluateArgs, found]
      cases evaluateArgs ctx args <;> rfl

end

mutual

/-- Without relations nothing is asked. -/
theorem answered_of_sync : ∀ expr : Expr F, requiresAsync expr = false →
    answered ctx resolver expr = pure expr
  | .literal value, _ => by rw [answered]
  | .variable name, _ => by rw [answered]
  | .propertyAccess object property, sync => by
    rw [requiresAsync] at sync
    rw [answered, answered_of_sync object sync, pure_bind]
  | .indexAccess object index, sync => by
    rw [requiresAsync, Bool.or_eq_false_iff] at sync
    rw [answered, answered_of_sync object sync.1, pure_bind, answered_of_sync index sync.2,
      pure_bind, ite_self]
  | .binaryOp left op right, sync => by
    rw [requiresAsync, Bool.or_eq_false_iff] at sync
    rw [answered, answered_of_sync left sync.1, pure_bind, answered_of_sync right sync.2,
      pure_bind, ite_self]
  | .unaryOp op expr, sync => by
    rw [requiresAsync] at sync
    rw [answered, answered_of_sync expr sync, pure_bind]
  | .methodCall object method args, sync => by
    rw [requiresAsync, Bool.or_eq_false_iff] at sync
    rw [answered, answered_of_sync object sync.1, pure_bind, answeredArgs_of_sync args sync.2,
      pure_bind, ite_self]
  | .grouped inner, sync => by
    rw [requiresAsync] at sync
    rw [answered, answered_of_sync inner sync, pure_bind]
  | .relates .., sync => by
    rw [requiresAsync] at sync
    cases sync

theorem answeredArgs_of_sync : ∀ args : List (Expr F), anyRequiresAsync args = false →
    answeredArgs ctx resolver args = pure args
  | [], _ => by rw [answeredArgs]
  | arg :: args, sync => by
    rw [anyRequiresAsync, Bool.or_eq_false_iff] at sync
    rw [answeredArgs, answered_of_sync arg sync.1, pure_bind, answeredArgs_of_sync args sync.2,
      pure_bind, ite_self]

end

/-- Without relations both evaluators do the same, and with them the second one is the first one on
the expression with the answers to the relations that are reached; no other one is asked for. -/
theorem evaluators_agree (ctx : EvalContext F) (resolver : AsyncRelationResolver) (expr : Expr F)
    (asked : List Question) :
    (requiresAsync expr = false →
        (evaluateAsync ctx resolver expr).run asked = (evaluate ctx expr, asked)) ∧
      (evaluateAsync ctx resolver expr).run asked =
        (((answered ctx resolver expr).run asked).1.bind (evaluate ctx),
          ((answered ctx resolver expr).run asked).2) := by
  have agrees := @evaluateAsync_agrees F _ ctx resolver expr
  constructor
  · intro sync
    rw [agrees, answered_of_sync expr sync, pure_bind]
    rfl
  · rw [agrees]
    exact Asking.run_bind_of _ _ _

end Evaluation

end RaisinDB.Access
