import RaisinDB.Access.EvaluatorLimits

/-!
# Runs within the limits

Computed with unbounded integers, an expression shows whether its evaluation stays within the
limits.  If it does, both evaluators compute the same; otherwise they end the process.
-/

namespace RaisinDB.Access

variable {F : Type}

/-- What holds after each result of the first run. -/
def After {α : Type} (first : Asking α) (asked : List Question) (next : α → List Question → Prop) :
    Prop :=
  ∀ value later, first.run asked = (.ok value, later) → next value later

/-- Runs come from the exact one, or the process ends. -/
def LimitedRun {α : Type} (fits : List Question → Prop) (run exact : Asking α) : Prop :=
  ∀ asked, fits asked ∧ run.run asked = exact.run asked ∧ (exact.run asked).1 ≠ .error .panic ∨
    ¬ fits asked ∧ (run.run asked).1 = .error .panic

theorem Limited.run {α : Type} {fits : Prop} {result exact : Except EvalError α}
    (limited : Limited fits result exact) :
    LimitedRun (fun _ => fits) (Asking.of result) (Asking.of exact) := by
  intro asked
  rcases limited with ⟨fits, rfl, calm⟩ | ⟨unfit, rfl⟩
  · exact .inl ⟨fits, rfl, calm⟩
  · exact .inr ⟨unfit, rfl⟩

namespace LimitedRun

variable {α β : Type} {fits : List Question → Prop} {run exact : Asking α}

theorem calm (calm : ∀ asked, (run.run asked).1 ≠ .error .panic) :
    LimitedRun (fun _ => True) run run := fun asked => .inl ⟨trivial, rfl, calm asked⟩

theorem congr {other : List Question → Prop} (limited : LimitedRun fits run exact)
    (same : ∀ asked, other asked ↔ fits asked) : LimitedRun other run exact := by
  intro asked
  rw [same]
  exact limited asked

theorem run_bind (first : Asking α) (next : α → Asking β) (asked : List Question) :
    (first >>= next).run asked =
      match first.run asked with
      | (.ok value, later) => (next value).run later
      | (.error error, later) => (.error error, later) := by
  change ExceptT.bindCont next (first.run asked).1 (first.run asked).2 = _
  obtain ⟨result, later⟩ := first.run asked
  cases result <;> rfl

theorem bind (limited : LimitedRun fits run exact) {further : α → List Question → Prop}
    {next exactNext : α → Asking β}
    (limitedNext : ∀ value, LimitedRun (further value) (next value) (exactNext value)) :
    LimitedRun (fun asked => fits asked ∧ After exact asked further) (run >>= next)
      (exact >>= exactNext) := by
  intro asked
  rw [run_bind, run_bind]
  rcases limited asked with ⟨fit, same, calm⟩ | ⟨unfit, panic⟩
  · rw [same]
    cases found : exact.run asked with
    | mk result later =>
      cases result with
      | error error =>
        refine .inl ⟨⟨fit, fun value later' other => ?_⟩, rfl, ?_⟩
        · rw [found] at other
          cases other
        · rw [found] at calm
          exact fun same => calm (congrArg Except.error (Except.error.inj same))
      | ok value =>
        rcases limitedNext value later with ⟨fit', same', calm'⟩ | ⟨unfit', panic'⟩
        · refine .inl ⟨⟨fit, fun other later' same => ?_⟩, same', calm'⟩
          rw [found] at same
          cases same
          exact fit'
        · exact .inr ⟨fun both => unfit' (both.2 value later found), panic'⟩
  · refine .inr ⟨fun both => unfit both.1, ?_⟩
    generalize run.run asked = outcome at panic
    obtain ⟨result, later⟩ := outcome
    cases panic
    rfl

theorem pure (value : α) : LimitedRun (fun _ => True) (Pure.pure value) (Pure.pure value) :=
  by
  have calm : (.ok value : Except EvalError α) ≠ .error .panic := by simp
  exact (Limited.calm calm).run

theorem map (limited : LimitedRun fits run exact) (change : α → β) :
    LimitedRun fits (run >>= fun value => Pure.pure (change value))
      (exact >>= fun value => Pure.pure (change value)) :=
  (limited.bind fun value => pure (change value)).congr fun _ =>
    (and_iff_left fun _ _ _ => trivial).symm

theorem ne_panic_iff (limited : LimitedRun fits run exact) (asked : List Question) :
    (run.run asked).1 ≠ .error .panic ↔ fits asked := by
  rcases limited asked with ⟨fit, same, calm⟩ | ⟨unfit, panic⟩
  · rw [same]
    exact iff_of_true calm fit
  · exact iff_of_false (fun calm => calm panic) unfit

end LimitedRun

/-! ## The exact evaluation -/

section Evaluation

variable [RustStd F]

/-- The right side of an operator after the value of the left one. -/
def exactRest (left : RelValue F) (op : BinOp) (right : Asking (RelValue F)) :
    Asking (RelValue F) :=
  match op with
  | .and => if left.isTruthy then right >>= fun right => pure (.boolean right.isTruthy)
      else pure (.boolean false)
  | .or => if left.isTruthy then pure (.boolean true)
      else right >>= fun right => pure (.boolean right.isTruthy)
  | op => right >>= fun right => Asking.of (exactBinary left op right)

variable (ctx : EvalContext F) (resolver : Option AsyncRelationResolver)

/-- Both evaluators; the first one has no resolver. -/
def evaluateWith (expr : Expr F) : Asking (RelValue F) :=
  match resolver with
  | none => Asking.of (evaluate ctx expr)
  | some resolver => evaluateAsync ctx resolver expr

mutual

/-- Evaluation with unbounded integers. -/
def exactEvaluate : Expr F → Asking (RelValue F)
  | .literal value => pure (evalLiteral value)
  | .variable name => Asking.of (evalVariable ctx name)
  | .propertyAccess object property => do
      let object ← exactEvaluate object
      return evalProperty object property
  | .indexAccess object index => do
      let object ← exactEvaluate object
      let index ← exactEvaluate index
      Asking.of (evalIndex object index)
  | .binaryOp left op right => do
      let left ← exactEvaluate left
      exactRest left op (exactEvaluate right)
  | .unaryOp op expr => do
      let value ← exactEvaluate expr
      Asking.of (exactUnary op value)
  | .methodCall object method args => do
      let object ← exactEvaluate object
      if needsArgs object then
        let args ← exactEvaluateArgs args
        Asking.of (evalMethodOnValues object method args)
      else return .null
  | .grouped inner => exactEvaluate inner
  | .relates source target relationTypes minDepth maxDepth direction =>
      match resolver with
      | none =>
          Asking.of (.error (.typeError "RELATES evaluation"
            "async evaluation with RelationResolver"
            "synchronous evaluate() function - use evaluate_async instead"))
      | some resolver => do
          let source ← exactEvaluate source
          let target ← exactEvaluate target
          let found ← relate resolver source target fun sourceId targetId =>
            ⟨sourceId, targetId, relationTypes, minDepth, maxDepth, direction⟩
          return .boolean found

def exactEvaluateArgs : List (Expr F) → Asking (List (RelValue F))
  | [] => return []
  | arg :: args => do
      let value ← exactEvaluate arg
      let values ← exactEvaluateArgs args
      return value :: values

end

mutual

/-- The results of the operators that are reached fit, and the cuts are between characters. -/
def Within : Expr F → List Question → Prop
  | .literal _, _ | .variable _, _ => True
  | .propertyAccess object _, asked => Within object asked
  | .indexAccess object index, asked =>
      Within object asked ∧ After (exactEvaluate ctx resolver object) asked fun _ later =>
        Within index later
  | .binaryOp left op right, asked =>
      Within left asked ∧ After (exactEvaluate ctx resolver left) asked fun leftValue later =>
        needsRight op leftValue = true → Within right later ∧
          After (exactEvaluate ctx resolver right) later fun rightValue _ =>
            OperatorFits leftValue op rightValue
  | .unaryOp op expr, asked =>
      Within expr asked ∧ After (exactEvaluate ctx resolver expr) asked fun value _ =>
        NegationFits op value
  | .methodCall object method args, asked =>
      Within object asked ∧ After (exactEvaluate ctx resolver object) asked fun value later =>
        needsArgs value = true → WithinArgs args later ∧
          After (exactEvaluateArgs ctx resolver args) later fun values _ =>
            MethodFits value method values
  | .grouped inner, asked => Within inner asked
  | .relates source target .., asked =>
      resolver.isSome = true → Within source asked ∧
        After (exactEvaluate ctx resolver source) asked fun _ later => Within target later

def WithinArgs : List (Expr F) → List Question → Prop
  | [], _ => True
  | arg :: args, asked =>
      Within arg asked ∧ After (exactEvaluate ctx resolver arg) asked fun _ later =>
        WithinArgs args later

end

/-! ## Equations of both evaluators -/

variable {ctx resolver}

theorem evaluateWith_literal (value : Literal F) :
    evaluateWith ctx resolver (.literal value) = pure (evalLiteral value) := by
  cases resolver with
  | none => rw [evaluateWith, evaluate, Asking.of_ok]
  | some resolver => rw [evaluateWith, evaluateAsync, evaluate, Asking.of_ok]

theorem evaluateWith_variable (name : String) :
    evaluateWith ctx resolver (.variable name) = Asking.of (evalVariable ctx name) := by
  cases resolver with
  | none => rw [evaluateWith, evaluate]
  | some resolver => rw [evaluateWith, evaluateAsync, evaluate]

theorem evaluateWith_propertyAccess (object : Expr F) (property : String) :
    evaluateWith ctx resolver (.propertyAccess object property) =
      evaluateWith ctx resolver object >>= fun object => pure (evalProperty object property) := by
  cases resolver with
  | none =>
    dsimp only [evaluateWith]
    rw [evaluate, Asking.of_bind]
    rfl
  | some resolver =>
    dsimp only [evaluateWith]
    rw [evaluateAsync]
    refine bind_congr fun object => ?_
    cases object <;> rfl

theorem evaluateWith_indexAccess (object index : Expr F) :
    evaluateWith ctx resolver (.indexAccess object index) =
      evaluateWith ctx resolver object >>= fun object =>
        evaluateWith ctx resolver index >>= fun index => Asking.of (evalIndex object index) := by
  cases resolver with
  | none =>
    dsimp only [evaluateWith]
    rw [evaluate, Asking.of_bind]
    refine bind_congr fun object => ?_
    rw [Asking.of_bind]
  | some resolver =>
    dsimp only [evaluateWith]
    rw [evaluateAsync]
    refine bind_congr fun object => bind_congr fun index => ?_
    rw [of_evalIndex]

theorem evaluateWith_binaryOp (left right : Expr F) (op : BinOp) :
    evaluateWith ctx resolver (.binaryOp left op right) =
      evaluateWith ctx resolver left >>= fun left =>
        binaryRest left op (evaluateWith ctx resolver right) := by
  cases resolver with
  | none =>
    dsimp only [evaluateWith]
    cases found : evaluate ctx left with
    | error error => rw [evaluate_binaryOp_of_error found, Asking.of_error_bind]
    | ok value => rw [of_evaluate_binaryOp found, Asking.of_ok_bind]
  | some resolver => exact evaluateAsync_binaryOp left right op

theorem evaluateWith_unaryOp (op : UnOp) (expr : Expr F) :
    evaluateWith ctx resolver (.unaryOp op expr) =
      evaluateWith ctx resolver expr >>= fun value => Asking.of (evalUnaryValue op value) := by
  cases resolver with
  | none =>
    dsimp only [evaluateWith]
    rw [evaluate, Asking.of_bind]
  | some resolver =>
    dsimp only [evaluateWith]
    rw [evaluateAsync]
    refine bind_congr fun value => ?_
    cases op <;> cases value <;> rfl

/-- The arguments of both evaluators. -/
def evaluateArgsWith (ctx : EvalContext F) (resolver : Option AsyncRelationResolver)
    (args : List (Expr F)) : Asking (List (RelValue F)) :=
  match resolver with
  | none => Asking.of (evaluateArgs ctx args)
  | some resolver => evaluateAsyncArgs ctx resolver args

theorem evaluateWith_methodCall (object : Expr F) (method : String) (args : List (Expr F)) :
    evaluateWith ctx resolver (.methodCall object method args) =
      evaluateWith ctx resolver object >>= fun object =>
        if needsArgs object then
          evaluateArgsWith ctx resolver args >>= fun args =>
            Asking.of (evalMethodOnValues object method args)
        else pure .null := by
  cases resolver with
  | none =>
    dsimp only [evaluateWith, evaluateArgsWith]
    rw [evaluate, Asking.of_bind]
    refine bind_congr fun object => ?_
    cases object <;> first | rfl | exact Asking.of_bind _ _
  | some resolver =>
    dsimp only [evaluateWith, evaluateArgsWith]
    rw [evaluateAsync]
    all_goals exact bind_congr fun object => by cases object <;> rfl

theorem evaluateWith_grouped (inner : Expr F) :
    evaluateWith ctx resolver (.grouped inner) = evaluateWith ctx resolver inner := by
  cases resolver with
  | none => rw [evaluateWith, evaluate, evaluateWith]
  | some resolver => rw [evaluateWith, evaluateAsync, evaluateWith]

theorem evaluateArgsWith_nil : evaluateArgsWith ctx resolver [] = pure [] := by
  cases resolver with
  | none => rw [evaluateArgsWith, evaluateArgs, Asking.of_ok]
  | some resolver => rw [evaluateArgsWith, evaluateAsyncArgs]

theorem evaluateArgsWith_cons (arg : Expr F) (args : List (Expr F)) :
    evaluateArgsWith ctx resolver (arg :: args) =
      evaluateWith ctx resolver arg >>= fun value =>
        evaluateArgsWith ctx resolver args >>= fun values => pure (value :: values) := by
  cases resolver with
  | none =>
    dsimp only [evaluateWith, evaluateArgsWith]
    rw [evaluateArgs, Asking.of_bind]
    refine bind_congr fun value => ?_
    exact Asking.of_bind _ _
  | some resolver =>
    dsimp only [evaluateWith, evaluateArgsWith]
    rw [evaluateAsyncArgs]

/-! ## The limits -/

omit [RustStd F] in
theorem operatorFits_and (left right : RelValue F) : OperatorFits left .and right := by
  cases left <;> cases right <;> trivial

omit [RustStd F] in
theorem operatorFits_or (left right : RelValue F) : OperatorFits left .or right := by
  cases left <;> cases right <;> trivial

omit [RustStd F] in
theorem evalVariable_calm (ctx : EvalContext F) (name : String) :
    evalVariable ctx name ≠ .error .panic := by
  unfold evalVariable
  split <;> simp

theorem evalIndex_calm (object index : RelValue F) : evalIndex object index ≠ .error .panic := by
  unfold evalIndex
  repeat' split
  all_goals simp

theorem binaryRest_limited {fits : List Question → Prop} {run exact : Asking (RelValue F)}
    (limited : LimitedRun fits run exact) (left : RelValue F) (op : BinOp) :
    LimitedRun (fun asked => needsRight op left = true → fits asked ∧
        After exact asked fun right _ => OperatorFits left op right)
      (binaryRest left op run) (exactRest left op exact) := by
  by_cases isAnd : op = .and
  · subst isAnd
    dsimp only [binaryRest, exactRest, needsRight]
    cases left.isTruthy with
    | false => exact (LimitedRun.pure _).congr fun _ => by simp
    | true => exact (limited.map _).congr fun _ => by simp [After, operatorFits_and]
  · by_cases isOr : op = .or
    · subst isOr
      dsimp only [binaryRest, exactRest, needsRight]
      cases left.isTruthy with
      | false => exact (limited.map _).congr fun _ => by simp [After, operatorFits_or]
      | true => exact (LimitedRun.pure _).congr fun _ => by simp
    · have needed : needsRight op left = true := by
        cases op <;> first | rfl | contradiction
      have rest : binaryRest left op run =
          run >>= fun right => Asking.of (evalBinaryValues left op right) := by
        cases op <;> first | rfl | contradiction
      have rest' : exactRest left op exact =
          exact >>= fun right => Asking.of (exactBinary left op right) := by
        cases op <;> first | rfl | contradiction
      rw [rest, rest', needed]
      exact (limited.bind fun right => (exactBinary_limited isAnd isOr left right).run).congr
        fun _ => forall_prop_of_true rfl

/-- A resolver that does not end the process. -/
def Calm (resolver : Option AsyncRelationResolver) : Prop :=
  ∀ answer, resolver = some answer → ∀ asked question, answer asked question ≠ .error .panic

omit [RustStd F] in
theorem relate_calm {resolver : AsyncRelationResolver}
    (calm : ∀ asked question, resolver asked question ≠ .error .panic) (source target : RelValue F)
    (question : String → String → Question) (asked : List Question) :
    ((relate resolver source target question).run asked).1 ≠ .error .panic := by
  have sourceCalm := text_calm "RELATES" source
  have targetCalm := text_calm "RELATES" target
  unfold relate
  cases foundSource : text "RELATES" source with
  | error error =>
    rw [foundSource] at sourceCalm
    exact fun same => sourceCalm (congrArg Except.error (Except.error.inj same))
  | ok sourceId =>
    cases foundTarget : text "RELATES" target with
    | error error =>
      rw [foundTarget] at targetCalm
      exact fun same => targetCalm (congrArg Except.error (Except.error.inj same))
    | ok targetId => exact calm asked (question sourceId targetId)

theorem relates_limited (calm : Calm resolver) {source target : Expr F}
    (ihSource : LimitedRun (Within ctx resolver source) (evaluateWith ctx resolver source)
      (exactEvaluate ctx resolver source))
    (ihTarget : LimitedRun (Within ctx resolver target) (evaluateWith ctx resolver target)
      (exactEvaluate ctx resolver target))
    (relationTypes : List String) (minDepth maxDepth : Nat) (direction : RelDirection) :
    LimitedRun
      (Within ctx resolver (.relates source target relationTypes minDepth maxDepth direction))
      (evaluateWith ctx resolver (.relates source target relationTypes minDepth maxDepth direction))
      (exactEvaluate ctx resolver
        (.relates source target relationTypes minDepth maxDepth direction)) := by
  cases resolver with
  | none =>
    rw [evaluateWith, evaluate, exactEvaluate]
    exact (Limited.calm (by simp)).run.congr fun _ => by rw [Within]; simp
  | some resolver =>
    dsimp only [evaluateWith] at ihSource ihTarget ⊢
    rw [evaluateAsync, exactEvaluate]
    refine (ihSource.bind fun source => (ihTarget.bind fun target =>
      (LimitedRun.calm (relate_calm (calm resolver rfl) source target _)).map _).congr
        fun _ => (and_iff_left fun _ _ _ => trivial).symm).congr fun asked => ?_
    rw [Within]
    exact forall_prop_of_true rfl

mutual

theorem evaluateWith_limited (calm : Calm resolver) : ∀ expr : Expr F,
    LimitedRun (Within ctx resolver expr) (evaluateWith ctx resolver expr)
      (exactEvaluate ctx resolver expr)
  | .literal value => by
    rw [evaluateWith_literal, exactEvaluate]
    exact (LimitedRun.pure _).congr fun _ => by rw [Within]
  | .variable name => by
    rw [evaluateWith_variable, exactEvaluate]
    exact (Limited.calm (evalVariable_calm ctx name)).run.congr fun _ => by rw [Within]
  | .propertyAccess object property => by
    rw [evaluateWith_propertyAccess, exactEvaluate]
    exact ((evaluateWith_limited calm object).map _).congr fun asked => by rw [Within]
  | .indexAccess object index => by
    rw [evaluateWith_indexAccess, exactEvaluate]
    refine ((evaluateWith_limited calm object).bind fun value =>
      ((evaluateWith_limited calm index).bind fun index =>
        (Limited.calm (evalIndex_calm value index)).run).congr fun _ =>
          (and_iff_left fun _ _ _ => trivial).symm).congr fun asked => ?_
    rw [Within]
  | .binaryOp left op right => by
    rw [evaluateWith_binaryOp, exactEvaluate]
    refine ((evaluateWith_limited calm left).bind fun value =>
      binaryRest_limited (evaluateWith_limited calm right) value op).congr fun asked => ?_
    rw [Within]
  | .unaryOp op expr => by
    rw [evaluateWith_unaryOp, exactEvaluate]
    refine ((evaluateWith_limited calm expr).bind fun value =>
      (exactUnary_limited op value).run).congr fun asked => ?_
    rw [Within]
  | .methodCall object method args => by
    rw [evaluateWith_methodCall, exactEvaluate]
    refine ((evaluateWith_limited calm object).bind fun value => ?_).congr fun asked => by
      rw [Within]
    cases needed : needsArgs value with
    | false =>
      rw [if_neg Bool.false_ne_true, if_neg Bool.false_ne_true]
      exact (LimitedRun.pure _).congr fun _ => by simp
    | true =>
      rw [if_pos rfl, if_pos rfl]
      exact ((evaluateArgsWith_limited calm args).bind fun values =>
        (method_limited value method values).run).congr fun _ => by simp
  | .grouped inner => by
    rw [evaluateWith_grouped, exactEvaluate]
    exact (evaluateWith_limited calm inner).congr fun asked => by rw [Within]
  | .relates source target relationTypes minDepth maxDepth direction => by
    exact relates_limited calm (evaluateWith_limited calm source)
      (evaluateWith_limited calm target) relationTypes minDepth maxDepth direction

theorem evaluateArgsWith_limited (calm : Calm resolver) : ∀ args : List (Expr F),
    LimitedRun (WithinArgs ctx resolver args) (evaluateArgsWith ctx resolver args)
      (exactEvaluateArgs ctx resolver args)
  | [] => by
    rw [evaluateArgsWith_nil, exactEvaluateArgs]
    exact (LimitedRun.pure _).congr fun _ => by rw [WithinArgs]
  | arg :: args => by
    rw [evaluateArgsWith_cons, exactEvaluateArgs]
    refine ((evaluateWith_limited calm arg).bind fun value =>
      (evaluateArgsWith_limited calm args).map _).congr fun asked => ?_
    rw [WithinArgs]

end

/-- No evaluator ends the process exactly if, computed with unbounded integers, all results of the
operators that are reached fit into 64 bits and all cuts are between characters. -/
theorem evaluation_never_panics_iff (ctx : EvalContext F) (resolver : AsyncRelationResolver)
    (calm : ∀ asked question, resolver asked question ≠ .error .panic) (expr : Expr F)
    (asked : List Question) :
    (evaluate ctx expr ≠ .error .panic ∧
        ((evaluateAsync ctx resolver expr).run asked).1 ≠ .error .panic) ↔
      Within ctx none expr asked ∧ Within ctx (some resolver) expr asked := by
  refine and_congr ?_ ?_
  · have nobody : Calm none := fun _ same => absurd same (by simp)
    exact (@evaluateWith_limited F _ ctx none nobody expr).ne_panic_iff asked
  · have quiet : Calm (some resolver) := by
      intro answer same
      cases same
      exact calm
    exact (@evaluateWith_limited F _ ctx (some resolver) quiet expr).ne_panic_iff asked

/-- A sum of two small numbers, with a resolver that knows no relation. -/
theorem small_sum_never_panics :
    evaluate ([] : EvalContext Unit)
        (.binaryOp (.literal (.integer 1)) .add (.literal (.integer 2))) ≠ .error .panic ∧
      ((evaluateAsync ([] : EvalContext Unit) (fun _ _ => .ok false)
        (.binaryOp (.literal (.integer 1)) .add (.literal (.integer 2)))).run []).1 ≠
          .error .panic := by
  have within (resolver : Option AsyncRelationResolver) : Within ([] : EvalContext Unit) resolver
      (.binaryOp (.literal (.integer 1)) .add (.literal (.integer 2))) [] := by
    simp only [Within, exactEvaluate, true_and]
    rintro _ _ ⟨⟩ _ _ _ ⟨⟩
    change FitsI64 (1 + 2)
    decide
  exact (evaluation_never_panics_iff [] (fun _ _ => .ok false) (fun _ _ => by simp) _ []).mpr
    ⟨within none, within (some fun _ _ => .ok false)⟩

/-- `'é'.substring(1)` cuts a character of two bytes. -/
theorem cut_inside_a_character :
    ¬ (evaluate ([] : EvalContext Unit)
          (.methodCall (.literal (.string "é")) "substring" [.literal (.integer 1)]) ≠
            .error .panic ∧
        ((evaluateAsync ([] : EvalContext Unit) (fun _ _ => .ok false)
          (.methodCall (.literal (.string "é")) "substring" [.literal (.integer 1)])).run []).1 ≠
            .error .panic) := by
  intro calm
  refine calm.1 ?_
  rfl

end Evaluation

end RaisinDB.Access
