import RaisinDB.Sql.NodePaths

/-!
# Rewritten calls and equations

A call of a hierarchy function is rewritten to the same call without its filter, and an equation of
DEPTH to itself.  An equation of PARENT becomes a prefix and a depth, that stand for the children of
the literal without the slashes at its end.
-/

namespace RaisinDB.Sql

open List

/-! ## Calls -/

section Meaning

variable (engine : Engine) (checkForReference : PropertyValue → String → String → Bool)

def TrueOn (row : Row) (expr : TypedExpr) : Prop :=
  evalExpr (engine.withHierarchy checkForReference) row expr = .ok (.boolean true)

instance (row : Row) (expr : TypedExpr) : Decidable (TrueOn engine checkForReference row expr) :=
  inferInstanceAs (Decidable (_ = _))

/-- The equation of an answer and a literal is true. -/
def EqualTo (answer : Outcome) (value : Literal) : Prop :=
  (answer.bind fun left => comparisonOp engine.parseTimestamp left .eq value) = .ok (.boolean true)

/-- What a row holds under the name of a call, or else the answer of the function. -/
def heldOr (row : Row) (call : String) (answer : Outcome) : Outcome :=
  match row.get call with
  | some value => .ok (fromPropertyValue value)
  | none => answer

/-- Texts of capitals are their own uppercase. -/
def KeepsCapitals : Prop :=
  ∀ text : String, (text.toList.all fun char => char.isUpper || char == '_') = true →
    engine.uppercase text = text

variable {engine checkForReference} {row : Row}

theorem evalExpr_function (name : String) (args : List TypedExpr) (signature : FunctionSignature)
    (filter : Option TypedExpr) (ty : DataType) :
    evalExpr (engine.withHierarchy checkForReference) row
        (.function name args signature filter ty) =
      heldOr row (functionColumnName (engine.withHierarchy checkForReference) name args filter)
        (evalFunction (engine.withHierarchy checkForReference) name args
          (evalAll (engine.withHierarchy checkForReference) row args) row) := by
  rw [evalExpr]
  rfl

/-- The name under which a result of a call of one argument stands in a row. -/
def unaryCall (name arg : String) : String := name ++ "(" ++ arg ++ ")"

/-- The name under which a result of a call of two arguments stands in a row. -/
def longCall (name : String) : String := name ++ "(...)"

/-- The result held under a name passes the test, or without one the row itself tells. -/
def HeldOr (row : Row) (name : String) (test : Literal → Prop) (told : Prop) : Prop :=
  match row.get name with
  | some held => test (fromPropertyValue held)
  | none => told

theorem heldOr_iff {name : String} {answer : Outcome} (test : Outcome → Prop) {told : Prop}
    (telling : test answer ↔ told) :
    test (heldOr row name answer) ↔ HeldOr row name (fun held => test (.ok held)) told := by
  unfold heldOr HeldOr
  split
  · exact Iff.rfl
  · exact telling

variable (engine) in
/-- A result under the name of a call with its filter passes the test as the one under the bare name
does, and where the row holds one of the two it passes the test as the row itself tells. -/
def FilterFree (row : Row) (call : String) (filter : Option TypedExpr) (test : Literal → Prop)
    (told : Prop) : Prop :=
  filter.isSome →
    match row.get (withFilter engine call filter), row.get call with
    | some held, some bare => test (fromPropertyValue held) ↔ test (fromPropertyValue bare)
    | some held, none | none, some held => test (fromPropertyValue held) ↔ told
    | none, none => True

theorem filterFree_iff (call : String) (filter : Option TypedExpr) (test : Literal → Prop)
    (told : Prop) :
    (HeldOr row (withFilter engine call filter) test told ↔ HeldOr row call test told) ↔
      FilterFree engine row call filter test told := by
  cases filter with
  | none => simp [FilterFree, withFilter]
  | some filter =>
    unfold FilterFree HeldOr
    cases row.get (withFilter engine call (some filter)) <;> cases row.get call <;>
      simp [iff_comm]

/-- The row has a path, one level below the parent. -/
def IsChildOf (row : Row) (parent : String) : Prop :=
  ∃ path, (row.getByUnqualified "path").bind (Literal.pathOrText? ∘ fromPropertyValue) = some path ∧
    startsWith path parent = true ∧ (segments path).length = (segments parent).length + 1

variable (engine) in
def ChildOfKept (row : Row) (args : List TypedExpr) (filter : Option TypedExpr) : Prop :=
  match args with
  | [.literal (.path parentPath) _] | [.literal (.text parentPath) _] =>
      FilterFree engine row (unaryCall "CHILD_OF" "...") filter (· = .boolean true)
        (IsChildOf row parentPath)
  | _ => True

/-- What is read is a path that starts so. -/
def Starts (value : Literal) (start : String) : Prop :=
  ∃ name, value.pathOrText? = some name ∧ startsWith name start = true

variable (engine) in
def PathStartsWithKept (row : Row) (args : List TypedExpr) (filter : Option TypedExpr) : Prop :=
  match args with
  | [.column table column _, .literal (.path start) _]
  | [.column table column _, .literal (.text start) _] =>
      FilterFree engine row (longCall "PATH_STARTS_WITH") filter (· = .boolean true)
        (Starts (columnLiteral table column row) start)
  | _ => True

variable (engine checkForReference) in
def ReferencesKept (row : Row) (args : List TypedExpr) (filter : Option TypedExpr) : Prop :=
  match args with
  | [.literal (.text target) _] =>
      ∀ workspace path, splitOnce ':' target = some (workspace, path) →
        FilterFree engine row (unaryCall "REFERENCES" "...") filter (· = .boolean true)
          (∃ properties ∈ row.getByUnqualified "properties",
            checkForReference properties workspace path = true)
  | _ => True

theorem childOf_true (parent : String) :
    childOfFunction [.ok (.path parent)] row = .ok (.boolean true) ↔ IsChildOf row parent := by
  unfold IsChildOf childOfFunction
  cases row.getByUnqualified "path" with
  | none => simp [Literal.isNull, Literal.pathOrText?, bind, Except.bind, throw, throwThe,
      MonadExceptOf.throw]
  | some value =>
    cases known : fromPropertyValue value <;>
      simp [Literal.isNull, Literal.pathOrText?, known, bind, Except.bind, pure, Except.pure, throw,
        throwThe, MonadExceptOf.throw]

theorem references_true {target workspace path : String}
    (parts : splitOnce ':' target = some (workspace, path)) :
    referencesFunction checkForReference [.ok (.text target)] row = .ok (.boolean true) ↔
      ∃ properties ∈ row.getByUnqualified "properties",
        checkForReference properties workspace path = true := by
  unfold referencesFunction
  cases row.getByUnqualified "properties" <;>
    simp [parts, bind, Except.bind, pure, Except.pure, throw, throwThe,
      MonadExceptOf.throw]

theorem evalFunction_childOf {name : String} (upper : engine.uppercase name = "CHILD_OF")
    (args : List TypedExpr) (results : List Outcome) :
    evalFunction (engine.withHierarchy checkForReference) name args results row =
      childOfFunction results row := by
  simp only [evalFunction, Engine.withHierarchy, upper]
  rfl

theorem evalFunction_references {name : String} (upper : engine.uppercase name = "REFERENCES")
    (args : List TypedExpr) (results : List Outcome) :
    evalFunction (engine.withHierarchy checkForReference) name args results row =
      referencesFunction checkForReference results row := by
  simp only [evalFunction, Engine.withHierarchy, upper]
  rfl

theorem evalFunction_pathStartsWith {name : String}
    (upper : engine.uppercase name = "PATH_STARTS_WITH") (args : List TypedExpr)
    (results : List Outcome) :
    evalFunction (engine.withHierarchy checkForReference) name args results row =
      pathStartsWithFunction results := by
  simp only [evalFunction, Engine.withHierarchy, upper]

theorem evalFunction_depth {name : String} (upper : engine.uppercase name = "DEPTH")
    (args : List TypedExpr) (results : List Outcome) :
    evalFunction (engine.withHierarchy checkForReference) name args results row =
      depthFunction results := by
  simp only [evalFunction, Engine.withHierarchy, upper]

theorem evalFunction_parent {name : String} (upper : engine.uppercase name = "PARENT")
    (args : List TypedExpr) (results : List Outcome) :
    evalFunction (engine.withHierarchy checkForReference) name args results row =
      parentFunction results := by
  simp only [evalFunction, Engine.withHierarchy, upper]

theorem functionColumnName_literal {name known : String} (upper : engine.uppercase name = known)
    (value : Literal) (ty : DataType) (filter : Option TypedExpr) :
    functionColumnName (engine.withHierarchy checkForReference) name [.literal value ty] filter =
      withFilter engine (unaryCall known "...") filter := by
  rw [← upper]
  rfl

theorem functionColumnName_column {name known : String} (upper : engine.uppercase name = known)
    (table column : String) (ty : DataType) (filter : Option TypedExpr) :
    functionColumnName (engine.withHierarchy checkForReference) name [.column table column ty]
        filter =
      withFilter engine (unaryCall known (table ++ "." ++ column)) filter := by
  rw [← upper]
  rfl

theorem functionColumnName_pair {name known : String} (upper : engine.uppercase name = known)
    (first second : TypedExpr) (filter : Option TypedExpr) :
    functionColumnName (engine.withHierarchy checkForReference) name [first, second] filter =
      withFilter engine (longCall known) filter := by
  rw [← upper]
  rfl

/-- A call that is rewritten to a call with the same answer loses no more than its filter. -/
theorem call_kept {name known call : String} {args args' : List TypedExpr}
    {filter : Option TypedExpr} {answer answer' : Outcome} {told : Prop}
    (predicate : CanonicalPredicate) {returned : DataType}
    (named : functionColumnName (engine.withHierarchy checkForReference) name args filter =
      withFilter engine call filter)
    (answered : evalFunction (engine.withHierarchy checkForReference) name args
      (evalAll (engine.withHierarchy checkForReference) row args) row = answer')
    (telling' : answer' = .ok (.boolean true) ↔ told)
    (named' : functionColumnName (engine.withHierarchy checkForReference) known args' none =
      withFilter engine call none)
    (answered' : evalFunction (engine.withHierarchy checkForReference) known args'
      (evalAll (engine.withHierarchy checkForReference) row args') row = answer)
    (telling : answer = .ok (.boolean true) ↔ told)
    (same : predicate.toExpr = CanonicalPredicate.functionCall known args' returned)
    (signature : FunctionSignature) (ty : DataType) :
    ((∀ rewritten ∈ [predicate], TrueOn engine checkForReference row rewritten.toExpr) ↔
      TrueOn engine checkForReference row (.function name args signature filter ty)) ↔
    FilterFree engine row call filter (· = .boolean true) told := by
  simp only [mem_singleton, forall_eq]
  rw [same, TrueOn, TrueOn, CanonicalPredicate.functionCall, evalExpr_function, evalExpr_function,
    named, answered, named', answered', heldOr_iff (· = .ok (.boolean true)) telling,
    heldOr_iff (· = .ok (.boolean true)) telling', ← filterFree_iff]
  simp only [Except.ok.injEq]
  exact iff_comm

theorem other_kept (expr : TypedExpr) :
    ((∀ rewritten ∈ [CanonicalPredicate.other expr],
        TrueOn engine checkForReference row rewritten.toExpr) ↔
      TrueOn engine checkForReference row expr) ↔ True := by
  simp [CanonicalPredicate.toExpr]

theorem splitOnce_append {mark : Char} {text start rest : String}
    (parts : splitOnce mark text = some (start, rest)) :
    start ++ String.singleton mark ++ rest = text := by
  unfold splitOnce at parts
  split at parts
  · cases parts
  · next first later found =>
    cases parts
    have marked : first = mark := by
      have := head_dropWhile_not (· != mark) (show text.toList.dropWhile (· != mark) ≠ [] by
        simp [found])
      simpa [found] using this
    refine String.toList_inj.mp ?_
    have whole := takeWhile_append_dropWhile (p := (· != mark)) (l := text.toList)
    rw [found, marked] at whole
    simpa using whole

theorem pathStartsWith_true (value start : Literal) {text : String}
    (spelled : start.pathOrText? = some text) :
    pathStartsWithFunction [.ok value, .ok start] = .ok (.boolean true) ↔ Starts value text := by
  unfold Starts
  cases start <;> cases spelled <;> cases value <;>
    simp [pathStartsWithFunction, Literal.isNull, Literal.pathOrText?, bind, Except.bind, pure,
      Except.pure, throw, throwThe, MonadExceptOf.throw]

section Calls

variable (capitals : KeepsCapitals engine) {name : String} (args : List TypedExpr)
  (signature : FunctionSignature) (filter : Option TypedExpr) (ty : DataType)

include capitals

theorem childOf_kept (upper : engine.uppercase name = "CHILD_OF") :
    ((∀ predicate ∈ rewriteChildOf args (.function name args signature filter ty),
        TrueOn engine checkForReference row predicate.toExpr) ↔
      TrueOn engine checkForReference row (.function name args signature filter ty)) ↔
    ChildOfKept engine row args filter := by
  have known : engine.uppercase "CHILD_OF" = "CHILD_OF" := capitals _ (by decide)
  unfold rewriteChildOf
  split
  · next path given =>
    rw [ChildOfKept]
    refine call_kept (.childOf path) (functionColumnName_literal upper (.path path) given filter)
      ?_ (childOf_true path) (functionColumnName_literal known (.path path) .path none) ?_
      (childOf_true path) rfl signature ty
    · exact evalFunction_childOf upper _ _
    · exact evalFunction_childOf known _ _
  · next path given =>
    rw [ChildOfKept]
    refine call_kept (.childOf path) (functionColumnName_literal upper (.text path) given filter)
      ?_ (childOf_true path) (functionColumnName_literal known (.path path) .path none) ?_
      (childOf_true path) rfl signature ty
    · exact evalFunction_childOf upper _ _
    · exact evalFunction_childOf known _ _
  · refine (other_kept _).trans (iff_of_true trivial ?_)
    simp only [ChildOfKept]

theorem pathStartsWith_kept (upper : engine.uppercase name = "PATH_STARTS_WITH") :
    ((∀ predicate ∈ rewritePathStartsWith args (.function name args signature filter ty),
        TrueOn engine checkForReference row predicate.toExpr) ↔
      TrueOn engine checkForReference row (.function name args signature filter ty)) ↔
    PathStartsWithKept engine row args filter := by
  have known : engine.uppercase "PATH_STARTS_WITH" = "PATH_STARTS_WITH" := capitals _ (by decide)
  unfold rewritePathStartsWith
  split
  · next table column given start given' =>
    rw [PathStartsWithKept]
    refine call_kept (.prefixRange table column start)
      (functionColumnName_pair upper (.column table column given) (.literal (.path start) given')
        filter) ?_ (pathStartsWith_true _ (.path start) rfl)
      (functionColumnName_pair known (.column table column .path) (.ofLiteral (.path start)) none)
      ?_ (pathStartsWith_true _ (.path start) rfl) rfl signature ty
    · exact evalFunction_pathStartsWith upper _ _
    · exact evalFunction_pathStartsWith known _ _
  · next table column given start given' =>
    rw [PathStartsWithKept]
    refine call_kept (.prefixRange table column start)
      (functionColumnName_pair upper (.column table column given) (.literal (.text start) given')
        filter) ?_ (pathStartsWith_true _ (.text start) rfl)
      (functionColumnName_pair known (.column table column .path) (.ofLiteral (.path start)) none)
      ?_ (pathStartsWith_true _ (.path start) rfl) rfl signature ty
    · exact evalFunction_pathStartsWith upper _ _
    · exact evalFunction_pathStartsWith known _ _
  · refine (other_kept _).trans (iff_of_true trivial ?_)
    simp only [PathStartsWithKept]

theorem references_kept (upper : engine.uppercase name = "REFERENCES") :
    ((∀ predicate ∈ rewriteReferences args (.function name args signature filter ty),
        TrueOn engine checkForReference row predicate.toExpr) ↔
      TrueOn engine checkForReference row (.function name args signature filter ty)) ↔
    ReferencesKept engine checkForReference row args filter := by
  have known : engine.uppercase "REFERENCES" = "REFERENCES" := capitals _ (by decide)
  unfold rewriteReferences
  split
  · next target given =>
    split
    · next workspace path parts =>
      have same : workspace ++ ":" ++ path = target := splitOnce_append parts
      simp only [ReferencesKept, parts, Option.some.injEq, Prod.mk.injEq, and_imp, forall_eq',
        forall_apply_eq_imp_iff]
      refine call_kept (.references workspace path)
        (functionColumnName_literal upper (.text target) given filter) ?_ (references_true parts)
        (functionColumnName_literal known (.text (workspace ++ ":" ++ path)) .text none) ?_
        (references_true parts) rfl signature ty
      · exact evalFunction_references upper _ _
      · rw [same]
        exact evalFunction_references known _ _
    · next whole =>
      refine (other_kept _).trans (iff_of_true trivial ?_)
      simp [ReferencesKept, whole]
  · refine (other_kept _).trans (iff_of_true trivial ?_)
    simp only [ReferencesKept]

end Calls

/-! ## Equalities -/

theorem trueOn_equality (left : TypedExpr) (value : Literal) (given ty : DataType) :
    TrueOn engine checkForReference row (.binaryOp left .eq (.literal value given) ty) ↔
      EqualTo engine (evalExpr (engine.withHierarchy checkForReference) row left) value := by
  rw [TrueOn, evalExpr, evalExpr]
  rfl

/-- What is read is a path so deep. -/
def Levels (value : Literal) (depth : Int32) : Prop :=
  ∃ name, value.pathOrText? = some name ∧ Int32.ofNat (segments name).length = depth

/-- What is read is a path with that parent. -/
def HasParent (value : Literal) (parent : String) : Prop :=
  ∃ name, value.pathOrText? = some name ∧ parentOf name = parent

variable (engine) in
def DepthKept (row : Row) (table column : String) (filter : Option TypedExpr) (depth : Int32) :
    Prop :=
  FilterFree engine row (unaryCall "DEPTH" (table ++ "." ++ column)) filter
    (fun held => EqualTo engine (.ok held) (.int depth))
    (Levels (columnLiteral table column row) depth)

theorem equalTo_depth (value : Literal) (depth : Int32) :
    EqualTo engine (depthFunction [.ok value]) (.int depth) ↔ Levels value depth := by
  unfold Levels
  cases value <;> simp [EqualTo, depthFunction, Literal.pathOrText?, comparisonOp, literalsEqual,
    Literal.isNull, bind, Except.bind, pure, Except.pure, throw, throwThe, MonadExceptOf.throw]

theorem equalTo_parent (value : Literal) {literal : Literal} {path : String}
    (spelled : literal.pathOrText? = some path) :
    EqualTo engine (parentFunction [.ok value]) literal ↔ HasParent value path := by
  unfold HasParent
  cases literal <;> cases spelled <;> cases value <;>
    simp [EqualTo, parentFunction, parentLevels, parentOf, Literal.pathOrText?, comparisonOp,
      literalsEqual, Literal.isNull, bind, Except.bind, pure, Except.pure, throw, throwThe,
      MonadExceptOf.throw]

theorem trueOn_depthEq (capitals : KeepsCapitals engine) (table column : String) (depth : Int32) :
    TrueOn engine checkForReference row (CanonicalPredicate.depthEq table column depth).toExpr ↔
      HeldOr row (unaryCall "DEPTH" (table ++ "." ++ column))
        (fun held => EqualTo engine (.ok held) (.int depth))
        (Levels (columnLiteral table column row) depth) := by
  have known : engine.uppercase "DEPTH" = "DEPTH" := capitals _ (by decide)
  rw [CanonicalPredicate.toExpr, TypedExpr.ofLiteral, trueOn_equality,
    CanonicalPredicate.functionCall, evalExpr_function, functionColumnName_column known,
    evalFunction_depth known]
  exact heldOr_iff (EqualTo engine · (.int depth)) (equalTo_depth _ _)

theorem trueOn_prefixRange (capitals : KeepsCapitals engine) (table column start : String) :
    TrueOn engine checkForReference row (CanonicalPredicate.prefixRange table column start).toExpr ↔
      HeldOr row (longCall "PATH_STARTS_WITH") (· = .boolean true)
        (Starts (columnLiteral table column row) start) := by
  have known : engine.uppercase "PATH_STARTS_WITH" = "PATH_STARTS_WITH" := capitals _ (by decide)
  rw [CanonicalPredicate.toExpr, TrueOn, CanonicalPredicate.functionCall, evalExpr_function,
    functionColumnName_pair known, evalFunction_pathStartsWith known]
  refine (heldOr_iff (· = .ok (.boolean true)) (pathStartsWith_true _ _ rfl)).trans ?_
  simp only [Except.ok.injEq, withFilter]

theorem trueOn_parent {name : String} (upper : engine.uppercase name = "PARENT")
    (table column : String) (given : DataType) (signature : FunctionSignature)
    (filter : Option TypedExpr) (ty : DataType) {literal : Literal} {path : String}
    (spelled : literal.pathOrText? = some path) (given' ty' : DataType) :
    TrueOn engine checkForReference row (.binaryOp
        (.function name [.column table column given] signature filter ty) .eq
        (.literal literal given') ty') ↔
      HeldOr row (withFilter engine (unaryCall "PARENT" (table ++ "." ++ column)) filter)
        (fun held => EqualTo engine (.ok held) literal)
        (HasParent (columnLiteral table column row) path) := by
  rw [trueOn_equality, evalExpr_function, functionColumnName_column upper,
    evalFunction_parent upper]
  exact heldOr_iff (EqualTo engine · literal) (equalTo_parent _ spelled)

theorem depth_kept (capitals : KeepsCapitals engine) {name : String}
    (upper : engine.uppercase name = "DEPTH") (table column : String) (given : DataType)
    (signature : FunctionSignature) (filter : Option TypedExpr) (ty : DataType) (depth : Int32)
    (given' ty' : DataType) :
    ((∀ predicate ∈ [CanonicalPredicate.depthEq table column depth],
        TrueOn engine checkForReference row predicate.toExpr) ↔
      TrueOn engine checkForReference row (.binaryOp
        (.function name [.column table column given] signature filter ty) .eq
        (.literal (.int depth) given') ty')) ↔
    DepthKept engine row table column filter depth := by
  simp only [mem_singleton, forall_eq]
  rw [trueOn_depthEq capitals, trueOn_equality, evalExpr_function, functionColumnName_column upper,
    evalFunction_depth upper]
  refine iff_comm.trans (Iff.trans ?_ (filterFree_iff _ _ _ _))
  exact iff_congr (heldOr_iff (EqualTo engine · (.int depth)) (equalTo_depth _ _)) Iff.rfl

variable (engine) in
/-- The row holds a result of PARENT of the column, or of the calls that it is rewritten to. -/
def HoldsResults (row : Row) (table column : String) (filter : Option TypedExpr) : Prop :=
  row.get (withFilter engine (unaryCall "PARENT" (table ++ "." ++ column)) filter) ≠ none ∨
    row.get (longCall "PATH_STARTS_WITH") ≠ none ∨
    row.get (unaryCall "DEPTH" (table ++ "." ++ column)) ≠ none

variable (engine) in
/-- The parent that is held or read is the literal exactly when what is held or read under it starts
with the literal and is one level deeper. -/
def ResultsAgree (row : Row) (table column : String) (filter : Option TypedExpr) (literal : Literal)
    (path : String) : Prop :=
  let value := columnLiteral table column row
  let depth := Int32.ofNat ((segments path).length + 1)
  HeldOr row (withFilter engine (unaryCall "PARENT" (table ++ "." ++ column)) filter)
      (fun held => EqualTo engine (.ok held) literal) (HasParent value path) ↔
    HeldOr row (longCall "PATH_STARTS_WITH") (· = .boolean true)
        (Starts value (trimEndSlashes path ++ "/")) ∧
      HeldOr row (unaryCall "DEPTH" (table ++ "." ++ column))
        (fun held => EqualTo engine (.ok held) (.int depth)) (Levels value depth)

variable (engine) in
/-- The literal is spelled as a node path, or the path of the row is no child of it in either
spelling, and the path is not so deep under it that its depth wraps. -/
def ParentKept (row : Row) (table column : String) (filter : Option TypedExpr) (literal : Literal)
    (path : String) : Prop :=
  (HoldsResults engine row table column filter →
    ResultsAgree engine row table column filter literal path) ∧
  (¬HoldsResults engine row table column filter →
    ∀ name, (columnLiteral table column row).pathOrText? = some name →
      (path = barePath path ∨ parentOf name ≠ path ∧ parentOf name ≠ barePath path) ∧
        ¬FarBelow name path)

theorem childrenOf_eq (table column path : String) :
    childrenOf table column path = [.prefixRange table column (trimEndSlashes path ++ "/"),
      .depthEq table column (Int32.ofNat ((segments path).length + 1))] := by
  by_cases root : path = "/"
  · subst root
    rfl
  · rw [childrenOf, if_neg root]

theorem parent_kept (capitals : KeepsCapitals engine) {name : String}
    (upper : engine.uppercase name = "PARENT") (table column : String) (given : DataType)
    (signature : FunctionSignature) (filter : Option TypedExpr) (ty : DataType) {literal : Literal}
    {path : String} (spelled : literal.pathOrText? = some path) (given' ty' : DataType)
    (absolute : ∀ name, (columnLiteral table column row).pathOrText? = some name →
      AbsolutePath name) :
    ((∀ predicate ∈ childrenOf table column path,
        TrueOn engine checkForReference row predicate.toExpr) ↔
      TrueOn engine checkForReference row (.binaryOp
        (.function name [.column table column given] signature filter ty) .eq
        (.literal literal given') ty')) ↔
    ParentKept engine row table column filter literal path := by
  rw [childrenOf_eq]
  simp only [mem_cons, not_mem_nil, or_false, forall_eq_or_imp, forall_eq]
  rw [trueOn_prefixRange capitals, trueOn_depthEq capitals,
    trueOn_parent upper _ _ _ _ _ _ spelled]
  by_cases held : HoldsResults engine row table column filter
  · simp only [ParentKept, held, forall_const, not_true_eq_false, false_implies, and_true]
    exact iff_comm
  · simp only [ParentKept, held, false_implies, not_false_eq_true, forall_const, true_and]
    simp only [HoldsResults, not_or, not_not] at held
    obtain ⟨first, second, third⟩ := held
    simp only [HeldOr, first, second, third, Starts, Levels, HasParent]
    cases known : (columnLiteral table column row).pathOrText? with
    | none => simp
    | some name =>
      simp only [Option.some.injEq, exists_eq_left', forall_eq', under_iff (absolute name known)]
      by_cases far : FarBelow name path
      · simp [far, far.parentOf_ne (absolute name known)]
      · simp only [far, or_false, not_false_eq_true, and_true]
        by_cases bare : path = barePath path
        · simp [← bare]
        · constructor
          · intro same
            refine Or.inr ⟨fun child => bare ?_, fun child => bare ?_⟩
            · exact child.symm.trans (same.mpr child)
            · exact (same.mp child).symm.trans child
          · rintro (same | ⟨other, other'⟩)
            · exact absurd same bare
            · exact iff_of_false other' other

variable (engine) in
/-- The condition for an equation. -/
def EqualityKept (row : Row) (left right : TypedExpr) : Prop :=
  match left, right with
  | .function name [.column table column _] _ filter _, .literal value _ =>
      if engine.uppercase name = "DEPTH" then
        ∀ depth, value = .int depth → DepthKept engine row table column filter depth
      else if engine.uppercase name = "PARENT" then
        ∀ path, value.pathOrText? = some path →
          ParentKept engine row table column filter value path
      else True
  | _, _ => True

variable (engine) in
/-- What an equation with PARENT reads as a path is one. -/
def ReadsPaths (row : Row) (left : TypedExpr) : Prop :=
  match left with
  | .function name [.column table column _] _ _ _ =>
      engine.uppercase name = "PARENT" →
        ∀ path, (columnLiteral table column row).pathOrText? = some path → AbsolutePath path
  | _ => True

theorem trueOn_columnEq (table column : String) (given : DataType) (value : TypedExpr)
    (ty : DataType) :
    TrueOn engine checkForReference row (CanonicalPredicate.columnEq table column value).toExpr ↔
      TrueOn engine checkForReference row
        (.binaryOp (.column table column given) .eq value ty) := by
  simp only [TrueOn, CanonicalPredicate.toExpr, evalExpr]

theorem equality_kept (capitals : KeepsCapitals engine) (left right : TypedExpr) (ty : DataType)
    (paths : ReadsPaths engine row left) :
    ((∀ predicate ∈ rewriteEquality engine.uppercase left right (.binaryOp left .eq right ty),
        TrueOn engine checkForReference row predicate.toExpr) ↔
      TrueOn engine checkForReference row (.binaryOp left .eq right ty)) ↔
    EqualityKept engine row left right := by
  unfold rewriteEquality
  split
  · next name table column given signature filter ty' =>
    by_cases depth : engine.uppercase name = "DEPTH"
    · rw [if_pos depth]
      split
      · next k given' =>
        simp only [EqualityKept, depth, if_true, Literal.int.injEq, forall_eq']
        exact depth_kept capitals depth _ _ _ _ _ _ _ _ _
      · next other =>
        refine (other_kept _).trans (iff_of_true trivial ?_)
        cases right with
        | literal value given' =>
          simp only [EqualityKept, depth, if_true]
          rintro k rfl
          exact absurd rfl (other k given')
        | _ => exact trivial
    · rw [if_neg depth]
      by_cases parent : engine.uppercase name = "PARENT"
      · rw [if_pos parent]
        cases right with
        | literal value given' =>
          simp only [EqualityKept, parent, if_true]
          cases value with
          | path path =>
            exact (parent_kept capitals parent table column given signature filter ty' rfl
              given' ty (paths parent)).trans (by simp [Literal.pathOrText?])
          | text path =>
            exact (parent_kept capitals parent table column given signature filter ty' rfl
              given' ty (paths parent)).trans (by simp [Literal.pathOrText?])
          | _ =>
            refine (other_kept _).trans (iff_of_true trivial ?_)
            simp [Literal.pathOrText?]
        | _ => exact other_kept _
      · rw [if_neg parent]
        refine (other_kept _).trans (iff_of_true trivial ?_)
        cases right <;> simp [EqualityKept, depth, parent]
  · next table column given =>
    simp only [mem_singleton, forall_eq]
    refine iff_of_true (trueOn_columnEq table column given right ty) ?_
    cases right <;> exact trivial
  · next other other' =>
    refine (other_kept _).trans (iff_of_true trivial ?_)
    unfold EqualityKept
    split
    · next name table column given signature filter ty' value given' =>
      exact absurd rfl (other _ _ _ _ _ _ _)
    · exact trivial

end Meaning

end RaisinDB.Sql
