import RaisinDB.Sql.ConstantFold
import RaisinDB.Sql.NodePaths

/-!
# What folding keeps

A folded expression evaluates as the original one in every row, unless the folder takes one of the
steps in which its rules differ from those of the evaluator.
-/

namespace RaisinDB.Sql

open List
open RaisinDB.Foundation (Binary64 Value Segments segmentsOf pathText pathText_of_ne below
  below_append   segmentsOf_pathText segmentsOf_append_sep segmentsOf_nil segmentsOf_segment
  segments_segmentsOf)

variable (engine : Engine)

/-! ## Steps -/

/-- The folder computes integers where the evaluator computes in floating point. -/
def intArithmetic : Literal → BinaryOperator → Literal → Bool
  | .int _, .add, .int _ | .int _, .subtract, .int _ | .int _, .multiply, .int _ => true
  | .int _, .divide, .int b | .int _, .modulo, .int b => b != 0
  | _, _, _ => false

/-- The negation of the least integer of a width. -/
def negatesLeast : UnaryOperator → Literal → Bool
  | .negate, .int value => value.toInt == -2 ^ 31
  | .negate, .bigInt value => value.toInt == -2 ^ 63
  | _, _ => false

theorem int32_small (value : Int32) : |value.toInt| ≤ 2 ^ 53 := by
  have low := value.le_toInt
  have high := value.toInt_lt
  exact abs_le.mpr ⟨by omega, by omega⟩

/-- INT values are compared in floating point as they are compared as integers. -/
theorem comparisonOp_ints (a b : Int32) {op : BinaryOperator}
    (comparison : op ∈ [.eq, .notEq, .lt, .ltEq, .gt, .gtEq]) :
    comparisonOp engine.parseTimestamp (.int a) op (.int b) =
      (compareBy op (a == b) (decide (a.toInt < b.toInt)) (decide (a.toInt ≤ b.toInt))
        (decide (b.toInt < a.toInt)) (decide (b.toInt ≤ a.toInt))).map .boolean := by
  have less (x y : Int32) : Binary64.less (.ofInt x.toInt) (.ofInt y.toInt) =
      decide (x.toInt < y.toInt) := Binary64.less_ofInt (int32_small x) (int32_small y)
  have lessEq (x y : Int32) : Binary64.lessEq (.ofInt x.toInt) (.ofInt y.toInt) =
      decide (x.toInt ≤ y.toInt) := Binary64.lessEq_ofInt (int32_small x) (int32_small y)
  simp only [mem_cons, not_mem_nil, or_false] at comparison
  rcases comparison with rfl | rfl | rfl | rfl | rfl | rfl <;>
    simp [comparisonOp, literalsEqual, compareLiterals, compareNumbers, compareBy, literalToNumber,
      Literal.isNull, Literal.isNumeric, less, lessEq, bind, Except.bind, pure, Except.pure,
      Except.map]

theorem replaceBy_ok {outcome : Outcome} {value : Literal} (same : outcome = .ok value) :
    ∃ result, replaceBy value = some result ∧ ∀ value', result = some value' →
      outcome = .ok value' :=
  ⟨some value, rfl, fun _ found => Option.some.inj found ▸ same⟩

theorem keep_ok {outcome : Outcome} :
    ∃ result, keep = some result ∧ ∀ value, result = some value → outcome = .ok value :=
  ⟨none, rfl, fun _ found => nomatch found⟩

theorem foldBinaryOp_ok {left right : Literal} {op : BinaryOperator}
    (plain : intArithmetic left op right = false) :
    ∃ result, foldBinaryOp left op right = some result ∧
      ∀ value, result = some value → binaryOp engine op left right = .ok value := by
  unfold foldBinaryOp
  split
  · cases plain
  · cases plain
  · cases plain
  · next b =>
    rw [if_pos (by simpa [intArithmetic] using plain)]
    exact keep_ok
  · next b =>
    rw [if_pos (by simpa [intArithmetic] using plain)]
    exact keep_ok
  iterate 6
    exact replaceBy_ok (by simp only [binaryOp]; exact comparisonOp_ints engine _ _ (by decide))
  · exact replaceBy_ok rfl
  · exact replaceBy_ok rfl
  · exact replaceBy_ok rfl
  · exact replaceBy_ok rfl
  · exact keep_ok

theorem foldUnaryOp_ok {op : UnaryOperator} {operand : Literal}
    (fits : negatesLeast op operand = false) :
    ∃ result, foldUnaryOp op operand = some result ∧
      ∀ value, result = some value → unaryOp op operand = .ok value := by
  unfold foldUnaryOp
  split
  · exact replaceBy_ok rfl
  · next value =>
    have low := value.le_toInt
    have high := value.toInt_lt
    have other : value.toInt ≠ -2 ^ 31 := by simpa [negatesLeast] using fits
    unfold checkedInt
    rw [if_pos (by omega)]
    exact replaceBy_ok (by simp [unaryOp])
  · next value =>
    have low := value.le_toInt
    have high := value.toInt_lt
    have other : value.toInt ≠ -2 ^ 63 := by simpa [negatesLeast] using fits
    unfold checkedBigInt
    rw [if_pos (by omega)]
    exact replaceBy_ok (by simp [unaryOp])
  · exact replaceBy_ok rfl
  · exact keep_ok

theorem foldCast_ok {operand value : Literal} {target : DataType}
    (folded : foldCast operand target = some value) :
    castLiteral engine operand target = .ok value := by
  unfold foldCast at folded
  split at folded
  · next s base =>
    cases read : parseInt32 s with
    | none => rw [read] at folded; cases folded
    | some n =>
      rw [read] at folded
      cases folded
      simp [castLiteral, base, read, Literal.dataType]
  iterate 5
    next base =>
      cases folded
      simp [castLiteral, base, Literal.dataType]
  · cases folded

/-- The path of a node other than the root, or a name behind two slashes. -/
def NamesParent (path : String) : Prop :=
  (AbsolutePath path ∧ path ≠ "/") ∨
    ∃ name, name ≠ [] ∧ '/' ∉ name ∧ path.toList = '/' :: '/' :: name

theorem cutAtSlash_none {chars : List Char} (plain : '/' ∉ chars) : cutAtSlash 0 chars = none := by
  induction chars with
  | nil => rfl
  | cons char rest ih =>
    obtain ⟨other, later⟩ := not_or.mp (mt mem_cons.mpr plain)
    rw [cutAtSlash, if_neg (Ne.symm other)]
    exact ih later

theorem getParentAtLevel_cut {path : String} {front last : List Char} (plain : '/' ∉ last)
    (whole : path.toList = front ++ '/' :: last) (other : path ≠ "/") :
    getParentAtLevel path 1 = if front = [] then "/" else String.ofList front := by
  have cut : cutAtSlash 0 path.toList.reverse = some front.reverse := by
    rw [whole, reverse_append, reverse_cons, append_assoc]
    exact cutAtSlash_append (by simpa using plain) _
  rw [getParentAtLevel, if_neg other, Nat.sub_self, cut]
  cases front using reverseRecOn with
  | nil => rfl
  | append_singleton front char _ => simp

theorem computeParentPath_append {path : String} {front : List (List Char)} {last : List Char}
    (read : segments path = front ++ [last]) :
    computeParentPath path = some (String.ofList (pathText '/' front)) := by
  rw [computeParentPath, read]
  cases front with
  | nil => rfl
  | cons segment rest =>
    obtain ⟨next, later, whole⟩ : ∃ next later, rest ++ [last] = next :: later :=
      exists_cons_of_ne_nil (by simp)
    have init : (segment :: next :: later).dropLast = segment :: rest := by
      rw [← whole, ← cons_append, dropLast_concat]
    simp only [cons_append, whole, init]
    rfl

/-- The parent of the segments is the text in front of the last slash for a node path other than the
root, and for a name behind two slashes, and for no other path. -/
theorem computeParentPath_iff (path : String) :
    computeParentPath path = some (getParentAtLevel path 1) ↔ NamesParent path := by
  constructor
  · intro same
    have whole {front : List (List Char)} {last : List Char} (read : segments path = front ++ [last]) :
        pathText '/' front = (getParentAtLevel path 1).toList := by
      have := Option.some.inj ((computeParentPath_append read).symm.trans same)
      rw [← this, String.toList_ofList]
    have some : segments path ≠ [] := by
      intro none
      rw [computeParentPath, none] at same
      cases same
    have other : path ≠ "/" := by
      rintro rfl
      exact some rfl
    obtain ⟨front, last, read⟩ : ∃ front last, segments path = front ++ [last] :=
      ⟨_, _, (dropLast_append_getLast some).symm⟩
    specialize whole read
    have slash : '/' ∈ path.toList.reverse := by
      by_contra plain
      have uncut : cutAtSlash 0 path.toList.reverse = none := cutAtSlash_none plain
      rw [getParentAtLevel, if_neg other, Nat.sub_self, uncut] at whole
      cases front <;> cases whole
    obtain ⟨before, name, plain, spelled⟩ : ∃ before name, '/' ∉ name ∧
        path.toList = before ++ '/' :: name := by
      obtain ⟨name, before, reversed, plain⟩ := eq_append_cons_of_mem slash
      exact ⟨before.reverse, name.reverse, by simpa using plain,
        by simpa using congrArg reverse reversed⟩
    have clean : Segments '/' (front ++ [last]) := read ▸ segments_segmentsOf path.toList
    rw [segments_eq, spelled, segmentsOf_append_sep] at read
    rw [getParentAtLevel_cut plain spelled other] at whole
    by_cases unnamed : name = []
    · -- a slash at the end is cut off, a segment is not
      rw [unnamed, segmentsOf_nil, append_nil] at read
      by_cases root : before = []
      · simp [root, segmentsOf_nil] at read
      · rw [if_neg root, String.toList_ofList] at whole
        rw [← whole, segmentsOf_pathText clean.left] at read
        simp at read
    · rw [segmentsOf_segment unnamed plain] at read
      obtain ⟨above, alone⟩ := append_inj' read rfl
      obtain rfl := singleton_inj.mp alone
      rw [← above] at clean whole
      by_cases root : before = []
      · subst root
        exact Or.inl ⟨⟨[name], clean, by simpa [pathText] using spelled⟩, other⟩
      · rw [if_neg root, String.toList_ofList] at whole
        cases names : segmentsOf '/' before with
        | nil =>
          rw [names] at whole
          exact Or.inr ⟨name, unnamed, plain, by rw [spelled, ← whole]; rfl⟩
        | cons segment rest =>
          rw [names, pathText_of_ne (by simp)] at whole
          refine Or.inl ⟨⟨_, clean, ?_⟩, other⟩
          rw [spelled, names, pathText_of_ne (by simp), below_append, whole]
          simp
  · rintro (⟨⟨front, clean, spelled⟩, other⟩ | ⟨name, nonempty, plain, spelled⟩)
    · cases front using reverseRecOn with
      | nil => exact absurd (String.toList_inj.mp spelled) other
      | append_singleton front last _ =>
        have read : segments path = front ++ [last] := by
          rw [segments_eq, spelled, segmentsOf_pathText clean]
        rw [computeParentPath_append read]
        refine congrArg some (String.toList_inj.mp ?_)
        rw [String.toList_ofList]
        exact (parentOf_append clean spelled).symm
    · have read : segments path = [] ++ [name] := by
        rw [segments_eq, spelled]
        exact (segmentsOf_append_sep ['/'] name).trans (by
          rw [segmentsOf_segment nonempty plain]
          rfl)
      have other : path ≠ "/" := by
        rintro rfl
        cases spelled
      have whole : path.toList = ['/'] ++ '/' :: name := spelled
      rw [computeParentPath_append read, getParentAtLevel_cut plain whole other]
      rfl

/-- The values for which the folder and the evaluator agree on a function: PARENT of a path that names
its parent, LENGTH of a text with as many bytes as characters, up to the wrapping of an INT. -/
def AgreesOn (name : String) (values : List Literal) : Prop :=
  match engine.uppercase name, values with
  | "PARENT", [path] => ∀ text, path.pathOrText? = some text → NamesParent text
  | "LENGTH", [.text text] => text.utf8ByteSize % 2 ^ 32 = text.length % 2 ^ 32
  | _, _ => True

theorem evalFunction_folded {name : String} {args : List TypedExpr} {values : List Literal}
    {value : Literal} {row : Row} (folded : foldFunction engine name values = some value) :
    evalFunction engine name args (values.map .ok) row = .ok value ↔ AgreesOn engine name values := by
  unfold foldFunction at folded
  unfold evalFunction AgreesOn
  split at folded
  · next path upper =>
    rw [upper]
    obtain ⟨text, found, rfl⟩ := Option.map_eq_some_iff.mp folded
    simp [depthFunction, found, computeDepth, bind, Except.bind, pure, Except.pure]
  · next path upper =>
    rw [upper]
    obtain ⟨text, found, rfl⟩ := Option.map_eq_some_iff.mp folded
    simp only [found, Option.some.injEq, forall_eq', ← computeParentPath_iff]
    cases computeParentPath text <;>
      simp [parentFunction, parentLevels, found, bind, Except.bind, pure, Except.pure, eq_comm]
  · next path start upper =>
    rw [upper]
    obtain ⟨text, found, rest⟩ := Option.bind_eq_some_iff.mp folded
    obtain ⟨front, found', rfl⟩ := Option.map_eq_some_iff.mp rest
    have first : path.isNull = false := by cases path <;> first | rfl | cases found
    have second : start.isNull = false := by cases start <;> first | rfl | cases found'
    simp [pathStartsWithFunction, found, found', first, second, bind, Except.bind, pure,
      Except.pure]
  · next text upper =>
    rw [upper]
    cases folded
    simp [textKernel, sequence, Literal.isNull, bind, Except.bind, pure, Except.pure]
  · next text upper =>
    rw [upper]
    cases folded
    simp [textKernel, sequence, Literal.isNull, bind, Except.bind, pure, Except.pure]
  · next text upper =>
    rw [upper]
    cases folded
    simp only [← int32_ofNat_inj]
    simp [textKernel, sequence, Literal.isNull, bind, Except.bind, pure, Except.pure, eq_comm]
  · cases folded

/-! ## Literals and rows -/

theorem evalExpr_literal {row : Row} {expr : TypedExpr} {value : Literal}
    (literal : expr.literal? = some value) : evalExpr engine row expr = .ok value := by
  obtain ⟨ty, rfl⟩ := TypedExpr.literal?_eq_some.mp literal
  simp [evalExpr]

theorem evalAll_literals {row : Row} {exprs : List TypedExpr} {values : List Literal}
    (literals : exprs.mapM TypedExpr.literal? = some values) :
    evalAll engine row exprs = values.map .ok := by
  induction exprs generalizing values with
  | nil =>
    cases literals
    simp [evalAll]
  | cons expr rest ih =>
    rw [List.mapM_cons] at literals
    obtain ⟨value, first, others⟩ := Option.bind_eq_some_iff.mp literals
    obtain ⟨values', found, same⟩ := Option.bind_eq_some_iff.mp others
    cases same
    simp [evalAll, evalExpr_literal engine first, ih found]

/-- Reading one member of a column is reading the column and then the member. -/
theorem evalExpr_json {row : Row} {op : JsonOp} {object key : TypedExpr} {ty : DataType}
    (fresh : preExtracted row op object key = none) :
    evalExpr engine row (.json op object key ty) = (do
      let objectVal ← evalExpr engine row object
      let keyVal ← evalExpr engine row key
      jsonOp engine op objectVal keyVal) := by
  rw [evalExpr, fresh]
  simp only []
  cases member : memberOf row op object key with
  | none => rfl
  | some found =>
    obtain ⟨⟨members, name⟩, stored, read⟩ := Option.bind_eq_some_iff.mp member
    unfold storedMembers at stored
    split at stored
    · next table column name' isColumn isLiteral =>
      split at stored
      · next members' value =>
        cases stored
        obtain ⟨_, rfl⟩ := TypedExpr.column?_eq_some.mp isColumn
        rw [evalExpr_literal engine isLiteral, evalExpr]
        simp only [columnLiteral, value, fromPropertyValue, bind, Except.bind]
        cases op with
        | extract =>
          cases read
          simp only [jsonOp, jsonExtract, Value.get]
          cases Value.lookup name members <;> rfl
        | extractText =>
          cases read
          simp only [jsonOp, jsonExtractText, Value.get]
          cases Value.lookup name members <;> rfl
        | _ => cases read
      · cases stored
    · cases stored

theorem evalExpr_json_congr {row : Row} {op : JsonOp} {object key object' key' : TypedExpr}
    {ty ty' : DataType}
    (extracted : preExtracted row op object key = preExtracted row op object' key')
    (objects : evalExpr engine row object = evalExpr engine row object')
    (keys : evalExpr engine row key = evalExpr engine row key') :
    evalExpr engine row (.json op object key ty) = evalExpr engine row (.json op object' key' ty') := by
  cases found : preExtracted row op object key with
  | none =>
    rw [evalExpr_json engine found, evalExpr_json engine (extracted ▸ found), objects, keys]
  | some value =>
    rw [evalExpr, evalExpr, found, ← extracted, found]

theorem evalInList_congr {row : Row} {items items' : List TypedExpr}
    (same : evalAll engine row items = evalAll engine row items') (value result : Literal) :
    evalInList engine row value result items = evalInList engine row value result items' := by
  induction items generalizing items' result with
  | nil =>
    cases items' with
    | nil => rfl
    | cons => simp [evalAll] at same
  | cons item rest ih =>
    cases items' with
    | nil => simp [evalAll] at same
    | cons item' rest' =>
      simp only [evalAll, cons.injEq] at same
      simp only [evalInList, same.1]
      congr 1
      funext result'
      rw [ih same.2]

/-! ## Branches -/

/-- The branches of a conditional, evaluated alike. -/
def SameBranches (row : Row) : List (TypedExpr × TypedExpr) → List (TypedExpr × TypedExpr) → Prop :=
  Forall₂ fun branch branch' =>
    evalExpr engine row branch.1 = evalExpr engine row branch'.1 ∧
      evalExpr engine row branch.2 = evalExpr engine row branch'.2

theorem evalConditions_congr {row : Row} {conditions conditions' : List (TypedExpr × TypedExpr)}
    (same : SameBranches engine row conditions conditions') :
    evalConditions engine row conditions = evalConditions engine row conditions' := by
  induction same with
  | nil => rfl
  | cons branch _ ih => simp only [evalConditions, branch.1, branch.2, ih]

def isNullLiteral (expr : TypedExpr) : Bool := expr.literal? == some .null

/-- A branch that is always taken stands behind branches that are never taken. -/
def decided : List (TypedExpr × TypedExpr) → Bool
  | [] => true
  | (condition, _) :: rest =>
      isTrue condition ||
        (if isFalse condition || isNullLiteral condition then decided rest
         else rest.all fun branch => !isTrue branch.1)

theorem isTrue_iff {expr : TypedExpr} : isTrue expr = true ↔ expr.literal? = some (.boolean true) := by
  simp [isTrue]

theorem evalConditions_taken {row : Row} {conditions : List (TypedExpr × TypedExpr)}
    {branch : TypedExpr × TypedExpr} (decidedly : decided conditions = true)
    (taken : conditions.find? (fun branch => isTrue branch.1) = some branch) :
    evalConditions engine row conditions = some (evalExpr engine row branch.2) := by
  induction conditions with
  | nil => cases taken
  | cons first rest ih =>
    obtain ⟨condition, result⟩ := first
    by_cases here : isTrue condition = true
    · rw [List.find?_cons_of_pos (by exact here)] at taken
      cases taken
      simp only [evalConditions, evalExpr_literal engine (isTrue_iff.mp here)]
    · rw [List.find?_cons_of_neg (by exact here)] at taken
      simp only [decided, here, Bool.false_or] at decidedly
      split at decidedly
      · next skipped =>
        simp only [evalConditions]
        rcases Bool.or_eq_true_iff.mp skipped with never | never
        · rw [evalExpr_literal engine (by simpa [isFalse] using never)]
          exact ih decidedly taken
        · rw [evalExpr_literal engine (by simpa [isNullLiteral] using never)]
          exact ih decidedly taken
      · have found := find?_some taken
        have mem := mem_of_find?_eq_some taken
        have none := all_eq_true.mp decidedly branch mem
        simp [found] at none

theorem evalConditions_none {row : Row} {conditions : List (TypedExpr × TypedExpr)}
    (never : conditions.all (fun branch => isFalse branch.1) = true) :
    evalConditions engine row conditions = none := by
  induction conditions with
  | nil => rfl
  | cons branch rest ih =>
    obtain ⟨condition, result⟩ := branch
    simp only [all_cons, Bool.and_eq_true] at never
    simp only [evalConditions, evalExpr_literal engine (by simpa [isFalse] using never.1)]
    exact ih never.2

theorem foldCase_eval {row : Row} {conditions : List (TypedExpr × TypedExpr)}
    (decidedly : decided conditions = true) (elseExpr : Option TypedExpr) (ty : DataType) :
    evalExpr engine row (foldCase conditions elseExpr ty) =
      evalExpr engine row (.case conditions elseExpr ty) := by
  unfold foldCase
  cases taken : conditions.find? (fun branch => isTrue branch.1) with
  | some branch => simp only [evalExpr, evalConditions_taken engine decidedly taken]
  | none =>
    cases elseExpr with
    | none => rfl
    | some elseResult =>
      simp only []
      split
      · next never =>
        simp only [evalExpr, evalConditions_none engine never, evalElse]
      · rfl

/-! ## Expressions -/

/-- The expression becomes that literal. -/
def FoldsTo (expr : TypedExpr) (value : Literal) : Prop :=
  ∃ folded, foldConstants engine expr = some folded ∧ folded.literal? = some value

/-- The values of the folded arguments and the literal that takes the place of the call. -/
def foldedCall (name : String) (folded : List TypedExpr) (deterministic : Bool) :
    Option (List Literal × Literal) :=
  if deterministic then
    (folded.mapM TypedExpr.literal?).bind fun values =>
      (foldFunction engine name values).map fun value => (values, value)
  else none

/-- A call that becomes a literal does so by the rules of the evaluator, and a result that an earlier
operator left in the row under its name is that literal.  Any other call finds the same result under
its name before and after its arguments are folded, or none and answers alike for the two. -/
def FaithfulCall (row : Row) (name : String) (args folded : List TypedExpr)
    (filter foldedFilter : Option TypedExpr) (deterministic : Bool) : Prop :=
  match row.get (functionColumnName engine name args filter),
      foldedCall engine name folded deterministic with
  | some held, some (_, value) => fromPropertyValue held = value
  | none, some (values, _) => AgreesOn engine name values
  | held, none =>
      (row.get (functionColumnName engine name folded foldedFilter)).map fromPropertyValue =
          held.map fromPropertyValue ∧
        (held = none → evalFunction engine name folded (evalAll engine row args) row =
          evalFunction engine name args (evalAll engine row args) row)

mutual

/-- No step of the folder, from the leaves up, is one in which it differs from the evaluator. -/
def FoldsFaithfully (row : Row) : TypedExpr → Prop
  | .binaryOp left op right _ => FoldsFaithfully row left ∧ FoldsFaithfully row right ∧
      ∀ a b, FoldsTo engine left a → FoldsTo engine right b → intArithmetic a op b = false
  | .unaryOp op expr _ => FoldsFaithfully row expr ∧
      ∀ value, FoldsTo engine expr value → negatesLeast op value = false
  | .function name args signature filter _ =>
      AllFoldFaithfully row args ∧ OptionFoldsFaithfully row filter ∧
      ∀ folded foldedFilter, foldAll engine args = some folded →
        foldOption engine filter = some foldedFilter →
          FaithfulCall engine row name args folded filter foldedFilter signature.isDeterministic
  | .json op object key _ => FoldsFaithfully row object ∧ FoldsFaithfully row key ∧
      ∀ object' key', foldConstants engine object = some object' →
        foldConstants engine key = some key' →
          preExtracted row op object' key' = preExtracted row op object key
  | .case conditions elseExpr _ =>
      BranchesFoldFaithfully row conditions ∧ OptionFoldsFaithfully row elseExpr ∧
      ∀ folded, foldBranches engine conditions = some folded → decided folded = true
  | .cast expr _ _ | .isNull expr _ | .isNotNull expr _ | .inSubquery expr _ _ _ _
  | .quantifiedSubquery expr _ _ _ _ => FoldsFaithfully row expr
  | .quantified left _ right _ _ | .regex left right _ _ _ _ | .like left right _ _
  | .iLike left right _ _ => FoldsFaithfully row left ∧ FoldsFaithfully row right
  | .between expr low high _ =>
      FoldsFaithfully row expr ∧ FoldsFaithfully row low ∧ FoldsFaithfully row high
  | .inList expr list _ _ => FoldsFaithfully row expr ∧ AllFoldFaithfully row list
  | .window _ _ partitionBy orderBy _ _ =>
      AllFoldFaithfully row partitionBy ∧ OrderFoldsFaithfully row orderBy
  | .literal _ _ | .column _ _ _ | .existsSubquery _ _ _ | .scalarSubquery _ _ => True

def AllFoldFaithfully (row : Row) : List TypedExpr → Prop
  | [] => True
  | expr :: rest => FoldsFaithfully row expr ∧ AllFoldFaithfully row rest

def OrderFoldsFaithfully (row : Row) : List (TypedExpr × Bool) → Prop
  | [] => True
  | (expr, _) :: rest => FoldsFaithfully row expr ∧ OrderFoldsFaithfully row rest

def BranchesFoldFaithfully (row : Row) : List (TypedExpr × TypedExpr) → Prop
  | [] => True
  | (condition, result) :: rest => FoldsFaithfully row condition ∧ FoldsFaithfully row result ∧
      BranchesFoldFaithfully row rest

def OptionFoldsFaithfully (row : Row) : Option TypedExpr → Prop
  | none => True
  | some expr => FoldsFaithfully row expr

end

attribute [local simp] foldConstants

theorem orKeep_eval {row : Row} {folded : Option Literal} {node : TypedExpr}
    (same : ∀ value, folded = some value → evalExpr engine row node = .ok value) :
    evalExpr engine row (orKeep folded node) = evalExpr engine row node := by
  cases folded with
  | none => rfl
  | some value =>
    rw [same value rfl]
    exact evalExpr_literal engine rfl

theorem foldIsNull_eval {row : Row} {expr node : TypedExpr} {negated : Bool}
    (same : ∀ value, expr.literal? = some value →
      evalExpr engine row node = .ok (.boolean (value.isNull != negated))) :
    evalExpr engine row (foldIsNull expr negated node) = evalExpr engine row node := by
  refine orKeep_eval engine fun value found => ?_
  obtain ⟨literal, isLiteral, rfl⟩ := Option.map_eq_some_iff.mp found
  exact same literal isLiteral

/-- The call with folded arguments, or the literal that takes its place. -/
def foldCall (name : String) (folded : List TypedExpr) (signature : FunctionSignature)
    (foldedFilter : Option TypedExpr) (ty : DataType) : TypedExpr :=
  orKeep ((foldedCall engine name folded signature.isDeterministic).map Prod.snd)
    (.function name folded signature foldedFilter ty)

theorem foldConstants_function {name : String} {args folded : List TypedExpr}
    {signature : FunctionSignature} {filter foldedFilter : Option TypedExpr} {ty : DataType}
    (foldedArgs : foldAll engine args = some folded)
    (foldedOne : foldOption engine filter = some foldedFilter) :
    foldConstants engine (.function name args signature filter ty) =
      some (foldCall engine name folded signature foldedFilter ty) := by
  unfold foldCall foldedCall
  by_cases deterministic : signature.isDeterministic = true
  · cases literals : folded.mapM TypedExpr.literal? with
    | none => simp [foldConstants, foldedArgs, foldedOne, deterministic, literals, orKeep]
    | some values =>
      cases found : foldFunction engine name values <;>
        simp [foldConstants, foldedArgs, foldedOne, deterministic, literals, found, orKeep]
  · simp [foldConstants, foldedArgs, foldedOne, deterministic, orKeep]

section Calls

variable {row : Row} {name : String} {args folded : List TypedExpr} {signature : FunctionSignature}
  {filter foldedFilter : Option TypedExpr} (ty : DataType)
  (sameArgs : evalAll engine row folded = evalAll engine row args)

include sameArgs

/-- A call that becomes a literal keeps what it evaluates to exactly when it is faithful. -/
theorem literalCall_eval {values : List Literal} {value : Literal}
    (constant : foldedCall engine name folded signature.isDeterministic = some (values, value)) :
    evalExpr engine row (foldCall engine name folded signature foldedFilter ty) =
        evalExpr engine row (.function name args signature filter ty) ↔
      FaithfulCall engine row name args folded filter foldedFilter signature.isDeterministic := by
  have becomes : evalExpr engine row (foldCall engine name folded signature foldedFilter ty) =
      .ok value := by
    rw [foldCall, constant]
    exact evalExpr_literal engine rfl
  obtain ⟨literals, found⟩ : folded.mapM TypedExpr.literal? = some values ∧
      foldFunction engine name values = some value := by
    unfold foldedCall at constant
    split at constant
    · obtain ⟨values', literals, constant⟩ := Option.bind_eq_some_iff.mp constant
      obtain ⟨value', found, same⟩ := Option.map_eq_some_iff.mp constant
      cases same
      exact ⟨literals, found⟩
    · cases constant
  rw [becomes, FaithfulCall, evalExpr, constant]
  cases row.get (functionColumnName engine name args filter) with
  | some held => simp [eq_comm]
  | none =>
    rw [← sameArgs, evalAll_literals engine literals]
    exact eq_comm.trans (evalFunction_folded engine found)

theorem keptCall_eval (kept : foldedCall engine name folded signature.isDeterministic = none)
    (faithful : FaithfulCall engine row name args folded filter foldedFilter
      signature.isDeterministic) :
    evalExpr engine row (foldCall engine name folded signature foldedFilter ty) =
      evalExpr engine row (.function name args signature filter ty) := by
  have stays : foldCall engine name folded signature foldedFilter ty =
      .function name folded signature foldedFilter ty := by
    rw [foldCall, kept]
    rfl
  rw [FaithfulCall, kept] at faithful
  rw [stays, evalExpr, evalExpr, sameArgs]
  cases held : row.get (functionColumnName engine name args filter) <;>
    cases held' : row.get (functionColumnName engine name folded foldedFilter) <;>
    simp_all

end Calls

mutual

/-- A faithfully folded expression evaluates as the original one. -/
theorem folded_eval (row : Row) : ∀ expr : TypedExpr, FoldsFaithfully engine row expr →
    ∃ folded, foldConstants engine expr = some folded ∧
      evalExpr engine row folded = evalExpr engine row expr
  | .literal value ty, _ => ⟨.literal value ty, by simp, rfl⟩
  | .column table column ty, _ => ⟨.column table column ty, by simp, rfl⟩
  | .existsSubquery subquery negated ty, _ =>
    ⟨.existsSubquery subquery negated ty, by simp, rfl⟩
  | .scalarSubquery subquery ty, _ => ⟨.scalarSubquery subquery ty, by simp, rfl⟩
  | .binaryOp left op right ty, ⟨faithfulLeft, faithfulRight, plain⟩ => by
    obtain ⟨left', foldedLeft, sameLeft⟩ := folded_eval row left faithfulLeft
    obtain ⟨right', foldedRight, sameRight⟩ := folded_eval row right faithfulRight
    have node : evalExpr engine row (.binaryOp left' op right' ty) =
        evalExpr engine row (.binaryOp left op right ty) := by
      simp only [evalExpr, sameLeft, sameRight]
    cases first : left'.literal? with
    | none =>
      exact ⟨_, by simp [foldedLeft, foldedRight, first], node⟩
    | some a =>
      cases second : right'.literal? with
      | none =>
        exact ⟨_, by simp [foldedLeft, foldedRight, second], node⟩
      | some b =>
        obtain ⟨result, step, value⟩ := foldBinaryOp_ok engine
          (plain a b ⟨left', foldedLeft, first⟩ ⟨right', foldedRight, second⟩)
        refine ⟨orKeep result (.binaryOp left' op right' ty), by
          simp [foldedLeft, foldedRight, first, second, step], ?_⟩
        rw [orKeep_eval engine, node]
        intro value' found
        simp only [evalExpr, evalExpr_literal engine first, evalExpr_literal engine second]
        exact value value' found
  | .unaryOp op expr ty, ⟨faithful, fits⟩ => by
    obtain ⟨expr', folded, same⟩ := folded_eval row expr faithful
    have node : evalExpr engine row (.unaryOp op expr' ty) =
        evalExpr engine row (.unaryOp op expr ty) := by
      simp only [evalExpr, same]
    cases literal : expr'.literal? with
    | none => exact ⟨_, by simp [folded, literal], node⟩
    | some a =>
      obtain ⟨result, step, value⟩ := foldUnaryOp_ok (fits a ⟨expr', folded, literal⟩)
      refine ⟨orKeep result (.unaryOp op expr' ty), by
        simp [folded, literal, step], ?_⟩
      rw [orKeep_eval engine, node]
      intro value' found
      simp only [evalExpr, evalExpr_literal engine literal]
      exact value value' found
  | .function name args signature filter ty, ⟨faithfulArgs, faithfulFilter, call⟩ => by
    obtain ⟨args', foldedArgs, sameArgs⟩ := foldedAll_eval row args faithfulArgs
    obtain ⟨filter', foldedFilter, _⟩ := foldedOption_eval row filter faithfulFilter
    have faithful := call args' filter' foldedArgs foldedFilter
    refine ⟨_, foldConstants_function engine foldedArgs foldedFilter, ?_⟩
    cases constant : foldedCall engine name args' signature.isDeterministic with
    | none => exact keptCall_eval engine ty sameArgs constant faithful
    | some found => exact (literalCall_eval engine ty sameArgs constant).mpr faithful
  | .cast expr target ty, faithful => by
    obtain ⟨expr', folded, same⟩ := folded_eval row expr faithful
    refine ⟨orKeep (expr'.literal?.bind fun value => foldCast value target)
      (.cast expr' target ty), by simp [folded], ?_⟩
    rw [orKeep_eval engine]
    · simp only [evalExpr, same]
    · intro value found
      obtain ⟨operand, literal, cast⟩ := Option.bind_eq_some_iff.mp found
      simp only [evalExpr, evalExpr_literal engine literal]
      exact foldCast_ok engine cast
  | .isNull expr ty, faithful => by
    obtain ⟨expr', folded, same⟩ := folded_eval row expr faithful
    refine ⟨foldIsNull expr' false (.isNull expr' ty), by simp [folded], ?_⟩
    rw [foldIsNull_eval engine]
    · simp only [evalExpr, same]
    · intro value literal
      simp [evalExpr, evalExpr_literal engine literal, bind, Except.bind, pure, Except.pure]
  | .isNotNull expr ty, faithful => by
    obtain ⟨expr', folded, same⟩ := folded_eval row expr faithful
    refine ⟨foldIsNull expr' true (.isNotNull expr' ty), by simp [folded], ?_⟩
    rw [foldIsNull_eval engine]
    · simp only [evalExpr, same]
    · intro value literal
      simp [evalExpr, evalExpr_literal engine literal, bind, Except.bind, pure, Except.pure]
  | .between expr low high ty, faithful => by
    obtain ⟨expr', folded, same⟩ := folded_eval row expr faithful.1
    obtain ⟨low', foldedLow, sameLow⟩ := folded_eval row low faithful.2.1
    obtain ⟨high', foldedHigh, sameHigh⟩ := folded_eval row high faithful.2.2
    exact ⟨.between expr' low' high' ty, by simp [folded, foldedLow, foldedHigh],
      by simp only [evalExpr, same, sameLow, sameHigh]⟩
  | .inList expr list negated ty, faithful => by
    obtain ⟨expr', folded, same⟩ := folded_eval row expr faithful.1
    obtain ⟨list', foldedList, sameList⟩ := foldedAll_eval row list faithful.2
    exact ⟨.inList expr' list' negated ty, by simp [folded, foldedList],
      by simp only [evalExpr, same, evalInList_congr engine sameList]⟩
  | .inSubquery expr subquery subqueryType negated ty, faithful => by
    obtain ⟨expr', folded, _⟩ := folded_eval row expr faithful
    exact ⟨.inSubquery expr' subquery subqueryType negated ty, by simp [folded],
      by simp only [evalExpr]⟩
  | .quantifiedSubquery left op subquery all ty, faithful => by
    obtain ⟨left', folded, _⟩ := folded_eval row left faithful
    exact ⟨.quantifiedSubquery left' op subquery all ty, by simp [folded], by simp only [evalExpr]⟩
  | .quantified left op right all ty, faithful => by
    obtain ⟨left', foldedLeft, sameLeft⟩ := folded_eval row left faithful.1
    obtain ⟨right', foldedRight, sameRight⟩ := folded_eval row right faithful.2
    exact ⟨.quantified left' op right' all ty, by simp [foldedLeft, foldedRight],
      by simp only [evalExpr, sameLeft, sameRight]⟩
  | .regex expr pattern caseInsensitive negated similarTo ty, faithful => by
    obtain ⟨expr', folded, same⟩ := folded_eval row expr faithful.1
    obtain ⟨pattern', foldedPattern, samePattern⟩ := folded_eval row pattern faithful.2
    exact ⟨.regex expr' pattern' caseInsensitive negated similarTo ty,
      by simp [folded, foldedPattern], by simp only [evalExpr, same, samePattern]⟩
  | .like expr pattern negated ty, faithful => by
    obtain ⟨expr', folded, same⟩ := folded_eval row expr faithful.1
    obtain ⟨pattern', foldedPattern, samePattern⟩ := folded_eval row pattern faithful.2
    exact ⟨.like expr' pattern' negated ty, by simp [folded, foldedPattern],
      by simp only [evalExpr, same, samePattern]⟩
  | .iLike expr pattern negated ty, faithful => by
    obtain ⟨expr', folded, same⟩ := folded_eval row expr faithful.1
    obtain ⟨pattern', foldedPattern, samePattern⟩ := folded_eval row pattern faithful.2
    exact ⟨.iLike expr' pattern' negated ty, by simp [folded, foldedPattern],
      by simp only [evalExpr, same, samePattern]⟩
  | .json op object key ty, ⟨faithfulObject, faithfulKey, extracted⟩ => by
    obtain ⟨object', foldedObject, sameObject⟩ := folded_eval row object faithfulObject
    obtain ⟨key', foldedKey, sameKey⟩ := folded_eval row key faithfulKey
    exact ⟨.json op object' key' ty, by simp [foldedObject, foldedKey],
      evalExpr_json_congr engine (extracted object' key' foldedObject foldedKey) sameObject sameKey⟩
  | .window function argument partitionBy orderBy frame ty, faithful => by
    obtain ⟨partitionBy', foldedPartition, _⟩ := foldedAll_eval row partitionBy faithful.1
    obtain ⟨orderBy', foldedOrder⟩ := foldedOrder_some row orderBy faithful.2
    exact ⟨.window function argument partitionBy' orderBy' frame ty,
      by simp [foldedPartition, foldedOrder], by simp only [evalExpr]⟩
  | .case conditions elseExpr ty, ⟨faithfulBranches, faithfulElse, decidedly⟩ => by
    obtain ⟨conditions', foldedBranches, sameBranches⟩ :=
      foldedBranches_eval row conditions faithfulBranches
    obtain ⟨elseExpr', foldedElse, sameElse⟩ := foldedOption_eval row elseExpr faithfulElse
    refine ⟨foldCase conditions' elseExpr' ty, by simp [foldedBranches, foldedElse], ?_⟩
    rw [foldCase_eval engine (decidedly conditions' foldedBranches)]
    simp only [evalExpr, evalConditions_congr engine sameBranches, sameElse]

theorem foldedAll_eval (row : Row) : ∀ exprs : List TypedExpr, AllFoldFaithfully engine row exprs →
    ∃ folded, foldAll engine exprs = some folded ∧ evalAll engine row folded = evalAll engine row exprs
  | [], _ => ⟨[], by simp [foldAll], rfl⟩
  | expr :: rest, faithful => by
    obtain ⟨expr', folded, same⟩ := folded_eval row expr faithful.1
    obtain ⟨rest', foldedRest, sameRest⟩ := foldedAll_eval row rest faithful.2
    exact ⟨expr' :: rest', by simp [foldAll, folded, foldedRest],
      by simp only [evalAll, same, sameRest]⟩

theorem foldedOrder_some (row : Row) : ∀ exprs : List (TypedExpr × Bool),
    OrderFoldsFaithfully engine row exprs → ∃ folded, foldOrder engine exprs = some folded
  | [], _ => ⟨[], by simp [foldOrder]⟩
  | (expr, desc) :: rest, faithful => by
    obtain ⟨expr', folded, _⟩ := folded_eval row expr faithful.1
    obtain ⟨rest', foldedRest⟩ := foldedOrder_some row rest faithful.2
    exact ⟨(expr', desc) :: rest', by simp [foldOrder, folded, foldedRest]⟩

theorem foldedBranches_eval (row : Row) : ∀ branches : List (TypedExpr × TypedExpr),
    BranchesFoldFaithfully engine row branches →
      ∃ folded, foldBranches engine branches = some folded ∧ SameBranches engine row folded branches
  | [], _ => ⟨[], by simp [foldBranches], .nil⟩
  | (condition, result) :: rest, faithful => by
    obtain ⟨condition', foldedCondition, sameCondition⟩ := folded_eval row condition faithful.1
    obtain ⟨result', foldedResult, sameResult⟩ := folded_eval row result faithful.2.1
    obtain ⟨rest', foldedRest, sameRest⟩ := foldedBranches_eval row rest faithful.2.2
    exact ⟨(condition', result') :: rest',
      by simp [foldBranches, foldedCondition, foldedResult, foldedRest],
      .cons ⟨sameCondition, sameResult⟩ sameRest⟩

theorem foldedOption_eval (row : Row) : ∀ expr : Option TypedExpr,
    OptionFoldsFaithfully engine row expr →
      ∃ folded, foldOption engine expr = some folded ∧
        evalElse engine row folded = evalElse engine row expr
  | none, _ => ⟨none, by simp [foldOption], rfl⟩
  | some expr, faithful => by
    obtain ⟨expr', folded, same⟩ := folded_eval row expr faithful
    exact ⟨some expr', by simp [foldOption, folded], by simp only [evalElse, same]⟩

end

/-! ## The pass -/

/-- Folding neither overflows nor changes what the expression evaluates to in the row. -/
def FoldingKeeps (row : Row) (expr : TypedExpr) : Prop :=
  ∃ folded, foldConstants engine expr = some folded ∧
    evalExpr engine row folded = evalExpr engine row expr

theorem checkedInt_int {x : Int} {value : Literal} (step : checkedInt x = some (some value)) :
    ∃ i, value = .int i := by
  unfold checkedInt at step
  split at step
  · cases step
    exact ⟨_, rfl⟩
  · cases step

theorem checkedRem_int {a b : Int} {value : Literal} (step : checkedRem a b = some (some value)) :
    ∃ i, value = .int i := by
  unfold checkedRem at step
  split at step
  · cases step
    exact ⟨_, rfl⟩
  · cases step

/-- The folder leaves an INT where the evaluator computes a DOUBLE. -/
theorem intArithmetic_differs {left right value : Literal} {op : BinaryOperator}
    (int : intArithmetic left op right = true)
    (folded : foldBinaryOp left op right = some (some value)) :
    binaryOp engine op left right ≠ .ok value := by
  have differs {i : Int32} {x : Binary64} : (Except.ok (.double x) : Outcome) ≠ .ok (.int i) := by
    intro same
    cases same
  unfold intArithmetic at int
  split at int
  · obtain ⟨i, rfl⟩ := checkedInt_int folded
    exact differs
  · obtain ⟨i, rfl⟩ := checkedInt_int folded
    exact differs
  · obtain ⟨i, rfl⟩ := checkedInt_int folded
    exact differs
  · next a b =>
    have other : b ≠ 0 := by simpa using int
    simp only [foldBinaryOp, other, if_false] at folded
    obtain ⟨i, rfl⟩ := checkedInt_int folded
    have nonzero : isZero (.int b) = false := by simpa [isZero] using other
    simp only [binaryOp, nonzero]
    exact differs
  · next a b =>
    have other : b ≠ 0 := by simpa using int
    simp only [foldBinaryOp, other, if_false] at folded
    obtain ⟨i, rfl⟩ := checkedRem_int folded
    exact differs
  · cases int

theorem intArithmetic_folds {left right : Literal} {op : BinaryOperator}
    (int : intArithmetic left op right = true) : foldBinaryOp left op right ≠ keep := by
  have step {x : Int} : checkedInt x ≠ keep := by
    unfold checkedInt
    split <;> intro same <;> cases same
  have rest {a b : Int} : checkedRem a b ≠ keep := by
    unfold checkedRem
    split <;> intro same <;> cases same
  unfold intArithmetic at int
  split at int
  · exact step
  · exact step
  · exact step
  · next a b =>
    have other : b ≠ 0 := by simpa using int
    simpa only [foldBinaryOp, other, if_false] using step
  · next a b =>
    have other : b ≠ 0 := by simpa using int
    simpa only [foldBinaryOp, other, if_false] using rest
  · cases int

theorem negatesLeast_overflows {op : UnaryOperator} {operand : Literal}
    (least : negatesLeast op operand = true) : foldUnaryOp op operand = none := by
  unfold negatesLeast at least
  split at least
  · next value =>
    have same : value.toInt = -2 ^ 31 := by simpa using least
    simp only [foldUnaryOp, checkedInt, same]
    rfl
  · next value =>
    have same : value.toInt = -2 ^ 63 := by simpa using least
    simp only [foldUnaryOp, checkedBigInt, same]
    rfl
  · cases least

theorem literal_foldsTo {value : Literal} {ty : DataType} :
    FoldsTo engine (.literal value ty) value := ⟨.literal value ty, by simp [foldConstants], rfl⟩

theorem foldsTo_literal {value found : Literal} {ty : DataType}
    (folds : FoldsTo engine (.literal value ty) found) : found = value := by
  obtain ⟨folded, same, literal⟩ := folds
  simp only [foldConstants, Option.some.injEq] at same
  rw [← same] at literal
  exact (Option.some.inj literal).symm

theorem binaryOp_literals_faithful {left right : Literal} {op : BinaryOperator}
    {leftTy rightTy ty : DataType} {row : Row} :
    FoldsFaithfully engine row (.binaryOp (.literal left leftTy) op (.literal right rightTy) ty) ↔
      intArithmetic left op right = false := by
  simp only [FoldsFaithfully, true_and]
  constructor
  · exact fun plain => plain left right (literal_foldsTo engine) (literal_foldsTo engine)
  · intro plain a b foldsLeft foldsRight
    rw [foldsTo_literal engine foldsLeft, foldsTo_literal engine foldsRight]
    exact plain

theorem unaryOp_literal_faithful {operand : Literal} {op : UnaryOperator}
    {operandTy ty : DataType} {row : Row} :
    FoldsFaithfully engine row (.unaryOp op (.literal operand operandTy) ty) ↔
      negatesLeast op operand = false := by
  simp only [FoldsFaithfully, true_and]
  constructor
  · exact fun fits => fits operand (literal_foldsTo engine)
  · intro fits value folds
    rw [foldsTo_literal engine folds]
    exact fits

theorem foldAll_literals (values : List Literal) :
    foldAll engine (values.map TypedExpr.ofLiteral) = some (values.map TypedExpr.ofLiteral) := by
  induction values with
  | nil => simp [foldAll]
  | cons value rest ih => simp [foldAll, foldConstants, ih, TypedExpr.ofLiteral]

theorem literals_faithful (row : Row) (values : List Literal) :
    AllFoldFaithfully engine row (values.map TypedExpr.ofLiteral) := by
  induction values with
  | nil => exact trivial
  | cons value rest ih => exact ⟨trivial, ih⟩

theorem call_literals_faithful {row : Row} {name : String} {values : List Literal}
    {signature : FunctionSignature} {ty : DataType} :
    FoldsFaithfully engine row
        (.function name (values.map TypedExpr.ofLiteral) signature none ty) ↔
      FaithfulCall engine row name (values.map TypedExpr.ofLiteral)
        (values.map TypedExpr.ofLiteral) none none signature.isDeterministic := by
  simp only [FoldsFaithfully, literals_faithful, OptionFoldsFaithfully, foldAll_literals, foldOption,
    Option.some.injEq, true_and]
  refine ⟨fun all => all _ _ rfl rfl, ?_⟩
  rintro faithful _ _ rfl rfl
  exact faithful

/-- A call between literals is kept exactly when it is faithful. -/
theorem call_literals_keeps {row : Row} {name : String} {values : List Literal}
    {signature : FunctionSignature} {ty : DataType}
    (keeps : FoldingKeeps engine row
      (.function name (values.map TypedExpr.ofLiteral) signature none ty)) :
    FaithfulCall engine row name (values.map TypedExpr.ofLiteral)
      (values.map TypedExpr.ofLiteral) none none signature.isDeterministic := by
  obtain ⟨folded, found, same⟩ := keeps
  rw [foldConstants_function engine (foldAll_literals engine values) rfl, Option.some.injEq] at found
  cases constant : foldedCall engine name (values.map TypedExpr.ofLiteral)
      signature.isDeterministic with
  | none => simp [FaithfulCall, constant]
  | some pair => exact (literalCall_eval engine ty rfl constant).mp (found ▸ same)

theorem intArithmetic_of_keeps {left right : Literal} {op : BinaryOperator}
    {leftTy rightTy ty : DataType} {row : Row}
    (keeps : FoldingKeeps engine row (.binaryOp (.literal left leftTy) op (.literal right rightTy) ty)) :
    intArithmetic left op right = false := by
  obtain ⟨folded, found, same⟩ := keeps
  by_contra int
  have int := Bool.eq_true_of_not_eq_false int
  simp only [foldConstants, TypedExpr.literal?, Option.bind_eq_bind, Option.bind_some] at found
  cases step : foldBinaryOp left op right with
  | none => simp [step] at found
  | some result =>
    cases result with
    | none => exact intArithmetic_folds int step
    | some value =>
      have folded' : folded = TypedExpr.ofLiteral value := by
        simpa [step, orKeep] using found.symm
      simp only [folded', evalExpr, TypedExpr.ofLiteral, bind, Except.bind] at same
      exact intArithmetic_differs engine int step same.symm

theorem negatesLeast_of_keeps {operand : Literal} {op : UnaryOperator} {operandTy ty : DataType}
    {row : Row} (keeps : FoldingKeeps engine row (.unaryOp op (.literal operand operandTy) ty)) :
    negatesLeast op operand = false := by
  obtain ⟨folded, found, _⟩ := keeps
  by_contra least
  have overflows := negatesLeast_overflows (Bool.eq_true_of_not_eq_false least)
  simp [foldConstants, TypedExpr.literal?, overflows] at found

/-- Folding keeps what an expression evaluates to in every row in which it takes none of the steps
that differ from the evaluator; on an operator or a call between literals this is the exact
condition. -/
theorem folding_keeps_evaluation (engine : Engine) :
    (∀ expr row, FoldsFaithfully engine row expr → FoldingKeeps engine row expr) ∧
    (∀ left op right leftTy rightTy ty row,
      FoldingKeeps engine row (.binaryOp (.literal left leftTy) op (.literal right rightTy) ty) ↔
        FoldsFaithfully engine row
          (.binaryOp (.literal left leftTy) op (.literal right rightTy) ty)) ∧
    (∀ op operand operandTy ty row,
      FoldingKeeps engine row (.unaryOp op (.literal operand operandTy) ty) ↔
        FoldsFaithfully engine row (.unaryOp op (.literal operand operandTy) ty)) ∧
    ∀ name (values : List Literal) signature ty row,
      FoldingKeeps engine row
          (.function name (values.map TypedExpr.ofLiteral) signature none ty) ↔
        FoldsFaithfully engine row
          (.function name (values.map TypedExpr.ofLiteral) signature none ty) := by
  have enough (expr : TypedExpr) (row : Row) :
      FoldsFaithfully engine row expr → FoldingKeeps engine row expr := folded_eval engine row expr
  refine ⟨enough, ?_, ?_, ?_⟩
  · intro left op right leftTy rightTy ty row
    exact ⟨fun keeps => (binaryOp_literals_faithful engine).mpr
      (intArithmetic_of_keeps engine keeps), enough _ row⟩
  · intro op operand operandTy ty row
    exact ⟨fun keeps => (unaryOp_literal_faithful engine).mpr
      (negatesLeast_of_keeps engine keeps), enough _ row⟩
  · intro name values signature ty row
    exact ⟨fun keeps => (call_literals_faithful engine).mpr (call_literals_keeps engine keeps),
      enough _ row⟩

/-- A call of a deterministic function. -/
def calls (name : String) (arg : TypedExpr) (ty : DataType) : TypedExpr :=
  .function name [arg] ⟨name, true⟩ none ty

/-- `LENGTH(LOWER('Ab')) = 2 AND name = 'x'`. -/
def lengthAndName : TypedExpr :=
  .binaryOp (.binaryOp (calls "LENGTH" (calls "LOWER" (.ofLiteral (.text "Ab")) .text) .int) .eq
      (.ofLiteral (.int 2)) .boolean) .and
    (.binaryOp (.column "" "name" .text) .eq (.ofLiteral (.text "x")) .boolean) .boolean

/-- A row in which an earlier operator left the result of another call. -/
def otherResult : Row := (Row.empty.insert "name" (.string "x")).insert "LENGTH(...)" (.integer 7)

theorem length_folds : FoldingKeeps asciiEngine otherResult lengthAndName := by
  refine (folding_keeps_evaluation asciiEngine).1 lengthAndName otherResult ?_
  have lower : foldedCall asciiEngine "LOWER" [.ofLiteral (.text "Ab")] true =
      some ([.text "Ab"], .text "ab") := by decide +kernel
  have length : foldedCall asciiEngine "LENGTH" [.ofLiteral (.text "ab")] true =
      some ([.text "ab"], .int 2) := by decide +kernel
  have inner : foldAll asciiEngine [calls "LOWER" (.ofLiteral (.text "Ab")) .text] =
      some [.ofLiteral (.text "ab")] := by
    have literal : foldAll asciiEngine [.ofLiteral (.text "Ab")] =
        some [.ofLiteral (.text "Ab")] := foldAll_literals asciiEngine [.text "Ab"]
    have none : foldOption asciiEngine none = some none := by simp [foldOption]
    rw [foldAll, calls, foldConstants_function asciiEngine literal none, foldCall, lower]
    simp [foldAll, orKeep]
  refine ⟨⟨⟨⟨⟨⟨trivial, trivial⟩, trivial, ?_⟩, trivial⟩, trivial, ?_⟩, trivial, ?_⟩,
    ⟨trivial, trivial, ?_⟩, ?_⟩
  · rintro folded foldedFilter found foldedNone
    cases (foldAll_literals asciiEngine [.text "Ab"]).symm.trans found
    cases foldedNone
    have fresh : otherResult.get (functionColumnName asciiEngine "LOWER"
        [.ofLiteral (.text "Ab")] none) = none := by decide +kernel
    rw [FaithfulCall, fresh]
    exact trivial
  · rintro folded foldedFilter found foldedNone
    cases inner.symm.trans found
    cases foldedNone
    have fresh : otherResult.get (functionColumnName asciiEngine "LENGTH"
        [calls "LOWER" (.ofLiteral (.text "Ab")) .text] none) = none := by decide +kernel
    rw [FaithfulCall, fresh, length]
    exact (show (2 : Nat) % 2 ^ 32 = 2 % 2 ^ 32 from rfl)
  · intro a b _ _
    cases a <;> rfl
  · intro a b _ _
    cases a <;> rfl
  · intro a b _ _
    cases a <;> rfl

/-- `1 + 2` is folded to an INT and evaluates to a DOUBLE. -/
theorem addition_is_folded_to_int : ¬ ∀ engine row expr, FoldingKeeps engine row expr := by
  intro keeps
  cases intArithmetic_of_keeps asciiEngine
    (keeps asciiEngine Row.empty (.binaryOp (.ofLiteral (.int 1)) .add (.ofLiteral (.int 2)) .int))

end RaisinDB.Sql
