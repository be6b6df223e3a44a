import RaisinDB.Access.AsyncEvaluator
import RaisinDB.Access.NodeConditions

/-!
# The limits of evaluation

The evaluators compute with 64 bits and cut texts at bytes.  A result that does not fit, and a cut
inside a character, end the process.
-/

namespace RaisinDB.Access

open List

variable {F : Type}

/-- The result comes from the exact one, or the process ends. -/
def Limited {α : Type} (fits : Prop) (result exact : Except EvalError α) : Prop :=
  fits ∧ result = exact ∧ exact ≠ .error .panic ∨ ¬ fits ∧ result = .error .panic

theorem Limited.calm {α : Type} {result : Except EvalError α} (calm : result ≠ .error .panic) :
    Limited True result result := .inl ⟨trivial, rfl, calm⟩

/-! ## Integers -/

def FitsI64 (value : Int) : Prop := -2 ^ 63 ≤ value ∧ value < 2 ^ 63

instance (value : Int) : Decidable (FitsI64 value) := inferInstanceAs (Decidable (_ ∧ _))

theorem i64_limited (value : Int) :
    Limited (FitsI64 value) (i64 value : Except EvalError (RelValue F)) (.ok (.integer value)) := by
  rw [i64]
  by_cases fits : -2 ^ 63 ≤ value ∧ value < 2 ^ 63
  · rw [if_pos fits]
    exact .inl ⟨fits, rfl, by simp⟩
  · rw [if_neg fits]
    exact .inr ⟨fits, rfl⟩

/-- The result of an operator on two integers fits. -/
def IntegersFit (left : Int) (op : BinOp) (right : Int) : Prop :=
  match op with
  | .add => FitsI64 (left + right)
  | .sub => FitsI64 (left - right)
  | .mul => FitsI64 (left * right)
  | .div => right ≠ 0 → FitsI64 (left.tdiv right)
  | .mod => right ≠ 0 → ¬ (left = -2 ^ 63 ∧ right = -1) ∧ FitsI64 (left.tmod right)
  | _ => True

def OperatorFits (left : RelValue F) (op : BinOp) (right : RelValue F) : Prop :=
  match left, right with
  | .integer left, .integer right => IntegersFit left op right
  | _, _ => True

def NegationFits (op : UnOp) (value : RelValue F) : Prop :=
  match op, value with
  | .neg, .integer value => FitsI64 (-value)
  | _, _ => True

section Operators

variable [RustStd F]

/-- Operators on unbounded integers. -/
def exactIntegers (left : Int) (op : BinOp) (right : Int) : Except EvalError (RelValue F) :=
  match op with
  | .add => .ok (.integer (left + right))
  | .sub => .ok (.integer (left - right))
  | .mul => .ok (.integer (left * right))
  | .div => if right = 0 then .error .divisionByZero else .ok (.integer (left.tdiv right))
  | .mod => if right = 0 then .error .divisionByZero else .ok (.integer (left.tmod right))
  | op => evalBinaryValues (.integer left) op (.integer right)

def exactBinary (left : RelValue F) (op : BinOp) (right : RelValue F) :
    Except EvalError (RelValue F) :=
  match left, right with
  | .integer left, .integer right => exactIntegers left op right
  | _, _ => evalBinaryValues left op right

def exactUnary (op : UnOp) (value : RelValue F) : Except EvalError (RelValue F) :=
  match op, value with
  | .neg, .integer value => .ok (.integer (-value))
  | op, value => evalUnaryValue op value

theorem compareValues_calm (left right : RelValue F) (holds : Ordering → Bool) :
    compareValues left right holds ≠ .error .panic := by
  cases left <;> cases right <;> simp [compareValues]

theorem integers_limited {op : BinOp} (notAnd : op ≠ .and) (notOr : op ≠ .or) (left right : Int) :
    Limited (IntegersFit left op right)
      (evalBinaryValues (.integer left) op (.integer right) : Except EvalError (RelValue F))
      (exactIntegers left op right) := by
  have checked : (isNumber (.integer left : RelValue F) &&
      isZeroNumber (.integer right : RelValue F)) = true ↔ right = 0 := beq_iff_eq
  cases op with
  | and | or => contradiction
  | eq | neq => exact .calm (by simp [evalBinaryValues])
  | lt | gt | lte | gte => exact .calm (by simp [evalBinaryValues, compareValues])
  | add | sub | mul => exact i64_limited _
  | div =>
    change Limited (right ≠ 0 → FitsI64 (left.tdiv right)) (evalDiv _ _)
      (if right = 0 then _ else _)
    by_cases zero : right = 0
    · rw [evalDiv, if_pos (checked.mpr zero), if_pos zero]
      exact .inl ⟨fun other => absurd zero other, rfl, by simp⟩
    · rw [evalDiv, if_neg (mt checked.mp zero), if_neg zero, forall_prop_of_true zero]
      exact i64_limited _
  | mod =>
    change Limited (right ≠ 0 → _ ∧ FitsI64 (left.tmod right)) (evalMod _ _)
      (if right = 0 then _ else _)
    by_cases zero : right = 0
    · rw [evalMod, if_pos (checked.mpr zero), if_pos zero]
      exact .inl ⟨fun other => absurd zero other, rfl, by simp⟩
    · rw [evalMod, if_neg (mt checked.mp zero), if_neg zero, forall_prop_of_true zero]
      by_cases least : left = -2 ^ 63 ∧ right = -1
      · rw [if_pos least]
        exact .inr ⟨fun fits => fits.1 least, rfl⟩
      · rw [if_neg least, and_iff_right least]
        exact i64_limited _

/-- Integers apart nothing ends the process. -/
theorem evalBinaryValues_calm {op : BinOp} (notAnd : op ≠ .and) (notOr : op ≠ .or)
    {left right : RelValue F} (apart : ∀ l r, left = .integer l → right ≠ .integer r) :
    evalBinaryValues left op right ≠ .error .panic := by
  have numbers (operation : String) (integers : Int → Int → Int) (floats : F → F → F) :
      evalNumbers operation integers floats left right ≠ .error .panic := by
    cases left <;> cases right <;> simp_all [evalNumbers]
  cases op with
  | and | or => contradiction
  | eq | neq => simp [evalBinaryValues]
  | lt | gt | lte | gte =>
    unfold evalBinaryValues
    exact compareValues_calm left right _
  | add => cases left <;> cases right <;> simp_all [evalBinaryValues, evalAdd, evalNumbers]
  | sub => exact numbers _ _ _
  | mul => exact numbers _ _ _
  | div =>
    dsimp only [evalBinaryValues, evalDiv]
    split
    · simp
    · exact numbers _ _ _
  | mod =>
    dsimp only [evalBinaryValues, evalMod]
    split
    · simp
    · split
      · exact absurd rfl (apart _ _ rfl)
      · exact numbers _ _ _

theorem exactBinary_limited {op : BinOp} (notAnd : op ≠ .and) (notOr : op ≠ .or)
    (left right : RelValue F) :
    Limited (OperatorFits left op right) (evalBinaryValues left op right)
      (exactBinary left op right) := by
  unfold OperatorFits exactBinary
  split
  · exact integers_limited notAnd notOr _ _
  · next apart =>
    exact .calm (evalBinaryValues_calm notAnd notOr fun l r left right => apart l r left right)

theorem exactUnary_limited (op : UnOp) (value : RelValue F) :
    Limited (NegationFits op value) (evalUnaryValue op value) (exactUnary op value) := by
  cases op with
  | not => exact .calm (by simp [evalUnaryValue])
  | neg =>
    cases value with
    | integer value => exact i64_limited _
    | null | boolean | float | string | array | object =>
      exact .calm (by simp [evalUnaryValue])

end Operators

/-! ## Cuts -/

/-- The bytes of some characters. -/
def byteSize (text : List Char) : Nat := (text.map Char.utf8Size).sum

/-- A byte between two characters of the text, or at one of its ends. -/
def OnBoundary (text : List Char) (count : Nat) : Prop :=
  ∃ front rest, text = front ++ rest ∧ byteSize front = count

theorem byteSize_cons (char : Char) (text : List Char) :
    byteSize (char :: text) = char.utf8Size + byteSize text := sum_cons

theorem byteSize_append (front rest : List Char) :
    byteSize (front ++ rest) = byteSize front + byteSize rest := by
  rw [byteSize, map_append, sum_append, byteSize, byteSize]

theorem takeBytes_cons {count : Nat} (positive : 0 < count) (char : Char) (text : List Char) :
    takeBytes count (char :: text) =
      if char.utf8Size ≤ count then (takeBytes (count - char.utf8Size) text).map (char :: ·)
      else none := by
  cases count with
  | zero => exact absurd positive (lt_irrefl 0)
  | succ count => rfl

theorem dropBytes_cons {count : Nat} (positive : 0 < count) (char : Char) (text : List Char) :
    dropBytes count (char :: text) =
      if char.utf8Size ≤ count then dropBytes (count - char.utf8Size) text else none := by
  cases count with
  | zero => exact absurd positive (lt_irrefl 0)
  | succ count => rfl

theorem takeBytes_append (front rest : List Char) :
    takeBytes (byteSize front) (front ++ rest) = some front := by
  induction front with
  | nil => cases rest <;> rfl
  | cons char front ih =>
    have positive := char.utf8Size_pos
    rw [cons_append, byteSize_cons, takeBytes_cons (by omega), if_pos (by omega),
      Nat.add_sub_cancel_left, ih]
    rfl

theorem dropBytes_append (front rest : List Char) :
    dropBytes (byteSize front) (front ++ rest) = some rest := by
  induction front with
  | nil => cases rest <;> rfl
  | cons char front ih =>
    have positive := char.utf8Size_pos
    rw [cons_append, byteSize_cons, dropBytes_cons (by omega), if_pos (by omega),
      Nat.add_sub_cancel_left, ih]

theorem takeBytes_of_some {text front : List Char} {count : Nat}
    (taken : takeBytes count text = some front) :
    ∃ rest, text = front ++ rest ∧ byteSize front = count := by
  induction text generalizing front count with
  | nil =>
    cases count with
    | zero =>
      cases taken
      exact ⟨[], rfl, rfl⟩
    | succ count => cases taken
  | cons char text ih =>
    rcases Nat.eq_zero_or_pos count with rfl | positive
    · cases taken
      exact ⟨char :: text, rfl, rfl⟩
    · rw [takeBytes_cons positive] at taken
      split at taken
      · next fits =>
        obtain ⟨front, before, rfl⟩ := Option.map_eq_some_iff.mp taken
        obtain ⟨rest, rfl, size⟩ := ih before
        refine ⟨rest, rfl, ?_⟩
        rw [byteSize_cons, size]
        omega
      · cases taken

theorem dropBytes_of_some {text rest : List Char} {count : Nat}
    (dropped : dropBytes count text = some rest) :
    ∃ front, text = front ++ rest ∧ byteSize front = count := by
  induction text generalizing count with
  | nil =>
    cases count with
    | zero =>
      cases dropped
      exact ⟨[], rfl, rfl⟩
    | succ count => cases dropped
  | cons char text ih =>
    rcases Nat.eq_zero_or_pos count with rfl | positive
    · cases dropped
      exact ⟨[], rfl, rfl⟩
    · rw [dropBytes_cons positive] at dropped
      split at dropped
      · next fits =>
        obtain ⟨front, rfl, size⟩ := ih dropped
        refine ⟨char :: front, rfl, ?_⟩
        rw [byteSize_cons, size]
        omega
      · cases dropped

/-- A text is cut at two bytes if both are between characters. -/
theorem slice_isSome_iff {text : String} {start stop : Nat} (ordered : start ≤ stop) :
    (slice text start stop).isSome ↔
      OnBoundary text.toList start ∧ OnBoundary text.toList stop := by
  unfold slice
  constructor
  · intro done
    cases taken : takeBytes stop text.toList with
    | none =>
      rw [taken] at done
      cases done
    | some front =>
      rw [taken] at done
      obtain ⟨rest, whole, size⟩ := takeBytes_of_some taken
      cases dropped : dropBytes start front with
      | none =>
        change ((dropBytes start front).bind _).isSome = true at done
        rw [dropped] at done
        cases done
      | some middle =>
        obtain ⟨first, rfl, size'⟩ := dropBytes_of_some dropped
        exact ⟨⟨first, middle ++ rest, by rw [whole, append_assoc], size'⟩,
          ⟨first ++ middle, rest, whole, size⟩⟩
  · rintro ⟨⟨first, last, whole, rfl⟩, ⟨front, rest, whole', rfl⟩⟩
    have shared : first <+: front := by
      rcases prefix_or_prefix_of_prefix ⟨last, whole.symm⟩ ⟨rest, whole'.symm⟩ with short | long
      · exact short
      · obtain ⟨more, rfl⟩ := long
        rw [byteSize_append] at ordered
        cases more with
        | nil => exact ⟨[], (append_nil _).trans (append_nil _)⟩
        | cons char more =>
          have positive := char.utf8Size_pos
          rw [byteSize_cons] at ordered
          omega
    obtain ⟨middle, rfl⟩ := shared
    rw [whole', takeBytes_append]
    change ((dropBytes _ _).bind _).isSome = true
    rw [dropBytes_append]
    rfl

/-- The bytes between which a text is cut; they do not lie outside. -/
def clamp (text : String) (start stop : Nat) : Nat × Nat :=
  (min start text.utf8ByteSize,
    max (min stop text.utf8ByteSize) (min start text.utf8ByteSize))

theorem clamp_le (text : String) (start stop : Nat) :
    (clamp text start stop).1 ≤ (clamp text start stop).2 := le_max_right _ _

def substringBounds [RustStd F] (text : String) : List (RelValue F) → Option (Nat × Nat)
  | [start] => start.asInteger.map fun start => clamp text (asUsize start) text.utf8ByteSize
  | [start, stop] => start.asInteger.bind fun start => stop.asInteger.map fun stop =>
      clamp text (asUsize start) (asUsize stop)
  | _ => none

/-- A text is cut between characters. -/
def MethodFits [RustStd F] (value : RelValue F) (method : String) (args : List (RelValue F)) :
    Prop :=
  method = "substring" → ∀ text, value = .string text →
    ∀ bounds, substringBounds text args = some bounds →
      OnBoundary text.toList bounds.1 ∧ OnBoundary text.toList bounds.2

/-! ## Methods -/

theorem bind_calm {α β : Type} {first : Except EvalError α} {next : α → Except EvalError β}
    (calm : first ≠ .error .panic) (calmNext : ∀ value, next value ≠ .error .panic) :
    (first >>= next) ≠ .error .panic := by
  cases first with
  | error error => exact fun same => calm (congrArg Except.error (Except.error.inj same))
  | ok value => exact calmNext value

section Methods

variable [RustStd F]

omit [RustStd F] in
theorem text_calm (operation : String) (value : RelValue F) :
    text operation value ≠ .error .panic := by
  unfold text
  split <;> simp

theorem whole_calm (operation : String) (value : RelValue F) :
    whole operation value ≠ .error .panic := by
  unfold whole
  split <;> simp

omit [RustStd F] in
theorem evalTexts_calm (operation : String) (holds : String → String → Bool)
    (value other : RelValue F) : evalTexts operation holds value other ≠ .error .panic :=
  bind_calm (text_calm _ _) fun _ => bind_calm (text_calm _ _) fun _ => by simp [pure, Except.pure]

omit [RustStd F] in
theorem evalText_calm (operation : String) (change : String → String) (value : RelValue F) :
    evalText operation change value ≠ .error .panic :=
  bind_calm (text_calm _ _) fun _ => by simp [pure, Except.pure]

theorem checkArgCount_calm (method : String) (got expected : Nat) :
    checkArgCount method got expected ≠ .error .panic := by
  unfold checkArgCount
  split <;> simp

omit [RustStd F] in
theorem withArgument_calm (method : String) (args : List (RelValue F))
    {apply : RelValue F → Except EvalError (RelValue F)} (calm : ∀ arg, apply arg ≠ .error .panic) :
    withArgument method args apply ≠ .error .panic := by
  unfold withArgument
  split
  · exact calm _
  · simp

theorem evalParent_calm (value : RelValue F) (levels : Option (RelValue F)) :
    evalParent value levels ≠ .error .panic := by
  cases levels with
  | none =>
    refine bind_calm (text_calm _ _) fun _ => ?_
    simp [bind, Except.bind, pure, Except.pure]
  | some levels =>
    refine bind_calm (text_calm _ _) fun path => bind_calm ?_ fun _ => by simp [pure, Except.pure]
    exact bind_calm (whole_calm "parent" levels) fun _ => by simp

/-- Only a text cut into pieces ends the process. -/
theorem evalMethod_calm (value : RelValue F) {method : String} (other : method ≠ "substring")
    (args : List (RelValue F)) : evalMethodOnValues value method args ≠ .error .panic := by
  unfold evalMethodOnValues
  split
  · simp
  · split
    · cases value <;> simp [evalLength]
    · simp
    · simp
    · refine withArgument_calm _ _ fun arg => ?_
      cases value with
      | string => exact bind_calm (text_calm _ _) fun _ => by simp [pure, Except.pure]
      | null | boolean | integer | float | array | object => simp [evalContains]
    · exact withArgument_calm _ _ (evalTexts_calm _ _ _)
    · exact withArgument_calm _ _ (evalTexts_calm _ _ _)
    · exact bind_calm (checkArgCount_calm _ _ _) fun _ => evalText_calm _ _ _
    · exact bind_calm (checkArgCount_calm _ _ _) fun _ => evalText_calm _ _ _
    · exact bind_calm (checkArgCount_calm _ _ _) fun _ => evalText_calm _ _ _
    · contradiction
    · exact bind_calm (checkArgCount_calm _ _ _) fun _ => by cases value <;> simp [evalFirst]
    · exact bind_calm (checkArgCount_calm _ _ _) fun _ => by cases value <;> simp [evalLast]
    · exact withArgument_calm _ _ fun arg => by cases value <;> simp [evalIndexOf]
    · cases value <;> simp [evalJoin]
    · exact evalParent_calm _ _
    · exact withArgument_calm _ _ fun arg => bind_calm (text_calm _ _) fun _ =>
        bind_calm (whole_calm _ _) fun _ => by simp [pure, Except.pure]
    · exact withArgument_calm _ _ (evalTexts_calm _ _ _)
    · exact withArgument_calm _ _ (evalTexts_calm _ _ _)
    · exact withArgument_calm _ _ (evalTexts_calm _ _ _)
    · exact bind_calm (checkArgCount_calm _ _ _) fun _ => bind_calm (text_calm _ _) fun _ => by
        simp [pure, Except.pure]
    · simp

/-- The end of a cut: a piece between two bytes. -/
def cut (text : String) (bounds : Nat × Nat) : Except EvalError (RelValue F) :=
  match slice text bounds.1 bounds.2 with
  | some middle => .ok (.string middle)
  | none => .error .panic

theorem evalSubstring_none (text : String) (start : RelValue F) :
    evalSubstring (.string text) start none = whole "substring" start >>= fun start =>
      cut text (clamp text (asUsize start) text.utf8ByteSize) := rfl

theorem evalSubstring_some (text : String) (start stop : RelValue F) :
    evalSubstring (.string text) start (some stop) = whole "substring" start >>= fun start =>
      whole "substring" stop >>= fun stop =>
        cut text (clamp text (asUsize start) (asUsize stop)) := by
  unfold evalSubstring
  dsimp only
  cases whole "substring" start with
  | error error => rfl
  | ok number => cases whole "substring" stop <;> rfl

theorem whole_of_some {value : RelValue F} {number : Int} (found : value.asInteger = some number)
    (operation : String) : whole operation value = .ok number := by
  rw [whole, found]

theorem whole_of_none {value : RelValue F} (missing : value.asInteger = none)
    (operation : String) :
    whole operation value = .error (.typeError operation "integer" value.typeName) := by
  rw [whole, missing]

/-- Without bounds there is an error, and with them a cut. -/
theorem evalMethod_substring (text : String) (args : List (RelValue F)) :
    (substringBounds text args = none ∧ ∃ error, error ≠ .panic ∧
        evalMethodOnValues (.string text) "substring" args = .error error) ∨
      ∃ start stop, substringBounds text args = some (clamp text start stop) ∧
        evalMethodOnValues (.string text) "substring" args = cut text (clamp text start stop) := by
  rcases args with _ | ⟨start, _ | ⟨stop, _ | ⟨other, args⟩⟩⟩
  · exact .inl ⟨rfl, _, by simp, rfl⟩
  · have called : evalMethodOnValues (.string text) "substring" [start] =
        evalSubstring (.string text) start none := rfl
    rw [called, evalSubstring_none, substringBounds]
    cases found : start.asInteger with
    | none =>
      rw [whole_of_none found]
      exact .inl ⟨rfl, _, by simp, rfl⟩
    | some number =>
      rw [whole_of_some found]
      exact .inr ⟨_, _, rfl, rfl⟩
  · have called : evalMethodOnValues (.string text) "substring" [start, stop] =
        evalSubstring (.string text) start (some stop) := rfl
    rw [called, evalSubstring_some, substringBounds]
    cases found : start.asInteger with
    | none =>
      rw [whole_of_none found]
      exact .inl ⟨rfl, _, by simp, rfl⟩
    | some number =>
      rw [whole_of_some found]
      cases found' : stop.asInteger with
      | none =>
        rw [whole_of_none found']
        exact .inl ⟨rfl, _, by simp, rfl⟩
      | some number' =>
        rw [whole_of_some found']
        exact .inr ⟨_, _, rfl, rfl⟩
  · exact .inl ⟨rfl, _, by simp, rfl⟩

theorem method_limited (value : RelValue F) (method : String) (args : List (RelValue F)) :
    Limited (MethodFits value method args) (evalMethodOnValues value method args)
      (evalMethodOnValues value method args) := by
  by_cases called : method = "substring"
  · subst called
    by_cases isText : ∃ text, value = .string text
    · obtain ⟨text, rfl⟩ := isText
      rcases evalMethod_substring text args with ⟨missing, error, calm, failed⟩ |
        ⟨start, stop, found, done⟩
      · refine .inl ⟨fun _ other same bounds found => ?_, rfl, by simpa [failed] using calm⟩
        cases same
        rw [missing] at found
        cases found
      · have fits : MethodFits (.string text) "substring" args ↔
            (slice text (clamp text start stop).1 (clamp text start stop).2).isSome := by
          rw [slice_isSome_iff (clamp_le text start stop)]
          constructor
          · exact fun fits => fits rfl text rfl _ found
          · intro both _ other same bounds other
            cases same
            rw [found] at other
            cases other
            exact both
        rw [Limited, done, fits, cut]
        cases slice text (clamp text start stop).1 (clamp text start stop).2 with
        | none => exact .inr ⟨by simp, rfl⟩
        | some middle => exact .inl ⟨rfl, rfl, by simp⟩
    · refine .inl ⟨fun _ text same => absurd ⟨text, same⟩ isText, rfl, ?_⟩
      have other (start : RelValue F) (stop : Option (RelValue F)) :
          evalSubstring value start stop ≠ .error .panic := by
        have fails : text "substring" value =
            .error (.typeError "substring" "string" value.typeName) := by
          cases value <;> first | rfl | exact absurd ⟨_, rfl⟩ isText
        rw [evalSubstring, fails]
        simp [bind, Except.bind]
      rcases args with _ | ⟨start, _ | ⟨stop, _ | ⟨more, args⟩⟩⟩ <;> cases value <;>
        simp [evalMethodOnValues]
      all_goals exact other _ _
  · exact .inl ⟨fun same => absurd same called, rfl, evalMethod_calm value called args⟩

end Methods

end RaisinDB.Access
