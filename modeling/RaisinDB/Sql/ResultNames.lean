import RaisinDB.Foundation.Separator
import RaisinDB.Sql.ResultColumns

/-!
# Names of computed results

The name under which the hash aggregate stores a result and the name under which an expression
looks for it are made apart from each other, from a function name, a text of the arguments and a
hash of the filter.  They agree only for plain calls that are shown alike.
-/

namespace RaisinDB.Sql

open List
open RaisinDB.Foundation (split_at_first split_at_last)

namespace AggregateSpec

theorem encode_toList (spec : AggregateSpec) : spec.encode.toList =
    spec.base.toList ++ (if spec.distinct then " DISTINCT".toList else []) ++
      (if spec.orderDesc = [] then []
      else " ORDER BY ".toList ++ (",".intercalate (spec.orderDesc.map orderMark)).toList) := by
  unfold encode
  rw [String.toList_append, String.toList_append]
  congr 1
  · cases spec.distinct <;> rfl
  · split
    · rfl
    · rw [String.toList_append]

end AggregateSpec

namespace AggregateCall

variable (call : AggregateCall)

/-- The name of the function without an inner `ORDER BY`. -/
def plainChars : List Char :=
  call.func.base.toList ++ if call.distinct then " DISTINCT".toList else []

theorem encode_of_plain (plain : call.orderBy = []) :
    call.spec.encode.toList = call.plainChars := by
  have none : call.spec.orderDesc = [] := by
    rw [spec, plain]
    rfl
  rw [AggregateSpec.encode_toList, if_pos none, append_nil]
  rfl

theorem encode_of_ordered (ordered : call.orderBy ≠ []) :
    call.spec.encode.toList = call.plainChars ++ (" ORDER BY ".toList ++
      (",".intercalate ((call.orderBy.map Prod.snd).map orderMark)).toList) := by
  have some : call.spec.orderDesc ≠ [] := fun none => ordered (map_eq_nil_iff.mp none)
  rw [AggregateSpec.encode_toList, if_neg some]
  rfl

/-- Neither a bracket nor a letter that only an inner `ORDER BY` brings, and no small letter. -/
def plainChar (char : Char) : Bool :=
  char != '(' && char != 'B' && char.toUpper == char && decide (char.toNat < 128)

theorem plainChar_of_mem {char : Char} (mem : char ∈ call.plainChars) : plainChar char = true := by
  have all : call.plainChars.all plainChar = true := by
    unfold plainChars
    rw [all_append, Bool.and_eq_true]
    constructor
    · cases call.func <;> decide
    · cases call.distinct <;> decide
  exact all_eq_true.mp all char mem

/-- What the letters of every name are like. -/
def specChar (char : Char) : Bool :=
  char != '(' && char.toUpper != '(' && char.toUpper != 'a' && char.toUpper != 'd' &&
    decide (char.toNat < 128)

theorem all_marks (flags : List Bool) :
    (",".intercalate (flags.map orderMark)).toList.all specChar = true := by
  have mark (flag : Bool) : (orderMark flag).toList.all specChar = true := by
    cases flag <;> decide
  induction flags with
  | nil => rfl
  | cons flag rest ih =>
    cases rest with
    | nil =>
      rw [map_singleton, String.intercalate_singleton]
      exact mark flag
    | cons next rest =>
      rw [map_cons, map_cons, String.intercalate_cons_cons, String.toList_append,
        String.toList_append, all_append, all_append, mark flag]
      exact ih

theorem specChar_of_mem {char : Char} (mem : char ∈ call.spec.encode.toList) :
    specChar char = true := by
  have plain : call.plainChars.all specChar = true := by
    unfold plainChars
    rw [all_append, Bool.and_eq_true]
    constructor
    · cases call.func <;> decide
    · cases call.distinct <;> decide
  have all : call.spec.encode.toList.all specChar = true := by
    by_cases ordered : call.orderBy = []
    · rw [call.encode_of_plain ordered]
      exact plain
    · rw [call.encode_of_ordered ordered, all_append, all_append, plain, all_marks]
      decide
  exact all_eq_true.mp all char mem

variable {call}

/-- The function name as the expression looks it up. -/
theorem uppercase_encode {engine : Engine} (texts : PlainTexts engine) (call : AggregateCall) :
    (engine.uppercase call.spec.encode).toList = call.spec.encode.toList.map Char.toUpper := by
  rw [texts.uppercase, String.toList_ofList]
  intro char mem
  have letter := call.specChar_of_mem mem
  simp only [specChar, Bool.and_eq_true, decide_eq_true_eq] at letter
  exact letter.2

theorem uppercase_encode_of_plain {engine : Engine} (texts : PlainTexts engine)
    (plain : call.orderBy = []) : (engine.uppercase call.spec.encode).toList = call.plainChars := by
  rw [uppercase_encode texts, call.encode_of_plain plain]
  refine (map_congr_left fun char mem => ?_).trans (map_id _)
  have letter := call.plainChar_of_mem mem
  simp only [plainChar, Bool.and_eq_true, beq_iff_eq] at letter
  exact letter.1.2

theorem mark_mem_encode (ordered : call.orderBy ≠ []) :
    'a' ∈ call.spec.encode.toList ∨ 'd' ∈ call.spec.encode.toList := by
  rw [call.encode_of_ordered ordered]
  cases keys : call.orderBy with
  | nil => exact absurd keys ordered
  | cons key rest =>
    have first : ∃ char, (char = 'a' ∨ char = 'd') ∧ char ∈ (",".intercalate
        (((key :: rest).map Prod.snd).map orderMark)).toList := by
      have marked : ∃ char, (char = 'a' ∨ char = 'd') ∧ char ∈ (orderMark key.2).toList := by
        cases key.2
        · exact ⟨'a', .inl rfl, by decide⟩
        · exact ⟨'d', .inr rfl, by decide⟩
      obtain ⟨char, which, mem⟩ := marked
      refine ⟨char, which, ?_⟩
      cases rest with
      | nil => simpa using mem
      | cons next rest =>
        rw [map_cons, map_cons, map_cons, map_cons, String.intercalate_cons_cons,
          String.toList_append, String.toList_append]
        exact mem_append_left _ (mem_append_left _ mem)
    obtain ⟨char, which, mem⟩ := first
    have inside := mem_append_right call.plainChars (mem_append_right " ORDER BY ".toList mem)
    rcases which with rfl | rfl
    · exact .inl inside
    · exact .inr inside

/-- A looked-up name agrees with a stored one only without an inner `ORDER BY` on either side. -/
theorem encode_eq_uppercase {engine : Engine} (texts : PlainTexts engine)
    {stored call : AggregateCall} :
    stored.spec.encode = engine.uppercase call.spec.encode ↔
      stored.orderBy = [] ∧ call.orderBy = [] ∧ stored.plainChars = call.plainChars := by
  constructor
  · intro same
    have letters := congrArg String.toList same
    by_cases storedPlain : stored.orderBy = []
    · by_cases plain : call.orderBy = []
      · rw [stored.encode_of_plain storedPlain, uppercase_encode_of_plain texts plain] at letters
        exact ⟨storedPlain, plain, letters⟩
      · -- the words `ORDER BY` are only in the looked-up name
        rw [stored.encode_of_plain storedPlain, uppercase_encode texts,
          call.encode_of_ordered plain, map_append, map_append] at letters
        have mem : 'B' ∈ stored.plainChars := by
          rw [letters]
          exact mem_append_right _ (mem_append_left _ (by decide))
        have letter := stored.plainChar_of_mem mem
        exact absurd letter (by decide)
    · -- the marks of the stored name are small letters
      have mark := mark_mem_encode storedPlain
      rw [letters, uppercase_encode texts] at mark
      rcases mark with mem | mem
      · obtain ⟨char, inside, upper⟩ := mem_map.mp mem
        have letter := call.specChar_of_mem inside
        simp [specChar, upper] at letter
      · obtain ⟨char, inside, upper⟩ := mem_map.mp mem
        have letter := call.specChar_of_mem inside
        simp [specChar, upper] at letter
  · rintro ⟨storedPlain, plain, letters⟩
    apply String.toList_injective
    rw [stored.encode_of_plain storedPlain, uppercase_encode_of_plain texts plain, letters]

theorem base_free (func : AggregateFunction) : ' ' ∉ func.base.toList := by
  cases func <;> decide

theorem func_eq_of_base {stored call : AggregateCall}
    (base : stored.func.base.toList = call.func.base.toList)
    (distinct : stored.distinct = call.distinct) : stored.func = call.func := by
  have names : ∀ func other : AggregateFunction, func.base.toList = other.base.toList →
      func = other ∨ func = .count ∧ other = .countDistinct ∨
        func = .countDistinct ∧ other = .count := by
    intro func other
    cases func <;> cases other <;> decide
  rcases names _ _ base with same | ⟨count, countDistinct⟩ | ⟨countDistinct, count⟩
  · exact same
  · rw [stored.counts.1 count, call.counts.2 countDistinct] at distinct
    cases distinct
  · rw [stored.counts.2 countDistinct, call.counts.1 count] at distinct
    cases distinct

theorem plainChars_inj {stored call : AggregateCall} :
    stored.plainChars = call.plainChars ↔
      stored.func = call.func ∧ stored.distinct = call.distinct := by
  constructor
  · intro same
    -- a further blank ends the plain name of the function on both sides
    have ended (call : AggregateCall) : call.plainChars ++ [' '] = call.func.base.toList ++
        ' ' :: (if call.distinct then "DISTINCT ".toList else []) := by
      unfold plainChars
      cases call.distinct
      · simp
      · rw [append_assoc]
        rfl
    have joined := (ended stored).symm.trans ((congrArg (· ++ [' ']) same).trans (ended call))
    obtain ⟨base, rest⟩ := split_at_first (base_free _) (base_free _) joined
    have distinct : stored.distinct = call.distinct := by
      cases first : stored.distinct <;> cases second : call.distinct
      · rfl
      · rw [first, second] at rest
        cases rest
      · rw [first, second] at rest
        cases rest
      · rfl
    exact ⟨func_eq_of_base base distinct, distinct⟩
  · rintro ⟨func, distinct⟩
    rw [plainChars, plainChars, func, distinct]

variable (engine : Engine)

/-- The text of the arguments in the looked-up name. -/
def lookupArgument (call : AggregateCall) : String :=
  match call.args ++ call.orderBy.map Prod.fst with
  | [] => ""
  | [arg] => argName engine arg
  | _ => "..."

theorem lookupName_eq (call : AggregateCall) : call.lookupName engine = withFilter engine
    (engine.uppercase call.spec.encode ++ "(" ++ call.lookupArgument engine ++ ")")
    call.filter := by
  unfold lookupName functionColumnName lookupArgument
  rcases call.args ++ call.orderBy.map Prod.fst with _ | ⟨arg, _ | ⟨next, rest⟩⟩
  · rw [argName, String.append_empty, String.append_assoc]
    rfl
  · rw [argName]
  · rw [argName, String.append_assoc, String.append_assoc]
    rfl

/-- Nothing in the two names tells the calls apart: neither has an inner `ORDER BY`, and function,
`DISTINCT`, the text of the arguments and the hash of the filter are the same. -/
structure ShownAs (stored call : AggregateCall) : Prop where
  plain : stored.orderBy = [] ∧ call.orderBy = []
  func : stored.func = call.func
  distinct : stored.distinct = call.distinct
  argument : stored.shownArgument = call.lookupArgument engine
  filter : stored.filter.map engine.filterHash = call.filter.map engine.filterHash

def filterSuffix (filter : Option TypedExpr) : List Char :=
  (filter.map fun filter => "_filter_".toList ++ (engine.filterHash filter).toList).getD []

theorem withFilter_toList (func argument : String) (filter : Option TypedExpr) :
    (withFilter engine (func ++ "(" ++ argument ++ ")") filter).toList =
      func.toList ++ '(' :: (argument.toList ++ ')' :: filterSuffix engine filter) := by
  cases filter with
  | none => simp [withFilter, filterSuffix]
  | some filter => simp [withFilter, filterSuffix]

theorem filterSuffix_free {engine : Engine} (texts : PlainTexts engine)
    (filter : Option TypedExpr) : ')' ∉ filterSuffix engine filter := by
  cases filter with
  | none => exact not_mem_nil
  | some filter =>
    intro mem
    rcases mem_append.mp mem with fixed | hash
    · exact absurd fixed (by decide)
    · exact absurd (texts.filterHash filter ')' hash) (by decide)

theorem filterSuffix_inj {filter other : Option TypedExpr} :
    filterSuffix engine filter = filterSuffix engine other ↔
      filter.map engine.filterHash = other.map engine.filterHash := by
  cases filter <;> cases other <;> simp [filterSuffix, String.toList_inj]

theorem canonical_eq_lookupName {engine : Engine} (texts : PlainTexts engine)
    {stored call : AggregateCall} :
    generateCanonicalAggregateName engine stored = call.lookupName engine ↔
      ShownAs engine stored call := by
  rw [lookupName_eq, generateCanonicalAggregateName]
  constructor
  · intro same
    have letters := congrArg String.toList same
    rw [withFilter_toList, withFilter_toList] at letters
    have bracket (call : AggregateCall) : '(' ∉ call.spec.encode.toList := by
      intro mem
      have letter := call.specChar_of_mem mem
      simp [specChar] at letter
    have bracket' : '(' ∉ (engine.uppercase call.spec.encode).toList := by
      rw [uppercase_encode texts]
      intro mem
      obtain ⟨char, inside, upper⟩ := mem_map.mp mem
      have letter := call.specChar_of_mem inside
      simp [specChar, upper] at letter
    obtain ⟨func, rest⟩ := split_at_first (bracket stored) bracket' letters
    obtain ⟨argument, suffix⟩ := split_at_last (filterSuffix_free texts _)
      (filterSuffix_free texts _) rest
    obtain ⟨storedPlain, plain, chars⟩ :=
      (encode_eq_uppercase texts).mp (String.toList_injective func)
    obtain ⟨sameFunc, distinct⟩ := plainChars_inj.mp chars
    exact ⟨⟨storedPlain, plain⟩, sameFunc, distinct, String.toList_injective argument,
      (filterSuffix_inj engine).mp suffix⟩
  · intro shown
    have func := (encode_eq_uppercase texts).mpr
      ⟨shown.plain.1, shown.plain.2, plainChars_inj.mpr ⟨shown.func, shown.distinct⟩⟩
    apply String.toList_injective
    rw [withFilter_toList, withFilter_toList, func, shown.argument,
      (filterSuffix_inj engine).mpr shown.filter]

end AggregateCall

end RaisinDB.Sql
