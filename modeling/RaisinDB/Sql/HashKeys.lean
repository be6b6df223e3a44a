import Mathlib
import RaisinDB.Foundation.DebugText
import RaisinDB.Foundation.HashGroups
import RaisinDB.Sql.Evaluator

/-!
# Keys of the hash join

A key value is converted to a property and the debug text of the property is the key.  Objects are
converted to hash maps, which are written in an order of their own.
-/

namespace RaisinDB.Sql

open List RaisinDB.Foundation

/-- The properties that a key value is converted to. -/
inductive HashValue where
  | null
  | boolean (flag : Bool)
  | integer (value : Int64)
  | float (value : Binary64)
  | string (text : String)
  | array (items : List HashValue)
  | object (members : List (String × HashValue))

/-- How the libraries write the values that have no text of their own here.  The text of a number
tells it apart from all others and neither closes a bracket nor holds a null character. -/
structure DebugFormat where
  byCode : Char → Bool
  float : Binary64 → List Char
  vector : List UInt32 → String
  json : Value → String
  timestamp : Int → String
  interval : Int → String
  float_injective : ∀ x y, float x = float y → x = y
  float_closed : ∀ x, ')' ∉ float x
  float_unbroken : ∀ x, '\x00' ∉ float x

/-! ## A format -/

def signChar (negative : Bool) : Char := if negative then '-' else '+'

/-- A number as the fraction of its value. -/
def fractionText : Binary64 → List Char
  | .nan => ['N', 'a', 'N']
  | .infinite negative => [signChar negative, 'i', 'n', 'f']
  | .zero negative => [signChar negative, 'z']
  | .number value _ =>
      signChar (decide (value < 0)) :: 'f' ::
        (hexText value.num.natAbs ++ '/' :: hexText value.den)

theorem signChar_injective {x y : Bool} (same : signChar x = signChar y) : x = y := by
  revert x y
  decide

theorem fractionText_injective (x y : Binary64) (same : fractionText x = fractionText y) :
    x = y := by
  cases x with
  | nan =>
    cases y with
    | nan => rfl
    | infinite | zero | number => simp [fractionText] at same
  | infinite negative =>
    cases y with
    | infinite => rw [signChar_injective (cons.inj same).1]
    | nan | zero | number => simp [fractionText] at same
  | zero negative =>
    cases y with
    | zero => rw [signChar_injective (cons.inj same).1]
    | nan | infinite | number => simp [fractionText] at same
  | number value fits =>
    cases y with
    | number other fits' =>
      obtain ⟨signs, rest⟩ := cons.inj same
      obtain ⟨tops, bottoms⟩ := split_at_first
        (fun mem => absurd (mem_hexText mem) (by decide))
        (fun mem => absurd (mem_hexText mem) (by decide)) (cons.inj rest).2
      have numerators := hexText_injective tops
      have negatives : value.num < 0 ↔ other.num < 0 := by
        rw [Rat.num_neg, Rat.num_neg]
        exact decide_eq_decide.mp (signChar_injective signs)
      have values : value = other := by
        refine Rat.ext ?_ (hexText_injective bottoms)
        omega
      subst values
      rfl
    | nan | infinite | zero => simp [fractionText] at same

theorem not_mem_fractionText (x : Binary64) {char : Char} (plain : char ∈ [')', '\x00']) :
    char ∉ fractionText x := by
  have digits : ∀ n : Nat, char ∉ hexText n := by
    intro n mem
    rcases mem_pair.mp plain with rfl | rfl <;> exact absurd (mem_hexText mem) (by decide)
  have sign : ∀ negative, char ≠ signChar negative := by
    rintro negative rfl
    revert plain
    cases negative <;> decide
  cases x with
  | number value fits =>
    simp only [fractionText, mem_cons, mem_append, not_or]
    refine ⟨sign _, ?_, digits _, ?_, digits _⟩ <;>
      rcases mem_pair.mp plain with rfl | rfl <;> decide
  | nan => rcases mem_pair.mp plain with rfl | rfl <;> decide
  | infinite negative | zero negative =>
    rcases mem_pair.mp plain with rfl | rfl <;> cases negative <;> decide

/-- Numbers as fractions, and nothing for the other kinds. -/
def fractionFormat : DebugFormat where
  byCode := fun _ => false
  float := fractionText
  vector := fun _ => ""
  json := fun _ => ""
  timestamp := fun _ => ""
  interval := fun _ => ""
  float_injective := fractionText_injective
  float_closed := fun x => not_mem_fractionText x mem_cons_self
  float_unbroken := fun x => not_mem_fractionText x (mem_cons_of_mem _ mem_cons_self)

/-! ## Debug texts -/

section Debug

variable (format : DebugFormat)

def quotedText (text : String) : String := String.ofList (quotedDebug format.byCode text)

/-- The debug text of a literal that has no property of its kind. -/
def debugText : Literal → String
  | .uuid text => "Uuid(" ++ quotedText format text ++ ")"
  | .path text => "Path(" ++ quotedText format text ++ ")"
  | .vector entries => "Vector(" ++ format.vector entries ++ ")"
  | .geometry json => "Geometry(" ++ format.json json ++ ")"
  | .timestamp nanos => "Timestamp(" ++ format.timestamp nanos ++ ")"
  | .interval nanos => "Interval(" ++ format.interval nanos ++ ")"
  | .parameter name => "Parameter(" ++ quotedText format name ++ ")"
  | _ => ""

def boolChars (flag : Bool) : List Char := if flag then "true".toList else "false".toList

def intChars (value : Int64) : List Char := (toString value.toInt).toList

/-- A text behind a word of the syntax. -/
def following (word : String) (text : List Char) : List Char := word.toList ++ text

mutual

def debugChars : HashValue → List Char
  | .null => following "Null" []
  | .boolean flag => following "Boolean(" (boolChars flag ++ [')'])
  | .integer value => following "Integer(" (intChars value ++ [')'])
  | .float value => following "Float(" (format.float value ++ [')'])
  | .string text => following "String(" (quotedDebug format.byCode text ++ [')'])
  | .array [] => following "Array([" (following "])" [])
  | .array (item :: rest) => following "Array([" (debugChars item ++ debugItems rest)
  | .object [] => following "Object(\x7b" (following "\x7d)" [])
  | .object ((key, value) :: rest) =>
      following "Object(\x7b" (quotedDebug format.byCode key ++
        following ": " (debugChars value ++ debugMembers rest))

def debugItems : List HashValue → List Char
  | [] => following "])" []
  | item :: rest => following ", " (debugChars item ++ debugItems rest)

def debugMembers : List (String × HashValue) → List Char
  | [] => following "\x7d)" []
  | (key, value) :: rest =>
      following ", " (quotedDebug format.byCode key ++
        following ": " (debugChars value ++ debugMembers rest))

end

variable {format}

theorem following_append (word : String) (text rest : List Char) :
    following word text ++ rest = following word (text ++ rest) :=
  append_assoc _ _ _

theorem following_inj {word : String} {text text' : List Char} :
    following word text = following word text' ↔ text = text' := append_right_inj _

theorem following_cons {word : String} {char : Char} {tail text : List Char}
    (begins : word.toList = char :: tail) : following word text = char :: (tail ++ text) := by
  rw [following, begins, cons_append]

theorem following_ne {word word' : String} {char char' : Char} {tail tail' text text' : List Char}
    (begins : word.toList = char :: tail) (begins' : word'.toList = char' :: tail')
    (ne : char ≠ char') : following word text ≠ following word' text' := by
  rw [following_cons begins, following_cons begins']
  exact fun same => ne (cons.inj same).1

theorem intChars_injective {x y : Int64} (same : intChars x = intChars y) : x = y := by
  have texts := String.toList_inj.mp same
  rw [Int.toString_eq_repr, Int.toString_eq_repr] at texts
  exact Int64.toInt_inj.mp (Int.repr_injective texts)

theorem mem_intChars {value : Int64} {char : Char} (mem : char ∈ intChars value) :
    char = '-' ∨ char.isDigit := by
  unfold intChars at mem
  rw [Int.toString_eq_repr, Int.repr_eq_if] at mem
  have digits : ∀ n : Nat, char ∈ n.repr.toList → char.isDigit := by
    intro n among
    rw [Nat.repr, String.toList_ofList] at among
    exact Nat.isDigit_of_mem_toDigits (by decide) (by decide) among
  split at mem
  · exact Or.inr (digits _ mem)
  · rw [String.toList_append, mem_append] at mem
    rcases mem with sign | among
    · exact Or.inl (by simpa using sign)
    · exact Or.inr (digits _ among)

theorem not_mem_intChars {value : Int64} {char : Char} (other : char ≠ '-')
    (noDigit : char.isDigit = false) : char ∉ intChars value := by
  intro mem
  rcases mem_intChars mem with rfl | digit
  · exact other rfl
  · rw [noDigit] at digit
    exact Bool.false_ne_true digit

theorem boolChars_delimited : SelfDelimiting fun flag => boolChars flag ++ [')'] := by
  refine SelfDelimiting.closed ?_ ?_ <;> decide

theorem intChars_delimited : SelfDelimiting fun value => intChars value ++ [')'] :=
  SelfDelimiting.closed (fun _ _ => intChars_injective)
    fun _ => not_mem_intChars (by decide) (by decide)

theorem float_delimited : SelfDelimiting fun value => format.float value ++ [')'] :=
  SelfDelimiting.closed format.float_injective format.float_closed

/-- The first letter of a text tells the kind of the property. -/
def initial : HashValue → Char
  | .null => 'N'
  | .boolean _ => 'B'
  | .integer _ => 'I'
  | .float _ => 'F'
  | .string _ => 'S'
  | .array _ => 'A'
  | .object _ => 'O'

theorem head_debugChars (value : HashValue) :
    ∃ rest, debugChars format value = initial value :: rest := by
  cases value with
  | array items => cases items <;> exact ⟨_, rfl⟩
  | object members => rcases members with _ | ⟨⟨key, value⟩, rest⟩ <;> exact ⟨_, rfl⟩
  | _ => exact ⟨_, rfl⟩

theorem initial_eq {value other : HashValue} {rest rest' : List Char}
    (joined : debugChars format value ++ rest = debugChars format other ++ rest') :
    initial value = initial other := by
  obtain ⟨text, first⟩ := @head_debugChars format value
  obtain ⟨text', second⟩ := @head_debugChars format other
  rw [first, second] at joined
  exact (cons.inj joined).1

theorem initial_not_close (value : HashValue) : initial value ≠ ']' := by
  cases value <;> simp [initial]

/-- No property begins as a list of items ends. -/
theorem debugChars_ne_close (value : HashValue) (text rest : List Char) :
    following "])" text ≠ debugChars format value ++ rest := by
  obtain ⟨tail, begins⟩ := @head_debugChars format value
  rw [begins, following_cons rfl, cons_append]
  exact fun same => initial_not_close value (cons.inj same).1.symm

theorem quotedDebug_ne_close (key : String) (text rest : List Char) :
    following "\x7d)" text ≠ quotedDebug format.byCode key ++ rest := by
  rw [following_cons rfl, quotedDebug, cons_append]
  exact fun same => absurd (cons.inj same).1 (by decide)

mutual

theorem debugChars_delimited (value other : HashValue) (rest rest' : List Char)
    (joined : debugChars format value ++ rest = debugChars format other ++ rest') :
    value = other ∧ rest = rest' := by
  have kinds := initial_eq joined
  cases value with
  | null =>
    cases other <;> simp [initial] at kinds
    exact ⟨rfl, append_cancel_left joined⟩
  | boolean flag =>
    cases other <;> simp [initial] at kinds
    rename_i other
    simp only [debugChars, following_append, following_inj] at joined
    obtain ⟨same, follow⟩ := boolChars_delimited flag other rest rest' joined
    exact ⟨by rw [same], follow⟩
  | integer number =>
    cases other <;> simp [initial] at kinds
    rename_i other
    simp only [debugChars, following_append, following_inj] at joined
    obtain ⟨same, follow⟩ := intChars_delimited number other rest rest' joined
    exact ⟨by rw [same], follow⟩
  | float number =>
    cases other <;> simp [initial] at kinds
    rename_i other
    simp only [debugChars, following_append, following_inj] at joined
    obtain ⟨same, follow⟩ := float_delimited number other rest rest' joined
    exact ⟨by rw [same], follow⟩
  | string text =>
    cases other <;> simp [initial] at kinds
    simp only [debugChars, following_append, following_inj, append_assoc] at joined
    obtain ⟨same, follow⟩ := quotedDebug_delimited format.byCode _ _ _ _ joined
    exact ⟨by rw [same], append_cancel_left follow⟩
  | array items =>
    cases other <;> simp [initial] at kinds
    rename_i others
    rcases items with _ | ⟨item, more⟩ <;> rcases others with _ | ⟨item', more'⟩
    · exact ⟨rfl, append_cancel_left joined⟩
    · simp only [debugChars, following_append, following_inj, append_assoc] at joined
      exact absurd joined (debugChars_ne_close item' _ _)
    · simp only [debugChars, following_append, following_inj, append_assoc] at joined
      exact absurd joined.symm (debugChars_ne_close item _ _)
    · simp only [debugChars, following_append, following_inj, append_assoc] at joined
      obtain ⟨same, follow⟩ := debugChars_delimited item item' _ _ joined
      obtain ⟨sameRest, follow⟩ := debugItems_delimited more more' _ _ follow
      exact ⟨by rw [same, sameRest], follow⟩
  | object members =>
    cases other <;> simp [initial] at kinds
    rename_i others
    rcases members with _ | ⟨⟨key, item⟩, more⟩ <;> rcases others with _ | ⟨⟨key', item'⟩, more'⟩
    · exact ⟨rfl, append_cancel_left joined⟩
    · simp only [debugChars, following_append, following_inj, append_assoc] at joined
      exact absurd joined (quotedDebug_ne_close key' _ _)
    · simp only [debugChars, following_append, following_inj, append_assoc] at joined
      exact absurd joined.symm (quotedDebug_ne_close key _ _)
    · simp only [debugChars, following_append, following_inj, append_assoc] at joined
      obtain ⟨sameKey, follow⟩ := quotedDebug_delimited format.byCode _ _ _ _ joined
      obtain ⟨same, follow⟩ := debugChars_delimited item item' _ _ (following_inj.mp follow)
      obtain ⟨sameRest, follow⟩ := debugMembers_delimited more more' _ _ follow
      exact ⟨by rw [sameKey, same, sameRest], follow⟩

theorem debugItems_delimited (items others : List HashValue) (rest rest' : List Char)
    (joined : debugItems format items ++ rest = debugItems format others ++ rest') :
    items = others ∧ rest = rest' := by
  rcases items with _ | ⟨item, more⟩ <;> rcases others with _ | ⟨item', more'⟩
  · exact ⟨rfl, append_cancel_left joined⟩
  · simp only [debugItems, following_append] at joined
    exact absurd joined (following_ne rfl rfl (by decide))
  · simp only [debugItems, following_append] at joined
    exact absurd joined (following_ne rfl rfl (by decide))
  · simp only [debugItems, following_append, following_inj, append_assoc] at joined
    obtain ⟨same, follow⟩ := debugChars_delimited item item' _ _ joined
    obtain ⟨sameRest, follow⟩ := debugItems_delimited more more' _ _ follow
    exact ⟨by rw [same, sameRest], follow⟩

theorem debugMembers_delimited (members others : List (String × HashValue))
    (rest rest' : List Char)
    (joined : debugMembers format members ++ rest = debugMembers format others ++ rest') :
    members = others ∧ rest = rest' := by
  rcases members with _ | ⟨⟨key, item⟩, more⟩ <;> rcases others with _ | ⟨⟨key', item'⟩, more'⟩
  · exact ⟨rfl, append_cancel_left joined⟩
  · simp only [debugMembers, following_append] at joined
    exact absurd joined (following_ne rfl rfl (by decide))
  · simp only [debugMembers, following_append] at joined
    exact absurd joined (following_ne rfl rfl (by decide))
  · simp only [debugMembers, following_append, following_inj, append_assoc] at joined
    obtain ⟨sameKey, follow⟩ := quotedDebug_delimited format.byCode _ _ _ _ joined
    obtain ⟨same, follow⟩ := debugChars_delimited item item' _ _ (following_inj.mp follow)
    obtain ⟨sameRest, follow⟩ := debugMembers_delimited more more' _ _ follow
    exact ⟨by rw [sameKey, same, sameRest], follow⟩

end

/-! ## Joined texts -/

theorem not_mem_following {char : Char} {word : String} {text : List Char}
    (word_free : char ∉ word.toList) (free : char ∉ text) : char ∉ following word text := by
  rw [following, mem_append, not_or]
  exact ⟨word_free, free⟩

theorem null_not_mem_closed {text : List Char} (free : '\x00' ∉ text) : '\x00' ∉ text ++ [')'] := by
  rw [mem_append, not_or]
  exact ⟨free, by decide⟩

theorem null_not_mem_append {text rest : List Char} (first : '\x00' ∉ text)
    (second : '\x00' ∉ rest) : '\x00' ∉ text ++ rest := by
  rw [mem_append, not_or]
  exact ⟨first, second⟩

mutual

theorem null_not_mem_debugChars (value : HashValue) : '\x00' ∉ debugChars format value := by
  cases value with
  | null => exact not_mem_following (by decide) (by decide)
  | boolean flag =>
    refine not_mem_following (by decide) (null_not_mem_closed ?_)
    cases flag <;> decide
  | integer number =>
    exact not_mem_following (by decide)
      (null_not_mem_closed (not_mem_intChars (by decide) (by decide)))
  | float number =>
    exact not_mem_following (by decide) (null_not_mem_closed (format.float_unbroken number))
  | string text =>
    exact not_mem_following (by decide)
      (null_not_mem_closed (null_not_mem_quotedDebug format.byCode text))
  | array items =>
    rcases items with _ | ⟨item, rest⟩
    · exact not_mem_following (by decide) (not_mem_following (by decide) (by decide))
    · exact not_mem_following (by decide)
        (null_not_mem_append (null_not_mem_debugChars item) (null_not_mem_debugItems rest))
  | object members =>
    rcases members with _ | ⟨⟨key, item⟩, rest⟩
    · exact not_mem_following (by decide) (not_mem_following (by decide) (by decide))
    · exact not_mem_following (by decide)
        (null_not_mem_append (null_not_mem_quotedDebug format.byCode key)
          (not_mem_following (by decide)
            (null_not_mem_append (null_not_mem_debugChars item) (null_not_mem_debugMembers rest))))
termination_by structural value

theorem null_not_mem_debugItems (items : List HashValue) : '\x00' ∉ debugItems format items := by
  rcases items with _ | ⟨item, rest⟩
  · exact not_mem_following (by decide) (by decide)
  · exact not_mem_following (by decide)
      (null_not_mem_append (null_not_mem_debugChars item) (null_not_mem_debugItems rest))
termination_by structural items

theorem null_not_mem_debugMembers (members : List (String × HashValue)) :
    '\x00' ∉ debugMembers format members := by
  rcases members with _ | ⟨⟨key, item⟩, rest⟩
  · exact not_mem_following (by decide) (by decide)
  · exact not_mem_following (by decide)
      (null_not_mem_append (null_not_mem_quotedDebug format.byCode key)
        (not_mem_following (by decide)
          (null_not_mem_append (null_not_mem_debugChars item) (null_not_mem_debugMembers rest))))
termination_by structural members

end

/-- The texts of the key values with null characters between them. -/
def valuesToHashKey (format : DebugFormat) (values : List HashValue) : String :=
  String.ofList (['\x00'].intercalate (values.map (debugChars format)))

theorem valuesToHashKey_injective {xs ys : List HashValue} (lengths : xs.length = ys.length)
    (same : valuesToHashKey format xs = valuesToHashKey format ys) : xs = ys := by
  by_cases empty : xs = []
  · rw [empty, length_nil] at lengths
    rw [empty, length_eq_zero_iff.mp lengths.symm]
  · have empty' : ys ≠ [] := by
      rintro rfl
      exact empty (length_eq_zero_iff.mp lengths)
    have texts : ['\x00'].intercalate (xs.map (debugChars format)) =
        ['\x00'].intercalate (ys.map (debugChars format)) := by
      have := congrArg String.toList same
      rwa [valuesToHashKey, valuesToHashKey, String.toList_ofList, String.toList_ofList] at this
    have free : ∀ zs : List HashValue, ∀ text ∈ zs.map (debugChars format), '\x00' ∉ text := by
      intro zs text mem
      obtain ⟨value, _, rfl⟩ := mem_map.mp mem
      exact null_not_mem_debugChars value
    have split := congrArg (splitOn '\x00') texts
    rw [splitOn_intercalate _ (free xs) (by simpa using empty),
      splitOn_intercalate _ (free ys) (by simpa using empty')] at split
    refine map_injective_iff.mpr (fun x y equal => ?_) split
    exact (debugChars_delimited x y [] [] (by rw [equal])).1

end Debug

end RaisinDB.Sql
