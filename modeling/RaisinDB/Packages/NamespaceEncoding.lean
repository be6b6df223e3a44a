import RaisinDB.Foundation.FirstOccurrence
import RaisinDB.Foundation.Separator

/-!
# Names in file names

The colon of a namespaced name becomes a double underscore and the whole gets an underscore in
front.  Underscores are legal in names, so the file name of one name may be read as another.
-/

namespace RaisinDB.Packages

open List RaisinDB.Foundation

def doubleUnderscore : List Char := ['_', '_']

/-- The first colon of a name is its mark. -/
def encodeChars (name : List Char) : List Char :=
  match splitOnce [':'] name with
  | some (front, rest) => '_' :: (front ++ (doubleUnderscore ++ rest))
  | none => name

/-- Only what starts with a single underscore is decoded. -/
def decodeChars (name : List Char) : List Char :=
  match name with
  | '_' :: tail =>
      if tail.head? = some '_' then name
      else match splitOnce doubleUnderscore tail with
        | some (front, rest) => front ++ ([':'] ++ rest)
        | none => name
  | _ => name

def encodeNamespace (name : String) : String := String.ofList (encodeChars name.toList)

def decodeNamespace (name : String) : String := String.ofList (decodeChars name.toList)

/-! ## Names that come back -/

/-- The text in front of a colon holds no underscores but single ones between other characters. -/
structure PlainFront (front : List Char) : Prop where
  nonempty : front ≠ []
  begins : front.head? ≠ some '_'
  ends : front.getLast? ≠ some '_'
  single : ¬ doubleUnderscore <:+: front

/-- The front of a name with a colon is plain, and a name without one does not look encoded. -/
def Encodable (name : List Char) : Prop :=
  match splitOnce [':'] name with
  | some (front, _) => PlainFront front
  | none => ¬ ∃ tail, name = '_' :: tail ∧ tail.head? ≠ some '_' ∧ doubleUnderscore <:+: tail

theorem splitOnce_colon {name front rest : List Char}
    (split : splitOnce [':'] name = some (front, rest)) :
    name = front ++ ':' :: rest ∧ ':' ∉ front := by
  have joined := eq_of_splitOnce split
  refine ⟨joined, fun inside => ?_⟩
  rw [joined, splitOnce_append_iff (by decide), dropLast_concat] at split
  exact split ((singleton_infix_iff ':' front).mpr inside)

/-- The double underscore is found where it was put. -/
theorem splitOnce_doubleUnderscore_iff (front rest : List Char) :
    splitOnce doubleUnderscore (front ++ (doubleUnderscore ++ rest)) = some (front, rest) ↔
      front.getLast? ≠ some '_' ∧ ¬ doubleUnderscore <:+: front := by
  have joint : (front ++ doubleUnderscore).dropLast = front ++ ['_'] := by
    rw [show front ++ doubleUnderscore = (front ++ ['_']) ++ ['_'] by simp [doubleUnderscore],
      dropLast_concat]
  have across : doubleUnderscore <:+ front ++ ['_'] ↔ front.getLast? = some '_' := by
    rw [getLast?_eq_some_iff]
    constructor
    · rintro ⟨before, joined⟩
      have whole : front ++ ['_'] = (before ++ ['_']) ++ ['_'] := by
        rw [← joined, append_assoc]
        rfl
      exact ⟨before, append_cancel_right whole⟩
    · rintro ⟨before, rfl⟩
      exact ⟨before, by rw [append_assoc]; rfl⟩
  rw [splitOnce_append_iff (by decide), joint, infix_concat_iff, across, not_or]

/-! ## Decoding -/

theorem decodeChars_of_double (tail : List Char) :
    decodeChars ('_' :: '_' :: tail) = '_' :: '_' :: tail := by
  simp [decodeChars]

theorem decodeChars_of_none {tail : List Char} (none : splitOnce doubleUnderscore tail = none) :
    decodeChars ('_' :: tail) = '_' :: tail := by
  simp [decodeChars, none]

theorem decodeChars_of_some {tail front rest : List Char} (single : tail.head? ≠ some '_')
    (found : splitOnce doubleUnderscore tail = some (front, rest)) :
    decodeChars ('_' :: tail) = front ++ ':' :: rest := by
  simp [decodeChars, single, found]

theorem decodeChars_of_other {name : List Char} (other : name.head? ≠ some '_') :
    decodeChars name = name := by
  cases name with
  | nil => rfl
  | cons char tail =>
    unfold decodeChars
    split
    · next joined =>
      cases joined
      exact absurd rfl other
    · rfl

/-- A name without a colon comes back unless it is decoded to one with a colon. -/
theorem decode_plain_iff {name : List Char} (plain : ':' ∉ name) :
    decodeChars name = name ↔
      ¬ ∃ tail, name = '_' :: tail ∧ tail.head? ≠ some '_' ∧ doubleUnderscore <:+: tail := by
  constructor
  · rintro same ⟨tail, rfl, single, inside⟩
    cases found : splitOnce doubleUnderscore tail with
    | none => exact splitOnce_eq_none_iff.mp found inside
    | some parts =>
      rw [decodeChars_of_some single found] at same
      exact plain (same ▸ by simp)
  · intro unlike
    by_cases starts : name.head? = some '_'
    · obtain ⟨tail, rfl⟩ := head?_eq_some_iff.mp starts
      by_cases single : tail.head? = some '_'
      · obtain ⟨rest, rfl⟩ := head?_eq_some_iff.mp single
        exact decodeChars_of_double rest
      · exact decodeChars_of_none (splitOnce_eq_none_iff.mpr fun inside =>
          unlike ⟨tail, rfl, single, inside⟩)
    · exact decodeChars_of_other starts

/-- A name with a colon comes back if its double underscore is the first one, and not at the
start. -/
theorem decode_colon_iff {front rest : List Char} (plain : ':' ∉ front) :
    decodeChars ('_' :: (front ++ (doubleUnderscore ++ rest))) = front ++ ':' :: rest ↔
      PlainFront front := by
  have longer : '_' :: (front ++ (doubleUnderscore ++ rest)) ≠ front ++ ':' :: rest := by
    intro same
    have lengths := congrArg length same
    simp only [doubleUnderscore, length_cons, length_append, length_nil] at lengths
    omega
  cases front with
  | nil =>
    refine iff_of_false ?_ fun fits => fits.nonempty rfl
    rw [show '_' :: ([] ++ (doubleUnderscore ++ rest)) = '_' :: '_' :: ('_' :: rest) from rfl,
      decodeChars_of_double]
    exact longer
  | cons char front =>
    by_cases starts : char = '_'
    · subst starts
      refine iff_of_false ?_ fun fits => fits.begins rfl
      rw [cons_append, decodeChars_of_double]
      exact longer
    · have single : (char :: front).head? ≠ some '_' := fun same => starts (Option.some.inj same)
      obtain ⟨front', rest', found, earlier⟩ :=
        @splitOnce_append _ _ doubleUnderscore (char :: front) rest
      rw [decodeChars_of_some (by simpa using starts) found]
      have clean : ':' ∉ front' := fun inside => plain (earlier.subset inside)
      have same : front' ++ ':' :: rest' = (char :: front) ++ ':' :: rest ↔
          splitOnce doubleUnderscore ((char :: front) ++ (doubleUnderscore ++ rest)) =
            some (char :: front, rest) := by
        rw [found, Option.some.injEq, Prod.mk.injEq]
        constructor
        · exact split_at_first clean plain
        · rintro ⟨rfl, rfl⟩
          rfl
      rw [same, splitOnce_doubleUnderscore_iff]
      exact ⟨fun apart => ⟨cons_ne_nil _ _, single, apart.1, apart.2⟩,
        fun fits => ⟨fits.ends, fits.single⟩⟩

/-- A name is decoded to itself exactly if it is encodable. -/
theorem decode_encode_iff (name : String) :
    decodeNamespace (encodeNamespace name) = name ↔ Encodable name.toList := by
  rw [decodeNamespace, encodeNamespace, String.toList_ofList, ← String.toList_inj,
    String.toList_ofList, encodeChars, Encodable]
  cases split : splitOnce [':'] name.toList with
  | none =>
      refine decode_plain_iff fun inside => ?_
      exact splitOnce_eq_none_iff.mp split ((singleton_infix_iff _ _).mpr inside)
  | some parts =>
      obtain ⟨joined, plain⟩ := splitOnce_colon split
      conv_lhs => rw [joined]
      exact decode_colon_iff plain

/-- A name without a colon comes back as another one, and two names have one file name. -/
theorem underscored_name_collides :
    decodeNamespace (encodeNamespace "_my__app") ≠ "_my__app" ∧
      encodeNamespace "_my__app" = encodeNamespace "my:app" := by
  decide

end RaisinDB.Packages
