import Mathlib

/-!
# Bytes, fixed-width integers and UTF-8

Keys of an ordered store are byte strings compared lexicographically.  The keys
with a common beginning are an interval of that order, big-endian integers keep
their order, and UTF-8 text can be taken out of a byte string again.
-/

namespace RaisinDB.Foundation

open List

/-! ## The order of byte strings -/

instance byteLinearOrder : LinearOrder UInt8 where
  le_refl _ := UInt8.le_refl _
  le_trans _ _ _ := UInt8.le_trans
  lt_iff_le_not_ge _ _ := by
    rw [UInt8.lt_iff_toNat_lt, UInt8.le_iff_toNat_le, UInt8.le_iff_toNat_le]
    omega
  le_antisymm _ _ := UInt8.le_antisymm
  le_total := UInt8.le_total
  toDecidableLE := inferInstance
  toDecidableEq := inferInstance
  toDecidableLT := inferInstance

instance byteLawfulBEq : LawfulBEq UInt8 := inferInstance

instance bytesLawfulBEq : LawfulBEq (List UInt8) := inferInstance

section Lexicographic

variable {α : Type} [LinearOrder α]

theorem append_lt_append_left (base : List α) {first second : List α} :
    base ++ first < base ++ second ↔ first < second := by
  induction base with
  | nil => rfl
  | cons head tail ih => rw [cons_append, cons_append, cons_lt_cons_self, ih]

theorem le_append (base tail : List α) : base ≤ base ++ tail := by
  rw [← not_lt]
  intro less
  nth_rewrite 2 [← append_nil base] at less
  exact not_lt_nil _ ((append_lt_append_left base).mp less)

theorem lt_append_of_lt {first second : List α} (same : first.length = second.length)
    (less : first < second) (tail tail' : List α) : first ++ tail < second ++ tail' := by
  induction first generalizing second with
  | nil =>
    cases second with
    | nil => exact absurd less (lt_irrefl _)
    | cons head rest => cases same
  | cons head rest ih =>
    cases second with
    | nil => cases same
    | cons head' rest' =>
      rw [cons_append, cons_append, cons_lt_cons_iff]
      rcases cons_lt_cons_iff.mp less with smaller | ⟨rfl, later⟩
      · exact Or.inl smaller
      · exact Or.inr ⟨rfl, ih (Nat.succ.inj same) later⟩

/-- The byte strings with a common beginning form an interval. -/
theorem prefix_of_between {base key tail : List α} (lower : base ≤ key)
    (upper : key ≤ base ++ tail) : base <+: key := by
  induction base generalizing key with
  | nil => exact nil_prefix
  | cons head rest ih =>
    cases key with
    | nil => exact absurd lower (not_le.mpr (nil_lt_cons head rest))
    | cons head' rest' =>
      rw [cons_append] at upper
      rw [← not_lt, cons_lt_cons_iff, not_or] at lower upper
      obtain rfl : head = head' := le_antisymm (not_lt.mp lower.1) (not_lt.mp upper.1)
      rw [cons_prefix_cons]
      refine ⟨rfl, ih (not_lt.mp fun bad => lower.2 ⟨rfl, bad⟩)
        (not_lt.mp fun bad => upper.2 ⟨rfl, bad⟩)⟩

end Lexicographic

/-! ## Big-endian integers -/

/-- The lowest `width` bytes of a number, most significant first. -/
def bigEndian : Nat → Nat → List UInt8
  | 0, _ => []
  | width + 1, value => bigEndian width (value / 256) ++ [UInt8.ofNat (value % 256)]

/-- The number a byte string stands for. -/
def ofBigEndian (bytes : List UInt8) : Nat :=
  bytes.foldl (fun value byte => value * 256 + byte.toNat) 0

@[simp] theorem length_bigEndian (width value : Nat) : (bigEndian width value).length = width := by
  induction width generalizing value with
  | zero => rfl
  | succ width ih => rw [bigEndian, length_append, ih]; rfl

theorem ofBigEndian_bigEndian {width value : Nat} (small : value < 256 ^ width) :
    ofBigEndian (bigEndian width value) = value := by
  induction width generalizing value with
  | zero => simp at small; subst small; rfl
  | succ width ih =>
    rw [pow_succ] at small
    have high := ih (Nat.div_lt_of_lt_mul (by omega : value < 256 * 256 ^ width))
    rw [ofBigEndian] at high ⊢
    rw [bigEndian, foldl_append, high, foldl_cons, foldl_nil, UInt8.toNat_ofNat']
    omega

theorem bigEndian_lt {width first second : Nat} (less : first < second)
    (small : second < 256 ^ width) : bigEndian width first < bigEndian width second := by
  induction width generalizing first second with
  | zero => simp at small; omega
  | succ width ih =>
    rw [pow_succ] at small
    rw [bigEndian, bigEndian]
    by_cases high : first / 256 < second / 256
    · exact lt_append_of_lt (by simp)
        (ih high (Nat.div_lt_of_lt_mul (by omega : second < 256 * 256 ^ width))) _ _
    · have same : first / 256 = second / 256 := by omega
      rw [same, append_lt_append_left, cons_lt_cons_iff, UInt8.lt_iff_toNat_lt,
        UInt8.toNat_ofNat', UInt8.toNat_ofNat']
      omega

/-! ## UTF-8 -/

def utf8 (chars : List Char) : List UInt8 := chars.flatMap String.utf8EncodeChar

/-- The bytes of a text. -/
def utf8Bytes (text : String) : List UInt8 := utf8 text.toList

/-- The character encoded at the front of a byte string. -/
def decodeChar? (bytes : List UInt8) : Option Char := bytes.toByteArray.utf8DecodeChar? 0

theorem decodeChar?_append (char : Char) (rest : List UInt8) :
    decodeChar? (String.utf8EncodeChar char ++ rest) = some char := by
  rw [decodeChar?, List.toByteArray_append]
  exact ByteArray.utf8DecodeChar?_utf8EncodeChar_append

theorem utf8_cons (char : Char) (chars : List Char) :
    utf8 (char :: chars) = String.utf8EncodeChar char ++ utf8 chars := flatMap_cons

/-- What follows an encoded text inside an encoded text is an encoded text. -/
theorem utf8_append_eq {chars whole : List Char} {rest : List UInt8}
    (joined : utf8 chars ++ rest = utf8 whole) :
    ∃ others, whole = chars ++ others ∧ rest = utf8 others := by
  induction chars generalizing whole with
  | nil => exact ⟨whole, rfl, joined⟩
  | cons char chars ih =>
    rw [utf8_cons, append_assoc] at joined
    have first := decodeChar?_append char (utf8 chars ++ rest)
    cases whole with
    | nil =>
      rw [joined] at first
      cases first
    | cons char' whole =>
      rw [joined, utf8_cons, decodeChar?_append] at first
      obtain rfl := Option.some.inj first
      rw [utf8_cons, append_cancel_left_eq] at joined
      obtain ⟨others, rfl, tail⟩ := ih joined
      exact ⟨others, rfl, tail⟩

theorem utf8Bytes_injective {first second : String} (same : utf8Bytes first = utf8Bytes second) :
    first = second := by
  have joined : utf8 first.toList ++ [] = utf8 second.toList := (append_nil _).trans same
  obtain ⟨others, whole, rest⟩ := utf8_append_eq joined
  have none : others = [] := by
    cases others with
    | nil => rfl
    | cons char chars =>
      rw [utf8_cons] at rest
      have length := congrArg length rest
      rw [length_append, String.length_utf8EncodeChar] at length
      have := char.utf8Size_pos
      simp at length
      omega
  rw [none, append_nil] at whole
  exact String.toList_inj.mp whole.symm

/-- How many continuation bytes follow a lead byte, and the range of the first of them. -/
def continuation (lead : UInt8) : Option (Nat × UInt8 × UInt8) :=
  if 0xC2 ≤ lead ∧ lead ≤ 0xDF then some (1, 0x80, 0xBF)
  else if lead = 0xE0 then some (2, 0xA0, 0xBF)
  else if lead = 0xED then some (2, 0x80, 0x9F)
  else if 0xE1 ≤ lead ∧ lead ≤ 0xEF then some (2, 0x80, 0xBF)
  else if lead = 0xF0 then some (3, 0x90, 0xBF)
  else if 0xF1 ≤ lead ∧ lead ≤ 0xF3 then some (3, 0x80, 0xBF)
  else if lead = 0xF4 then some (3, 0x80, 0x8F)
  else none

/-- The bytes at the front of ill-formed text that one replacement character stands for. -/
def invalidLength (bytes : List UInt8) : Nat :=
  match bytes with
  | lead :: second :: rest =>
      match continuation lead with
      | some (count, low, high) =>
          if low ≤ second ∧ second ≤ high then
            2 + ((rest.take (count - 2)).takeWhile fun byte => 0x80 ≤ byte ∧ byte ≤ 0xBF).length
          else 1
      | none => 1
  | _ => 1

def lossyLoop : Nat → List UInt8 → List Char
  | 0, _ => []
  | _ + 1, [] => []
  | fuel + 1, bytes =>
      match decodeChar? bytes with
      | some char => char :: lossyLoop fuel (bytes.drop char.utf8Size)
      | none => Char.ofNat 0xFFFD :: lossyLoop fuel (bytes.drop (invalidLength bytes))

/-- Decoding that replaces ill-formed parts. -/
def fromUtf8Lossy (bytes : List UInt8) : String := String.ofList (lossyLoop bytes.length bytes)

theorem lossyLoop_utf8 (chars : List Char) {fuel : Nat} (enough : (utf8 chars).length ≤ fuel) :
    lossyLoop fuel (utf8 chars) = chars := by
  induction chars generalizing fuel with
  | nil => cases fuel <;> rfl
  | cons char chars ih =>
    have size := char.utf8Size_pos
    rw [utf8_cons] at enough ⊢
    rw [length_append, String.length_utf8EncodeChar] at enough
    obtain ⟨fuel, rfl⟩ : ∃ less, fuel = less + 1 := ⟨fuel - 1, by omega⟩
    have nonempty : String.utf8EncodeChar char ++ utf8 chars ≠ [] := by
      simp [String.utf8EncodeChar_ne_nil]
    obtain ⟨lead, rest, shape⟩ := exists_cons_of_ne_nil nonempty
    have dropped : (String.utf8EncodeChar char ++ utf8 chars).drop char.utf8Size =
        utf8 chars := drop_left' (String.length_utf8EncodeChar char)
    have unfolded : lossyLoop (fuel + 1) (String.utf8EncodeChar char ++ utf8 chars) =
        char :: lossyLoop fuel
          ((String.utf8EncodeChar char ++ utf8 chars).drop char.utf8Size) := by
      have decoded := decodeChar?_append char (utf8 chars)
      rw [shape] at decoded ⊢
      rw [lossyLoop, decoded]
      exact cons_ne_nil lead rest
    rw [unfolded, dropped, ih (by omega)]

/-- Well-formed text is decoded without loss. -/
theorem fromUtf8Lossy_utf8Bytes (text : String) : fromUtf8Lossy (utf8Bytes text) = text := by
  rw [fromUtf8Lossy, utf8Bytes, lossyLoop_utf8 _ (le_refl _), String.ofList_toList]

end RaisinDB.Foundation
