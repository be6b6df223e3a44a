import RaisinDB.Foundation.Bytes
import RaisinDB.Foundation.Separator

/-!
# Numbers and bytes in hexadecimal

A number is written with at least some width, so texts of numbers compare like the numbers only
where the widths agree.  Bytes are written with two digits each, and their texts compare like them.
-/

namespace RaisinDB.Foundation

open List

/-! ## Fixed width -/

@[simp] theorem length_hexDigits (width value : Nat) : (hexDigits width value).length = width := by
  induction width generalizing value with
  | zero => rfl
  | succ width ih => rw [hexDigits, length_append, ih]; rfl

theorem digitChar_lt {first second : Nat} (less : first < second) (small : second < 16) :
    first.digitChar < second.digitChar := by
  have all : ∀ second < 16, ∀ first < second, first.digitChar < second.digitChar := by decide
  exact all second small first less

theorem hexDigits_lt {width first second : Nat} (less : first < second)
    (small : second < 16 ^ width) : hexDigits width first < hexDigits width second := by
  induction width generalizing first second with
  | zero => simp at small; omega
  | succ width ih =>
    rw [pow_succ] at small
    rw [hexDigits, hexDigits]
    by_cases high : first / 16 < second / 16
    · exact lt_append_of_lt (by simp)
        (ih high (Nat.div_lt_of_lt_mul (by omega : second < 16 * 16 ^ width))) _ _
    · have same : first / 16 = second / 16 := by omega
      rw [same, append_lt_append_left, cons_lt_cons_iff]
      exact Or.inl (digitChar_lt (by omega) (Nat.mod_lt _ (by decide)))

/-- The leading digits are those of the quotient. -/
theorem hexDigits_add (width more value : Nat) :
    hexDigits (width + more) value =
      hexDigits width (value / 16 ^ more) ++ hexDigits more value := by
  induction more generalizing value with
  | zero => simp [hexDigits]
  | succ more ih =>
    rw [← Nat.add_assoc, hexDigits, ih, hexDigits, append_assoc, Nat.div_div_eq_div_mul,
      pow_succ, Nat.mul_comm 16]

theorem hexDigits_zero (width : Nat) : hexDigits width 0 = replicate width '0' := by
  induction width with
  | zero => rfl
  | succ width ih =>
    rw [hexDigits, Nat.zero_div, ih, replicate_succ']
    rfl

theorem toDigits_eq_hexDigits (value : Nat) :
    Nat.toDigits 16 value = hexDigits (Nat.toDigits 16 value).length value := by
  induction value using Nat.strongRecOn with
  | ind value ih =>
    by_cases small : value < 16
    · rw [Nat.toDigits_of_lt_base small]
      change _ = hexDigits 1 value
      rw [hexDigits, hexDigits, nil_append, Nat.mod_eq_of_lt small]
    · have split := Nat.toDigits_of_base_le (by decide : 1 < 16) (not_lt.mp small)
      rw [split, length_append, length_singleton, hexDigits,
        ← ih _ (Nat.div_lt_self (by omega) (by decide))]

/-! ## Least width -/

/-- The digits of a number, with zeros before them up to the width. -/
def paddedHex (width value : Nat) : List Char := leftpad width '0' (Nat.toDigits 16 value)

/-- The number of digits that are written. -/
def hexWidth (width value : Nat) : Nat := max width (Nat.toDigits 16 value).length

theorem lt_pow_length_toDigits (value : Nat) : value < 16 ^ (Nat.toDigits 16 value).length :=
  (Nat.length_toDigits_le_iff (by decide) Nat.length_toDigits_pos).mp le_rfl

theorem lt_pow_hexWidth (width value : Nat) : value < 16 ^ hexWidth width value :=
  (lt_pow_length_toDigits value).trans_le (Nat.pow_le_pow_right (by decide) (le_max_right _ _))

theorem paddedHex_eq (width value : Nat) :
    paddedHex width value = hexDigits (hexWidth width value) value := by
  have whole : hexWidth width value =
      (width - (Nat.toDigits 16 value).length) + (Nat.toDigits 16 value).length := by
    unfold hexWidth
    omega
  rw [whole, hexDigits_add, Nat.div_eq_of_lt (lt_pow_length_toDigits value), hexDigits_zero,
    ← toDigits_eq_hexDigits]
  rfl

theorem hexWidth_mono (width : Nat) {first second : Nat} (less : first ≤ second) :
    hexWidth width first ≤ hexWidth width second := by
  have shorter := (Nat.length_toDigits_le_iff (by decide : 1 < 16) Nat.length_toDigits_pos).mpr
    (less.trans_lt (lt_pow_length_toDigits second))
  exact max_le_max_left width shorter

/-- Of two numbers, the text of the smaller one comes first if it is at most what as many digits
of the greater one say. -/
def TextsAgree (width first second : Nat) : Prop :=
  min first second ≤ max first second /
    16 ^ (hexWidth width (max first second) - hexWidth width (min first second))

instance (width first second : Nat) : Decidable (TextsAgree width first second) :=
  inferInstanceAs (Decidable (_ ≤ _))

theorem TextsAgree.comm {width first second : Nat} :
    TextsAgree width first second ↔ TextsAgree width second first := by
  unfold TextsAgree
  rw [min_comm, max_comm]

theorem textsAgree_of_le {width first second : Nat} (less : first ≤ second) :
    TextsAgree width first second ↔
      first ≤ second / 16 ^ (hexWidth width second - hexWidth width first) := by
  unfold TextsAgree
  rw [min_eq_left less, max_eq_right less]

/-- The text of a smaller number comes first exactly where the texts agree, and last else. -/
theorem paddedHex_of_lt {width first second : Nat} (less : first < second) :
    (TextsAgree width first second → paddedHex width first < paddedHex width second) ∧
      (¬ TextsAgree width first second → paddedHex width second < paddedHex width first) := by
  rw [textsAgree_of_le less.le]
  obtain ⟨more, widths⟩ := Nat.exists_eq_add_of_le (hexWidth_mono width less.le)
  rw [widths, Nat.add_sub_cancel_left, paddedHex_eq, paddedHex_eq, widths, hexDigits_add]
  refine ⟨fun agree => ?_, fun differ => ?_⟩
  · rcases agree.lt_or_eq with smaller | same
    · have small : second / 16 ^ more < 16 ^ hexWidth width first := by
        have bound := lt_pow_hexWidth width second
        rw [widths, pow_add] at bound
        exact Nat.div_lt_of_lt_mul (by rwa [Nat.mul_comm])
      have before := hexDigits_lt smaller small
      have longer := lt_append_of_lt (by simp) before [] (hexDigits more second)
      rwa [append_nil] at longer
    · rw [← same]
      cases more with
      | zero => simp at same; omega
      | succ more =>
        refine lt_of_le_of_ne (le_append _ _) fun equal => ?_
        have lengths := congrArg length equal
        rw [length_append, length_hexDigits, length_hexDigits] at lengths
        omega
  · have before := hexDigits_lt (not_le.mp differ) (lt_pow_hexWidth width first)
    have shorter := lt_append_of_lt (by simp) before (hexDigits more second) []
    rwa [append_nil] at shorter

theorem paddedHex_injective (width : Nat) : Function.Injective (paddedHex width) := by
  intro first second same
  have widths := congrArg length same
  rw [paddedHex_eq, paddedHex_eq, length_hexDigits, length_hexDigits] at widths
  rw [paddedHex_eq, paddedHex_eq, widths] at same
  exact hexDigits_injective (widths ▸ lt_pow_hexWidth width first) (lt_pow_hexWidth width second)
    same

/-! ## Bytes -/

/-- Two digits for each byte. -/
def hexBytes (bytes : List UInt8) : List Char := bytes.flatMap fun byte => hexDigits 2 byte.toNat

theorem hexBytes_cons (byte : UInt8) (bytes : List UInt8) :
    hexBytes (byte :: bytes) = hexDigits 2 byte.toNat ++ hexBytes bytes := rfl

/-- Where two byte strings differ, their texts differ in the same order, whatever follows them. -/
theorem hexBytes_lt {first second : List UInt8} (less : first < second)
    (diverge : ¬ first <+: second) (tail tail' : List Char) :
    hexBytes first ++ tail < hexBytes second ++ tail' := by
  induction first generalizing second with
  | nil => exact absurd ( nil_prefix) diverge
  | cons byte bytes ih =>
    cases second with
    | nil => exact absurd less (not_lt_nil _)
    | cons byte' bytes' =>
      rw [hexBytes_cons, hexBytes_cons, append_assoc, append_assoc]
      rcases cons_lt_cons_iff.mp less with smaller | ⟨rfl, later⟩
      · exact lt_append_of_lt (by simp)
          (hexDigits_lt (UInt8.lt_iff_toNat_lt.mp smaller) byte'.toNat_lt) _ _
      · rw [append_lt_append_left]
        exact ih later fun shorter => diverge (cons_prefix_cons.mpr ⟨rfl, shorter⟩)

theorem colon_notMem_paddedHex (width value : Nat) : ':' ∉ paddedHex width value := by
  rw [paddedHex_eq]
  exact fun found => absurd (mem_hexDigits found) (by decide)

end RaisinDB.Foundation
