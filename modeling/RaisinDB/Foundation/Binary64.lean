import Mathlib.Data.Int.Log
import Mathlib.Data.Rat.Floor
import Mathlib.Algebra.Order.Field.Power
import Mathlib.Algebra.Order.Round
import Mathlib.Tactic.Linarith
import Mathlib.Tactic.NormNum
import Mathlib.Tactic.Positivity
import Mathlib.Tactic.FieldSimp
import Mathlib.Tactic.Ring

/-!
# Binary floating point of 64 bits

A finite nonzero number is the rational it stands for, an exact result is rounded to the nearest
number of the format and ties go to the even significand.  Integers of up to 53 bits are exact,
so they are ordered and told apart as integers.
-/

namespace RaisinDB.Foundation

/-- The nonzero rationals of the format. -/
def Representable (value : ℚ) : Prop :=
  value ≠ 0 ∧ ∃ significand exponent : ℤ, |significand| < 2 ^ 53 ∧ -1074 ≤ exponent ∧
    exponent ≤ 971 ∧ value = significand * (2 : ℚ) ^ exponent

inductive Binary64 where
  | nan
  | infinite (negative : Bool)
  | zero (negative : Bool)
  | number (value : ℚ) (fits : Representable value)
  deriving DecidableEq

namespace Binary64

/-! ## Rounding -/

/-- The nearest integer, and of two equally near ones the even one. -/
def nearest (x : ℚ) : ℤ :=
  if x - ⌊x⌋ < 1 / 2 then ⌊x⌋
  else if 1 / 2 < x - ⌊x⌋ then ⌊x⌋ + 1
  else if ⌊x⌋ % 2 = 0 then ⌊x⌋ else ⌊x⌋ + 1

def exponent (x : ℚ) : ℤ := max (Int.log 2 |x| - 52) (-1074)

def significand (x : ℚ) : ℤ := nearest (x / (2 : ℚ) ^ exponent x)

def rounded (x : ℚ) : ℚ := significand x * (2 : ℚ) ^ exponent x

theorem nearest_int (i : ℤ) : nearest (i : ℚ) = i := by
  unfold nearest
  rw [Int.floor_intCast, sub_self, if_pos (by norm_num)]

theorem nearest_le {x : ℚ} {bound : ℤ} (below : x ≤ bound) : nearest x ≤ bound := by
  have floor : ⌊x⌋ ≤ bound := Int.floor_le_iff.mpr (lt_of_le_of_lt below (by norm_num))
  rcases lt_or_eq_of_le floor with less | same
  · unfold nearest
    split_ifs <;> omega
  · have whole : x = ⌊x⌋ := le_antisymm (below.trans (by rw [same])) (Int.floor_le x)
    rw [whole, nearest_int, same]

theorem le_nearest {x : ℚ} {bound : ℤ} (above : (bound : ℚ) ≤ x) : bound ≤ nearest x := by
  have floor : bound ≤ ⌊x⌋ := Int.le_floor.mpr above
  unfold nearest
  split_ifs <;> omega

theorem abs_nearest_le {x : ℚ} {bound : ℤ} (within : |x| ≤ bound) : |nearest x| ≤ bound := by
  obtain ⟨low, high⟩ := abs_le.mp within
  refine abs_le.mpr ⟨le_nearest ?_, nearest_le high⟩
  push_cast
  exact low

theorem le_abs_nearest {x : ℚ} {bound : ℤ} (outside : (bound : ℚ) ≤ |x|) :
    bound ≤ |nearest x| := by
  rcases le_abs.mp outside with high | low
  · exact (le_nearest high).trans (le_abs_self _)
  · have below : x ≤ ((-bound : ℤ) : ℚ) := by push_cast; linarith
    have := nearest_le below
    exact (by omega : bound ≤ -nearest x).trans (neg_le_abs _)

theorem two_pow_pos (e : ℤ) : (0 : ℚ) < (2 : ℚ) ^ e := zpow_pos (by norm_num) e

theorem abs_div_two_pow (x : ℚ) (e : ℤ) : |x / (2 : ℚ) ^ e| = |x| / (2 : ℚ) ^ e := by
  rw [abs_div, abs_of_pos (two_pow_pos e)]

theorem abs_rounded (x : ℚ) : |rounded x| = |significand x| * (2 : ℚ) ^ exponent x := by
  unfold rounded
  rw [abs_mul, abs_of_pos (two_pow_pos _), Int.cast_abs]

theorem abs_significand_le (x : ℚ) : |significand x| ≤ 2 ^ 53 := by
  refine abs_nearest_le ?_
  rw [abs_div_two_pow, div_le_iff₀ (two_pow_pos _)]
  have below := Int.lt_zpow_succ_log_self (b := 2) (by norm_num) |x|
  have room : Int.log 2 |x| + 1 ≤ 53 + exponent x := by unfold exponent; omega
  have grow : (2 : ℚ) ^ (Int.log 2 |x| + 1) ≤ (2 : ℚ) ^ (53 + exponent x) :=
    zpow_le_zpow_right₀ (by norm_num) room
  rw [zpow_add₀ (by norm_num) 53] at grow
  push_cast
  exact (below.trans_le grow).le

/-- A number of at least a power of two is not rounded below it. -/
theorem two_pow_le_abs_rounded {x : ℚ} {k : ℤ} (large : -1022 ≤ k) (le : (2 : ℚ) ^ k ≤ |x|) :
    (2 : ℚ) ^ k ≤ |rounded x| := by
  have nonzero : 0 < |x| := (two_pow_pos k).trans_le le
  have log : k ≤ Int.log 2 |x| := by
    have := (Int.zpow_le_iff_le_log (b := 2) (by norm_num) nonzero).mp (by exact_mod_cast le)
    exact this
  have exact_exponent : exponent x = Int.log 2 |x| - 52 := by unfold exponent; omega
  have enough : (2 : ℤ) ^ 52 ≤ |significand x| := by
    refine le_abs_nearest ?_
    rw [abs_div_two_pow, le_div_iff₀ (two_pow_pos _), exact_exponent]
    have self := Int.zpow_log_le_self (b := 2) (by norm_num) nonzero
    have split : ((2 : ℤ) ^ 52 : ℤ) * (2 : ℚ) ^ (Int.log 2 |x| - 52) = (2 : ℚ) ^ Int.log 2 |x| := by
      rw [zpow_sub₀ (by norm_num)]
      push_cast
      field_simp
    rw [split]
    exact_mod_cast self
  rw [abs_rounded]
  have lower : (2 : ℚ) ^ k ≤ (2 : ℚ) ^ (52 + exponent x) :=
    zpow_le_zpow_right₀ (by norm_num) (by omega)
  rw [zpow_add₀ (by norm_num)] at lower
  refine lower.trans (mul_le_mul_of_nonneg_right ?_ (two_pow_pos _).le)
  have : (((2 : ℤ) ^ 52 : ℤ) : ℚ) ≤ ((|significand x| : ℤ) : ℚ) := by exact_mod_cast enough
  push_cast at this ⊢
  exact this

theorem rounded_int {i : ℤ} (small : |i| ≤ 2 ^ 53) : rounded i = i := by
  have log : Int.log 2 |(i : ℚ)| ≤ 53 := by
    by_cases zero : i = 0
    · simp [zero]
    · have positive : 0 < |(i : ℚ)| := abs_pos.mpr (by exact_mod_cast zero)
      have below : |(i : ℚ)| < ((2 : ℕ) : ℚ) ^ (54 : ℤ) := by
        have : ((|i| : ℤ) : ℚ) ≤ ((2 ^ 53 : ℤ) : ℚ) := by exact_mod_cast small
        push_cast at this
        refine lt_of_le_of_lt this ?_
        norm_num
      have := (Int.lt_zpow_iff_log_lt (b := 2) (by norm_num) positive).mp below
      omega
  by_cases top : exponent (i : ℚ) ≤ 0
  · obtain ⟨shift, shifted⟩ := Int.eq_ofNat_of_zero_le (Int.neg_nonneg.mpr top)
    have scaled : (i : ℚ) / (2 : ℚ) ^ exponent (i : ℚ) = ((i * 2 ^ shift : ℤ) : ℚ) := by
      rw [(by omega : exponent (i : ℚ) = -(shift : ℤ)), zpow_neg, div_inv_eq_mul, zpow_natCast]
      push_cast
      rfl
    unfold rounded significand
    rw [scaled, nearest_int, ← scaled, div_mul_cancel₀ _ (two_pow_pos _).ne']
  · have one : exponent (i : ℚ) = 1 := by unfold exponent at top ⊢; omega
    have high : (2 : ℚ) ^ (53 : ℤ) ≤ |(i : ℚ)| := by
      have positive : 0 < |(i : ℚ)| := by
        refine abs_pos.mpr fun zero => ?_
        rw [zero] at one
        simp [exponent] at one
      have := (Int.zpow_le_iff_le_log (b := 2) (x := 53) (by norm_num) positive).mpr
        (by unfold exponent at one; omega)
      exact_mod_cast this
    have exact_abs : |i| = 2 ^ 53 := by
      refine le_antisymm small ?_
      have : ((2 ^ 53 : ℤ) : ℚ) ≤ ((|i| : ℤ) : ℚ) := by
        rw [Int.cast_abs]
        norm_num at high ⊢
        exact high
      exact Int.cast_le.mp this
    have half : (i : ℚ) / (2 : ℚ) ^ exponent (i : ℚ) = ((i / 2 : ℤ) : ℚ) := by
      rw [one]
      rcases (abs_eq (by norm_num)).mp exact_abs with rfl | rfl <;> norm_num
    unfold rounded significand
    rw [half, nearest_int, ← half, div_mul_cancel₀ _ (two_pow_pos _).ne']

theorem exponent_le {x : ℚ} (small : |rounded x| < (2 : ℚ) ^ (1024 : ℤ)) : exponent x ≤ 971 := by
  by_contra large
  have log : 1024 ≤ Int.log 2 |x| := by unfold exponent at large; omega
  have positive : 0 < |x| := by
    refine abs_pos.mpr fun zero => ?_
    rw [zero] at log
    simp at log
  have le : (2 : ℚ) ^ (1024 : ℤ) ≤ |x| := by
    have := (Int.zpow_le_iff_le_log (b := 2) (by norm_num) positive).mpr log
    rw [Nat.cast_ofNat] at this
    exact this
  have := two_pow_le_abs_rounded (by norm_num) le
  exact absurd small (not_lt.mpr this)

theorem fits_rounded {x : ℚ} (nonzero : rounded x ≠ 0)
    (small : |rounded x| < (2 : ℚ) ^ (1024 : ℤ)) : Representable (rounded x) := by
  refine ⟨nonzero, ?_⟩
  have low : -1074 ≤ exponent x := le_max_right _ _
  rcases lt_or_eq_of_le (abs_significand_le x) with below | full
  · exact ⟨significand x, exponent x, below, low, exponent_le small, rfl⟩
  · -- A significand of 2 ^ 53 is the least one of the next exponent.
    have room : exponent x ≤ 970 := by
      by_contra large
      refine absurd small (not_lt.mpr ?_)
      have : (2 : ℚ) ^ (1024 : ℤ) ≤ (2 : ℚ) ^ (53 + exponent x) :=
        zpow_le_zpow_right₀ (by norm_num) (by omega)
      rw [zpow_add₀ (by norm_num)] at this
      have width : ((2 ^ 53 : ℤ) : ℚ) = (2 : ℚ) ^ (53 : ℤ) := by norm_num
      rw [abs_rounded, full, width]
      exact this
    have split : (2 : ℚ) ^ (exponent x + 1) = (2 : ℚ) ^ exponent x * 2 := by
      rw [zpow_add₀ (by norm_num), zpow_one]
    rcases (abs_eq (by norm_num)).mp full with high | negative
    · refine ⟨2 ^ 52, exponent x + 1, by norm_num, by omega, by omega, ?_⟩
      unfold rounded
      rw [high, split]
      push_cast
      ring
    · refine ⟨-2 ^ 52, exponent x + 1, by norm_num, by omega, by omega, ?_⟩
      unfold rounded
      rw [negative, split]
      push_cast
      ring

/-! ## Operations -/

/-- An exact result in the format.  The sign is that of a zero result that is exact. -/
def round (negative : Bool) (x : ℚ) : Binary64 :=
  if zeroed : rounded x = 0 then .zero (if x = 0 then negative else decide (x < 0))
  else if small : |rounded x| < (2 : ℚ) ^ (1024 : ℤ) then
    .number (rounded x) (fits_rounded zeroed small)
  else .infinite (decide (x < 0))

def ofInt (i : ℤ) : Binary64 := round false i

theorem Representable.neg {value : ℚ} (fits : Representable value) : Representable (-value) := by
  obtain ⟨nonzero, m, e, width, low, high, rfl⟩ := fits
  exact ⟨neg_ne_zero.mpr nonzero, -m, e, by rwa [abs_neg], low, high, by push_cast; ring⟩

def neg : Binary64 → Binary64
  | nan => nan
  | infinite negative => infinite !negative
  | zero negative => zero !negative
  | number value fits => number (-value) (Representable.neg fits)

def abs : Binary64 → Binary64
  | infinite _ => infinite false
  | zero _ => zero false
  | number value fits => if value < 0 then neg (number value fits) else number value fits
  | nan => nan

def isNegative : Binary64 → Bool
  | nan => false
  | infinite negative | zero negative => negative
  | number value _ => decide (value < 0)

def add : Binary64 → Binary64 → Binary64
  | nan, _ | _, nan => nan
  | infinite left, infinite right => if left = right then infinite left else nan
  | infinite left, _ => infinite left
  | _, infinite right => infinite right
  | zero left, zero right => zero (left && right)
  | zero _, number right fits => number right fits
  | number left fits, zero _ => number left fits
  | number left _, number right _ => round false (left + right)

def sub (left right : Binary64) : Binary64 := add left (neg right)

def mul (left right : Binary64) : Binary64 :=
  let negative := left.isNegative != right.isNegative
  match left, right with
  | nan, _ | _, nan | infinite _, zero _ | zero _, infinite _ => nan
  | infinite _, _ | _, infinite _ => infinite negative
  | zero _, _ | _, zero _ => zero negative
  | number left _, number right _ => round negative (left * right)

def div (left right : Binary64) : Binary64 :=
  let negative := left.isNegative != right.isNegative
  match left, right with
  | nan, _ | _, nan | infinite _, infinite _ | zero _, zero _ => nan
  | infinite _, _ | number _ _, zero _ => infinite negative
  | zero _, _ | _, infinite _ => zero negative
  | number left _, number right _ => round negative (left / right)

/-- The rest of the division truncated to an integer, with the sign of the dividend. -/
def rem (left right : Binary64) : Binary64 :=
  match left, right with
  | nan, _ | _, nan | infinite _, _ | _, zero _ => nan
  | zero negative, _ => zero negative
  | number left fits, infinite _ => number left fits
  | number left _, number right _ =>
      round (decide (left < 0))
        (left - right * (if 0 ≤ left / right then ⌊left / right⌋ else ⌈left / right⌉ : ℤ))

/-- The value of a finite number. -/
def value? : Binary64 → Option ℚ
  | zero _ => some 0
  | number value _ => some value
  | _ => none

def less : Binary64 → Binary64 → Bool
  | nan, _ | _, nan => false
  | infinite left, infinite right => left && !right
  | infinite left, _ => left
  | _, infinite right => !right
  | zero _, zero _ => false
  | zero _, number right _ => decide (0 < right)
  | number left _, zero _ => decide (left < 0)
  | number left _, number right _ => decide (left < right)

def lessEq : Binary64 → Binary64 → Bool
  | nan, _ | _, nan => false
  | left, right => !less right left

/-- The distance from 1 to the next larger number. -/
def epsilon : Binary64 :=
  number ((1 : ℚ) / 2 ^ 52) ⟨by norm_num, 1, -52, by norm_num, by norm_num, by norm_num, by
    norm_num [zpow_neg]⟩

/-- Equal up to the distance from 1 to the next larger number. -/
def closeTo (left right : Binary64) : Bool := less (abs (sub left right)) epsilon

theorem value?_of_closeTo {left right : Binary64} (close : closeTo left right = true) :
    left.value?.isSome := by
  cases left with
  | zero | number => rfl
  | nan => simp [closeTo, sub, add, abs, less] at close
  | infinite sign =>
    cases right with
    | infinite sign' => cases sign <;> cases sign' <;>
        simp [closeTo, sub, neg, add, abs, less, epsilon] at close
    | _ => simp [closeTo, sub, neg, add, abs, less, epsilon] at close

theorem closeTo_self {value : Binary64} (finite : value.value?.isSome) :
    closeTo value value = true := by
  have small : less (zero false) epsilon = true := by
    simp [epsilon, less]
  cases value with
  | zero sign => cases sign <;> exact small
  | number value fits =>
    have none : round false (value + -value) = zero false := by
      have origin : rounded (0 : ℚ) = 0 := by simpa using rounded_int (i := 0) (by norm_num)
      rw [add_neg_cancel, round, dif_pos origin, if_pos rfl]
    simpa only [closeTo, sub, neg, add, none, abs] using small
  | _ => cases finite

def isZero : Binary64 → Bool
  | zero _ => true
  | _ => false

/-- The integer part, as far as it lies between the bounds. -/
def toIntBetween (low high : ℤ) : Binary64 → ℤ
  | nan | zero _ => 0
  | infinite negative => if negative then low else high
  | number value _ => max low (min high (if 0 ≤ value then ⌊value⌋ else ⌈value⌉))

/-! ## Integers -/

theorem value_round {negative : Bool} {x : ℚ} (small : |rounded x| < (2 : ℚ) ^ (1024 : ℤ)) :
    (round negative x).value? = some (rounded x) := by
  unfold round
  by_cases zeroed : rounded x = 0
  · rw [dif_pos zeroed, zeroed]
    rfl
  · rw [dif_neg zeroed, dif_pos small]
    rfl

theorem value_ofInt {i : ℤ} (small : |i| ≤ 2 ^ 53) : (ofInt i).value? = some (i : ℚ) := by
  have room : |rounded (i : ℚ)| < (2 : ℚ) ^ (1024 : ℤ) := by
    rw [rounded_int small, ← Int.cast_abs]
    have : ((|i| : ℤ) : ℚ) ≤ ((2 ^ 53 : ℤ) : ℚ) := Int.cast_le.mpr small
    refine lt_of_le_of_lt this ?_
    have width : (2 : ℚ) ^ (53 : ℤ) < (2 : ℚ) ^ (1024 : ℤ) :=
      zpow_lt_zpow_right₀ (by norm_num) (by norm_num)
    calc ((2 ^ 53 : ℤ) : ℚ) = (2 : ℚ) ^ (53 : ℤ) := by norm_num
      _ < (2 : ℚ) ^ (1024 : ℤ) := width
  unfold ofInt
  rw [value_round room, rounded_int small]

theorem less_of_values {left right : Binary64} {x y : ℚ} (first : left.value? = some x)
    (second : right.value? = some y) : less left right = decide (x < y) := by
  cases left <;> cases right <;> simp_all [value?, less]

theorem lessEq_of_values {left right : Binary64} {x y : ℚ} (first : left.value? = some x)
    (second : right.value? = some y) : lessEq left right = decide (x ≤ y) := by
  have flipped := less_of_values second first
  cases left <;> cases right <;> simp_all [value?, lessEq, ← not_lt]

theorem less_ofInt {i j : ℤ} (left : |i| ≤ 2 ^ 53) (right : |j| ≤ 2 ^ 53) :
    less (ofInt i) (ofInt j) = decide (i < j) := by
  rw [less_of_values (value_ofInt left) (value_ofInt right)]
  exact decide_eq_decide.mpr Int.cast_lt

theorem lessEq_ofInt {i j : ℤ} (left : |i| ≤ 2 ^ 53) (right : |j| ≤ 2 ^ 53) :
    lessEq (ofInt i) (ofInt j) = decide (i ≤ j) := by
  rw [lessEq_of_values (value_ofInt left) (value_ofInt right)]
  exact decide_eq_decide.mpr Int.cast_le

end Binary64

end RaisinDB.Foundation
