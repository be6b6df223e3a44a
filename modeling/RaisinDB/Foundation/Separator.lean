import Mathlib

/-!
# Splitting at a separator

A joined text can be taken apart again when one side of the separator is free of
it.  Fixed-width hexadecimal is one alphabet that is free of most separators.
-/

namespace RaisinDB.Foundation

open List

variable {α : Type}

/-- Two joined texts that agree: they are joined at one place, or one goes on over the joint of the
other. -/
theorem split_joined {first second : α} {left left' right right' : List α}
    (joined : left ++ first :: right = left' ++ second :: right') :
    (left = left' ∧ first = second ∧ right = right') ∨
      (∃ more, left' = left ++ first :: more ∧ right = more ++ second :: right') ∨
      ∃ more, left = left' ++ second :: more ∧ right' = more ++ first :: right := by
  rcases append_eq_append_iff.mp joined with ⟨_ | ⟨head, more⟩, long, rest⟩ |
    ⟨_ | ⟨head, more⟩, long, rest⟩
  · simp_all
  · obtain ⟨rfl, tail⟩ := cons.inj rest
    exact .inr (.inl ⟨more, long, tail⟩)
  · simp_all
  · obtain ⟨rfl, tail⟩ := cons.inj rest
    exact .inr (.inr ⟨more, long, tail⟩)

/-- Two joins that agree also agree around the first separator. -/
theorem split_at_first {sep : α} {left left' right right' : List α}
    (free : sep ∉ left) (free' : sep ∉ left')
    (joined : left ++ sep :: right = left' ++ sep :: right') :
    left = left' ∧ right = right' := by
  rcases split_joined joined with ⟨left, _, right⟩ | ⟨more, long, _⟩ | ⟨more, long, _⟩
  · exact ⟨left, right⟩
  · simp [long] at free'
  · simp [long] at free

/-- Two joins that agree also agree around the last separator. -/
theorem split_at_last {sep : α} {left left' right right' : List α}
    (free : sep ∉ right) (free' : sep ∉ right')
    (joined : left ++ sep :: right = left' ++ sep :: right') :
    left = left' ∧ right = right' := by
  have mirrored := congrArg reverse joined
  simp only [reverse_append, reverse_cons, append_assoc, singleton_append] at mirrored
  obtain ⟨sameRight, sameLeft⟩ := split_at_first
    (by simpa using free) (by simpa using free') mirrored
  exact ⟨reverse_injective sameLeft, reverse_injective sameRight⟩

/-- Fixed-width lower-case hexadecimal digits, most significant first. -/
def hexDigits : Nat → Nat → List Char
  | 0, _ => []
  | width + 1, value => hexDigits width (value / 16) ++ [Nat.digitChar (value % 16)]

theorem digitChar_injective {first second : Nat} (hfirst : first < 16) (hsecond : second < 16)
    (same : Nat.digitChar first = Nat.digitChar second) : first = second := by
  have table : ∀ a < 16, ∀ b < 16, Nat.digitChar a = Nat.digitChar b → a = b := by decide
  exact table first hfirst second hsecond same

theorem hexDigits_injective {width first second : Nat} (hfirst : first < 16 ^ width)
    (hsecond : second < 16 ^ width) (same : hexDigits width first = hexDigits width second) :
    first = second := by
  induction width generalizing first second with
  | zero => simp at hfirst hsecond; omega
  | succ width ih =>
    rw [pow_succ] at hfirst hsecond
    obtain ⟨samePrefix, sameLast⟩ := append_inj' same rfl
    have high := ih (Nat.div_lt_of_lt_mul (by omega)) (Nat.div_lt_of_lt_mul (by omega)) samePrefix
    have low := digitChar_injective (Nat.mod_lt _ (by decide)) (Nat.mod_lt _ (by decide))
      (singleton_inj.mp sameLast)
    omega

/-- Every digit is one of the sixteen. -/
theorem mem_hexDigits {width value : Nat} {digit : Char} (hmem : digit ∈ hexDigits width value) :
    digit ∈ "0123456789abcdef".toList := by
  induction width generalizing value with
  | zero => cases hmem
  | succ width ih =>
    rcases mem_append.mp hmem with early | last
    · exact ih early
    · rw [mem_singleton.mp last]
      have small : value % 16 < 16 := Nat.mod_lt _ (by decide)
      generalize value % 16 = nibble at small
      interval_cases nibble <;> decide

end RaisinDB.Foundation
