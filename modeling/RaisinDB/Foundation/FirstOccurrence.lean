import Mathlib

/-!
# The first occurrence of a separator

A text is split at the first place where a separator of several symbols stands.  What was joined by
the separator comes back exactly if it does not stand earlier, also not across the joint.
-/

namespace RaisinDB.Foundation

open List

variable {α : Type} [DecidableEq α] (separator : List α)

/-- What stands before the first occurrence and what stands behind it. -/
def splitOnce : List α → Option (List α × List α)
  | [] => if separator = [] then some ([], []) else none
  | symbol :: rest =>
      if separator <+: symbol :: rest then some ([], (symbol :: rest).drop separator.length)
      else (splitOnce rest).map fun parts => (symbol :: parts.1, parts.2)

variable {separator}

theorem splitOnce_of_begins {text back : List α} (starts : text = separator ++ back) :
    splitOnce separator text = some ([], back) := by
  subst starts
  cases text : separator ++ back with
  | nil =>
    obtain ⟨rfl, rfl⟩ := append_eq_nil_iff.mp text
    rfl
  | cons symbol rest =>
    rw [splitOnce, ← text, if_pos (prefix_append _ _), drop_left]

theorem splitOnce_cons {symbol : α} {rest : List α} (other : ¬ separator <+: symbol :: rest) :
    splitOnce separator (symbol :: rest) =
      (splitOnce separator rest).map fun parts => (symbol :: parts.1, parts.2) := by
  rw [splitOnce, if_neg other]

/-- The parts make up the text. -/
theorem eq_of_splitOnce {text front back : List α}
    (split : splitOnce separator text = some (front, back)) : text = front ++ (separator ++ back) := by
  induction text generalizing front with
  | nil =>
    rw [splitOnce] at split
    split at split
    · next none =>
      cases split
      rw [none]
      rfl
    · cases split
  | cons symbol rest ih =>
    by_cases starts : separator <+: symbol :: rest
    · obtain ⟨back', joined⟩ := starts
      rw [splitOnce_of_begins joined.symm] at split
      cases split
      exact joined.symm
    · rw [splitOnce_cons starts] at split
      obtain ⟨⟨front', back'⟩, found, same⟩ := Option.map_eq_some_iff.mp split
      cases same
      rw [ih found, cons_append]

theorem splitOnce_eq_none_iff {text : List α} :
    splitOnce separator text = none ↔ ¬ separator <:+: text := by
  induction text with
  | nil =>
    rw [splitOnce, infix_nil]
    split
    · next none => simp [none]
    · next some => simp [some]
  | cons symbol rest ih =>
    rw [infix_cons_iff, not_or, ← ih]
    by_cases starts : separator <+: symbol :: rest
    · obtain ⟨back, joined⟩ := id starts
      rw [splitOnce_of_begins joined.symm]
      simp [starts]
    · rw [splitOnce_cons starts, Option.map_eq_none_iff]
      simp [starts]

/-- A text in which the separator was put is split there or earlier. -/
theorem splitOnce_append (front back : List α) : ∃ front' back',
    splitOnce separator (front ++ (separator ++ back)) = some (front', back') ∧ front' <+: front := by
  induction front with
  | nil => exact ⟨[], back, splitOnce_of_begins rfl, prefix_rfl⟩
  | cons symbol front ih =>
    rw [cons_append]
    by_cases starts : separator <+: symbol :: (front ++ (separator ++ back))
    · obtain ⟨back', joined⟩ := starts
      exact ⟨[], back', splitOnce_of_begins joined.symm, nil_prefix⟩
    · obtain ⟨front', back', found, earlier⟩ := ih
      refine ⟨symbol :: front', back', ?_, (prefix_cons_inj symbol).mpr earlier⟩
      rw [splitOnce_cons starts, found]
      rfl

/-- It is split there if the separator does not begin earlier, also not in front of itself. -/
theorem splitOnce_append_iff (nonempty : separator ≠ []) (front back : List α) :
    splitOnce separator (front ++ (separator ++ back)) = some (front, back) ↔
      ¬ separator <:+: (front ++ separator).dropLast := by
  induction front with
  | nil =>
    refine iff_of_true (splitOnce_of_begins rfl) fun inside => ?_
    have shorter := inside.length_le
    rw [nil_append, length_dropLast] at shorter
    have positive := length_pos_of_ne_nil nonempty
    omega
  | cons symbol front ih =>
    have later : (symbol :: front ++ separator).dropLast =
        symbol :: (front ++ separator).dropLast := by
      rw [cons_append, dropLast_cons_of_ne_nil (append_ne_nil_of_right_ne_nil _ nonempty)]
    have begins : symbol :: (front ++ separator).dropLast <+:
        symbol :: (front ++ (separator ++ back)) := by
      rw [← append_assoc]
      exact (prefix_cons_inj symbol).mpr ( dropLast_prefix _ |>.trans (prefix_append _ _))
    rw [cons_append, later, infix_cons_iff, not_or]
    by_cases starts : separator <+: symbol :: (front ++ (separator ++ back))
    · have early : separator <+: symbol :: (front ++ separator).dropLast := by
        refine prefix_of_prefix_length_le starts begins ?_
        rw [length_cons, length_dropLast, length_append]
        omega
      obtain ⟨back', joined⟩ := starts
      rw [splitOnce_of_begins joined.symm]
      simp [early]
    · have late : ¬ separator <+: symbol :: (front ++ separator).dropLast :=
        fun early => starts (early.trans begins)
      rw [splitOnce_cons starts, ← ih]
      simp only [late, not_false_eq_true, true_and]
      cases splitOnce separator (front ++ (separator ++ back)) with
      | none => simp
      | some parts => simp [Prod.ext_iff]

end RaisinDB.Foundation
