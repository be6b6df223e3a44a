import Mathlib.Data.List.Basic

/-!
# The first tail that fits

A search tries the tails of a list, the whole list first.  A test may break, and so may the step to
the next tail.  The search comes to an answer if no test and no step breaks up to the first tail
that fits.
-/

namespace RaisinDB.Foundation

open List

variable {α : Type} (test : List α → Option Bool) (steps : α → Bool)

/-- Whether the test takes a tail.  A test without an answer has broken. -/
def firstTail : List α → Option Bool
  | [] => test []
  | symbol :: rest =>
      match test (symbol :: rest) with
      | none => none
      | some true => some true
      | some false => if steps symbol then firstTail rest else none

/-- No longer tail fits, so this one is tried. -/
def Tried (fits : List α → Prop) (front back : List α) : Prop :=
  ∀ front' back', front' ++ back' = front ++ back → front'.length < front.length → ¬ fits back'

variable {test steps} {fits : List α → Prop}

theorem tried_nil (text : List α) : Tried fits [] text :=
  fun _ _ _ shorter => absurd shorter (Nat.not_lt_zero _)

theorem tried_cons_iff {symbol : α} {front back : List α} : Tried fits (symbol :: front) back ↔
    ¬ fits (symbol :: (front ++ back)) ∧ Tried fits front back := by
  constructor
  · intro tried
    refine ⟨tried [] _ rfl (Nat.succ_pos _), fun front' back' joined shorter => ?_⟩
    exact tried (symbol :: front') back' (by rw [cons_append, joined, cons_append])
      (Nat.succ_lt_succ shorter)
  · rintro ⟨unfit, tried⟩ front' back' joined shorter
    cases front' with
    | nil =>
      rw [nil_append, cons_append] at joined
      rw [joined]
      exact unfit
    | cons symbol' front' =>
      rw [cons_append, cons_append] at joined
      exact tried front' back' (cons.inj joined).2 (Nat.lt_of_succ_lt_succ shorter)

theorem firstTail_answer {text : List α}
    (sound : ∀ back answer, test back = some answer → (answer = true ↔ fits back)) {answer : Bool}
    (found : firstTail test steps text = some answer) :
    answer = true ↔ ∃ front back, text = front ++ back ∧ fits back := by
  induction text with
  | nil =>
    rw [sound [] answer found]
    constructor
    · exact fun here => ⟨[], [], rfl, here⟩
    · rintro ⟨front, back, joined, here⟩
      obtain ⟨-, rfl⟩ := append_eq_nil_iff.mp joined.symm
      exact here
  | cons symbol rest ih =>
    rw [firstTail] at found
    cases tested : test (symbol :: rest) with
    | none =>
      rw [tested] at found
      cases found
    | some taken =>
      have whole := sound _ _ tested
      rw [tested] at found
      cases taken with
      | true =>
        cases found
        exact iff_of_true rfl ⟨[], _, rfl, whole.mp rfl⟩
      | false =>
        by_cases goes : steps symbol = true
        · rw [if_pos goes] at found
          rw [ih found]
          constructor
          · rintro ⟨front, back, rfl, here⟩
            exact ⟨symbol :: front, back, rfl, here⟩
          · rintro ⟨front, back, joined, here⟩
            cases front with
            | nil => exact absurd (whole.mpr (by rw [joined]; exact here)) (by decide)
            | cons symbol' front => exact ⟨front, back, (cons.inj joined).2, here⟩
        · rw [if_neg goes] at found
          cases found

/-- The search answers if the test answers for each tail that is tried and each step to one is
possible. -/
theorem firstTail_isSome_iff {text : List α}
    (sound : ∀ back answer, test back = some answer → (answer = true ↔ fits back)) :
    (firstTail test steps text).isSome ↔ ∀ front back, text = front ++ back →
      Tried fits front back → (∀ symbol ∈ front, steps symbol = true) ∧ (test back).isSome := by
  induction text with
  | nil =>
    constructor
    · intro answers front back joined _
      obtain ⟨rfl, rfl⟩ := append_eq_nil_iff.mp joined.symm
      exact ⟨fun _ mem => absurd mem not_mem_nil, answers⟩
    · exact fun reached => (reached [] [] rfl (tried_nil [])).2
  | cons symbol rest ih =>
    rw [firstTail]
    cases tested : test (symbol :: rest) with
    | none =>
      refine iff_of_false Bool.false_ne_true fun reached => ?_
      have answers := (reached [] _ rfl (tried_nil _)).2
      rw [tested] at answers
      exact Bool.false_ne_true answers
    | some taken =>
      have whole := sound _ _ tested
      cases taken with
      | true =>
        refine iff_of_true rfl fun front back joined tried => ?_
        cases front with
        | nil =>
          rw [nil_append] at joined
          exact ⟨fun _ mem => absurd mem not_mem_nil, by rw [← joined, tested]; rfl⟩
        | cons symbol' front =>
          obtain ⟨rfl, same⟩ := cons.inj joined
          refine absurd (whole.mp rfl) ?_
          rw [same]
          exact (tried_cons_iff.mp tried).1
      | false =>
        have unfit : ¬ fits (symbol :: rest) := fun here => Bool.false_ne_true (whole.mpr here)
        by_cases goes : steps symbol = true
        · dsimp only
          rw [if_pos goes, ih]
          constructor
          · intro reached front back joined tried
            cases front with
            | nil =>
              rw [nil_append] at joined
              exact ⟨fun _ mem => absurd mem not_mem_nil, by rw [← joined, tested]; rfl⟩
            | cons symbol' front =>
              obtain ⟨rfl, same⟩ := cons.inj joined
              obtain ⟨all, answers⟩ := reached front back same (tried_cons_iff.mp tried).2
              exact ⟨forall_mem_cons.mpr ⟨goes, all⟩, answers⟩
          · intro reached front back joined tried
            obtain ⟨all, answers⟩ := reached (symbol :: front) back (by rw [joined]; rfl)
              (tried_cons_iff.mpr ⟨by rw [← joined]; exact unfit, tried⟩)
            exact ⟨(forall_mem_cons.mp all).2, answers⟩
        · dsimp only
          rw [if_neg goes]
          refine iff_of_false Bool.false_ne_true fun reached => goes ?_
          exact (reached [symbol] rest rfl
            (tried_cons_iff.mpr ⟨unfit, tried_nil rest⟩)).1 symbol mem_cons_self

end RaisinDB.Foundation
