import Mathlib.Data.List.Infix

/-!
# Paths of segments

The text of a list of segments, each behind a separator, and what can be read off it: the segments,
the text of the path above it, and the paths that it lies under.
-/

namespace RaisinDB.Foundation

open List

variable {α : Type*} [DecidableEq α] (sep : α)

/-- The segments in turn, each behind a separator. -/
def below (path : List (List α)) : List α := path.flatMap fun segment => sep :: segment

/-- The text of an absolute path: that of no segments is a separator. -/
def pathText : List (List α) → List α
  | [] => [sep]
  | segment :: rest => below sep (segment :: rest)

/-- No segment is empty and none holds a separator. -/
def Segments (path : List (List α)) : Prop := ∀ segment ∈ path, segment ≠ [] ∧ sep ∉ segment

instance (path : List (List α)) : Decidable (Segments sep path) :=
  inferInstanceAs (Decidable (∀ segment ∈ path, _))

/-- What stands between the separators of a text. -/
def segmentsOf (text : List α) : List (List α) :=
  (text.splitOn sep).filter fun segment => !segment.isEmpty

/-- A text without the separators at its end. -/
def trimEnd (text : List α) : List α := (text.reverse.dropWhile (· = sep)).reverse

variable {sep}

omit [DecidableEq α] in
@[simp] theorem below_nil : below sep [] = [] := rfl

omit [DecidableEq α] in
@[simp] theorem below_cons (segment : List α) (rest : List (List α)) :
    below sep (segment :: rest) = sep :: (segment ++ below sep rest) := rfl

omit [DecidableEq α] in
@[simp] theorem below_append (front rest : List (List α)) :
    below sep (front ++ rest) = below sep front ++ below sep rest := flatMap_append

omit [DecidableEq α] in
theorem pathText_of_ne {path : List (List α)} (nonempty : path ≠ []) :
    pathText sep path = below sep path := by
  cases path with
  | nil => exact absurd rfl nonempty
  | cons segment rest => rfl

omit [DecidableEq α] in
theorem Segments.cons {segment : List α} {rest : List (List α)} (path : Segments sep
    (segment :: rest)) : (segment ≠ [] ∧ sep ∉ segment) ∧ Segments sep rest :=
  ⟨path segment mem_cons_self, fun other mem => path other (mem_cons_of_mem segment mem)⟩

omit [DecidableEq α] in
theorem Segments.left {front rest : List (List α)} (path : Segments sep (front ++ rest)) :
    Segments sep front := fun segment mem => path segment (mem_append_left rest mem)

omit [DecidableEq α] in
theorem Segments.right {front rest : List (List α)} (path : Segments sep (front ++ rest)) :
    Segments sep rest := fun segment mem => path segment (mem_append_right front mem)

/-! ## Reading segments -/

theorem segmentsOf_append_sep (text rest : List α) :
    segmentsOf sep (text ++ sep :: rest) = segmentsOf sep text ++ segmentsOf sep rest := by
  simp [segmentsOf, splitOn_append_cons_self]

theorem segmentsOf_nil : segmentsOf sep [] = [] := rfl

theorem segmentsOf_segment {segment : List α} (nonempty : segment ≠ []) (plain : sep ∉ segment) :
    segmentsOf sep segment = [segment] := by
  simp [segmentsOf, splitOn_eq_singleton plain, nonempty]

theorem segmentsOf_append_below (text : List α) {path : List (List α)}
    (segments : Segments sep path) :
    segmentsOf sep (text ++ below sep path) = segmentsOf sep text ++ path := by
  induction path generalizing text with
  | nil => simp
  | cons segment rest ih =>
    obtain ⟨⟨nonempty, plain⟩, later⟩ := segments.cons
    calc segmentsOf sep (text ++ below sep (segment :: rest))
        = segmentsOf sep text ++ segmentsOf sep (segment ++ below sep rest) := by
          rw [below_cons, segmentsOf_append_sep]
      _ = segmentsOf sep text ++ ([segment] ++ rest) := by
          rw [ih _ later, segmentsOf_segment nonempty plain]

theorem segmentsOf_below {path : List (List α)} (segments : Segments sep path) :
    segmentsOf sep (below sep path) = path := segmentsOf_append_below [] segments

theorem segmentsOf_pathText {path : List (List α)} (segments : Segments sep path) :
    segmentsOf sep (pathText sep path) = path := by
  cases path with
  | nil => exact segmentsOf_append_sep [] []
  | cons segment rest => exact segmentsOf_below segments

theorem not_mem_of_mem_splitOn {text name : List α}
    (mem : name ∈ text.splitOn sep) : sep ∉ name := by
  induction text generalizing name with
  | nil => simp_all
  | cons char rest ih =>
    obtain ⟨first, others, split⟩ := exists_cons_of_ne_nil (splitOn_ne_nil sep rest)
    rw [splitOn_cons_eq_if_modifyHead] at mem
    by_cases same : char = sep
    · rw [if_pos (by simpa using same)] at mem
      rcases mem_cons.mp mem with rfl | mem
      · exact not_mem_nil
      · exact ih mem
    · rw [if_neg (by simpa using same), split, modifyHead_cons] at mem
      rcases mem_cons.mp mem with rfl | mem
      · exact not_mem_cons_of_ne_of_not_mem (Ne.symm same) (ih (split ▸ mem_cons_self))
      · exact ih (split ▸ mem_cons_of_mem first mem)

theorem segments_segmentsOf (text : List α) : Segments sep (segmentsOf sep text) := by
  intro segment mem
  obtain ⟨split, some⟩ := mem_filter.mp mem
  exact ⟨by simpa using some, not_mem_of_mem_splitOn split⟩

/-! ## Separators at the end -/

theorem trimEnd_append_sep (text : List α) : trimEnd sep (text ++ [sep]) = trimEnd sep text := by
  simp [trimEnd]

theorem trimEnd_of_getLast {text : List α} (last : text.getLast? ≠ some sep) :
    trimEnd sep text = text := by
  induction text using reverseRecOn with
  | nil => rfl
  | append_singleton front char _ =>
    have other : char ≠ sep := fun same => last (by simp [same])
    simp [trimEnd, other]

theorem getLast?_trimEnd (text : List α) : (trimEnd sep text).getLast? ≠ some sep := by
  induction text using reverseRecOn with
  | nil => simp [trimEnd]
  | append_singleton front char ih =>
    by_cases same : char = sep
    · rw [same, trimEnd_append_sep]
      exact ih
    · simp [trimEnd, same]

theorem segmentsOf_trimEnd (text : List α) :
    segmentsOf sep (trimEnd sep text) = segmentsOf sep text := by
  induction text using reverseRecOn with
  | nil => rfl
  | append_singleton front char ih =>
    by_cases same : char = sep
    · rw [same, trimEnd_append_sep, ih, segmentsOf_append_sep, segmentsOf_nil, append_nil]
    · rw [trimEnd_of_getLast (by simpa using same)]

/-! ## Paths above -/

omit [DecidableEq α] in
/-- A text with a separator behind it starts a path exactly when it is the text of segments that the
path begins with, and the path has more. -/
theorem append_sep_prefix_below {text : List α} {path : List (List α)}
    (segments : Segments sep path) :
    text ++ [sep] <+: below sep path ↔
      ∃ front rest, path = front ++ rest ∧ rest ≠ [] ∧ text = below sep front := by
  constructor
  · intro starts
    induction path generalizing text with
    | nil => simp at starts
    | cons segment later ih =>
      obtain ⟨⟨-, plain⟩, laterSegments⟩ := segments.cons
      cases text with
      | nil => exact ⟨[], segment :: later, rfl, by simp, rfl⟩
      | cons first text =>
        rw [below_cons, cons_append, cons_prefix_cons] at starts
        obtain ⟨rfl, starts⟩ := starts
        -- the separator behind the text is not one of the first segment
        have reaches : segment <+: text := by
          rcases prefix_or_prefix_of_prefix starts (prefix_append segment _) with inside | whole
          · have inner := inside.subset (mem_append_right text (mem_singleton_self first))
            exact absurd inner plain
          · rcases prefix_concat_iff.mp whole with same | reaches
            · exact absurd (same ▸ mem_append_right text (mem_singleton_self first)) plain
            · exact reaches
        obtain ⟨text, rfl⟩ := reaches
        rw [append_assoc, prefix_append_right_inj] at starts
        obtain ⟨front, rest, rfl, nonempty, rfl⟩ := ih laterSegments starts
        exact ⟨segment :: front, rest, rfl, nonempty, rfl⟩
  · rintro ⟨front, rest, rfl, nonempty, rfl⟩
    cases rest with
    | nil => exact absurd rfl nonempty
    | cons segment rest =>
      rw [below_append, below_cons, prefix_append_right_inj]
      exact ⟨_, rfl⟩

end RaisinDB.Foundation
