import RaisinDB.Foundation.SeparatedPaths
import RaisinDB.Sql.HierarchyRewrite

/-!
# Node paths

What the functions of the evaluator and the prefix and depth of the rewriting read off the path of a
node.
-/

namespace RaisinDB.Sql

open List
open RaisinDB.Foundation (Segments segmentsOf pathText below trimEnd segmentsOf_below
  segmentsOf_pathText segmentsOf_trimEnd getLast?_trimEnd append_sep_prefix_below pathText_of_ne)

/-- The path of the root, or of segments that are neither empty nor hold a slash. -/
def AbsolutePath (name : String) : Prop :=
  ∃ path, Segments '/' path ∧ name.toList = pathText '/' path

def parentOf (name : String) : String := getParentAtLevel name 1

/-- A path as the paths of nodes are written: without slashes at its end. -/
def barePath (path : String) : String :=
  if trimEndSlashes path = "" then "/" else trimEndSlashes path

/-- The path is under the other one, a multiple of 2^32 levels below its children. -/
def FarBelow (name path : String) : Prop :=
  startsWith name (trimEndSlashes path ++ "/") = true ∧
    ∃ turns ≠ 0, (segments name).length = (segments path).length + 1 + turns * 2 ^ 32

theorem toList_trimEndSlashes (path : String) :
    (trimEndSlashes path).toList = trimEnd '/' path.toList := by
  simp [trimEndSlashes]

theorem segments_eq (path : String) : segments path = segmentsOf '/' path.toList := rfl

theorem segments_trimEndSlashes (path : String) :
    segments path = segmentsOf '/' (trimEndSlashes path).toList := by
  rw [segments_eq, toList_trimEndSlashes, segmentsOf_trimEnd]

theorem cutAtSlash_append {front : List Char} (plain : '/' ∉ front) (rest : List Char) :
    cutAtSlash 0 (front ++ '/' :: rest) = some rest := by
  induction front with
  | nil => rfl
  | cons char front ih =>
    have other : char ≠ '/' := fun same => plain (same ▸ mem_cons_self)
    rw [cons_append, cutAtSlash, if_neg other]
    exact ih fun mem => plain (mem_cons_of_mem char mem)

theorem parentOf_root {name : String} (root : name.toList = pathText '/' []) :
    parentOf name = "" := by
  have : name = "/" := String.toList_inj.mp root
  rw [this]
  rfl

theorem parentOf_append {name : String} {front : List (List Char)} {last : List Char}
    (segments : Segments '/' (front ++ [last]))
    (spelled : name.toList = pathText '/' (front ++ [last])) :
    (parentOf name).toList = pathText '/' front := by
  obtain ⟨⟨nonempty, plain⟩, -⟩ := segments.right.cons
  have text : name.toList = below '/' front ++ '/' :: last := by
    rw [spelled, pathText_of_ne (by simp)]
    simp
  have other : name ≠ "/" := by
    rintro rfl
    have : below '/' front ++ '/' :: last = ['/'] := text.symm
    cases front with
    | nil => exact nonempty (by simpa using this)
    | cons segment rest => simp at this
  have cut : cutAtSlash 0 name.toList.reverse = some (below '/' front).reverse := by
    rw [text, reverse_append, reverse_cons, append_assoc]
    exact cutAtSlash_append (by simpa using plain) _
  rw [parentOf, getParentAtLevel, if_neg other, cut]
  cases front with
  | nil => rfl
  | cons segment rest =>
    have shape : (below '/' (segment :: rest)).reverse ≠ [] := by simp
    cases whole : (below '/' (segment :: rest)).reverse with
    | nil => exact absurd whole shape
    | cons char chars =>
      rw [← whole]
      simp [pathText]

theorem barePath_iff {front : List (List Char)} (segments : Segments '/' front) (path : String) :
    (barePath path).toList = pathText '/' front ↔
      (trimEndSlashes path).toList = below '/' front := by
  have open_end : (trimEndSlashes path).toList.getLast? ≠ some '/' := by
    rw [toList_trimEndSlashes]
    exact getLast?_trimEnd _
  cases front with
  | nil =>
    by_cases empty : trimEndSlashes path = ""
    · simp [barePath, empty, pathText]
    · rw [barePath, if_neg empty]
      refine iff_of_false (fun same => open_end (by rw [same]; rfl)) fun same => ?_
      exact empty (String.toList_inj.mp same)
  | cons segment rest =>
    obtain ⟨⟨nonempty, -⟩, -⟩ := segments.cons
    by_cases empty : trimEndSlashes path = ""
    · rw [barePath, if_pos empty, empty]
      refine iff_of_false (fun same => nonempty ?_) fun same => by cases same
      have : ['/'] = '/' :: (segment ++ below '/' rest) := same
      simp at this
      exact this.1
    · rw [barePath, if_neg empty]
      rfl

theorem startsWith_trimmed {name path : String} {under : List (List Char)}
    (segments : Segments '/' under) (spelled : name.toList = pathText '/' under) :
    startsWith name (trimEndSlashes path ++ "/") = true ↔
      ∃ front rest, under = front ++ rest ∧ (rest = [] → under = []) ∧
        (trimEndSlashes path).toList = below '/' front := by
  have shape : (trimEndSlashes path ++ "/").toList = (trimEndSlashes path).toList ++ ['/'] := by
    simp
  rw [startsWith, isPrefixOf_iff_prefix, shape, spelled]
  cases under with
  | nil =>
    constructor
    · intro starts
      refine ⟨[], [], rfl, fun _ => rfl, ?_⟩
      have short := starts.length_le
      simp only [pathText, length_append, length_cons, length_nil] at short
      exact length_eq_zero_iff.mp (by omega)
    · rintro ⟨front, rest, whole, -, same⟩
      obtain ⟨rfl, rfl⟩ := append_eq_nil_iff.mp whole.symm
      rw [same]
      exact prefix_refl _
  | cons segment later =>
    rw [pathText_of_ne (by simp), append_sep_prefix_below segments]
    constructor
    · rintro ⟨front, rest, whole, nonempty, same⟩
      exact ⟨front, rest, whole, fun none => absurd none nonempty, same⟩
    · rintro ⟨front, rest, whole, more, same⟩
      exact ⟨front, rest, whole, fun none => (cons_ne_nil segment later) (more none), same⟩

theorem int32_ofNat_inj {left right : Nat} :
    Int32.ofNat left = Int32.ofNat right ↔ left % 2 ^ 32 = right % 2 ^ 32 := by
  rw [← Int32.toBitVec_inj, ← BitVec.toNat_inj]
  rfl

/-- The prefix and the depth of the rewriting find the children of the bare path. -/
theorem under_iff {name : String} (absolute : AbsolutePath name) (path : String) :
    startsWith name (trimEndSlashes path ++ "/") = true ∧
        Int32.ofNat (segments name).length = Int32.ofNat ((segments path).length + 1) ↔
      parentOf name = barePath path ∨ FarBelow name path := by
  obtain ⟨under, clean, spelled⟩ := absolute
  have depth : segments name = under := by
    rw [segments_eq, spelled, segmentsOf_pathText clean]
  have levels {front rest : List (List Char)} (whole : under = front ++ rest)
      (same : (trimEndSlashes path).toList = below '/' front) :
      (segments path).length = front.length := by
    rw [segments_trimEndSlashes, same, segmentsOf_below (whole ▸ clean).left]
  rw [int32_ofNat_inj, depth]
  constructor
  · rintro ⟨starts, deep⟩
    obtain ⟨front, rest, whole, -, same⟩ := (startsWith_trimmed clean spelled).mp starts
    have count : under.length = front.length + rest.length := by rw [whole, length_append]
    rw [levels whole same, count] at deep
    rcases Nat.lt_or_ge 1 rest.length with more | few
    · refine Or.inr ⟨starts, rest.length / 2 ^ 32, by omega, ?_⟩
      rw [depth, levels whole same, count]
      omega
    · obtain ⟨last, rfl⟩ := length_eq_one_iff.mp (show rest.length = 1 by omega)
      refine Or.inl (String.toList_inj.mp ?_)
      subst whole
      rw [parentOf_append clean spelled, (barePath_iff clean.left path).mpr same]
  · rintro (child | ⟨starts, turns, -, deep⟩)
    · cases under using reverseRecOn with
      | nil =>
        rw [parentOf_root spelled] at child
        have nonempty : barePath path ≠ "" := by
          unfold barePath
          split <;> simp_all
        exact absurd child.symm nonempty
      | append_singleton front last _ =>
        have same : (trimEndSlashes path).toList = below '/' front :=
          (barePath_iff clean.left path).mp (child ▸ parentOf_append clean spelled)
        refine ⟨(startsWith_trimmed clean spelled).mpr ⟨front, [last], rfl, by simp, same⟩, ?_⟩
        rw [levels rfl same, length_append, length_singleton]
    · rw [depth] at deep
      exact ⟨starts, by rw [deep]; omega⟩

/-- A path far below another one is no child of it. -/
theorem FarBelow.parentOf_ne {name path : String} (far : FarBelow name path)
    (absolute : AbsolutePath name) : parentOf name ≠ path := by
  obtain ⟨under, clean, spelled⟩ := absolute
  obtain ⟨-, turns, some, deep⟩ := far
  rw [segments_eq name, spelled, segmentsOf_pathText clean] at deep
  rintro rfl
  cases under using reverseRecOn with
  | nil => rw [length_nil] at deep; omega
  | append_singleton front last _ =>
    rw [segments_eq, parentOf_append clean spelled, segmentsOf_pathText clean.left,
      length_append, length_singleton] at deep
    omega

end RaisinDB.Sql
