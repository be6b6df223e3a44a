import RaisinDB.Branches.BranchKeys
import RaisinDB.Foundation.HexText

/-!
# Order labels

A label is the text of a position, a separator and the revision in hexadecimal.  Positions never
extend one another, so labels of different positions compare like them.  Labels of one position
compare like the texts of the revisions, and those have no fixed width.
-/

namespace RaisinDB.Indexing

open List RaisinDB.Branches RaisinDB.Clock RaisinDB.Foundation RaisinDB.Replication

/-! ## Labels -/

def separator : String := "::"

/-- The timestamp in the upper half, the counter in the lower one. -/
def asU128 (revision : HLC) : Nat := revision.timestampMs * 2 ^ 64 + revision.counter

def formatLabel (fractional : String) (revision : HLC) : String :=
  fractional ++ separator ++ String.ofList (paddedHex 16 (asU128 revision))

/-- The last place where the pattern stands. -/
def rfind (pattern : List Char) : List Char → Option Nat
  | [] => if pattern.isPrefixOf [] then some 0 else none
  | char :: rest =>
      match rfind pattern rest with
      | some position => some (position + 1)
      | none => if pattern.isPrefixOf (char :: rest) then some 0 else none

def extractFractional (label : String) : String :=
  match rfind separator.toList label.toList with
  | some position => String.ofList (label.toList.take position)
  | none => label

theorem toList_formatLabel (fractional : String) (revision : HLC) :
    (formatLabel fractional revision).toList =
      fractional.toList ++ ':' :: ':' :: paddedHex 16 (asU128 revision) := by
  rw [formatLabel, String.toList_append, String.toList_append, String.toList_ofList, append_assoc]
  rfl

/-! ## The position of a label -/

theorem rfind_append {pattern suffix : List Char} {position : Nat}
    (found : rfind pattern suffix = some position) (text : List Char) :
    rfind pattern (text ++ suffix) = some (text.length + position) := by
  induction text with
  | nil => rw [nil_append, length_nil, Nat.zero_add, found]
  | cons char rest ih =>
      rw [cons_append, rfind, ih, length_cons]
      dsimp only
      rw [Nat.add_right_comm]

theorem rfind_eq_none {first second : Char} {text : List Char} (absent : first ∉ text) :
    rfind [first, second] text = none := by
  induction text with
  | nil => rfl
  | cons char rest ih =>
      obtain ⟨different, later⟩ := not_or.mp (mt mem_cons.mpr absent)
      rw [rfind, ih later]
      simp [isPrefixOf, different]

theorem rfind_suffix (value : Nat) :
    rfind [':', ':'] (':' :: ':' :: paddedHex 16 value) = some 0 := by
  have absent := colon_notMem_paddedHex 16 value
  have inside : rfind [':', ':'] (':' :: paddedHex 16 value) = none := by
    rw [rfind, rfind_eq_none absent]
    cases digits : paddedHex 16 value with
    | nil => rfl
    | cons digit rest =>
        rw [digits] at absent
        have different : ':' ≠ digit := fun same => absent (same ▸ mem_cons_self)
        simp [isPrefixOf, different]
  rw [rfind, inside]
  simp [isPrefixOf]

/-- The position of a label is the one that it was made of. -/
theorem extractFractional_formatLabel (fractional : String) (revision : HLC) :
    extractFractional (formatLabel fractional revision) = fractional := by
  have found : rfind separator.toList (formatLabel fractional revision).toList =
      some fractional.toList.length := by
    rw [toList_formatLabel]
    exact rfind_append (rfind_suffix _) _
  rw [extractFractional, found]
  dsimp only
  rw [toList_formatLabel, take_left, String.ofList_toList]

/-! ## Revisions -/

theorem asU128_lt_iff {first second : HLC} (fits : Fits first) (fits' : Fits second) :
    asU128 first < asU128 second ↔ first < second := by
  have bound : maxU64 + 1 = 2 ^ 64 := by decide
  obtain ⟨-, counter⟩ := fits
  obtain ⟨-, counter'⟩ := fits'
  rw [hlc_lt_iff, asU128, asU128]
  omega

theorem asU128_injective {first second : HLC} (fits : Fits first) (fits' : Fits second)
    (same : asU128 first = asU128 second) : first = second := by
  rcases lt_trichotomy first second with less | equal | greater
  · exact absurd same ((asU128_lt_iff fits fits').mpr less).ne
  · exact equal
  · exact absurd same.symm ((asU128_lt_iff fits' fits).mpr greater).ne

/-- The texts of two revisions compare like them. -/
def RevisionsAgree (first second : HLC) : Prop := TextsAgree 16 (asU128 first) (asU128 second)

theorem paddedHex_lt_iff {first second : HLC} (fits : Fits first) (fits' : Fits second) :
    (paddedHex 16 (asU128 first) < paddedHex 16 (asU128 second) ↔ first < second) ↔
      RevisionsAgree first second := by
  rw [← asU128_lt_iff fits fits']
  unfold RevisionsAgree
  rcases lt_trichotomy (asU128 first) (asU128 second) with less | equal | greater
  · obtain ⟨before, behind⟩ := @paddedHex_of_lt 16 _ _ less
    refine ⟨fun same => ?_, fun agree => iff_of_true (before agree) less⟩
    by_contra differ
    exact (behind differ).not_gt (same.mpr less)
  · rw [equal, textsAgree_of_le le_rfl]
    simp
  · obtain ⟨before, behind⟩ := @paddedHex_of_lt 16 _ _ greater
    rw [TextsAgree.comm]
    refine ⟨fun same => ?_, fun agree => iff_of_false (before agree).not_gt greater.not_gt⟩
    by_contra differ
    exact greater.not_gt (same.mp (behind differ))

/-! ## Positions -/

section Positions

variable {Position : Type} (bytes : Position → List UInt8)

/-- The text of a position. -/
def positionText (position : Position) : String := String.ofList (hexBytes (bytes position))

variable {bytes}

theorem toList_label (position : Position) (revision : HLC) :
    (formatLabel (positionText bytes position) revision).toList =
      hexBytes (bytes position) ++ ':' :: ':' :: paddedHex 16 (asU128 revision) := by
  rw [toList_formatLabel, positionText, String.toList_ofList]

/-- Labels of one position compare like the texts of the revisions. -/
theorem label_lt_iff (f : Position) (r s : HLC) :
    formatLabel (positionText bytes f) r < formatLabel (positionText bytes f) s ↔
      paddedHex 16 (asU128 r) < paddedHex 16 (asU128 s) := by
  rw [String.lt_iff_toList_lt, toList_label, toList_label, append_lt_append_left,
    cons_lt_cons_self, cons_lt_cons_self]

variable [LinearOrder Position]

/-- Labels of different positions compare like the positions. -/
theorem label_lt_of_lt (preserves : ∀ f g, f < g ↔ bytes f < bytes g)
    (prefixFree : ∀ f g, bytes f <+: bytes g → f = g) {f g : Position} (less : f < g)
    (r s : HLC) :
    formatLabel (positionText bytes f) r < formatLabel (positionText bytes g) s := by
  rw [String.lt_iff_toList_lt, toList_label, toList_label]
  exact hexBytes_lt ((preserves f g).mp less) (fun shorter => less.ne (prefixFree f g shorter)) _ _

theorem positionText_injective (preserves : ∀ f g, f < g ↔ bytes f < bytes g)
    (prefixFree : ∀ f g, bytes f <+: bytes g → f = g) :
    Function.Injective (positionText bytes) := by
  have apart : ∀ f g, f < g → positionText bytes f ≠ positionText bytes g := by
    intro f g less same
    have before := label_lt_of_lt preserves prefixFree less ⟨0, 0⟩ ⟨0, 0⟩
    rw [same] at before
    exact lt_irrefl _ before
  intro f g same
  rcases lt_trichotomy f g with less | equal | greater
  · exact absurd same (apart f g less)
  · exact equal
  · exact absurd same.symm (apart g f greater)

theorem label_injective (preserves : ∀ f g, f < g ↔ bytes f < bytes g)
    (prefixFree : ∀ f g, bytes f <+: bytes g → f = g) {f g : Position} {r s : HLC}
    (fits : Fits r) (fits' : Fits s)
    (same : formatLabel (positionText bytes f) r = formatLabel (positionText bytes g) s) :
    f = g ∧ r = s := by
  have positions := congrArg extractFractional same
  rw [extractFractional_formatLabel, extractFractional_formatLabel] at positions
  obtain rfl := positionText_injective preserves prefixFree positions
  have texts := congrArg String.toList same
  rw [toList_label, toList_label] at texts
  have numbers := (cons.inj (cons.inj (append_cancel_left texts)).2).2
  exact ⟨rfl, asU128_injective fits fits' (paddedHex_injective 16 numbers)⟩

/-- Labels compare as position and revision exactly where the positions differ or the texts of the
revisions compare like them; the position of a label is always found, and no two labels are
alike. -/
theorem labels_compare_iff (preserves : ∀ f g, f < g ↔ bytes f < bytes g)
    (prefixFree : ∀ f g, bytes f <+: bytes g → f = g) (f g : Position) (r s : HLC)
    (fits : Fits r) (fits' : Fits s) :
    ((formatLabel (positionText bytes f) r < formatLabel (positionText bytes g) s ↔
        f < g ∨ f = g ∧ r < s) ↔ f ≠ g ∨ RevisionsAgree r s) ∧
      extractFractional (formatLabel (positionText bytes f) r) = positionText bytes f ∧
      (formatLabel (positionText bytes f) r = formatLabel (positionText bytes g) s ↔
        f = g ∧ r = s) := by
  refine ⟨?_, extractFractional_formatLabel _ _,
    label_injective preserves prefixFree fits fits', ?_⟩
  · rcases lt_trichotomy f g with less | rfl | greater
    · exact iff_of_true (iff_of_true (label_lt_of_lt preserves prefixFree less r s) (.inl less))
        (.inl less.ne)
    · rw [label_lt_iff, or_iff_right (lt_irrefl f), and_iff_right rfl, paddedHex_lt_iff fits fits',
        or_iff_right (not_not.mpr rfl)]
    · refine iff_of_true (iff_of_false ?_ ?_) (.inl greater.ne')
      · exact (label_lt_of_lt preserves prefixFree greater s r).not_gt
      · rintro (less | ⟨same, -⟩)
        · exact greater.not_gt less
        · exact greater.ne' same
  · rintro ⟨rfl, rfl⟩
    rfl

end Positions

/-! ## Bytes with a terminator -/

/-- The last byte is the terminator, and it stands nowhere before. -/
def Terminated (bytes : List UInt8) : Prop := ∃ front, bytes = front ++ [0x80] ∧ 0x80 ∉ front

theorem Terminated.eq_of_start {first second : List UInt8} (ends : Terminated first)
    (ends' : Terminated second) (shorter : first <+: second) : first = second := by
  obtain ⟨front, rfl, absent⟩ := ends
  obtain ⟨front', rfl, absent'⟩ := ends'
  obtain ⟨tail, whole⟩ := shorter
  rw [append_assoc, singleton_append] at whole
  obtain ⟨same, -⟩ := split_at_first absent absent' whole
  rw [same]

abbrev TerminatedBytes := { bytes : List UInt8 // Terminated bytes }

def firstPosition : TerminatedBytes := ⟨[0x80], [], rfl, not_mem_nil⟩

def nextPosition : TerminatedBytes := ⟨[0x81, 0x80], [0x81], rfl, by decide⟩

theorem next_label_compares :
    (formatLabel (positionText Subtype.val firstPosition) ⟨1700000000000, 3⟩ <
        formatLabel (positionText Subtype.val nextPosition) ⟨15, 0⟩ ↔
      firstPosition < nextPosition ∨
        firstPosition = nextPosition ∧ (⟨1700000000000, 3⟩ : HLC) < ⟨15, 0⟩) ∧
      extractFractional (formatLabel (positionText Subtype.val firstPosition)
        ⟨1700000000000, 3⟩) = "80" := by
  obtain ⟨order, position, -⟩ := @labels_compare_iff TerminatedBytes Subtype.val inferInstance
    (fun f g => Iff.rfl) (fun f g shorter => Subtype.ext (f.2.eq_of_start g.2 shorter))
    firstPosition nextPosition ⟨1700000000000, 3⟩ ⟨15, 0⟩ ⟨by decide, by decide⟩
    ⟨by decide, by decide⟩
  exact ⟨order.mpr (.inl (by decide)), position⟩

/-- The text of the earlier revision is shorter by a digit and begins with a greater one. -/
theorem shorter_revision_behind :
    ¬ (formatLabel (positionText Subtype.val firstPosition) ⟨15, 0⟩ <
        formatLabel (positionText Subtype.val firstPosition) ⟨16, 0⟩ ↔
      firstPosition < firstPosition ∨
        firstPosition = firstPosition ∧ (⟨15, 0⟩ : HLC) < ⟨16, 0⟩) := by
  rw [label_lt_iff]
  have texts : ¬ paddedHex 16 (asU128 ⟨15, 0⟩) < paddedHex 16 (asU128 ⟨16, 0⟩) := by decide +kernel
  exact fun same => texts (same.mpr (.inr ⟨rfl, hlc_lt_iff.mpr (.inl (by decide))⟩))

end RaisinDB.Indexing
