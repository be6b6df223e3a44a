import Mathlib.Algebra.Order.Group.Nat
import Mathlib.Order.Fin.Basic
import Mathlib.Data.Fin.Basic
import Mathlib.Data.List.Basic
import Mathlib.Tactic.SplitIfs

/-!
# Window frames

A frame bound names a row relative to the current one.  The executor turns the two bounds into
a half-open range of the sorted partition, and every windowed aggregate folds over the rows of
that range.
-/

namespace RaisinDB.Sql

open List

/-- A machine word on a 64-bit target: sums wrap round. -/
abbrev Usize := Fin (2 ^ 64)

def saturatingSub (left right : Usize) : Usize :=
  ⟨left.val - right.val, lt_of_le_of_lt (Nat.sub_le _ _) left.isLt⟩

@[simp] theorem saturatingSub_val (left right : Usize) :
    (saturatingSub left right).val = left.val - right.val := rfl

theorem usize_add_val {left right : Usize} (fits : left.val + right.val < 2 ^ 64) :
    (left + right).val = left.val + right.val := by
  rw [Fin.val_add, Nat.mod_eq_of_lt fits]

theorem usize_one : (1 : Usize).val = 1 := rfl

theorem usize_add_one {row size : Usize} (below : row < size) :
    (row + 1).val = row.val + 1 := by
  have bound := size.isLt
  have less : row.val < size.val := below
  exact usize_add_val (by rw [usize_one]; omega)

inductive FrameMode where
  | rows
  | range
  deriving DecidableEq

inductive FrameBound where
  | unboundedPreceding
  | preceding (distance : Usize)
  | currentRow
  | following (distance : Usize)
  | unboundedFollowing
  deriving DecidableEq

structure WindowFrame where
  mode : FrameMode
  start : FrameBound
  stop : Option FrameBound
  deriving DecidableEq

namespace FrameBound

/-- Whether the analyser takes `bound` as a start for the end `other`. -/
def isBeforeOrEqual : FrameBound → FrameBound → Bool
  | unboundedPreceding, _ => true
  | _, unboundedFollowing => true
  | preceding _, currentRow => true
  | preceding _, following _ => true
  | preceding _, preceding _ => true
  | currentRow, currentRow => true
  | currentRow, following _ => true
  | following left, following right => decide (left ≤ right)
  | _, _ => false

/-- The index of the first row of a frame that starts here. -/
def startIndex (current size : Usize) : FrameBound → Usize
  | unboundedPreceding => 0
  | preceding distance => saturatingSub current distance
  | currentRow => current
  | following distance => min (current + distance) size
  | unboundedFollowing => size

/-- The index behind the last row of a frame that ends here. -/
def stopIndex (current size : Usize) : FrameBound → Usize
  | unboundedPreceding => 0
  | preceding distance => saturatingSub current distance
  | currentRow => current + 1
  | following distance => min (current + distance + 1) size
  | unboundedFollowing => size

end FrameBound

namespace WindowFrame

def validate (frame : WindowFrame) : Bool :=
  match frame.stop with
  | some stop => frame.start.isBeforeOrEqual stop
  | none => true

/-- A frame without an end is read as ending at the current row. -/
def last (frame : WindowFrame) : FrameBound := frame.stop.getD .currentRow

end WindowFrame

/-- The half-open range of rows that belong to the frame of one row. -/
def determineFrameBounds (current size : Usize) (frame : Option WindowFrame) (hasOrderBy : Bool) :
    Usize × Usize :=
  match frame with
  | none => if hasOrderBy then (0, current + 1) else (0, size)
  | some frame =>
      (frame.start.startIndex current size,
        match frame.stop with
        | some stop => stop.stopIndex current size
        | none => current + 1)

/-! ## What SQL means by a frame -/

namespace FrameBound

/-- A row is not before a frame that starts here. -/
def NotBefore (current row : ℕ) : FrameBound → Prop
  | unboundedPreceding => True
  | preceding distance => current ≤ row + distance.val
  | currentRow => current ≤ row
  | following distance => current + distance.val ≤ row
  | unboundedFollowing => False

/-- A row is not behind a frame that ends here. -/
def NotBehind (current row : ℕ) : FrameBound → Prop
  | unboundedPreceding => False
  | preceding distance => row + distance.val ≤ current
  | currentRow => row ≤ current
  | following distance => row ≤ current + distance.val
  | unboundedFollowing => True

instance (current row : ℕ) : (bound : FrameBound) → Decidable (bound.NotBefore current row)
  | unboundedPreceding => .isTrue trivial
  | preceding distance => inferInstanceAs (Decidable (current ≤ row + distance.val))
  | currentRow => inferInstanceAs (Decidable (current ≤ row))
  | following distance => inferInstanceAs (Decidable (current + distance.val ≤ row))
  | unboundedFollowing => .isFalse id

instance (current row : ℕ) : (bound : FrameBound) → Decidable (bound.NotBehind current row)
  | unboundedPreceding => .isFalse id
  | preceding distance => inferInstanceAs (Decidable (row + distance.val ≤ current))
  | currentRow => inferInstanceAs (Decidable (row ≤ current))
  | following distance => inferInstanceAs (Decidable (row ≤ current + distance.val))
  | unboundedFollowing => .isTrue trivial

end FrameBound

/-- The rows SQL puts into the frame of the current row.  Without a frame clause these are the
rows up to the current one where the window is ordered, and the whole partition where it is not. -/
def InFrame (current : ℕ) (frame : Option WindowFrame) (hasOrderBy : Bool) (row : ℕ) : Prop :=
  match frame with
  | none => hasOrderBy = true → row ≤ current
  | some frame => frame.start.NotBefore current row ∧ frame.last.NotBehind current row

instance (current row : ℕ) (hasOrderBy : Bool) :
    (frame : Option WindowFrame) → Decidable (InFrame current frame hasOrderBy row)
  | none => inferInstanceAs (Decidable (hasOrderBy = true → row ≤ current))
  | some frame => inferInstanceAs
      (Decidable (frame.start.NotBefore current row ∧ frame.last.NotBehind current row))

/-- The range is in order, inside the partition, and holds the rows of the frame. -/
structure SqlFrame (current size : Usize) (frame : Option WindowFrame) (hasOrderBy : Bool) :
    Prop where
  ordered : (determineFrameBounds current size frame hasOrderBy).1 ≤
    (determineFrameBounds current size frame hasOrderBy).2
  inside : (determineFrameBounds current size frame hasOrderBy).2 ≤ size
  exact : ∀ row : ℕ,
    (determineFrameBounds current size frame hasOrderBy).1.val ≤ row ∧
        row < (determineFrameBounds current size frame hasOrderBy).2.val ↔
      row < size.val ∧ InFrame current.val frame hasOrderBy row

/-! ## The slice a windowed aggregate reads -/

/-- `rows[start..stop]`, which panics when the range is reversed or runs out of the rows. -/
def frameSlice {Row : Type} (rows : List Row) (start stop : ℕ) : Option (List Row) :=
  if start ≤ stop ∧ stop ≤ rows.length then some ((rows.drop start).take (stop - start)) else none

/-- The slice a frame's range takes exists, and its rows are those of the frame, in order. -/
theorem SqlFrame.slice {current size : Usize} {frame : Option WindowFrame} {hasOrderBy : Bool}
    (framed : SqlFrame current size frame hasOrderBy) {Row : Type} (rows : List Row)
    (length : rows.length = size.val) :
    ∃ slice, frameSlice rows (determineFrameBounds current size frame hasOrderBy).1.val
        (determineFrameBounds current size frame hasOrderBy).2.val = some slice ∧
      ∀ row : ℕ, InFrame current.val frame hasOrderBy row → row < size.val →
        slice[row - (determineFrameBounds current size frame hasOrderBy).1.val]? = rows[row]? := by
  have ordered := Fin.le_def.mp framed.ordered
  have inside := Fin.le_def.mp framed.inside
  refine ⟨_, if_pos ⟨ordered, length ▸ inside⟩, ?_⟩
  intro row inFrame below
  obtain ⟨start, stop⟩ := (framed.exact row).mpr ⟨below, inFrame⟩
  rw [List.getElem?_take_of_lt (by omega), List.getElem?_drop, Nat.add_sub_cancel' start]

/-! ## When the range is the frame -/

namespace FrameBound

/-- No sum over the bound leaves the machine word. -/
def Fits (current : Usize) (extra : ℕ) : FrameBound → Prop
  | following distance => current.val + distance.val + extra < 2 ^ 64
  | _ => True

/-- An end `n PRECEDING` that names a row of the partition. -/
def EndsInside (current : Usize) : FrameBound → Prop
  | preceding distance => distance ≤ current
  | _ => False

theorem notBefore_iff {current size : Usize} (below : current < size) {bound : FrameBound}
    (fits : bound.Fits current 0) {row : ℕ} (inPartition : row < size.val) :
    bound.NotBefore current.val row ↔ (bound.startIndex current size).val ≤ row := by
  have less : current.val < size.val := below
  cases bound with
  | unboundedPreceding => simp [NotBefore, startIndex]
  | preceding distance => simp [NotBefore, startIndex]
  | currentRow => rfl
  | following distance =>
    have sum : (current + distance).val = current.val + distance.val := usize_add_val fits
    simp only [NotBefore, startIndex, Fin.coe_min, sum]
    omega
  | unboundedFollowing => simp [NotBefore, startIndex, inPartition]

theorem notBehind_iff {current size : Usize} (below : current < size) {bound : FrameBound}
    (fits : bound.Fits current 1) (outside : ¬ bound.EndsInside current) {row : ℕ}
    (inPartition : row < size.val) :
    bound.NotBehind current.val row ↔ row < (bound.stopIndex current size).val := by
  have less : current.val < size.val := below
  cases bound with
  | unboundedPreceding => simp [NotBehind, stopIndex]
  | preceding distance =>
    have beyond : ¬ distance.val ≤ current.val := outside
    simp only [NotBehind, stopIndex, saturatingSub_val]
    omega
  | currentRow =>
    simp only [NotBehind, stopIndex, usize_add_one below]
    omega
  | following distance =>
    have sum : (current + distance + 1).val = current.val + distance.val + 1 := by
      have whole : current.val + distance.val + 1 < 2 ^ 64 := fits
      have inner := usize_add_val (Nat.lt_of_succ_lt whole)
      rw [usize_add_val (by rw [inner, usize_one]; exact whole), inner, usize_one]
    simp only [NotBehind, stopIndex, Fin.coe_min, sum]
    omega
  | unboundedFollowing => simp [NotBehind, stopIndex, inPartition]

theorem startIndex_le {current size : Usize} (below : current < size) (bound : FrameBound) :
    (bound.startIndex current size).val ≤ size.val := by
  have less : current.val < size.val := below
  cases bound <;> simp [startIndex] <;> omega

theorem stopIndex_le {current size : Usize} (below : current < size) (bound : FrameBound) :
    (bound.stopIndex current size).val ≤ size.val := by
  have less : current.val < size.val := below
  cases bound <;> simp [stopIndex, usize_add_one below] <;> omega

/-- The sum over a start wraps round, so no row of the partition is left. -/
theorem notBefore_of_wraps {current size : Usize} {bound : FrameBound}
    (wraps : ¬ bound.Fits current 0) {row : ℕ} (inPartition : row < size.val) :
    ¬ bound.NotBefore current.val row := by
  cases bound with
  | following distance =>
    have whole : ¬ current.val + distance.val + 0 < 2 ^ 64 := wraps
    have bound := size.isLt
    simp only [NotBefore]
    omega
  | _ => exact absurd trivial wraps

/-- The sum over an end wraps round to a row that is not behind the current one. -/
theorem stopIndex_le_of_wraps {current : Usize} (bound : FrameBound) (size : Usize)
    (wraps : ¬ bound.Fits current 1) :
    (bound.stopIndex current size).val ≤ current.val ∧
      ∀ row < size.val, bound.NotBehind current.val row := by
  cases bound with
  | following distance =>
    have whole : ¬ current.val + distance.val + 1 < 2 ^ 64 := wraps
    have bounds := And.intro size.isLt (And.intro current.isLt distance.isLt)
    constructor
    · simp only [stopIndex, Fin.coe_min, Fin.val_add, usize_one]
      omega
    · intro row below
      simp only [NotBehind]
      omega
  | _ => exact absurd trivial wraps

/-- An end inside the partition leaves its own row out. -/
theorem endsInside_row {current : Usize} (bound : FrameBound) (size : Usize)
    (inside : bound.EndsInside current) :
    (bound.stopIndex current size).val ≤ current.val ∧
      bound.NotBehind current.val (bound.stopIndex current size).val := by
  cases bound with
  | preceding distance =>
    have le : distance.val ≤ current.val := inside
    exact ⟨Nat.sub_le _ _, (Nat.sub_add_cancel le).le⟩
  | _ => exact absurd inside id

end FrameBound

namespace WindowFrame

/-- No row of the partition is both before the frame and behind it. -/
def NotCrossed (current size : Usize) (frame : WindowFrame) : Prop :=
  ∀ row < size.val, frame.start.NotBefore current.val row ∨ frame.last.NotBehind current.val row

/-- The start lies so far behind the current row that its index wraps round, to the very index
the end has: a range without rows, as it should be. -/
def WrapsToEnd (current : Usize) (frame : WindowFrame) : Prop :=
  match frame.start, frame.last with
  | .following start, .unboundedPreceding => current.val + start.val = 2 ^ 64
  | .following start, .preceding stop =>
      current.val + start.val = 2 ^ 64 + (current.val - stop.val)
  | .following start, .following stop =>
      2 ^ 64 ≤ current.val + start.val ∧ start.val = stop.val + 1
  | _, _ => False

/-- The condition under which the range of a frame is right. -/
def Sound (current size : Usize) (frame : WindowFrame) : Prop :=
  frame.start.Fits current 0 ∧ frame.last.Fits current 1 ∧ ¬ frame.last.EndsInside current ∧
      frame.NotCrossed current size ∨
    frame.WrapsToEnd current

end WindowFrame

theorem determineFrameBounds_frame (current size : Usize) (frame : WindowFrame)
    (hasOrderBy : Bool) :
    determineFrameBounds current size (some frame) hasOrderBy =
      (frame.start.startIndex current size, frame.last.stopIndex current size) := by
  obtain ⟨mode, start, stop⟩ := frame
  cases stop <;> rfl

/-- Without a frame clause the range is always right. -/
theorem sqlFrame_default {current size : Usize} (below : current < size) (hasOrderBy : Bool) :
    SqlFrame current size none hasOrderBy := by
  have less : current.val < size.val := below
  have next := usize_add_one below
  cases hasOrderBy
  · exact ⟨Fin.zero_le _, le_refl _, fun row => by simp [determineFrameBounds, InFrame]⟩
  · refine ⟨Fin.zero_le _, ?_, fun row => ?_⟩
    · rw [Fin.le_def]
      simp only [determineFrameBounds, if_true, next]
      omega
    · simp only [determineFrameBounds, if_true, next, InFrame]
      simp
      omega

/-- Two indices inside the partition that decide the two bounds row by row make the range of the
frame, unless some row lies on the far side of both. -/
theorem sqlFrame_iff_notCrossed {current size : Usize} (below : current < size)
    {frame : WindowFrame} (hasOrderBy : Bool) (startFits : frame.start.Fits current 0)
    (lastFits : frame.last.Fits current 1) (outside : ¬ frame.last.EndsInside current) :
    SqlFrame current size (some frame) hasOrderBy ↔ frame.NotCrossed current size := by
  have starts : ∀ row < size.val, frame.start.NotBefore current.val row ↔
      (frame.start.startIndex current size).val ≤ row :=
    fun _ inPartition => FrameBound.notBefore_iff below startFits inPartition
  have stops : ∀ row < size.val, frame.last.NotBehind current.val row ↔
      row < (frame.last.stopIndex current size).val :=
    fun _ inPartition => FrameBound.notBehind_iff below lastFits outside inPartition
  have startLe := FrameBound.startIndex_le below frame.start
  have stopLe := FrameBound.stopIndex_le below frame.last
  constructor
  · rintro ⟨ordered, inside, exact⟩ row inPartition
    rw [determineFrameBounds_frame] at ordered
    have le := Fin.le_def.mp ordered
    rw [starts row inPartition, stops row inPartition]
    simp only at le
    omega
  · intro notCrossed
    refine ⟨?_, ?_, ?_⟩ <;> simp only [determineFrameBounds_frame]
    · by_contra reversed
      have less := not_le.mp (fun le => reversed (Fin.le_def.mpr le))
      have crossed := notCrossed (frame.last.stopIndex current size).val (by omega)
      rw [starts _ (by omega), stops _ (by omega)] at crossed
      omega
    · exact Fin.le_def.mpr stopLe
    · intro row
      constructor
      · rintro ⟨start, stop⟩
        have inPartition : row < size.val := by omega
        exact ⟨inPartition, (starts row inPartition).mpr start, (stops row inPartition).mpr stop⟩
      · rintro ⟨inPartition, start, stop⟩
        exact ⟨(starts row inPartition).mp start, (stops row inPartition).mp stop⟩

/-- A start whose index wraps round leaves no row, so the range is right when it is empty. -/
theorem sqlFrame_iff_of_wraps {current size : Usize} (below : current < size)
    {frame : WindowFrame} (hasOrderBy : Bool) (wraps : ¬ frame.start.Fits current 0) :
    SqlFrame current size (some frame) hasOrderBy ↔
      (frame.start.startIndex current size).val = (frame.last.stopIndex current size).val := by
  have stopLe := FrameBound.stopIndex_le below frame.last
  constructor
  · rintro ⟨ordered, inside, exact⟩
    simp only [determineFrameBounds_frame] at ordered exact
    have le := Fin.le_def.mp ordered
    by_contra ne
    have start := ((exact (frame.start.startIndex current size).val).mp ⟨le_refl _, by omega⟩)
    exact FrameBound.notBefore_of_wraps wraps start.1 start.2.1
  · intro eq
    refine ⟨?_, ?_, ?_⟩ <;> simp only [determineFrameBounds_frame]
    · exact Fin.le_def.mpr eq.le
    · exact Fin.le_def.mpr stopLe
    · intro row
      constructor
      · rintro ⟨start, stop⟩
        omega
      · rintro ⟨inPartition, start, stop⟩
        exact absurd start (FrameBound.notBefore_of_wraps wraps inPartition)

/-- The index of a start wraps round to that of the end in three ways. -/
theorem wrapsToEnd_iff {current size : Usize} (below : current < size) {frame : WindowFrame}
    (wraps : ¬ frame.start.Fits current 0) :
    (frame.start.startIndex current size).val = (frame.last.stopIndex current size).val ↔
      frame.WrapsToEnd current := by
  have less : current.val < size.val := below
  have next := usize_add_one below
  unfold WindowFrame.WrapsToEnd
  generalize frame.last = last
  cases startIs : frame.start with
  | following start =>
    have whole : ¬ current.val + start.val + 0 < 2 ^ 64 := by rwa [startIs] at wraps
    have bounds := And.intro size.isLt (And.intro current.isLt start.isLt)
    have wrapped : ((FrameBound.following start).startIndex current size).val + 2 ^ 64 =
        current.val + start.val := by
      simp only [FrameBound.startIndex, Fin.coe_min, Fin.val_add]
      rw [Nat.mod_eq_sub_mod (by omega), Nat.mod_eq_of_lt (by omega)]
      omega
    generalize ((FrameBound.following start).startIndex current size).val = index at wrapped ⊢
    cases last with
    | unboundedPreceding => simp only [FrameBound.stopIndex, Fin.val_zero]; omega
    | preceding stop => simp only [FrameBound.stopIndex, saturatingSub_val]; omega
    | currentRow => simp only [FrameBound.stopIndex, next, iff_false]; omega
    | following stop =>
      simp only [FrameBound.stopIndex, Fin.coe_min, Fin.val_add, usize_one]
      omega
    | unboundedFollowing => simp only [FrameBound.stopIndex, iff_false]; omega
  | _ => rw [startIs] at wraps; exact absurd trivial wraps

theorem not_wrapsToEnd {current : Usize} {frame : WindowFrame}
    (fits : frame.start.Fits current 0) : ¬ frame.WrapsToEnd current := by
  unfold WindowFrame.WrapsToEnd
  cases startIs : frame.start with
  | following start =>
    rw [startIs] at fits
    have whole : current.val + start.val + 0 < 2 ^ 64 := fits
    cases frame.last <;> simp only [not_false_eq_true] <;> omega
  | _ => exact id

/-- A range that stops at or before a row which the end does not put behind the frame is not the
range of the frame. -/
theorem not_sqlFrame {current size : Usize} (below : current < size) {frame : WindowFrame}
    (hasOrderBy : Bool) (startFits : frame.start.Fits current 0) {row : ℕ}
    (stopLe : (frame.last.stopIndex current size).val ≤ row) (rowLe : row ≤ current.val)
    (notBehind : frame.last.NotBehind current.val row) :
    ¬ SqlFrame current size (some frame) hasOrderBy := by
  have less : current.val < size.val := below
  rintro ⟨ordered, inside, exact⟩
  simp only [determineFrameBounds_frame] at ordered exact
  have le := Fin.le_def.mp ordered
  have inPartition : row < size.val := by omega
  have notBefore := (FrameBound.notBefore_iff below startFits inPartition).mpr (by omega)
  have stop := ((exact row).mpr ⟨inPartition, notBefore, notBehind⟩).2
  omega

/-- The range determined for a row is the one SQL gives its frame exactly when the frame's sums
stay in the machine word, it does not end at a preceding row of the partition, and no row lies
before it and behind it at once, or when an index that wraps round meets the end. -/
theorem frameBounds_sound_iff {current size : Usize} (below : current < size)
    (frame : Option WindowFrame) (hasOrderBy : Bool) :
    SqlFrame current size frame hasOrderBy ↔ ∀ given ∈ frame, given.Sound current size := by
  cases frame with
  | none => simpa using sqlFrame_default below hasOrderBy
  | some frame =>
      simp only [Option.mem_def, Option.some.injEq, forall_eq', WindowFrame.Sound]
      by_cases startFits : frame.start.Fits current 0
      swap
      · rw [sqlFrame_iff_of_wraps below hasOrderBy startFits, wrapsToEnd_iff below startFits]
        simp [startFits]
      have noWrap : ¬ frame.WrapsToEnd current := not_wrapsToEnd startFits
      by_cases lastFits : frame.last.Fits current 1
      swap
      · simp only [lastFits, noWrap, false_and, and_false, or_self, iff_false]
        obtain ⟨stopLe, behind⟩ := frame.last.stopIndex_le_of_wraps size lastFits
        exact not_sqlFrame below hasOrderBy startFits stopLe (le_refl _) (behind current.val below)
      by_cases inside : frame.last.EndsInside current
      · simp only [inside, noWrap, not_true_eq_false, false_and, and_false, or_self, iff_false]
        obtain ⟨stopLe, behind⟩ := frame.last.endsInside_row size inside
        exact not_sqlFrame below hasOrderBy startFits (le_refl _) stopLe behind
      · rw [sqlFrame_iff_notCrossed below hasOrderBy startFits lastFits inside]
        simp [startFits, lastFits, inside, noWrap]

/-- `ROWS BETWEEN 1 PRECEDING AND 1 FOLLOWING` at the third row of five. -/
theorem frameBounds_sound_middle_row :
    (2 : Usize) < 5 ∧
      determineFrameBounds 2 5 (some ⟨.rows, .preceding 1, some (.following 1)⟩) true = (1, 4) ∧
      SqlFrame 2 5 (some ⟨.rows, .preceding 1, some (.following 1)⟩) true := by
  refine ⟨by decide, by decide, (frameBounds_sound_iff (by decide) _ true).mpr ?_⟩
  rintro given ⟨⟩
  have fits : (2 : Usize).val + (1 : Usize).val + 1 < 2 ^ 64 := by decide
  refine .inl ⟨trivial, fits, id, ?_⟩
  unfold WindowFrame.NotCrossed
  decide

/-- `ROWS BETWEEN 3 PRECEDING AND 1 PRECEDING` at the sixth row of ten leaves the row before it
out, though the analyser accepts the frame. -/
theorem preceding_end_drops_row :
    WindowFrame.validate ⟨.rows, .preceding 3, some (.preceding 1)⟩ = true ∧
      determineFrameBounds 5 10 (some ⟨.rows, .preceding 3, some (.preceding 1)⟩) true = (2, 4) ∧
      InFrame 5 (some ⟨.rows, .preceding 3, some (.preceding 1)⟩) true 4 ∧
      ¬ SqlFrame 5 10 (some ⟨.rows, .preceding 3, some (.preceding 1)⟩) true := by
  refine ⟨by decide, by decide, by decide, ?_⟩
  rintro ⟨ordered, inside, exact⟩
  exact absurd ((exact 4).mpr (by decide)).2 (by decide)

end RaisinDB.Sql
