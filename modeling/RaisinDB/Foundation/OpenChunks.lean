import Mathlib

/-!
# Open chunks

Rows that belong together lie in an interval of a sorted sequence, and intervals
nest.  One pass keeps the chunks it is inside of on a stack, with what it has
collected for each; a chunk that is left is closed and never comes back.
-/

namespace RaisinDB.Foundation

open List

namespace OpenChunks

variable {Base Row Content : Type}

/-! ## The stack -/

section Stack

variable [DecidableEq Base]

/-- What is collected for a chunk, if it is open. -/
def current (base : Base) (start : Content) (chunks : List (Base × Content)) : Content :=
  ((chunks.find? fun chunk => chunk.1 = base).map Prod.snd).getD start

/-- A chunk takes its place, or it is opened on top. -/
def put (base : Base) (content : Content) (chunks : List (Base × Content)) :
    List (Base × Content) :=
  if base ∈ chunks.map Prod.fst then
    chunks.map fun chunk => if chunk.1 = base then (base, content) else chunk
  else (base, content) :: chunks

variable {base : Base} {content start : Content} {chunks : List (Base × Content)}

theorem mem_put {chunk : Base × Content} :
    chunk ∈ put base content chunks ↔
      chunk = (base, content) ∨ chunk ∈ chunks ∧ chunk.1 ≠ base := by
  unfold put
  split
  · rename_i present
    obtain ⟨old, hold, rfl⟩ := mem_map.mp present
    rw [mem_map]
    constructor
    · rintro ⟨other, hother, rfl⟩
      by_cases same : other.1 = old.1
      · exact Or.inl (if_pos same)
      · exact Or.inr (by rw [if_neg same]; exact ⟨hother, same⟩)
    · rintro (rfl | ⟨hmem, other⟩)
      · exact ⟨old, hold, if_pos rfl⟩
      · exact ⟨chunk, hmem, if_neg other⟩
  · rename_i absent
    rw [mem_cons]
    refine or_congr_right ⟨fun hmem => ⟨hmem, fun same => absent ?_⟩, And.left⟩
    exact same ▸ mem_map_of_mem hmem

theorem keys_put :
    (put base content chunks).map Prod.fst =
      if base ∈ chunks.map Prod.fst then chunks.map Prod.fst
      else base :: chunks.map Prod.fst := by
  unfold put
  split
  · rw [map_map]
    refine map_congr_left fun chunk _ => ?_
    rw [Function.comp_apply]
    split
    · rename_i same
      exact same.symm
    · rfl
  · rfl

theorem nodup_put (distinct : (chunks.map Prod.fst).Nodup) :
    ((put base content chunks).map Prod.fst).Nodup := by
  rw [keys_put]
  split
  · exact distinct
  · rename_i absent
    exact nodup_cons.mpr ⟨absent, distinct⟩

theorem mem_keys_put {other : Base} :
    other ∈ (put base content chunks).map Prod.fst ↔
      other = base ∨ other ∈ chunks.map Prod.fst := by
  rw [keys_put]
  split
  · rename_i present
    exact ⟨Or.inr, fun either => either.elim (fun same => same ▸ present) id⟩
  · exact mem_cons

theorem current_of_mem (distinct : (chunks.map Prod.fst).Nodup) (open_ : (base, content) ∈ chunks) :
    current base start chunks = content := by
  induction chunks with
  | nil => cases open_
  | cons chunk chunks ih =>
      obtain ⟨fresh, distinctRest⟩ := nodup_cons.mp distinct
      rcases mem_cons.mp open_ with rfl | later
      · rw [current, find?_cons_of_pos (by simp)]
        rfl
      · have other : chunk.1 ≠ base := fun same => fresh (same ▸ mem_map_of_mem later)
        rw [current, find?_cons_of_neg (by simpa using other)]
        exact ih distinctRest later

theorem current_of_notMem (closed : base ∉ chunks.map Prod.fst) :
    current base start chunks = start := by
  have none_found : (chunks.find? fun chunk => chunk.1 = base) = none := by
    rw [find?_eq_none]
    intro chunk hchunk same
    exact closed (of_decide_eq_true same ▸ mem_map_of_mem hchunk)
  rw [current, none_found]
  rfl

end Stack

/-! ## The pass -/

structure Walk (Base Content : Type) where
  chunks : List (Base × Content)
  closed : List (Base × Content)

section Pass

variable [DecidableEq Base] (inside : Base → Row → Bool) (baseOf : Row → Option Base)
  (start : Row → Content) (add : Content → Row → Content)

/-- Leave the chunks that the row is outside of, and add it to its own. -/
def visit (walk : Walk Base Content) (row : Row) : Walk Base Content :=
  let leaving := walk.chunks.takeWhile fun chunk => !inside chunk.1 row
  let remaining := walk.chunks.dropWhile fun chunk => !inside chunk.1 row
  { chunks :=
      match baseOf row with
      | none => remaining
      | some base => put base (add (current base (start row) remaining) row) remaining
    closed := walk.closed ++ leaving }

/-- In the end all chunks are closed. -/
def pass (rows : List Row) : List (Base × Content) :=
  let walk := rows.foldl (visit inside baseOf start add) ⟨[], []⟩
  walk.closed ++ walk.chunks

/-- What the rows of one chunk come to. -/
def collect (rows : List Row) : Option Content :=
  rows.head?.map fun first => rows.foldl add (start first)

/-- The rows of a chunk. -/
def rowsOf (base : Base) (rows : List Row) : List Row :=
  rows.filter fun row => baseOf row = some base

/-- A chunk covers its rows and what lies between rows that it covers. -/
structure Contiguous (rows : List Row) : Prop where
  covers : ∀ row ∈ rows, ∀ base, baseOf row = some base → inside base row
  between : ∀ early middle late base, [early, middle, late] <+ rows →
    inside base early → inside base late → inside base middle

variable {inside : Base → Row → Bool} {baseOf : Row → Option Base}
  {start : Row → Content} {add : Content → Row → Content} {walk : Walk Base Content}
  {done todo rows : List Row} {row : Row} {base : Base} {content : Content}

theorem collect_append (rows : List Row) (row : Row) :
    collect start add (rows ++ [row]) =
      some (add ((collect start add rows).getD (start row)) row) := by
  cases rows with
  | nil => rfl
  | cons first others =>
      simp only [collect, cons_append, head?_cons, Option.map_some, foldl_cons, foldl_append,
        foldl_nil, Option.getD_some]

theorem rowsOf_append :
    rowsOf baseOf base (done ++ [row]) =
      if baseOf row = some base then rowsOf baseOf base done ++ [row]
      else rowsOf baseOf base done := by
  rw [rowsOf, filter_append, rowsOf]
  by_cases here : baseOf row = some base <;> simp [here]

theorem collect_eq_none_iff : collect start add rows = none ↔ rows = [] := by
  rw [collect, Option.map_eq_none_iff, head?_eq_none_iff]

variable (baseOf start add) in
/-- The stack holds what was collected for the open chunks, and no row of a closed one is ahead. -/
structure Holds (done todo : List Row) (walk : Walk Base Content) : Prop where
  distinct : (walk.chunks.map Prod.fst).Nodup
  collected : ∀ base content, (base, content) ∈ walk.chunks →
    collect start add (rowsOf baseOf base done) = some content
  closed : ∀ base content, (base, content) ∈ walk.closed ↔
    collect start add (rowsOf baseOf base done) = some content ∧
      base ∉ walk.chunks.map Prod.fst
  separate : ∀ base, base ∉ walk.chunks.map Prod.fst → rowsOf baseOf base done ≠ [] →
    ∀ row ∈ todo, baseOf row ≠ some base

theorem Holds.rows_of_open (holds : Holds baseOf start add done todo walk)
    (isOpen : (base, content) ∈ walk.chunks) : rowsOf baseOf base done ≠ [] := by
  intro empty
  have nothing : collect start add (rowsOf baseOf base done) = none :=
    collect_eq_none_iff.mpr empty
  rw [holds.collected base content isOpen] at nothing
  cases nothing

/-- A chunk that the next row is outside of has no row ahead. -/
theorem Holds.ahead_of_leaving (holds : Holds baseOf start add done (row :: todo) walk)
    (contiguous : Contiguous inside baseOf (done ++ row :: todo))
    (isOpen : (base, content) ∈ walk.chunks) (outside : inside base row = false) :
    ∀ later ∈ row :: todo, baseOf later ≠ some base := by
  intro later hlater own
  obtain ⟨early, hearly⟩ := exists_mem_of_ne_nil _ (holds.rows_of_open isOpen)
  obtain ⟨isDone, isOwn⟩ := mem_filter.mp hearly
  have insideEarly := contiguous.covers early (mem_append_left _ isDone) base
    (of_decide_eq_true isOwn)
  have insideLater := contiguous.covers later (mem_append_right _ hlater) base own
  have insideRow : inside base row = true := by
    rcases mem_cons.mp hlater with rfl | behind
    · exact insideLater
    · have order : [early, row, later] <+ done ++ row :: todo :=
        (singleton_sublist.mpr isDone).append ((singleton_sublist.mpr behind).cons_cons row)
      exact contiguous.between early row later base order insideEarly insideLater
  rw [outside] at insideRow
  cases insideRow

/-- Leaving chunks closes them with all that they will ever hold. -/
theorem Holds.leave (holds : Holds baseOf start add done (row :: todo) walk)
    (contiguous : Contiguous inside baseOf (done ++ row :: todo)) :
    Holds baseOf start add done (row :: todo)
      ⟨walk.chunks.dropWhile fun chunk => !inside chunk.1 row,
        walk.closed ++ walk.chunks.takeWhile fun chunk => !inside chunk.1 row⟩ := by
  set leaving := walk.chunks.takeWhile fun chunk => !inside chunk.1 row with leaving_eq
  set remaining := walk.chunks.dropWhile fun chunk => !inside chunk.1 row with remaining_eq
  have split : walk.chunks = leaving ++ remaining := takeWhile_append_dropWhile.symm
  have distinct := holds.distinct
  rw [split, map_append] at distinct
  have apart := (nodup_append.mp distinct).2.2
  have stillOpen : ∀ base, base ∈ remaining.map Prod.fst → base ∈ walk.chunks.map Prod.fst := by
    intro base hbase
    rw [split, map_append]
    exact mem_append_right _ hbase
  refine ⟨(nodup_append.mp distinct).2.1, fun base content isOpen => ?_, fun base content => ?_,
    fun base left some_rows => ?_⟩
  · exact holds.collected base content (split ▸ mem_append_right _ isOpen)
  · rw [mem_append, holds.closed]
    constructor
    · rintro (⟨collected, notOpen⟩ | leaves)
      · exact ⟨collected, fun again => notOpen (stillOpen base again)⟩
      · refine ⟨holds.collected base content (split ▸ mem_append_left _ leaves), fun again => ?_⟩
        exact apart base (mem_map_of_mem leaves) base again rfl
    · rintro ⟨collected, notRemaining⟩
      by_cases wasOpen : base ∈ walk.chunks.map Prod.fst
      · obtain ⟨⟨_, held⟩, hmem, rfl⟩ := mem_map.mp wasOpen
        have same := (holds.collected _ held hmem).symm.trans collected
        rw [split, mem_append] at hmem
        rcases hmem with leaves | remains
        · exact Or.inr (Option.some.inj same ▸ leaves)
        · exact absurd (mem_map_of_mem remains) notRemaining
      · exact Or.inl ⟨collected, wasOpen⟩
  · by_cases wasOpen : base ∈ walk.chunks.map Prod.fst
    · obtain ⟨⟨base, held⟩, hmem, rfl⟩ := mem_map.mp wasOpen
      have leaves : (base, held) ∈ leaving := by
        rw [split, mem_append] at hmem
        exact hmem.resolve_right fun remains => left (mem_map_of_mem remains)
      have outside : inside base row = false := by
        simpa using mem_takeWhile_imp leaves
      exact holds.ahead_of_leaving contiguous hmem outside
    · exact holds.separate base wasOpen some_rows

/-- A row without a chunk changes nothing. -/
theorem Holds.skip (holds : Holds baseOf start add done (row :: todo) walk)
    (nowhere : baseOf row = none) : Holds baseOf start add (done ++ [row]) todo walk := by
  have same : ∀ base, rowsOf baseOf base (done ++ [row]) = rowsOf baseOf base done := by
    intro base
    rw [rowsOf_append, nowhere]
    exact if_neg (by simp)
  refine ⟨holds.distinct, fun base content isOpen => ?_, fun base content => ?_,
    fun base notOpen some_rows later hlater => ?_⟩
  · rw [same]
    exact holds.collected base content isOpen
  · rw [same]
    exact holds.closed base content
  · rw [same] at some_rows
    exact holds.separate base notOpen some_rows later (mem_cons_of_mem _ hlater)

/-- A row is added to its chunk, which is open or has no rows yet. -/
theorem Holds.extend (holds : Holds baseOf start add done (row :: todo) walk)
    (own : baseOf row = some base) :
    Holds baseOf start add (done ++ [row]) todo
      ⟨put base (add (current base (start row) walk.chunks) row) walk.chunks, walk.closed⟩ := by
  have here : rowsOf baseOf base (done ++ [row]) = rowsOf baseOf base done ++ [row] := by
    rw [rowsOf_append, if_pos own]
  have elsewhere : ∀ other, other ≠ base →
      rowsOf baseOf other (done ++ [row]) = rowsOf baseOf other done := by
    intro other differs
    rw [rowsOf_append, if_neg]
    rw [own, Option.some.injEq]
    exact Ne.symm differs
  have before : current base (start row) walk.chunks =
      (collect start add (rowsOf baseOf base done)).getD (start row) := by
    by_cases isOpen : base ∈ walk.chunks.map Prod.fst
    · obtain ⟨⟨_, held⟩, hmem, rfl⟩ := mem_map.mp isOpen
      rw [current_of_mem holds.distinct hmem, holds.collected _ held hmem, Option.getD_some]
    · have empty : rowsOf baseOf base done = [] := by
        by_contra some_rows
        exact holds.separate base isOpen some_rows row mem_cons_self own
      rw [current_of_notMem isOpen, empty]
      rfl
  refine ⟨nodup_put holds.distinct, fun other content isOpen => ?_, fun other content => ?_,
    fun other notOpen some_rows later hlater => ?_⟩
  · rcases mem_put.mp isOpen with same | ⟨old, differs⟩
    · obtain ⟨rfl, rfl⟩ := Prod.mk.inj same
      rw [here, collect_append, before]
    · rw [elsewhere other differs]
      exact holds.collected other content old
  · rw [holds.closed, mem_keys_put, not_or]
    by_cases same : other = base
    · subst same
      constructor
      · rintro ⟨collected, notOpen⟩
        have some_rows : rowsOf baseOf other done ≠ [] := by
          intro empty
          rw [empty] at collected
          cases collected
        exact absurd own (holds.separate other notOpen some_rows row mem_cons_self)
      · exact fun both => absurd rfl both.2.1
    · rw [elsewhere other same]
      exact and_congr_right fun _ => ⟨fun notOpen => ⟨same, notOpen⟩, And.right⟩
  · rw [mem_keys_put, not_or] at notOpen
    rw [elsewhere other notOpen.1] at some_rows
    exact holds.separate other notOpen.2 some_rows later (mem_cons_of_mem _ hlater)

theorem Holds.visit (holds : Holds baseOf start add done (row :: todo) walk)
    (contiguous : Contiguous inside baseOf (done ++ row :: todo)) :
    Holds baseOf start add (done ++ [row]) todo (visit inside baseOf start add walk row) := by
  have left := holds.leave contiguous
  unfold OpenChunks.visit
  cases own : baseOf row with
  | none => exact left.skip own
  | some base => exact left.extend own

theorem holds_foldl (contiguous : Contiguous inside baseOf (done ++ todo))
    (holds : Holds baseOf start add done todo walk) :
    Holds baseOf start add (done ++ todo) [] (todo.foldl (visit inside baseOf start add) walk) := by
  induction todo generalizing done walk with
  | nil => simpa using holds
  | cons row todo ih =>
      have onward : Contiguous inside baseOf (done ++ [row] ++ todo) := by simpa using contiguous
      have again := ih onward (holds.visit contiguous)
      simpa using again

/-- A pass closes each chunk once, with all of its rows. -/
theorem mem_pass (contiguous : Contiguous inside baseOf rows) :
    (base, content) ∈ pass inside baseOf start add rows ↔
      collect start add (rowsOf baseOf base rows) = some content := by
  have began : Holds baseOf start add [] rows ⟨[], []⟩ :=
    ⟨nodup_nil, fun _ _ isOpen => (not_mem_nil isOpen).elim,
      fun base content => by simp [rowsOf, collect], fun _ _ some_rows => absurd rfl some_rows⟩
  have holds := holds_foldl contiguous began
  rw [nil_append] at holds
  rw [pass, mem_append, holds.closed]
  constructor
  · rintro (⟨collected, _⟩ | isOpen)
    · exact collected
    · exact holds.collected base content isOpen
  · intro collected
    by_cases isOpen : base ∈ (rows.foldl (OpenChunks.visit inside baseOf start add)
        ⟨[], []⟩).chunks.map Prod.fst
    · obtain ⟨⟨_, held⟩, hmem, rfl⟩ := mem_map.mp isOpen
      have same := (holds.collected _ held hmem).symm.trans collected
      exact Or.inr (Option.some.inj same ▸ hmem)
    · exact Or.inl ⟨collected, isOpen⟩

end Pass

end OpenChunks

end RaisinDB.Foundation
