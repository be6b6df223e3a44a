import RaisinDB.Indexing.DeleteIndex

/-!
# The versions that survive

Retention keeps the versions above a cutoff and, for the cutoff and every pinned
revision, the newest version at or below it.  Where the oldest survivors are
tombstones they are dropped as well, since nothing is left for them to hide.
-/

namespace RaisinDB.History

open RaisinDB.Branches RaisinDB.Clock RaisinDB.Foundation RaisinDB.Oplog List
open RaisinDB.Replication (HLC)

/-! ## The code -/

/-- Cutoff and pins for one scope. -/
structure ScopePlan where
  cutoff : HLC
  pins : List HLC
  deriving DecidableEq

/-- One version held while its chunk is open. -/
structure Version where
  key : Key
  rev : HLC
  tomb : Bool
  deriving DecidableEq

/-- The newest version at or below a point is kept. -/
def keepAt (revs : List HLC) (keep : List Bool) (point : HLC) : List Bool :=
  match revs.findIdx? fun rev => rev ≤ point with
  | some index => keep.set index true
  | none => keep

/-- The last position that is kept. -/
def lastKept (keep : List Bool) : Option Nat :=
  (keep.reverse.findIdx? id).map fun back => keep.length - 1 - back

theorem lastKept_eq_some_iff {keep : List Bool} {index : Nat} :
    lastKept keep = some index ↔ keep[index]? = some true ∧
      ∀ later, index < later → keep[later]? ≠ some true := by
  induction keep using reverseRecOn with
  | nil => simp [lastKept]
  | append_singleton keep last ih =>
    cases last with
    | true =>
      have found : lastKept (keep ++ [true]) = some keep.length := by
        simp [lastKept, findIdx?_cons]
      rw [found]
      constructor
      · rintro ⟨⟩
        refine ⟨by simp, fun later beyond => ?_⟩
        rw [getElem?_eq_none (by simp; omega)]
        simp
      · rintro ⟨here, none_later⟩
        have within : index < (keep ++ [true]).length := by
          by_contra beyond
          rw [getElem?_eq_none (not_lt.mp beyond)] at here
          cases here
        rw [length_append, length_singleton] at within
        by_contra other
        have before : index < keep.length := by
          have : index ≠ keep.length := fun same => other (by rw [same])
          omega
        exact none_later keep.length before (by simp)
    | false =>
      have found : lastKept (keep ++ [false]) = lastKept keep := by
        simp only [lastKept, reverse_append, reverse_singleton, singleton_append,
          findIdx?_cons, id_eq, Bool.false_eq_true, if_false, Option.map_map, length_append,
          length_singleton]
        congr 1
        funext back
        simp only [Function.comp_apply]
        omega
      have same : ∀ position : Nat, (keep ++ [false])[position]? = some true ↔
          keep[position]? = some true := by
        intro position
        rcases lt_trichotomy position keep.length with before | rfl | beyond
        · rw [getElem?_append_left before]
        · simp
        · rw [getElem?_eq_none (by simp; omega), getElem?_eq_none beyond.le]
      rw [found, ih, same]
      simp only [ne_eq, same]

theorem lastKept_eq_none_iff {keep : List Bool} :
    lastKept keep = none ↔ ∀ index : Nat, keep[index]? ≠ some true := by
  rw [lastKept, Option.map_eq_none_iff, findIdx?_eq_none_iff]
  constructor
  · intro none_kept index kept
    have mem := mem_reverse.mpr (mem_of_getElem? kept)
    cases none_kept true mem
  · intro none_kept flag mem
    obtain ⟨index, here⟩ := mem_iff_getElem?.mp (mem_reverse.mp mem)
    cases flag with
    | true => exact absurd here (none_kept index)
    | false => rfl

theorem count_set_lt {keep : List Bool} {index : Nat} (here : keep[index]? = some true) :
    (keep.set index false).count true < keep.count true := by
  obtain ⟨within, isTrue⟩ := List.getElem?_eq_some_iff.mp here
  have positive : 0 < keep.count true := count_pos_iff.mpr (isTrue ▸ getElem_mem within)
  rw [count_set within, isTrue, if_pos (beq_self_eq_true true), if_neg (by decide)]
  omega

/-- Tombstones that are the oldest survivors are dropped, one after the other. -/
def dropOrphans (tomb keep : List Bool) : List Bool :=
  match _found : lastKept keep with
  | none => keep
  | some index =>
      if tomb.getD index false then dropOrphans tomb (keep.set index false) else keep
termination_by keep.count true
decreasing_by exact count_set_lt (lastKept_eq_some_iff.mp _found).1

/-- Which versions of one entity survive, newest first. -/
def selectSurvivors (revs : List HLC) (tomb : List Bool) (plan : ScopePlan)
    (dropOrphanTombstones : Bool) : List Bool :=
  let above := revs.map fun rev => decide (plan.cutoff < rev)
  let keep := (plan.cutoff :: plan.pins).foldl (keepAt revs) above
  if dropOrphanTombstones then dropOrphans tomb keep else keep

/-- The live version right above a kept tombstone is kept. -/
def keepGenerationStart (tomb keep : List Bool) (index : Nat) : List Bool :=
  if tomb.getD index false && keep.getD index false && !tomb.getD (index - 1) false then
    keep.set (index - 1) true
  else keep

def keepGenerationStarts (tomb keep : List Bool) : List Bool :=
  (range' 1 (tomb.length - 1)).foldl (keepGenerationStart tomb) keep

/-! ## Positions -/

variable {revs : List HLC} {tomb keep : List Bool} {plan : ScopePlan} {index : Nat}

/-- A flag that is set is read where it was set, and the others stay. -/
theorem getElem?_set_true {position : Nat} :
    (keep.set position true)[index]? = some true ↔
      keep[index]? = some true ∨ (index = position ∧ position < keep.length) := by
  rw [getElem?_set]
  by_cases same : position = index
  · subst same
    by_cases within : position < keep.length
    · simp [within]
    · simp [within]
  · simp [same, Ne.symm same]

@[simp] theorem length_keepAt (point : HLC) : (keepAt revs keep point).length = keep.length := by
  unfold keepAt
  split <;> simp

theorem kept_keepAt (length : keep.length = revs.length) (point : HLC) :
    (keepAt revs keep point)[index]? = some true ↔
      keep[index]? = some true ∨ revs.findIdx? (· ≤ point) = some index := by
  unfold keepAt
  split
  · rename_i found here
    have within : found < keep.length := by
      rw [length]
      exact (findIdx?_eq_some_iff_getElem.mp here).1
    rw [getElem?_set_true, here, Option.some.injEq]
    constructor
    · exact Or.imp id fun same => same.1.symm
    · exact Or.imp id fun same => ⟨same.symm, within⟩
  · rename_i absent
    simp [absent]

@[simp] theorem length_foldl_keepAt (points : List HLC) :
    (points.foldl (keepAt revs) keep).length = keep.length := by
  induction points generalizing keep with
  | nil => rfl
  | cons point points ih => rw [foldl_cons, ih, length_keepAt]

theorem kept_foldl_keepAt (length : keep.length = revs.length) (points : List HLC) :
    (points.foldl (keepAt revs) keep)[index]? = some true ↔
      keep[index]? = some true ∨
        ∃ point ∈ points, revs.findIdx? (· ≤ point) = some index := by
  induction points generalizing keep with
  | nil => simp
  | cons point points ih =>
    rw [foldl_cons, ih (by rw [length_keepAt, length]), kept_keepAt length]
    simp only [mem_cons, exists_eq_or_imp, or_assoc]

@[simp] theorem length_dropOrphans : (dropOrphans tomb keep).length = keep.length := by
  induction keep using dropOrphans.induct tomb with
  | case1 keep none_kept => rw [dropOrphans]; split <;> simp_all
  | case2 keep index found isTomb ih => rw [dropOrphans]; split <;> simp_all
  | case3 keep index found live => rw [dropOrphans]; split <;> simp_all

/-- A survivor stays when a live one is at its position or behind it. -/
theorem kept_dropOrphans :
    (dropOrphans tomb keep)[index]? = some true ↔ keep[index]? = some true ∧
      ∃ later : Nat, index ≤ later ∧ keep[later]? = some true ∧
        tomb.getD later false = false := by
  induction keep using dropOrphans.induct tomb with
  | case1 keep none_kept =>
    have nowhere := lastKept_eq_none_iff.mp none_kept
    have stays : dropOrphans tomb keep = keep := by
      rw [dropOrphans]
      split <;> simp_all
    rw [stays]
    exact ⟨fun kept => absurd kept (nowhere index), fun kept => absurd kept.1 (nowhere index)⟩
  | case2 keep last found isTomb ih =>
    obtain ⟨here, none_later⟩ := lastKept_eq_some_iff.mp found
    have same : ∀ position : Nat, (keep.set last false)[position]? = some true ↔
        keep[position]? = some true ∧ position ≠ last := by
      intro position
      rw [getElem?_set]
      by_cases at_last : last = position
      · subst at_last
        by_cases within : last < keep.length <;> simp [within]
      · simp [at_last, Ne.symm at_last]
    have step : dropOrphans tomb keep = dropOrphans tomb (keep.set last false) := by
      rw [dropOrphans]
      split <;> simp_all
    rw [step, ih, same]
    constructor
    · rintro ⟨⟨kept, _⟩, later, behind, keptLater, live⟩
      exact ⟨kept, later, behind, ((same later).mp keptLater).1, live⟩
    · rintro ⟨kept, later, behind, keptLater, live⟩
      have other : later ≠ last := by
        rintro rfl
        rw [isTomb] at live
        cases live
      have before : later ≤ last := not_lt.mp fun beyond => none_later later beyond keptLater
      exact ⟨⟨kept, by omega⟩, later, behind, (same later).mpr ⟨keptLater, other⟩, live⟩
  | case3 keep last found live =>
    obtain ⟨here, none_later⟩ := lastKept_eq_some_iff.mp found
    have stays : dropOrphans tomb keep = keep := by
      rw [dropOrphans]
      split <;> simp_all
    rw [stays]
    refine ⟨fun kept => ⟨kept, last, ?_, here, by simpa using live⟩, And.left⟩
    exact not_lt.mp fun beyond => none_later index beyond kept

/-- What is kept stays kept, and behind the last kept version nothing is kept. -/
theorem kept_keepGenerationStart {position : Nat} (kept : keep[index]? = some true) :
    (keepGenerationStart tomb keep position)[index]? = some true := by
  unfold keepGenerationStart
  split
  · exact getElem?_set_true.mpr (Or.inl kept)
  · exact kept

theorem kept_keepGenerationStarts (kept : keep[index]? = some true) :
    (keepGenerationStarts tomb keep)[index]? = some true := by
  unfold keepGenerationStarts
  induction range' 1 (tomb.length - 1) generalizing keep with
  | nil => exact kept
  | cons position positions ih => exact ih (kept_keepGenerationStart kept)

/-- Behind the last survivor nothing comes back. -/
theorem dropped_keepGenerationStarts (dropped : ∀ later : Nat, index ≤ later →
    keep[later]? ≠ some true) : ∀ later : Nat, index ≤ later →
      (keepGenerationStarts tomb keep)[later]? ≠ some true := by
  unfold keepGenerationStarts
  induction range' 1 (tomb.length - 1) generalizing keep with
  | nil => exact dropped
  | cons position positions ih =>
    refine ih fun later behind kept => ?_
    unfold keepGenerationStart at kept
    split at kept
    · rename_i raised
      rcases getElem?_set_true.mp kept with old | ⟨rfl, within⟩
      · exact dropped later behind old
      · have above : keep[position]? = some true := by
          simp only [Bool.and_eq_true, getD_eq_getElem?_getD] at raised
          cases read : keep[position]? with
          | none => simp [read] at raised
          | some flag => simpa [read] using raised.1.2
        exact dropped position (by omega) above
    · exact dropped later behind kept

@[simp] theorem length_keepGenerationStarts :
    (keepGenerationStarts tomb keep).length = keep.length := by
  unfold keepGenerationStarts
  induction range' 1 (tomb.length - 1) generalizing keep with
  | nil => rfl
  | cons position positions ih =>
    rw [foldl_cons, ih, keepGenerationStart]
    split <;> simp

/-! ## Answers -/

/-- The newest version at or below a revision. -/
def newestAt (versions : List Version) (revision : HLC) : Option Version :=
  (versions.filter fun version => version.rev ≤ revision).argmax Version.rev

/-- Newest first. -/
def Descending (versions : List Version) : Prop :=
  versions.Pairwise fun newer older => older.rev < newer.rev

def keptVersions (versions : List Version) (keep : List Bool) : List Version :=
  ((versions.zip keep).filter Prod.snd).map Prod.fst

/-- A tombstone and an absent entity are one answer where orphans are dropped. -/
def SameAnswer (dropOrphanTombstones : Bool) (before after : Option Version) : Prop :=
  if dropOrphanTombstones then
    (before.filter fun version => !version.tomb) = after.filter fun version => !version.tomb
  else before = after

/-- Every read from the cutoff on and at every pin. -/
def ScopePlan.Promises (plan : ScopePlan) (revision : HLC) : Prop :=
  plan.cutoff ≤ revision ∨ revision ∈ plan.pins

theorem SameAnswer.refl (dropOrphanTombstones : Bool) (answer : Option Version) :
    SameAnswer dropOrphanTombstones answer answer := by
  unfold SameAnswer
  split <;> rfl

theorem newestAt_eq_find {versions : List Version} (descending : Descending versions)
    (revision : HLC) : newestAt versions revision = versions.find? (·.rev ≤ revision) := by
  induction versions with
  | nil => rfl
  | cons version older ih =>
    obtain ⟨above, descendingOlder⟩ := pairwise_cons.mp descending
    have later := ih descendingOlder
    by_cases within : version.rev ≤ revision
    · rw [newestAt, filter_cons_of_pos (by simpa using within), argmax_cons,
        find?_cons_of_pos (by simpa using within)]
      cases found : argmax Version.rev (older.filter fun version => version.rev ≤ revision) with
      | none => rfl
      | some next =>
        have mem := (mem_filter.mp (argmax_mem (Option.mem_def.mpr found))).1
        exact if_neg (above next mem).asymm
    · rw [newestAt, filter_cons_of_neg (by simpa using within),
        find?_cons_of_neg (by simpa using within)]
      exact later

theorem keptVersions_sublist {versions : List Version} {keep : List Bool}
    (length : keep.length = versions.length) : keptVersions versions keep <+ versions := by
  have sublist : keptVersions versions keep <+ (versions.zip keep).map Prod.fst :=
    filter_sublist.map Prod.fst
  rwa [map_fst_zip length.ge] at sublist

/-- The version that answers is kept, or it is a tombstone behind which nothing is kept. -/
theorem sameAnswer_of_kept {versions : List Version} {keep : List Bool}
    {dropOrphanTombstones : Bool} {revision : HLC} (descending : Descending versions)
    (length : keep.length = versions.length)
    (kept : ∀ (index : Nat) version, versions[index]? = some version →
      versions.findIdx? (·.rev ≤ revision) = some index →
        keep[index]? = some true ∨ dropOrphanTombstones = true ∧ version.tomb = true ∧
          ∀ later : Nat, index ≤ later → keep[later]? ≠ some true) :
    SameAnswer dropOrphanTombstones (newestAt versions revision)
      (newestAt (keptVersions versions keep) revision) := by
  have sorted : Descending (keptVersions versions keep) :=
    descending.sublist (keptVersions_sublist length)
  rw [newestAt_eq_find descending, newestAt_eq_find sorted]
  clear descending sorted
  induction versions generalizing keep with
  | nil => exact SameAnswer.refl _ _
  | cons version older ih =>
    cases keep with
    | nil => simp at length
    | cons flag flags =>
      by_cases within : version.rev ≤ revision
      · rw [find?_cons_of_pos (by simpa using within)]
        have first := kept 0 version rfl (by simp [findIdx?_cons, within])
        cases flag with
        | true =>
          have same : (keptVersions (version :: older) (true :: flags)).find?
              (·.rev ≤ revision) = some version := by
            simp [keptVersions, within]
          rw [same]
          exact SameAnswer.refl _ _
        | false =>
          rcases first with absurd_kept | ⟨drops, isTomb, none_later⟩
          · simp at absurd_kept
          · have empty : keptVersions (version :: older) (false :: flags) = [] := by
              rw [keptVersions, map_eq_nil_iff, filter_eq_nil_iff]
              rintro ⟨other, flag⟩ mem
              obtain ⟨position, here⟩ := mem_iff_getElem?.mp (of_mem_zip mem).2
              cases flag with
              | false => exact Bool.false_ne_true
              | true => exact absurd here (none_later position (Nat.zero_le _))
            rw [empty, SameAnswer, if_pos drops]
            simp [isTomb]
      · have skipped : (keptVersions (version :: older) (flag :: flags)).find?
            (·.rev ≤ revision) = (keptVersions older flags).find? (·.rev ≤ revision) := by
          cases flag <;> simp [keptVersions, within]
        rw [find?_cons_of_neg (by simpa using within), skipped]
        refine ih (by simpa using length) fun index version here first => ?_
        have shifted := kept (index + 1) version (by simpa using here)
          (by simp [findIdx?_cons, within, first])
        rcases shifted with same | ⟨drops, isTomb, none_later⟩
        · exact Or.inl (by simpa using same)
        · refine Or.inr ⟨drops, isTomb, fun later behind => ?_⟩
          simpa using none_later (later + 1) (by omega)

/-! ## One entity -/

/-- The flags after retention, for a family whose generation starts are kept or not. -/
def survivors (versions : List Version) (plan : ScopePlan) (dropOrphanTombstones isNode : Bool) :
    List Bool :=
  let tomb := versions.map Version.tomb
  let keep := selectSurvivors (versions.map Version.rev) tomb plan dropOrphanTombstones
  if isNode then keepGenerationStarts tomb keep else keep

theorem length_selectSurvivors (dropOrphanTombstones : Bool) :
    (selectSurvivors revs tomb plan dropOrphanTombstones).length = revs.length := by
  unfold selectSurvivors
  cases dropOrphanTombstones <;> simp

theorem length_survivors (versions : List Version) (plan : ScopePlan)
    (dropOrphanTombstones isNode : Bool) :
    (survivors versions plan dropOrphanTombstones isNode).length = versions.length := by
  unfold survivors
  cases isNode <;> simp [length_selectSurvivors]

/-- The version that answers a promised read is selected. -/
theorem kept_of_promised {revision : HLC} (promised : plan.Promises revision)
    (first : revs.findIdx? (· ≤ revision) = some index) :
    ((plan.cutoff :: plan.pins).foldl (keepAt revs)
      (revs.map fun rev => decide (plan.cutoff < rev)))[index]? = some true := by
  obtain ⟨within, below, earlier⟩ := findIdx?_eq_some_iff_getElem.mp first
  rw [kept_foldl_keepAt (by simp)]
  rcases promised with late | pinned
  · by_cases above : plan.cutoff < revs[index]
    · refine Or.inl ?_
      rw [getElem?_map, getElem?_eq_getElem within]
      simpa using above
    · refine Or.inr ⟨plan.cutoff, mem_cons_self, ?_⟩
      refine findIdx?_eq_some_iff_getElem.mpr
        ⟨within, by simpa using above, fun before hbefore => ?_⟩
      have newer := earlier before hbefore
      simp only [decide_eq_true_eq, not_le] at newer ⊢
      exact late.trans_lt newer
  · exact Or.inr ⟨revision, mem_cons_of_mem _ pinned, first⟩

/-- A selected version survives, or it is a tombstone behind which nothing survives. -/
theorem kept_selectSurvivors {revision : HLC} (revs : List HLC) (tomb : List Bool)
    (promised : plan.Promises revision) (dropOrphanTombstones : Bool)
    (first : revs.findIdx? (· ≤ revision) = some index) :
    (selectSurvivors revs tomb plan dropOrphanTombstones)[index]? = some true ∨
      dropOrphanTombstones = true ∧ tomb.getD index false = true ∧ ∀ later : Nat, index ≤ later →
        (selectSurvivors revs tomb plan dropOrphanTombstones)[later]? ≠ some true := by
  have kept := kept_of_promised promised first
  unfold selectSurvivors
  cases dropOrphanTombstones with
  | false => exact Or.inl kept
  | true =>
    dsimp only
    rw [if_pos rfl]
    by_cases stays : (dropOrphans tomb ((plan.cutoff :: plan.pins).foldl (keepAt revs)
        (revs.map fun rev => decide (plan.cutoff < rev))))[index]? = some true
    · exact Or.inl stays
    · refine Or.inr ⟨rfl, ?_, fun later behind again => stays ?_⟩
      · by_contra live
        exact stays (kept_dropOrphans.mpr ⟨kept, index, le_refl _, kept, by simpa using live⟩)
      · obtain ⟨_, last, beyond, keptLast, live⟩ := kept_dropOrphans.mp again
        exact kept_dropOrphans.mpr ⟨kept, last, behind.trans beyond, keptLast, live⟩

/-- Retention keeps the answer of every promised read. -/
theorem sameAnswer_survivors {versions : List Version} (descending : Descending versions)
    {revision : HLC} (promised : plan.Promises revision) (dropOrphanTombstones isNode : Bool) :
    SameAnswer dropOrphanTombstones (newestAt versions revision)
      (newestAt (keptVersions versions (survivors versions plan dropOrphanTombstones isNode))
        revision) := by
  refine sameAnswer_of_kept descending (length_survivors versions plan _ _)
    fun index version here first => ?_
  have firstRev : (versions.map Version.rev).findIdx? (· ≤ revision) = some index := by
    rw [findIdx?_map]
    exact first
  have selected := kept_selectSurvivors (versions.map Version.rev) (versions.map Version.tomb)
    promised dropOrphanTombstones firstRev
  have isTomb : (versions.map Version.tomb).getD index false = version.tomb := by
    rw [getD_eq_getElem?_getD, getElem?_map, here]
    rfl
  rw [isTomb] at selected
  unfold survivors
  cases isNode with
  | false => exact selected
  | true =>
    refine selected.imp kept_keepGenerationStarts ?_
    rintro ⟨drops, tombstone, none_later⟩
    exact ⟨drops, tombstone, dropped_keepGenerationStarts none_later⟩

end RaisinDB.History
