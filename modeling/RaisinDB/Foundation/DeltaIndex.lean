import RaisinDB.Foundation.VersionedStore

/-!
# An index that is written by differences

Every version of a record holds a set of keys.  The index has a row for a key and a
revision only where a write found something to say: the key is live from here on, or
it ends here.  A key without a row at a version is held exactly when the version
before held it.
-/

namespace RaisinDB.Foundation

open List

/-- What a row says about its key from its revision on. -/
inductive EntryState where
  | live
  | tombstone
  deriving DecidableEq

namespace VersionedStore

variable {κ ρ ν : Type}

/-- Rows that say the same of several keys at one revision. -/
def rowsAt (revision : ρ) (value : ν) (keys : List κ) : List (κ × ρ × ν) :=
  keys.map fun key => (key, revision, value)

theorem revision_of_mem_rowsAt {revision : ρ} {value : ν} {keys : List κ} {row : κ × ρ × ν}
    (hrow : row ∈ rowsAt revision value keys) : row.2.1 = revision := by
  obtain ⟨key, -, rfl⟩ := mem_map.mp hrow
  rfl

variable [DecidableEq κ] [LinearOrder ρ]

/-- The newest version strictly below a revision. -/
def newestBefore (store : VersionedStore κ ρ ν) (key : κ) (bound : ρ) : Option (ρ × ν) :=
  store.versionAt key (store.revisions key fun revision => revision < bound).max?

theorem newestBefore_eq_some_iff {store : VersionedStore κ ρ ν} {key : κ} {bound revision : ρ}
    {value : ν} :
    store.newestBefore key bound = some (revision, value) ↔
      revision < bound ∧ store.newestAtOrBefore key revision = some (revision, value) ∧
        ∀ later, revision < later → later < bound → store.get key later = none := by
  rw [newestBefore, versionAt_eq_some_iff, max?_eq_some_iff, mem_revisions]
  constructor
  · rintro ⟨⟨⟨_, below⟩, greatest⟩, stored⟩
    refine ⟨of_decide_eq_true below, newestAtOrBefore_self stored, fun later after within => ?_⟩
    by_contra present
    have hmem : later ∈ store.revisions key fun revision => revision < bound :=
      mem_revisions.mpr ⟨Option.isSome_iff_ne_none.mpr present, decide_eq_true within⟩
    exact absurd (greatest later hmem) (not_le.mpr after)
  · rintro ⟨below, found, newest⟩
    obtain ⟨-, stored, -⟩ := newestAtOrBefore_eq_some_iff.mp found
    refine ⟨⟨⟨by rw [stored]; rfl, decide_eq_true below⟩, fun other hother => ?_⟩, stored⟩
    obtain ⟨present, within⟩ := mem_revisions.mp hother
    by_contra after
    rw [newest other (not_le.mp after) (of_decide_eq_true within)] at present
    cases present

theorem newestBefore_eq_none_iff {store : VersionedStore κ ρ ν} {key : κ} {bound : ρ} :
    store.newestBefore key bound = none ↔
      ∀ revision, revision < bound → store.get key revision = none := by
  constructor
  · intro nothing revision below
    by_contra present
    have hmem : revision ∈ store.revisions key fun revision => revision < bound :=
      mem_revisions.mpr ⟨Option.isSome_iff_ne_none.mpr present, decide_eq_true below⟩
    cases greatest : (store.revisions key fun revision => revision < bound).max? with
    | none =>
      rw [max?_eq_none_iff.mp greatest] at hmem
      cases hmem
    | some found =>
      obtain ⟨hfound, -⟩ := max?_eq_some_iff.mp greatest
      obtain ⟨value, stored⟩ := Option.isSome_iff_exists.mp (mem_revisions.mp hfound).1
      rw [newestBefore, greatest, versionAt_eq_some_iff.mpr ⟨rfl, stored⟩] at nothing
      cases nothing
  · intro absent
    by_contra present
    obtain ⟨⟨revision, value⟩, found⟩ := Option.ne_none_iff_exists'.mp present
    obtain ⟨below, read, -⟩ := newestBefore_eq_some_iff.mp found
    rw [newestAtOrBefore_eq_some_iff, absent revision below] at read
    cases read.2.1

/-- Without a version at the bound, the newest at or below it lies below it. -/
theorem newestAtOrBefore_eq_newestBefore {store : VersionedStore κ ρ ν} {key : κ} {bound : ρ}
    (absent : store.get key bound = none) :
    store.newestAtOrBefore key bound = store.newestBefore key bound := by
  cases before : store.newestBefore key bound with
  | none =>
    rw [newestBefore_eq_none_iff] at before
    rw [newestAtOrBefore_eq_none_iff]
    intro revision below
    rcases below.eq_or_lt with rfl | below
    · exact absent
    · exact before revision below
  | some version =>
    obtain ⟨revision, value⟩ := version
    obtain ⟨below, read, newest⟩ := newestBefore_eq_some_iff.mp before
    obtain ⟨-, stored, -⟩ := newestAtOrBefore_eq_some_iff.mp read
    refine newestAtOrBefore_eq_some_iff.mpr ⟨below.le, stored, fun later after within => ?_⟩
    rcases within.eq_or_lt with rfl | within
    · exact absent
    · exact newest later after within

/-- Tests that agree on the stored versions select the same ones. -/
theorem revisions_congr {store : VersionedStore κ ρ ν} {key : κ} {keep keep' : ρ → Bool}
    (same : ∀ revision, (store.get key revision).isSome → keep revision = keep' revision) :
    store.revisions key keep = store.revisions key keep' := by
  rw [revisions, revisions]
  congr 1
  apply filter_congr
  rintro ⟨found, revision⟩ hmem
  by_cases mine : found = key
  · subst mine
    rw [same revision (AList.lookup_isSome.mpr (AList.mem_keys.mp hmem))]
  · simp [mine]

/-- The newest version of all. -/
def newest (store : VersionedStore κ ρ ν) (key : κ) : Option (ρ × ν) :=
  store.versionAt key (store.revisions key fun _ => true).max?

/-- When nothing is at or above a bound, the newest version is the newest below it. -/
theorem newest_eq_newestBefore {store : VersionedStore κ ρ ν} {key : κ} {bound : ρ}
    (absent : ∀ later, bound ≤ later → store.get key later = none) :
    store.newest key = store.newestBefore key bound := by
  have same : (store.revisions key fun _ => true) =
      store.revisions key fun revision => revision < bound := by
    refine revisions_congr fun revision present => ?_
    refine (decide_eq_true (lt_of_not_ge fun beyond => ?_)).symm
    rw [absent revision beyond] at present
    cases present
  rw [newest, newestBefore, same]

/-- Nothing lies above the newest version. -/
theorem get_above_newest {store : VersionedStore κ ρ ν} {key : κ} {revision : ρ} {value : ν}
    (found : store.newest key = some (revision, value)) {later : ρ} (after : revision < later) :
    store.get key later = none := by
  obtain ⟨greatest, -⟩ := versionAt_eq_some_iff.mp found
  by_contra present
  have hmem : later ∈ store.revisions key fun _ => true :=
    mem_revisions.mpr ⟨Option.isSome_iff_ne_none.mpr present, rfl⟩
  exact absurd ((max?_eq_some_iff.mp greatest).2 later hmem) (not_le.mpr after)

theorem get_of_newest_eq_none {store : VersionedStore κ ρ ν} {key : κ}
    (nothing : store.newest key = none) (revision : ρ) : store.get key revision = none := by
  by_contra present
  have hmem : revision ∈ store.revisions key fun _ => true :=
    mem_revisions.mpr ⟨Option.isSome_iff_ne_none.mpr present, rfl⟩
  cases greatest : (store.revisions key fun _ => true).max? with
  | none =>
    rw [max?_eq_none_iff.mp greatest] at hmem
    cases hmem
  | some found =>
    have hfound := (max?_eq_some_iff.mp greatest).1
    obtain ⟨value, stored⟩ := Option.isSome_iff_exists.mp (mem_revisions.mp hfound).1
    rw [newest, greatest, versionAt_eq_some_iff.mpr ⟨rfl, stored⟩] at nothing
    cases nothing

/-- The versions above a revision, oldest first. -/
def versionsAbove (store : VersionedStore κ ρ ν) (key : κ) (bound : ρ) : List (ρ × ν) :=
  ((store.revisions key fun revision => bound < revision).insertionSort (· ≤ ·)).filterMap
    fun revision => store.versionAt key (some revision)

theorem mem_versionsAbove {store : VersionedStore κ ρ ν} {key : κ} {bound revision : ρ}
    {value : ν} :
    (revision, value) ∈ store.versionsAbove key bound ↔
      bound < revision ∧ store.get key revision = some value := by
  rw [versionsAbove, mem_filterMap]
  constructor
  · rintro ⟨found, hmem, read⟩
    obtain ⟨same, stored⟩ := versionAt_eq_some_iff.mp read
    obtain rfl := Option.some.inj same
    rw [mem_insertionSort, mem_revisions] at hmem
    exact ⟨of_decide_eq_true hmem.2, stored⟩
  · rintro ⟨above, stored⟩
    refine ⟨revision, ?_, versionAt_eq_some_iff.mpr ⟨rfl, stored⟩⟩
    rw [mem_insertionSort, mem_revisions, stored]
    exact ⟨rfl, decide_eq_true above⟩

theorem versionsAbove_eq_nil_iff {store : VersionedStore κ ρ ν} {key : κ} {bound : ρ} :
    store.versionsAbove key bound = [] ↔
      ∀ later, bound < later → store.get key later = none := by
  rw [eq_nil_iff_forall_not_mem]
  constructor
  · intro nothing later above
    by_contra present
    obtain ⟨value, stored⟩ := Option.ne_none_iff_exists'.mp present
    exact nothing _ (mem_versionsAbove.mpr ⟨above, stored⟩)
  · rintro absent ⟨later, value⟩ hmem
    obtain ⟨above, stored⟩ := mem_versionsAbove.mp hmem
    rw [absent later above] at stored
    cases stored

theorem versionsAbove_sorted (store : VersionedStore κ ρ ν) (key : κ) (bound : ρ) :
    (store.versionsAbove key bound).Pairwise fun first second => first.1 ≤ second.1 := by
  refine pairwise_filterMap.mpr ((pairwise_insertionSort (· ≤ ·) _).imp ?_)
  rintro early late ordered first hfirst second hsecond
  obtain ⟨same, -⟩ := versionAt_eq_some_iff.mp hfirst
  obtain ⟨same', -⟩ := versionAt_eq_some_iff.mp hsecond
  rwa [← Option.some.inj same, ← Option.some.inj same']

/-- The first of them is the version that follows the revision. -/
theorem head?_versionsAbove (store : VersionedStore κ ρ ν) (key : κ) (bound : ρ) :
    (store.versionsAbove key bound).head? = store.oldestAfter key bound := by
  have sorted := store.versionsAbove_sorted key bound
  cases above : store.versionsAbove key bound with
  | nil =>
    cases oldest : store.oldestAfter key bound with
    | none => rfl
    | some version =>
      obtain ⟨after, stored, -⟩ := oldestAfter_eq_some_iff.mp oldest
      have hmem := mem_versionsAbove.mpr ⟨after, stored⟩
      rw [above] at hmem
      cases hmem
  | cons version rest =>
    obtain ⟨revision, value⟩ := version
    rw [above] at sorted
    have hmem : (revision, value) ∈ store.versionsAbove key bound := by
      rw [above]
      exact mem_cons_self
    obtain ⟨after, stored⟩ := mem_versionsAbove.mp hmem
    symm
    refine oldestAfter_eq_some_iff.mpr ⟨after, stored, fun earlier behind within => ?_⟩
    by_contra present
    obtain ⟨other, found⟩ := Option.ne_none_iff_exists'.mp present
    have member := mem_versionsAbove.mpr ⟨behind, found⟩
    rw [above] at member
    rcases mem_cons.mp member with same | later
    · exact within.ne (Prod.mk.inj same).1
    · exact absurd ((pairwise_cons.mp sorted).1 _ later) (not_le.mpr within)

theorem get_putRows {store : VersionedStore κ ρ ν} {key : κ} {revision : ρ} {keys : List κ}
    (hmem : key ∈ keys) (value : ν) :
    (store.putVersions (rowsAt revision value keys)).get key revision = some value := by
  have written : (key, revision, value) ∈ rowsAt revision value keys :=
    mem_map.mpr ⟨key, hmem, rfl⟩
  apply get_putVersions written
  intro other hother
  obtain ⟨_, _, same⟩ := mem_map.mp hother
  exact (Prod.mk.inj (Prod.mk.inj same).2).2.symm

theorem get_putRows_absent {store : VersionedStore κ ρ ν} {key : κ} {revision other : ρ}
    {keys : List κ} (absent : other = revision → key ∉ keys) (value : ν) :
    (store.putVersions (rowsAt revision value keys)).get key other = store.get key other := by
  apply get_putVersions_absent
  intro found hmem
  obtain ⟨written, present, same⟩ := mem_map.mp hmem
  obtain ⟨rfl, rest⟩ := Prod.mk.inj same
  exact absent (Prod.mk.inj rest).1.symm present

theorem putVersions_append (store : VersionedStore κ ρ ν) (early late : List (κ × ρ × ν)) :
    store.putVersions (early ++ late) = (store.putVersions early).putVersions late :=
  foldl_append

end VersionedStore

/-! ## Differences -/

/-- What a row, or its absence, says about a key at a version: whether the version holds it, given
whether the version before did. -/
def Explains (row : Option EntryState) (now before : Prop) : Prop :=
  match row with
  | some .live => now
  | some .tombstone => ¬now
  | none => now ↔ before

section Delta

variable {ι κ ρ ν : Type} [DecidableEq ι] [DecidableEq κ] [LinearOrder ρ]
  (held : ν → Set κ) (versions : VersionedStore ι ρ ν) (record : ι)
  (rows : VersionedStore κ ρ EntryState)

/-- The newest row of the key at or below the bound is no tombstone. -/
def LiveAt (key : κ) (bound : ρ) : Prop :=
  ∃ revision, rows.newestAtOrBefore key bound = some (revision, .live)

/-- The keys that some version holds. -/
def heldBy (version : Option (ρ × ν)) : Set κ :=
  match version with
  | some (_, value) => held value
  | none => ∅

/-- Rows stand only where a version does, and each says what its version changed. -/
structure DeltaIndex : Prop where
  anchored : ∀ key revision, versions.get record revision = none → rows.get key revision = none
  explained : ∀ revision value, versions.get record revision = some value → ∀ key,
    Explains (rows.get key revision) (key ∈ held value)
      (key ∈ heldBy held (versions.newestBefore record revision))

variable {held versions record rows}

/-- Between a version and a later bound without versions, no row changes the answer. -/
theorem DeltaIndex.liveAt_later (delta : DeltaIndex held versions record rows) {key : κ}
    {early late : ρ} (ordered : early ≤ late)
    (between : ∀ revision, early < revision → revision ≤ late →
      versions.get record revision = none) :
    LiveAt rows key late ↔ LiveAt rows key early := by
  have same := VersionedStore.newestAtOrBefore_later ordered
    fun revision after within => delta.anchored key revision (between revision after within)
  rw [LiveAt, LiveAt, same]

/-- Rows below the first version do not exist. -/
theorem DeltaIndex.not_liveAt (delta : DeltaIndex held versions record rows) {key : κ} {bound : ρ}
    (absent : ∀ revision ≤ bound, versions.get record revision = none) :
    ¬LiveAt rows key bound := by
  rintro ⟨revision, found⟩
  obtain ⟨below, stored, -⟩ := VersionedStore.newestAtOrBefore_eq_some_iff.mp found
  rw [delta.anchored key revision (absent revision below)] at stored
  cases stored

/-- A row decides the answer at its own revision. -/
theorem liveAt_of_row {key : κ} {revision : ρ} {state : EntryState}
    (stored : rows.get key revision = some state) :
    LiveAt rows key revision ↔ state = .live := by
  rw [LiveAt, VersionedStore.newestAtOrBefore_self stored]
  constructor
  · rintro ⟨found, same⟩
    exact (Prod.mk.inj (Option.some.inj same)).2
  · rintro rfl
    exact ⟨revision, rfl⟩

/-- At a version, the answer is right when it was right just below. -/
theorem DeltaIndex.liveAt_version (delta : DeltaIndex held versions record rows) {key : κ}
    {revision : ρ} {value : ν} (stored : versions.get record revision = some value)
    (below : ∀ earlier, earlier < revision →
      (LiveAt rows key earlier ↔ key ∈ heldBy held (versions.newestAtOrBefore record earlier))) :
    LiveAt rows key revision ↔ key ∈ held value := by
  have explains := delta.explained revision value stored key
  cases row : rows.get key revision with
  | some state =>
    rw [row] at explains
    rw [liveAt_of_row row]
    cases state with
    | live => exact ⟨fun _ => explains, fun _ => rfl⟩
    | tombstone => exact iff_of_false EntryState.noConfusion explains
  | none =>
    rw [row] at explains
    refine Iff.trans ?_ explains.symm
    cases before : versions.newestBefore record revision with
    | none =>
      rw [VersionedStore.newestBefore_eq_none_iff] at before
      refine iff_of_false ?_ id
      rintro ⟨found, read⟩
      obtain ⟨within, present, -⟩ := VersionedStore.newestAtOrBefore_eq_some_iff.mp read
      rcases within.eq_or_lt with rfl | within
      · rw [row] at present
        cases present
      · rw [delta.anchored key found (before found within)] at present
        cases present
    | some version =>
      obtain ⟨earlier, old⟩ := version
      obtain ⟨less, read, between⟩ := VersionedStore.newestBefore_eq_some_iff.mp before
      have same : rows.newestAtOrBefore key revision = rows.newestAtOrBefore key earlier := by
        apply VersionedStore.newestAtOrBefore_later less.le
        intro later after within
        rcases within.eq_or_lt with rfl | within
        · exact row
        · exact delta.anchored key later (between later after within)
      have right := below earlier less
      rw [read] at right
      rw [LiveAt, same]
      exact right

/-- At every revision the live keys are those of the newest version at or below it. -/
theorem DeltaIndex.liveAt_iff (delta : DeltaIndex held versions record rows) (key : κ) (bound : ρ) :
    LiveAt rows key bound ↔ key ∈ heldBy held (versions.newestAtOrBefore record bound) := by
  -- induction on the number of versions within the bound
  induction size : (versions.revisions record fun revision => revision ≤ bound).toFinset.card
    using Nat.strong_induction_on generalizing bound with
  | _ size ih =>
    cases newest : versions.newestAtOrBefore record bound with
    | none =>
      rw [VersionedStore.newestAtOrBefore_eq_none_iff] at newest
      exact iff_of_false (delta.not_liveAt newest) id
    | some version =>
      obtain ⟨revision, value⟩ := version
      obtain ⟨below, stored, between⟩ :=
        VersionedStore.newestAtOrBefore_eq_some_iff.mp newest
      rw [delta.liveAt_later below between]
      apply delta.liveAt_version stored
      intro earlier less
      refine ih _ ?_ earlier rfl
      rw [← size]
      apply Finset.card_lt_card
      refine Finset.ssubset_iff_of_subset ?_ |>.mpr ⟨revision, ?_, ?_⟩
      · intro other hother
        rw [mem_toFinset, VersionedStore.mem_revisions] at hother ⊢
        have within := (of_decide_eq_true hother.2).trans (less.le.trans below)
        exact ⟨hother.1, decide_eq_true within⟩
      · rw [mem_toFinset, VersionedStore.mem_revisions, stored]
        exact ⟨rfl, decide_eq_true below⟩
      · rw [mem_toFinset, VersionedStore.mem_revisions]
        exact fun member => absurd (of_decide_eq_true member.2) (not_le.mpr less)

/-! ## A version that arrives -/

/-- The version behind a new one comes right after it. -/
theorem newestBefore_put_next {revision other : ρ} (value : ν) (after : revision < other)
    (between : ∀ later, revision < later → later < other → versions.get record later = none) :
    (versions.put record revision value).newestBefore record other = some (revision, value) := by
  refine VersionedStore.newestBefore_eq_some_iff.mpr ⟨after, ?_, fun later behind within => ?_⟩
  · exact VersionedStore.newestAtOrBefore_self (versions.get_put_self record revision value)
  · have apart : (record, later) ≠ (record, revision) :=
      fun same => behind.ne' (Prod.mk.inj same).2
    rw [VersionedStore.get_put_other _ apart]
    exact between later behind within

/-- What comes before a version stays, unless a new version falls between the two. -/
theorem newestBefore_put_other {revision other : ρ} (value : ν)
    (apart : revision < other →
      ∃ later, revision < later ∧ later < other ∧ (versions.get record later).isSome) :
    (versions.put record revision value).newestBefore record other =
      versions.newestBefore record other := by
  have keep : ∀ earlier, earlier ≠ revision →
      (versions.put record revision value).get record earlier = versions.get record earlier :=
    fun earlier different =>
      VersionedStore.get_put_other _ (fun same => different (Prod.mk.inj same).2) value
  cases before : versions.newestBefore record other with
  | none =>
    rw [VersionedStore.newestBefore_eq_none_iff] at before ⊢
    intro earlier below
    refine (keep earlier ?_).trans (before earlier below)
    rintro rfl
    obtain ⟨later, -, within, present⟩ := apart below
    rw [before later within] at present
    cases present
  | some version =>
    obtain ⟨found, old⟩ := version
    obtain ⟨below, read, between⟩ := VersionedStore.newestBefore_eq_some_iff.mp before
    obtain ⟨-, stored, -⟩ := VersionedStore.newestAtOrBefore_eq_some_iff.mp read
    -- a new version below `other` has a stored one above it, so it is not the newest
    have newer : revision < other → revision < found := by
      intro less
      obtain ⟨later, behind, within, present⟩ := apart less
      refine behind.trans_le (le_of_not_gt fun beyond => ?_)
      rw [between later beyond within] at present
      cases present
    have different : found ≠ revision := by
      rintro rfl
      exact lt_irrefl _ (newer below)
    refine VersionedStore.newestBefore_eq_some_iff.mpr ⟨below, ?_, fun later after within => ?_⟩
    · exact VersionedStore.newestAtOrBefore_self ((keep found different).trans stored)
    · refine (keep later ?_).trans (between later after within)
      rintro rfl
      exact lt_asymm after (newer within)

/-- A version that arrives keeps the index exact when its own rows and the rows of the version
behind it are right, and the rows further on only repeat what their versions hold. -/
theorem DeltaIndex.arrive (delta : DeltaIndex held versions record rows) {revision : ρ}
    (value : ν) {rows' : VersionedStore κ ρ EntryState}
    (elsewhere : ∀ key other, other ≠ revision → versions.get record other = none →
      rows'.get key other = none)
    (here : ∀ key, Explains (rows'.get key revision) (key ∈ held value)
      (key ∈ heldBy held (versions.newestBefore record revision)))
    (next : ∀ other later, versions.oldestAfter record revision = some (other, later) →
      ∀ key, Explains (rows'.get key other) (key ∈ held later) (key ∈ held value))
    (beyond : ∀ other later, versions.get record other = some later →
      (∀ version, versions.oldestAfter record revision ≠ some (other, version)) → ∀ key,
      rows'.get key other = rows.get key other ∨
        (rows'.get key other = some .live ∧ key ∈ held later)) :
    DeltaIndex held (versions.put record revision value) record rows' := by
  have keep : ∀ other, other ≠ revision →
      (versions.put record revision value).get record other = versions.get record other :=
    fun other different =>
      VersionedStore.get_put_other _ (fun same => different (Prod.mk.inj same).2) value
  constructor
  · intro key other absent
    rcases eq_or_ne other revision with rfl | different
    · rw [VersionedStore.get_put_self] at absent
      cases absent
    · rw [keep other different] at absent
      exact elsewhere key other different absent
  · intro other later stored key
    rcases eq_or_ne other revision with rfl | different
    · rw [VersionedStore.get_put_self] at stored
      obtain rfl := Option.some.inj stored
      rw [newestBefore_put_other value fun less => absurd less (lt_irrefl _)]
      exact here key
    · rw [keep other different] at stored
      by_cases follows : versions.oldestAfter record revision = some (other, later)
      · obtain ⟨above, -, between⟩ := VersionedStore.oldestAfter_eq_some_iff.mp follows
        rw [newestBefore_put_next value above between]
        exact next other later follows key
      · rw [newestBefore_put_other value ?_]
        · have explains := delta.explained other later stored key
          have apart : ∀ version, versions.oldestAfter record revision ≠ some (other, version) := by
            intro version same
            have read := (VersionedStore.oldestAfter_eq_some_iff.mp same).2.1
            rw [stored] at read
            obtain rfl := Option.some.inj read
            exact follows same
          rcases beyond other later stored apart key with same | ⟨live, holds⟩
          · rw [same]
            exact explains
          · rw [live]
            exact holds
        · intro less
          obtain ⟨first, version, found, within⟩ :=
            VersionedStore.exists_oldestAfter (by rw [stored]; rfl) less
          obtain ⟨above, present, -⟩ := VersionedStore.oldestAfter_eq_some_iff.mp found
          refine ⟨first, above, within.lt_of_ne ?_, by rw [present]; rfl⟩
          rintro rfl
          rw [stored] at present
          obtain rfl := Option.some.inj present
          exact follows found

end Delta

/-! ## Rows of an arrival -/

section Rows

variable {κ ρ ν : Type}

/-- Keys that end at the first of the newer versions. -/
def endRows (successors : List (ρ × ν)) (ended : List κ) : List (κ × ρ × EntryState) :=
  match successors with
  | [] => []
  | first :: _ => VersionedStore.rowsAt first.1 .tombstone ended

@[simp] theorem endRows_nil (successors : List (ρ × ν)) :
    endRows successors ([] : List κ) = [] := by
  cases successors <;> rfl

/-- The keys of the newer versions, each at its own revision. -/
def reassertRows (keys : ν → List κ) (successors : List (ρ × ν)) : List (κ × ρ × EntryState) :=
  successors.flatMap fun successor =>
    VersionedStore.rowsAt successor.1 .live (keys successor.2)

variable {keys : ν → List κ}

theorem mem_reassertRows {successors : List (ρ × ν)} {key : κ} {revision : ρ}
    {state : EntryState} :
    (key, revision, state) ∈ reassertRows keys successors ↔
      state = .live ∧ ∃ value, (revision, value) ∈ successors ∧ key ∈ keys value := by
  rw [reassertRows, mem_flatMap]
  constructor
  · rintro ⟨⟨found, value⟩, hmem, hrow⟩
    obtain ⟨other, hkey, same⟩ := mem_map.mp hrow
    obtain ⟨rfl, rest⟩ := Prod.mk.inj same
    obtain ⟨rfl, rfl⟩ := Prod.mk.inj rest
    exact ⟨rfl, value, hmem, hkey⟩
  · rintro ⟨rfl, value, hmem, hkey⟩
    exact ⟨(revision, value), hmem, mem_map.mpr ⟨key, hkey, rfl⟩⟩

variable {ι : Type} [DecidableEq ι] [DecidableEq κ] [LinearOrder ρ]

theorem get_reassertRows {rows : VersionedStore κ ρ EntryState} {successors : List (ρ × ν)}
    {key : κ} {revision : ρ} {value : ν} (hmem : (revision, value) ∈ successors)
    (holds : key ∈ keys value) :
    (rows.putVersions (reassertRows keys successors)).get key revision = some .live :=
  VersionedStore.get_putVersions (mem_reassertRows.mpr ⟨rfl, value, hmem, holds⟩)
    fun _ hother => (mem_reassertRows.mp hother).1

theorem get_reassertRows_absent {rows : VersionedStore κ ρ EntryState}
    {successors : List (ρ × ν)} {key : κ} {revision : ρ}
    (absent : ∀ value, (revision, value) ∈ successors → key ∉ keys value) :
    (rows.putVersions (reassertRows keys successors)).get key revision = rows.get key revision := by
  apply VersionedStore.get_putVersions_absent
  intro state hmem
  obtain ⟨-, value, present, holds⟩ := mem_reassertRows.mp hmem
  exact absent value present holds

theorem get_endRows_absent {rows : VersionedStore κ ρ EntryState} {successors : List (ρ × ν)}
    {ended : List κ} {key : κ} {revision : ρ}
    (absent : ∀ first, successors.head? = some first → revision = first.1 → key ∉ ended) :
    (rows.putVersions (endRows successors ended)).get key revision = rows.get key revision := by
  cases successors with
  | nil => rfl
  | cons first rest =>
    exact VersionedStore.get_putRows_absent (absent first rfl) EntryState.tombstone

theorem get_endRows {rows : VersionedStore κ ρ EntryState} {successors : List (ρ × ν)}
    {ended : List κ} {key : κ} {first : ρ × ν} (found : successors.head? = some first)
    (hmem : key ∈ ended) :
    (rows.putVersions (endRows successors ended)).get key first.1 = some .tombstone := by
  obtain ⟨rest, rfl⟩ := head?_eq_some_iff.mp found
  exact VersionedStore.get_putRows hmem EntryState.tombstone

/-- Keys that end, then keys that are live: the later row stands. -/
theorem explains_ownRows {rows : VersionedStore κ ρ EntryState} {revision : ρ}
    {ended written : List κ} {key : κ} {now before : Prop}
    (bare : rows.get key revision = none) (live : key ∈ written → now)
    (dead : key ∈ ended → key ∉ written → ¬now)
    (same : key ∉ ended → key ∉ written → (now ↔ before)) :
    Explains ((rows.putVersions (VersionedStore.rowsAt revision .tombstone ended ++
      VersionedStore.rowsAt revision .live written)).get key revision) now before := by
  rw [VersionedStore.putVersions_append]
  by_cases hwritten : key ∈ written
  · rw [VersionedStore.get_putRows hwritten]
    exact live hwritten
  · rw [VersionedStore.get_putRows_absent fun _ => hwritten]
    by_cases hended : key ∈ ended
    · rw [VersionedStore.get_putRows hended]
      exact dead hended hwritten
    · rw [VersionedStore.get_putRows_absent fun _ => hended, bare]
      exact same hended hwritten

variable {versions : VersionedStore ι ρ ν} {record : ι} {rows : VersionedStore κ ρ EntryState}

/-- The rows of an arrival are right when its own rows are, and all it holds is held by the next
version or ends there. -/
theorem DeltaIndex.arrive_rows
    (delta : DeltaIndex (fun value => {key | key ∈ keys value}) versions record rows)
    {revision : ρ} (value : ν) (fresh : versions.get record revision = none)
    {own : List (κ × ρ × EntryState)} (ownAt : ∀ row ∈ own, row.2.1 = revision) (ended : List κ)
    (here : ∀ key, Explains ((rows.putVersions own).get key revision) (key ∈ keys value)
      (key ∈ heldBy (fun value => {key | key ∈ keys value})
        (versions.newestBefore record revision)))
    (ends : ∀ first later, versions.oldestAfter record revision = some (first, later) →
      ∀ key ∈ keys value, key ∈ keys later ∨ key ∈ ended) :
    DeltaIndex (fun value => {key | key ∈ keys value}) (versions.put record revision value) record
      (rows.putVersions (own ++ endRows (versions.versionsAbove record revision) ended ++
        reassertRows keys (versions.versionsAbove record revision))) := by
  have untouched : ∀ key other, other ≠ revision →
      (rows.putVersions own).get key other = rows.get key other := by
    intro key other different
    apply VersionedStore.get_putVersions_absent
    exact fun state hmem => different (ownAt _ hmem)
  have head := versions.head?_versionsAbove record revision
  rw [VersionedStore.putVersions_append, VersionedStore.putVersions_append]
  refine delta.arrive value ?_ ?_ ?_ ?_
  · intro key other different absent
    rw [get_reassertRows_absent, get_endRows_absent, untouched key other different,
      delta.anchored key other absent]
    · rintro ⟨first, later⟩ found rfl
      rw [head] at found
      obtain ⟨-, stored, -⟩ := VersionedStore.oldestAfter_eq_some_iff.mp found
      rw [absent] at stored
      cases stored
    · intro later hmem
      obtain ⟨-, stored⟩ := VersionedStore.mem_versionsAbove.mp hmem
      rw [absent] at stored
      cases stored
  · intro key
    rw [get_reassertRows_absent, get_endRows_absent]
    · exact here key
    · rintro ⟨first, later⟩ found rfl
      rw [head] at found
      exact absurd (VersionedStore.oldestAfter_eq_some_iff.mp found).1 (lt_irrefl _)
    · intro later hmem
      exact absurd (VersionedStore.mem_versionsAbove.mp hmem).1 (lt_irrefl _)
  · intro other later found key
    obtain ⟨above, stored, -⟩ := VersionedStore.oldestAfter_eq_some_iff.mp found
    have hmem := VersionedStore.mem_versionsAbove.mpr ⟨above, stored⟩
    by_cases holds : key ∈ keys later
    · rw [get_reassertRows hmem holds]
      exact holds
    · have unwritten : ∀ value, (other, value) ∈ versions.versionsAbove record revision →
          key ∉ keys value := by
        intro version hversion
        have read := (VersionedStore.mem_versionsAbove.mp hversion).2
        rw [stored] at read
        rwa [← Option.some.inj read]
      rw [get_reassertRows_absent unwritten]
      rw [← head] at found
      by_cases hended : key ∈ ended
      · rw [get_endRows found hended]
        exact holds
      · -- without a row at the next version, nothing the arrival holds can have reached it
        rw [get_endRows_absent fun _ _ _ => hended, untouched key other above.ne']
        rw [head] at found
        have lost : key ∉ keys value := fun present =>
          (ends other later found key present).elim holds hended
        have explains := delta.explained other later stored key
        cases row : rows.get key other with
        | none => exact iff_of_false holds lost
        | some state =>
          rw [row] at explains
          cases state with
          | live => exact absurd explains holds
          | tombstone => exact holds
  · intro other later stored notNext key
    have different : other ≠ revision := by
      rintro rfl
      rw [fresh] at stored
      cases stored
    by_cases reasserted : revision < other ∧ key ∈ keys later
    · have hmem := VersionedStore.mem_versionsAbove.mpr ⟨reasserted.1, stored⟩
      exact .inr ⟨get_reassertRows hmem reasserted.2, reasserted.2⟩
    · refine .inl ?_
      rw [get_reassertRows_absent, get_endRows_absent, untouched key other different]
      · rintro ⟨first, version⟩ found rfl
        rw [head] at found
        exact absurd found (notNext version)
      · intro version hversion holds
        obtain ⟨above, read⟩ := VersionedStore.mem_versionsAbove.mp hversion
        rw [stored] at read
        rw [← Option.some.inj read] at holds
        exact reasserted ⟨above, holds⟩

end Rows

end RaisinDB.Foundation
