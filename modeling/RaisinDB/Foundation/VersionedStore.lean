import Mathlib

/-!
# A store of versions

Every key has a value for each revision at which it was written.  A read at a
revision finds the newest version at or below it.
-/

namespace RaisinDB.Foundation

open List

/-- Values by key and revision. -/
structure VersionedStore (κ ρ ν : Type) where
  entries : AList fun _ : κ × ρ => ν

namespace VersionedStore

variable {κ ρ ν : Type} [DecidableEq κ] [LinearOrder ρ]

def empty : VersionedStore κ ρ ν := ⟨∅⟩

/-- The version of a key written at one revision. -/
def get (store : VersionedStore κ ρ ν) (key : κ) (revision : ρ) : Option ν :=
  store.entries.lookup (key, revision)

def put (store : VersionedStore κ ρ ν) (key : κ) (revision : ρ) (value : ν) :
    VersionedStore κ ρ ν :=
  ⟨store.entries.insert (key, revision) value⟩

/-- The revisions of a key that pass a test. -/
def revisions (store : VersionedStore κ ρ ν) (key : κ) (keep : ρ → Bool) : List ρ :=
  (store.entries.keys.filter fun entry => entry.1 = key ∧ keep entry.2).map Prod.snd

/-- A version together with its revision. -/
def versionAt (store : VersionedStore κ ρ ν) (key : κ) (revision : Option ρ) : Option (ρ × ν) :=
  revision.bind fun found => (store.get key found).map fun value => (found, value)

def newestAtOrBefore (store : VersionedStore κ ρ ν) (key : κ) (bound : ρ) : Option (ρ × ν) :=
  store.versionAt key (store.revisions key fun revision => revision ≤ bound).max?

def oldestAfter (store : VersionedStore κ ρ ν) (key : κ) (bound : ρ) : Option (ρ × ν) :=
  store.versionAt key (store.revisions key fun revision => bound < revision).min?

/-! ## Versions -/

@[simp] theorem get_put_self (store : VersionedStore κ ρ ν) (key : κ) (revision : ρ) (value : ν) :
    (store.put key revision value).get key revision = some value :=
  AList.lookup_insert store.entries

theorem get_put_other (store : VersionedStore κ ρ ν) {key key' : κ} {revision revision' : ρ}
    (different : (key', revision') ≠ (key, revision)) (value : ν) :
    (store.put key revision value).get key' revision' = store.get key' revision' :=
  AList.lookup_insert_ne different

theorem mem_entries_of_get {store : VersionedStore κ ρ ν} {key : κ} {revision : ρ} {value : ν}
    (stored : store.get key revision = some value) :
    ⟨(key, revision), value⟩ ∈ store.entries.entries :=
  AList.mem_lookup_iff.mp stored

theorem mem_revisions {store : VersionedStore κ ρ ν} {key : κ} {keep : ρ → Bool} {revision : ρ} :
    revision ∈ store.revisions key keep ↔ (store.get key revision).isSome ∧ keep revision := by
  rw [revisions, mem_map, get, AList.lookup_isSome, AList.mem_keys]
  constructor
  · rintro ⟨⟨found, revision⟩, hmem, rfl⟩
    obtain ⟨stored, test⟩ := mem_filter.mp hmem
    obtain ⟨rfl, passes⟩ := of_decide_eq_true test
    exact ⟨stored, passes⟩
  · rintro ⟨stored, passes⟩
    exact ⟨(key, revision), mem_filter.mpr ⟨stored, decide_eq_true ⟨rfl, passes⟩⟩, rfl⟩

theorem versionAt_eq_some_iff {store : VersionedStore κ ρ ν} {key : κ} {found : Option ρ}
    {revision : ρ} {value : ν} :
    store.versionAt key found = some (revision, value) ↔
      found = some revision ∧ store.get key revision = some value := by
  rw [versionAt, Option.bind_eq_some_iff]
  constructor
  · rintro ⟨other, rfl, mapped⟩
    obtain ⟨value', stored, same⟩ := Option.map_eq_some_iff.mp mapped
    obtain ⟨rfl, rfl⟩ := Prod.mk.inj same
    exact ⟨rfl, stored⟩
  · rintro ⟨rfl, stored⟩
    exact ⟨revision, rfl, by rw [stored]; rfl⟩

/-! ## Reads -/

theorem newestAtOrBefore_eq_some_iff {store : VersionedStore κ ρ ν} {key : κ}
    {bound revision : ρ} {value : ν} :
    store.newestAtOrBefore key bound = some (revision, value) ↔
      revision ≤ bound ∧ store.get key revision = some value ∧
        ∀ later, revision < later → later ≤ bound → store.get key later = none := by
  rw [newestAtOrBefore, versionAt_eq_some_iff, max?_eq_some_iff, mem_revisions]
  constructor
  · rintro ⟨⟨⟨_, below⟩, greatest⟩, stored⟩
    refine ⟨of_decide_eq_true below, stored, fun later after within => ?_⟩
    by_contra present
    have hmem : later ∈ store.revisions key fun revision => revision ≤ bound :=
      mem_revisions.mpr ⟨Option.isSome_iff_ne_none.mpr present, decide_eq_true within⟩
    exact absurd (greatest later hmem) (not_le.mpr after)
  · rintro ⟨below, stored, newest⟩
    refine ⟨⟨⟨by rw [stored]; rfl, decide_eq_true below⟩, fun other hother => ?_⟩, stored⟩
    obtain ⟨present, within⟩ := mem_revisions.mp hother
    by_contra after
    rw [newest other (not_le.mp after) (of_decide_eq_true within)] at present
    cases present

theorem oldestAfter_eq_some_iff {store : VersionedStore κ ρ ν} {key : κ} {bound revision : ρ}
    {value : ν} :
    store.oldestAfter key bound = some (revision, value) ↔
      bound < revision ∧ store.get key revision = some value ∧
        ∀ earlier, bound < earlier → earlier < revision → store.get key earlier = none := by
  rw [oldestAfter, versionAt_eq_some_iff, min?_eq_some_iff, mem_revisions]
  constructor
  · rintro ⟨⟨⟨_, above⟩, least⟩, stored⟩
    refine ⟨of_decide_eq_true above, stored, fun earlier after within => ?_⟩
    by_contra present
    have hmem : earlier ∈ store.revisions key fun revision => bound < revision :=
      mem_revisions.mpr ⟨Option.isSome_iff_ne_none.mpr present, decide_eq_true after⟩
    exact absurd (least earlier hmem) (not_le.mpr within)
  · rintro ⟨above, stored, oldest⟩
    refine ⟨⟨⟨by rw [stored]; rfl, decide_eq_true above⟩, fun other hother => ?_⟩, stored⟩
    obtain ⟨present, after⟩ := mem_revisions.mp hother
    by_contra within
    rw [oldest other (of_decide_eq_true after) (not_le.mp within)] at present
    cases present

/-- A version within the bound gives the read something to find. -/
theorem exists_newestAtOrBefore {store : VersionedStore κ ρ ν} {key : κ} {bound revision : ρ}
    (present : (store.get key revision).isSome) (below : revision ≤ bound) :
    ∃ found value, store.newestAtOrBefore key bound = some (found, value) ∧ revision ≤ found := by
  have hmem : revision ∈ store.revisions key fun revision => revision ≤ bound :=
    mem_revisions.mpr ⟨present, decide_eq_true below⟩
  cases greatest : (store.revisions key fun revision => revision ≤ bound).max? with
  | none =>
    rw [max?_eq_none_iff.mp greatest] at hmem
    cases hmem
  | some found =>
    obtain ⟨hfound, bounds⟩ := max?_eq_some_iff.mp greatest
    obtain ⟨value, stored⟩ := Option.isSome_iff_exists.mp (mem_revisions.mp hfound).1
    refine ⟨found, value, ?_, bounds revision hmem⟩
    rw [newestAtOrBefore, greatest]
    exact versionAt_eq_some_iff.mpr ⟨rfl, stored⟩

theorem newestAtOrBefore_eq_none_iff {store : VersionedStore κ ρ ν} {key : κ} {bound : ρ} :
    store.newestAtOrBefore key bound = none ↔
      ∀ revision, revision ≤ bound → store.get key revision = none := by
  constructor
  · intro nothing revision below
    by_contra present
    obtain ⟨found, value, some, _⟩ :=
      exists_newestAtOrBefore (Option.isSome_iff_ne_none.mpr present) below
    rw [nothing] at some
    cases some
  · intro absent
    by_contra present
    obtain ⟨⟨revision, value⟩, some⟩ := Option.ne_none_iff_exists'.mp present
    obtain ⟨below, stored, _⟩ := newestAtOrBefore_eq_some_iff.mp some
    rw [absent revision below] at stored
    cases stored

/-- A version after the bound gives the walk something to find. -/
theorem exists_oldestAfter {store : VersionedStore κ ρ ν} {key : κ} {bound revision : ρ}
    (present : (store.get key revision).isSome) (above : bound < revision) :
    ∃ found value, store.oldestAfter key bound = some (found, value) ∧ found ≤ revision := by
  have hmem : revision ∈ store.revisions key fun revision => bound < revision :=
    mem_revisions.mpr ⟨present, decide_eq_true above⟩
  cases least : (store.revisions key fun revision => bound < revision).min? with
  | none =>
    rw [min?_eq_none_iff.mp least] at hmem
    cases hmem
  | some found =>
    obtain ⟨hfound, bounds⟩ := min?_eq_some_iff.mp least
    obtain ⟨value, stored⟩ := Option.isSome_iff_exists.mp (mem_revisions.mp hfound).1
    refine ⟨found, value, ?_, bounds revision hmem⟩
    rw [oldestAfter, least]
    exact versionAt_eq_some_iff.mpr ⟨rfl, stored⟩

/-- Equal versions give equal reads. -/
theorem newestAtOrBefore_congr {first second : VersionedStore κ ρ ν} {key : κ} {bound : ρ}
    (same : ∀ revision ≤ bound, first.get key revision = second.get key revision) :
    first.newestAtOrBefore key bound = second.newestAtOrBefore key bound := by
  apply Option.ext
  rintro ⟨revision, value⟩
  rw [newestAtOrBefore_eq_some_iff, newestAtOrBefore_eq_some_iff]
  constructor
  · rintro ⟨below, stored, newest⟩
    exact ⟨below, (same revision below) ▸ stored,
      fun later after within => (same later within) ▸ newest later after within⟩
  · rintro ⟨below, stored, newest⟩
    exact ⟨below, (same revision below).symm ▸ stored,
      fun later after within => (same later within).symm ▸ newest later after within⟩

/-- A later bound finds the same version if nothing lies between. -/
theorem newestAtOrBefore_later {store : VersionedStore κ ρ ν} {key : κ} {early late : ρ}
    (ordered : early ≤ late)
    (between : ∀ revision, early < revision → revision ≤ late → store.get key revision = none) :
    store.newestAtOrBefore key late = store.newestAtOrBefore key early := by
  apply Option.ext
  rintro ⟨revision, value⟩
  rw [newestAtOrBefore_eq_some_iff, newestAtOrBefore_eq_some_iff]
  constructor
  · rintro ⟨below, stored, newest⟩
    have within : revision ≤ early := by
      by_contra after
      rw [between revision (not_le.mp after) below] at stored
      cases stored
    exact ⟨within, stored, fun later after below' => newest later after (below'.trans ordered)⟩
  · rintro ⟨below, stored, newest⟩
    refine ⟨below.trans ordered, stored, fun later after below' => ?_⟩
    by_cases within : later ≤ early
    · exact newest later after within
    · exact between later (not_le.mp within) below'

theorem newestAtOrBefore_self {store : VersionedStore κ ρ ν} {key : κ} {revision : ρ} {value : ν}
    (stored : store.get key revision = some value) :
    store.newestAtOrBefore key revision = some (revision, value) := by
  rw [newestAtOrBefore_eq_some_iff]
  exact ⟨le_refl revision, stored, fun later after within => absurd within (not_le.mpr after)⟩

/-! ## Batches and copies -/

/-- Write rows at one revision, in order. -/
def putAll (store : VersionedStore κ ρ ν) (revision : ρ) (rows : List (κ × ν)) :
    VersionedStore κ ρ ν :=
  rows.foldl (fun store row => store.put row.1 revision row.2) store

/-- Other revisions keep their versions. -/
theorem get_putAll_other (store : VersionedStore κ ρ ν) {revision other : ρ}
    (different : other ≠ revision) (rows : List (κ × ν)) (key : κ) :
    (store.putAll revision rows).get key other = store.get key other := by
  induction rows generalizing store with
  | nil => rfl
  | cons row rows ih =>
    have apart : (key, other) ≠ (row.1, revision) := fun same => different (Prod.mk.inj same).2
    exact (ih _).trans (store.get_put_other apart row.2)

/-- Keys that are not written keep their versions. -/
theorem get_putAll_absent (store : VersionedStore κ ρ ν) (revision : ρ) {rows : List (κ × ν)}
    {key : κ} (absent : key ∉ rows.map Prod.fst) (other : ρ) :
    (store.putAll revision rows).get key other = store.get key other := by
  induction rows generalizing store with
  | nil => rfl
  | cons row rows ih =>
    obtain ⟨here, later⟩ := not_or.mp (fun either => absent (mem_cons.mpr either))
    have apart : (key, other) ≠ (row.1, revision) := fun same => here (Prod.mk.inj same).1
    exact (ih _ later).trans (store.get_put_other apart row.2)

/-- The last row of a key wins. -/
theorem get_putAll_append (store : VersionedStore κ ρ ν) (revision : ρ) (early : List (κ × ν))
    {late : List (κ × ν)} {key : κ} (value : ν) (absent : key ∉ late.map Prod.fst) :
    (store.putAll revision (early ++ (key, value) :: late)).get key revision = some value := by
  rw [putAll, foldl_append, foldl_cons, ← putAll, ← putAll, get_putAll_absent _ _ absent,
    get_put_self]

/-- The versions of a source up to a revision that the target does not have. -/
def pending (target source : VersionedStore κ ρ ν) (bound : ρ) : List (κ × ρ × ν) :=
  (source.entries.entries.filter fun entry =>
    entry.1.2 ≤ bound ∧ (target.get entry.1.1 entry.1.2).isNone).map fun entry =>
      (entry.1.1, entry.1.2, entry.2)

/-- Write versions under their own revisions. -/
def putVersions (store : VersionedStore κ ρ ν) (versions : List (κ × ρ × ν)) :
    VersionedStore κ ρ ν :=
  versions.foldl (fun store version => store.put version.1 version.2.1 version.2.2) store

def copyUpTo (target source : VersionedStore κ ρ ν) (bound : ρ) : VersionedStore κ ρ ν :=
  target.putVersions (target.pending source bound)

theorem mem_pending {target source : VersionedStore κ ρ ν} {bound : ρ} {key : κ} {revision : ρ}
    {value : ν} :
    (key, revision, value) ∈ target.pending source bound ↔
      source.get key revision = some value ∧ revision ≤ bound ∧ target.get key revision = none := by
  rw [pending, mem_map]
  constructor
  · rintro ⟨⟨⟨key, revision⟩, value⟩, hmem, same⟩
    obtain ⟨rfl, rfl, rfl⟩ : key = _ ∧ revision = _ ∧ value = _ := by simpa using same
    obtain ⟨stored, test⟩ := mem_filter.mp hmem
    obtain ⟨below, absent⟩ := of_decide_eq_true test
    exact ⟨AList.mem_lookup_iff.mpr stored, below, Option.isNone_iff_eq_none.mp absent⟩
  · rintro ⟨stored, below, absent⟩
    refine ⟨⟨(key, revision), value⟩, mem_filter.mpr ⟨mem_entries_of_get stored, ?_⟩, rfl⟩
    exact decide_eq_true ⟨below, Option.isNone_iff_eq_none.mpr absent⟩

/-- What versions agree on is in the store after they are written. -/
theorem get_putVersions {store : VersionedStore κ ρ ν} {versions : List (κ × ρ × ν)} {key : κ}
    {revision : ρ} {value : ν} (hmem : (key, revision, value) ∈ versions)
    (agree : ∀ other, (key, revision, other) ∈ versions → other = value) :
    (store.putVersions versions).get key revision = some value := by
  induction versions using reverseRecOn with
  | nil => cases hmem
  | append_singleton early last ih =>
    rw [putVersions, foldl_append, foldl_cons, foldl_nil, ← putVersions]
    by_cases same : (key, revision) = (last.1, last.2.1)
    · obtain ⟨rfl, rfl⟩ := Prod.mk.inj same
      have value' := agree last.2.2 (mem_append_right _ (mem_singleton_self last))
      rw [get_put_self, value']
    · rw [get_put_other _ same]
      refine ih ?_ fun other hother => agree other (mem_append_left _ hother)
      rcases mem_append.mp hmem with early' | late
      · exact early'
      · exact absurd (by rw [← mem_singleton.mp late]) same

theorem get_putVersions_absent {store : VersionedStore κ ρ ν} {versions : List (κ × ρ × ν)}
    {key : κ} {revision : ρ} (absent : ∀ value, (key, revision, value) ∉ versions) :
    (store.putVersions versions).get key revision = store.get key revision := by
  induction versions generalizing store with
  | nil => rfl
  | cons version versions ih =>
    have apart : (key, revision) ≠ (version.1, version.2.1) := fun same => by
      obtain ⟨rfl, rfl⟩ := Prod.mk.inj same
      exact absent version.2.2 mem_cons_self
    rw [putVersions, foldl_cons, ← putVersions,
      ih fun value hmem => absent value (mem_cons_of_mem _ hmem), get_put_other _ apart]

/-! A write takes no version away. -/

theorem isSome_get_put {store : VersionedStore κ ρ ν} {key key' : κ} {revision revision' : ρ}
    (value : ν) (present : (store.get key revision).isSome) :
    ((store.put key' revision' value).get key revision).isSome := by
  by_cases same : (key, revision) = (key', revision')
  · obtain ⟨rfl, rfl⟩ := Prod.mk.inj same
    rw [get_put_self]
    rfl
  · rw [get_put_other _ same]
    exact present

theorem isSome_get_putAll {store : VersionedStore κ ρ ν} {key : κ} {revision revision' : ρ}
    (rows : List (κ × ν)) (present : (store.get key revision).isSome) :
    ((store.putAll revision' rows).get key revision).isSome := by
  induction rows generalizing store with
  | nil => exact present
  | cons row rows ih => exact ih (isSome_get_put row.2 present)

theorem isSome_get_putVersions {store : VersionedStore κ ρ ν} {key : κ} {revision : ρ}
    (versions : List (κ × ρ × ν)) (present : (store.get key revision).isSome) :
    ((store.putVersions versions).get key revision).isSome := by
  induction versions generalizing store with
  | nil => exact present
  | cons version versions ih => exact ih (isSome_get_put version.2.2 present)

/-- The target keeps its own version and takes the source's up to the bound. -/
theorem get_copyUpTo (target source : VersionedStore κ ρ ν) (bound : ρ) (key : κ) (revision : ρ) :
    (target.copyUpTo source bound).get key revision =
      (target.get key revision).or
        (if revision ≤ bound then source.get key revision else none) := by
  by_cases copied : ∃ value, (key, revision, value) ∈ target.pending source bound
  · obtain ⟨value, hmem⟩ := copied
    obtain ⟨stored, below, absent⟩ := mem_pending.mp hmem
    rw [absent, Option.none_or, if_pos below, stored]
    refine get_putVersions hmem fun other hother => ?_
    exact Option.some.inj ((mem_pending.mp hother).1.symm.trans stored)
  · rw [copyUpTo, get_putVersions_absent fun value hmem => copied ⟨value, hmem⟩]
    cases own : target.get key revision with
    | some value => rfl
    | none =>
      rw [Option.none_or]
      split
      · rename_i below
        cases stored : source.get key revision with
        | none => rfl
        | some value => exact absurd ⟨value, mem_pending.mpr ⟨stored, below, own⟩⟩ copied
      · rfl

/-- The newer of two versions; the first one stands where they are of one revision. -/
def newerVersion : Option (ρ × ν) → Option (ρ × ν) → Option (ρ × ν)
  | own, none => own
  | none, some other => some other
  | some own, some other => if own.1 < other.1 then some other else some own

theorem newestAtOrBefore_copyUpTo_later {target source : VersionedStore κ ρ ν} {bound late : ρ}
    (ordered : bound ≤ late) (key : κ) :
    (target.copyUpTo source bound).newestAtOrBefore key late =
      newerVersion (target.newestAtOrBefore key late) (source.newestAtOrBefore key bound) := by
  cases other : source.newestAtOrBefore key bound with
  | none =>
    rw [newestAtOrBefore_eq_none_iff] at other
    refine newestAtOrBefore_congr fun revision _ => ?_
    rw [get_copyUpTo]
    by_cases within : revision ≤ bound
    · rw [if_pos within, other revision within, Option.or_none]
    · rw [if_neg within, Option.or_none]
  | some version =>
    obtain ⟨revision, value⟩ := version
    obtain ⟨below, stored, newest⟩ := newestAtOrBefore_eq_some_iff.mp other
    -- above the newest version of the source the copy has what the target has
    have above : ∀ later, revision < later →
        (target.copyUpTo source bound).get key later = target.get key later := by
      intro later after
      rw [get_copyUpTo]
      by_cases within : later ≤ bound
      · rw [if_pos within, newest later after within, Option.or_none]
      · rw [if_neg within, Option.or_none]
    cases own : target.newestAtOrBefore key late with
    | none =>
      rw [newestAtOrBefore_eq_none_iff] at own
      refine newestAtOrBefore_eq_some_iff.mpr ⟨below.trans ordered, ?_, ?_⟩
      · rw [get_copyUpTo, own revision (below.trans ordered), Option.none_or, if_pos below, stored]
      · exact fun later after within => (above later after).trans (own later within)
    | some version' =>
      obtain ⟨revision', value'⟩ := version'
      obtain ⟨below', stored', newest'⟩ := newestAtOrBefore_eq_some_iff.mp own
      by_cases older : revision' < revision
      · refine (newestAtOrBefore_eq_some_iff.mpr ⟨below.trans ordered, ?_, ?_⟩).trans
          (if_pos older).symm
        · rw [get_copyUpTo, newest' revision older (below.trans ordered), Option.none_or,
            if_pos below, stored]
        · exact fun later after within =>
            (above later after).trans (newest' later (older.trans after) within)
      · refine (newestAtOrBefore_eq_some_iff.mpr ⟨below', ?_, ?_⟩).trans (if_neg older).symm
        · rw [get_copyUpTo, stored', Option.some_or]
        · exact fun later after within =>
            (above later ((not_lt.mp older).trans_lt after)).trans (newest' later after within)

/-- A read of a copy finds the newer of what the two stores have. -/
theorem newestAtOrBefore_copyUpTo (target source : VersionedStore κ ρ ν) (bound late : ρ) (key : κ) :
    (target.copyUpTo source bound).newestAtOrBefore key late =
      newerVersion (target.newestAtOrBefore key late)
        (source.newestAtOrBefore key (min bound late)) := by
  rw [← newestAtOrBefore_copyUpTo_later (min_le_right bound late)]
  refine newestAtOrBefore_congr fun revision below => ?_
  rw [get_copyUpTo, get_copyUpTo]
  by_cases within : revision ≤ bound
  · rw [if_pos within, if_pos (le_min within below)]
  · rw [if_neg within, if_neg fun both => within (both.trans (min_le_left bound late))]

end VersionedStore

end RaisinDB.Foundation
