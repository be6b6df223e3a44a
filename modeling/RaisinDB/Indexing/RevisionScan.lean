import RaisinDB.Branches.BranchCopy
import RaisinDB.Foundation.OrderedStore

/-!
# Scans of one record

The versions of a record lie under its prefix, each under the sixteen bytes of its
revision.  The bytes descend with the revision, so a scan meets the newest version
first.
-/

namespace RaisinDB.Foundation

open List

/-! ## Sixteen bytes -/

theorem ofBigEndian_append_singleton (early : List UInt8) (last : UInt8) :
    ofBigEndian (early ++ [last]) = ofBigEndian early * 256 + last.toNat := by
  rw [ofBigEndian, foldl_append]
  rfl

theorem bigEndian_ofBigEndian (bytes : List UInt8) :
    bigEndian bytes.length (ofBigEndian bytes) = bytes := by
  induction bytes using reverseRecOn with
  | nil => rfl
  | append_singleton early last ih =>
      have small : last.toNat < 256 := last.toNat_lt
      have high : (ofBigEndian early * 256 + last.toNat) / 256 = ofBigEndian early := by omega
      have low : (ofBigEndian early * 256 + last.toNat) % 256 = last.toNat := by omega
      rw [length_append, length_singleton, bigEndian, ofBigEndian_append_singleton, high, low, ih,
        UInt8.ofNat_toNat]

theorem ofBigEndian_lt (bytes : List UInt8) : ofBigEndian bytes < 256 ^ bytes.length := by
  induction bytes using reverseRecOn with
  | nil => decide
  | append_singleton early last ih =>
      have small : last.toNat < 256 := last.toNat_lt
      rw [ofBigEndian_append_singleton, length_append, length_singleton, pow_succ]
      omega

end RaisinDB.Foundation

namespace RaisinDB.Indexing

open RaisinDB.Branches RaisinDB.Clock RaisinDB.Foundation RaisinDB.Oplog List
open RaisinDB.Replication (HLC)

/-- Sixteen bytes are the revision they decode to. -/
theorem exists_encodeDescending {bytes : List UInt8} (length : bytes.length = 16) :
    ∃ revision, Fits revision ∧ encodeDescending revision = bytes := by
  have first : (bytes.take 8).length = 8 := by simp [length]
  have second : (bytes.drop 8).length = 8 := by simp [length]
  have big : 256 ^ 8 = maxU64 + 1 := by decide
  have small := ofBigEndian_lt (bytes.take 8)
  have small' := ofBigEndian_lt (bytes.drop 8)
  rw [first, big] at small
  rw [second, big] at small'
  refine ⟨⟨maxU64 - ofBigEndian (bytes.take 8), maxU64 - ofBigEndian (bytes.drop 8)⟩,
    ⟨Nat.sub_le _ _, Nat.sub_le _ _⟩, ?_⟩
  rw [encodeDescending]
  dsimp only
  rw [Nat.sub_sub_self (by omega), Nat.sub_sub_self (by omega)]
  have whole := bigEndian_ofBigEndian (bytes.take 8)
  have whole' := bigEndian_ofBigEndian (bytes.drop 8)
  rw [first] at whole
  rw [second] at whole'
  rw [whole, whole', take_append_drop]

/-- The keys behind a key of the same length. -/
theorem append_zero_le_iff {first second : List UInt8} (same : first.length = second.length) :
    first ++ [0] ≤ second ↔ first < second := by
  constructor
  · intro behind
    by_contra notLater
    rcases (not_lt.mp notLater).eq_or_lt with rfl | earlier
    · have longer := (le_append second [0]).antisymm behind
      simp at longer
    · have less := lt_append_of_lt same.symm earlier [] [0]
      rw [append_nil] at less
      exact absurd behind (not_le.mpr less)
  · intro less
    have less' := lt_append_of_lt same less [0] []
    rw [append_nil] at less'
    exact less'.le

/-- Newer revisions have smaller bytes. -/
theorem encodeDescending_lt {older newer : HLC} (less : older < newer) (fits : Fits older)
    (fits' : Fits newer) : encodeDescending newer < encodeDescending older := by
  have big : 256 ^ 8 = maxU64 + 1 := by decide
  obtain ⟨stamp, count⟩ := fits
  obtain ⟨stamp', count'⟩ := fits'
  rw [encodeDescending, encodeDescending]
  rcases hlc_lt_iff.mp less with earlier | ⟨same, fewer⟩
  · exact lt_append_of_lt (by simp) (bigEndian_lt (by omega) (by omega)) _ _
  · rw [same, append_lt_append_left]
    exact bigEndian_lt (by omega) (by omega)

theorem encodeDescending_lt_iff {first second : HLC} (fits : Fits first) (fits' : Fits second) :
    encodeDescending first < encodeDescending second ↔ second < first := by
  constructor
  · intro less
    by_contra notLater
    rcases (not_lt.mp notLater).eq_or_lt with rfl | earlier
    · exact lt_irrefl _ less
    · exact lt_asymm less (encodeDescending_lt earlier fits fits')
  · exact fun later => encodeDescending_lt later fits' fits

theorem encodeDescending_le_iff {first second : HLC} (fits : Fits first) (fits' : Fits second) :
    encodeDescending first ≤ encodeDescending second ↔ second ≤ first := by
  rw [← not_lt, encodeDescending_lt_iff fits' fits, not_lt]

/-! ## Scans -/

abbrev Rows := OrderedStore Key (List UInt8)

/-- The entries under a base, in key order, from a key on. -/
def scan (store : Rows) (base seek : Key) : List (Key × List UInt8) :=
  (store.seek seek).takeWhile fun row => base.isPrefixOf row.1

/-- The revision of a key that is the base and sixteen bytes. -/
def versionOf (base key : Key) : Option HLC :=
  if key.length = base.length + 16 then extractRevisionFromKey key else none

/-- The revision lies within the bound, if there is one. -/
def Within (bound : Option HLC) (revision : HLC) : Prop := ∀ limit ∈ bound, revision ≤ limit

instance decidableWithin (bound : Option HLC) (revision : HLC) : Decidable (Within bound revision) :=
  inferInstanceAs (Decidable (∀ limit ∈ bound, revision ≤ limit))

/-- The versions of a record that a scan meets from a key on, others being passed over. -/
def versionsFrom (store : Rows) (base seek : Key) (bound : Option HLC) :
    List (HLC × List UInt8) :=
  (scan store base seek).filterMap fun row =>
    ((versionOf base row.1).filter fun revision => Within bound revision).map
      fun revision => (revision, row.2)

def seekKey (base : Key) : Option HLC → Key
  | some bound => base ++ encodeDescending bound
  | none => base

/-- The versions of a record at or below a bound, newest first. -/
def versionsUnder (store : Rows) (base : Key) (bound : Option HLC) : List (HLC × List UInt8) :=
  versionsFrom store base (seekKey base bound) bound

theorem scan_eq_filter (store : Rows) (base tail : Key) :
    scan store base (base ++ tail) =
      store.rows.filter fun row => base ++ tail ≤ row.1 ∧ base.isPrefixOf row.1 := by
  apply store.seek_takeWhile (base ++ tail) fun key => base.isPrefixOf key
  intro early late lower less kept
  rw [ isPrefixOf_iff_prefix] at kept ⊢
  obtain ⟨rest, rfl⟩ := kept
  exact prefix_of_between ((le_append base tail).trans lower) less.le

theorem versionOf_eq_some_iff {base key : Key} {revision : HLC} (under : base <+: key) :
    versionOf base key = some revision ↔
      Fits revision ∧ key = base ++ encodeDescending revision := by
  obtain ⟨rest, rfl⟩ := under
  rw [versionOf]
  constructor
  · split_ifs with length
    · intro read
      rw [length_append] at length
      obtain ⟨found, fits, rfl⟩ := exists_encodeDescending (Nat.add_left_cancel length)
      rw [extractRevisionFromKey_append base fits] at read
      obtain rfl := Option.some.inj read
      exact ⟨fits, rfl⟩
    · intro read
      cases read
  · rintro ⟨fits, same⟩
    rw [same, if_pos (by simp), extractRevisionFromKey_append base fits]

/-- What a row under the base is read as. -/
theorem read_eq_some_iff {base key : Key} {bound : Option HLC} {value : List UInt8}
    {version : HLC × List UInt8} (under : base <+: key) :
    (((versionOf base key).filter fun revision => Within bound revision).map
        fun revision => (revision, value)) = some version ↔
      (Fits version.1 ∧ key = base ++ encodeDescending version.1) ∧ Within bound version.1 ∧
        version.2 = value := by
  obtain ⟨revision, value'⟩ := version
  rw [← versionOf_eq_some_iff under, Option.map_eq_some_iff]
  constructor
  · rintro ⟨found, passed, same⟩
    obtain ⟨decoded, within⟩ := Option.filter_eq_some_iff.mp passed
    obtain ⟨rfl, rfl⟩ := Prod.mk.inj same
    exact ⟨decoded, of_decide_eq_true within, rfl⟩
  · rintro ⟨decoded, within, rfl⟩
    exact ⟨revision, Option.filter_eq_some_iff.mpr ⟨decoded, decide_eq_true within⟩, rfl⟩

theorem mem_versionsFrom {store : Rows} {base tail : Key} {bound : Option HLC} {revision : HLC}
    {value : List UInt8} :
    (revision, value) ∈ versionsFrom store base (base ++ tail) bound ↔
      Fits revision ∧ (base ++ encodeDescending revision, value) ∈ store.rows ∧
        tail ≤ encodeDescending revision ∧ Within bound revision := by
  rw [versionsFrom, scan_eq_filter, mem_filterMap]
  constructor
  · rintro ⟨⟨key, value'⟩, hmem, read⟩
    obtain ⟨hrow, test⟩ := mem_filter.mp hmem
    obtain ⟨lower, under⟩ := of_decide_eq_true test
    obtain ⟨⟨fits, rfl⟩, within, rfl⟩ := (read_eq_some_iff ( isPrefixOf_iff_prefix.mp under)).mp read
    rw [← not_lt, append_lt_append_left, not_lt] at lower
    exact ⟨fits, hrow, lower, within⟩
  · rintro ⟨fits, hrow, lower, within⟩
    have lower' : base ++ tail ≤ base ++ encodeDescending revision := by
      rwa [← not_lt, append_lt_append_left, not_lt]
    have under : base <+: base ++ encodeDescending revision := prefix_append _ _
    refine ⟨_, mem_filter.mpr ⟨hrow, decide_eq_true ⟨lower', isPrefixOf_iff_prefix.mpr under⟩⟩, ?_⟩
    exact (read_eq_some_iff under).mpr ⟨⟨fits, rfl⟩, within, rfl⟩

/-- A scan meets newer versions first, and no revision twice. -/
theorem versionsFrom_sorted (store : Rows) (base tail : Key) (bound : Option HLC) :
    (versionsFrom store base (base ++ tail) bound).Pairwise
      fun first second => second.1 < first.1 := by
  rw [versionsFrom, scan_eq_filter, pairwise_filterMap]
  refine (store.sorted.filter _).imp_of_mem ?_
  intro early late hearly hlate less first hfirst second hsecond
  have under := (of_decide_eq_true (mem_filter.mp hearly).2).2
  have under' := (of_decide_eq_true (mem_filter.mp hlate).2).2
  obtain ⟨⟨fits, key⟩, -, -⟩ := (read_eq_some_iff ( isPrefixOf_iff_prefix.mp under)).mp hfirst
  obtain ⟨⟨fits', key'⟩, -, -⟩ := (read_eq_some_iff ( isPrefixOf_iff_prefix.mp under')).mp hsecond
  rw [key, key', append_lt_append_left] at less
  exact (encodeDescending_lt_iff fits fits').mp less

/-- Lists of versions, newest first, are told apart by their members. -/
theorem eq_of_mem_iff {ν : Type} {first second : List (HLC × ν)}
    (sorted : first.Pairwise fun a b => b.1 < a.1) (sorted' : second.Pairwise fun a b => b.1 < a.1)
    (same : ∀ version, version ∈ first ↔ version ∈ second) : first = second := by
  have nodup : ∀ {versions : List (HLC × ν)}, (versions.Pairwise fun a b => b.1 < a.1) →
      versions.Nodup := by
    refine fun ordered => ordered.imp ?_
    rintro a b less rfl
    exact lt_irrefl _ less
  apply ((perm_ext_iff_of_nodup (nodup sorted) (nodup sorted')).mpr same).eq_of_pairwise ?_
    sorted sorted'
  exact fun a b _ _ less more => absurd (less.trans more) (lt_irrefl _)

theorem mem_versionsUnder {store : Rows} {base : Key} {bound : Option HLC}
    (fits : ∀ limit ∈ bound, Fits limit) {revision : HLC} {value : List UInt8} :
    (revision, value) ∈ versionsUnder store base bound ↔
      Fits revision ∧ (base ++ encodeDescending revision, value) ∈ store.rows ∧
        Within bound revision := by
  rw [versionsUnder]
  cases bound with
  | none =>
      have whole : (revision, value) ∈ versionsFrom store base (base ++ []) none ↔ _ :=
        mem_versionsFrom
      rw [append_nil] at whole
      rw [seekKey, whole]
      exact ⟨fun found => ⟨found.1, found.2.1, found.2.2.2⟩,
        fun found => ⟨found.1, found.2.1, le_append [] _, found.2.2⟩⟩
  | some limit =>
      rw [seekKey, mem_versionsFrom]
      refine ⟨fun found => ⟨found.1, found.2.1, found.2.2.2⟩,
        fun found => ⟨found.1, found.2.1, ?_, found.2.2⟩⟩
      exact (encodeDescending_le_iff (fits limit rfl) found.1).mpr (found.2.2 limit rfl)

theorem versionsUnder_sorted (store : Rows) (base : Key) (bound : Option HLC) :
    (versionsUnder store base bound).Pairwise fun first second => second.1 < first.1 := by
  rw [versionsUnder]
  cases bound with
  | none =>
      have sorted := versionsFrom_sorted store base [] none
      rwa [append_nil] at sorted
  | some limit => exact versionsFrom_sorted store base _ _

/-- Behind a revision, a scan goes on with what is older. -/
theorem versionsFrom_behind {store : Rows} {base : Key} {bound : Option HLC} {revision : HLC}
    (fits : Fits revision) (limits : ∀ limit ∈ bound, Fits limit) :
    versionsFrom store base (base ++ (encodeDescending revision ++ [0])) bound =
      (versionsUnder store base bound).filter fun version => version.1 < revision := by
  refine eq_of_mem_iff (versionsFrom_sorted ..) ((versionsUnder_sorted ..).filter _) ?_
  rintro ⟨other, value⟩
  rw [mem_versionsFrom, mem_filter, mem_versionsUnder limits, decide_eq_true_iff]
  constructor
  · rintro ⟨small, stored, behind, within⟩
    rw [append_zero_le_iff (by simp), encodeDescending_lt_iff fits small] at behind
    exact ⟨⟨small, stored, within⟩, behind⟩
  · rintro ⟨⟨small, stored, within⟩, older⟩
    refine ⟨small, stored, ?_, within⟩
    rwa [append_zero_le_iff (by simp), encodeDescending_lt_iff fits small]

/-- A bound that is lowered leaves the older versions. -/
theorem versionsUnder_some {store : Rows} {base : Key} {bound : Option HLC} {revision : HLC}
    (fits : Fits revision) (limits : ∀ limit ∈ bound, Fits limit) (within : Within bound revision) :
    versionsUnder store base (some revision) =
      (versionsUnder store base bound).filter fun version => version.1 ≤ revision := by
  refine eq_of_mem_iff (versionsUnder_sorted ..) ((versionsUnder_sorted ..).filter _) ?_
  rintro ⟨other, value⟩
  rw [mem_versionsUnder (by rintro _ ⟨⟩; exact fits), mem_filter, mem_versionsUnder limits,
    decide_eq_true_iff]
  constructor
  · rintro ⟨small, stored, below⟩
    have lower := below revision rfl
    exact ⟨⟨small, stored, fun limit hlimit => lower.trans (within limit hlimit)⟩, lower⟩
  · rintro ⟨⟨small, stored, -⟩, lower⟩
    exact ⟨small, stored, by rintro _ ⟨⟩; exact lower⟩

end RaisinDB.Indexing
