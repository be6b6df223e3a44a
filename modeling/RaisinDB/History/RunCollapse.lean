import Mathlib.Data.List.AList
import RaisinDB.History.LocatedKeys

/-!
# Collapsing runs

A version that the next-older one of its entity repeats says nothing new.  One pass
over a family remembers the version it saw last for each group, forgets the group it
has not seen longest when there are too many, and returns a version when the next
one shows that it is redundant.  Where readers sort by key, only a version right
before its twin is returned.
-/

namespace RaisinDB.History

open RaisinDB.Branches RaisinDB.Clock RaisinDB.Foundation RaisinDB.Indexing RaisinDB.Oplog List
open RaisinDB.Replication (HLC)

/-! ## The detector -/

inductive EntryState where
  | tombstone
  | live (value : List UInt8)
  deriving DecidableEq

def EntryState.ofValue (value : List UInt8) : EntryState :=
  if isTombstoneValue value then .tombstone else .live value

/-- The newer version of a group, until the next-older one shows. -/
structure Newer where
  key : Key
  rev : HLC
  state : EntryState
  size : Nat
  seq : Nat
  slice : Nat

structure OpenChunk where
  groups : AList fun _ : Key => Newer
  /-- Least recently seen first. -/
  lru : OrderedStore Nat Key
  nextSeq : Nat

def OpenChunk.empty : OpenChunk := ⟨∅, .empty, 0⟩

structure Detector where
  target : GcTarget
  watermark : HLC
  opened : List (Key × OpenChunk)
  slice : Nat
  maxGroups : Nat
  orderSensitive : Bool

/-- A version to be deleted; it is stale when an earlier slice has read it. -/
structure Doomed where
  key : Key
  size : Nat
  state : EntryState
  stale : Bool

namespace Detector

def new (target : GcTarget) (watermark : HLC) (maxGroups : Nat) : Detector :=
  ⟨target, watermark, [], 0, maxGroups, target.cf = .branch .orderedChildren⟩

def forget (detector : Detector) : Detector := { detector with opened := [] }

def beginSlice (detector : Detector) : Detector := { detector with slice := detector.slice + 1 }

/-- What the newer version of the group is, once the state of the next-older one is known. -/
def doom (detector : Detector) (newer : Newer) (state : EntryState) (seq : Nat) : Option Doomed :=
  if newer.state ≠ state then none
  else if detector.watermark ≤ newer.rev then none
  else if detector.orderSensitive ∧ newer.seq + 1 ≠ seq then none
  else some ⟨newer.key, newer.size, newer.state, newer.slice ≠ detector.slice⟩

/-- Make room for a group, unless it is there. -/
def makeRoom (detector : Detector) (chunk : OpenChunk) (tail : Key) : OpenChunk :=
  match chunk.groups.lookup tail with
  | some newer => { chunk with lru := chunk.lru.delete newer.seq }
  | none =>
      if detector.maxGroups ≤ chunk.groups.keys.length then
        match chunk.lru.rows with
        | [] => chunk
        | (seq, evicted) :: _ =>
            { chunk with lru := chunk.lru.delete seq, groups := chunk.groups.erase evicted }
      else chunk

/-- A version of an open chunk. -/
def see (detector : Detector) (chunk : OpenChunk) (tail : Key) (rev : HLC) (row : Row) :
    OpenChunk × Option Doomed :=
  let state := EntryState.ofValue row.2
  let seq := chunk.nextSeq
  let doomed := (chunk.groups.lookup tail).bind fun newer => detector.doom newer state seq
  let roomy := detector.makeRoom chunk tail
  ({ groups := roomy.groups.insert tail
      ⟨row.1, rev, state, row.1.length + row.2.length, seq, detector.slice⟩
     lru := roomy.lru.put seq tail
     nextSeq := seq + 1 }, doomed)

/-- Look at the next key. -/
def visit (detector : Detector) (row : Row) : Option (Detector × Option Doomed) :=
  let opened := detector.opened.dropWhile fun chunk => !insideChunk chunk.1 row.1
  match locate detector.target row.1 with
  | none => some ({ detector with opened := opened }, none)
  | some located => do
      let rev ← decodeDescending (located.revision row.1)
      let base := located.chunk row.1
      let chunk := OpenChunks.current base OpenChunk.empty opened
      let (seen, doomed) := detector.see chunk (located.tail row.1) rev row
      return ({ detector with opened := OpenChunks.put base seen opened }, doomed)

end Detector

/-! ## Runs -/

/-- A pass visits keys in their order, begins slices and may have to forget. -/
inductive DetectorCall where
  | visit (row : Row)
  | beginSlice
  | forget

def DetectorCall.row? : DetectorCall → Option Row
  | .visit row => some row
  | _ => none

/-- The rows that were visited, in order. -/
def visited (calls : List DetectorCall) : List Row := calls.filterMap DetectorCall.row?

def Detector.call (detector : Detector) : DetectorCall → Option (Detector × Option Doomed)
  | .visit row => detector.visit row
  | .beginSlice => some (detector.beginSlice, none)
  | .forget => some (detector.forget, none)

/-- The versions that a pass dooms. -/
def Detector.run : Detector → List DetectorCall → Option (List Doomed)
  | _, [] => some []
  | detector, call :: calls => do
      let (next, doomed) ← detector.call call
      let later ← next.run calls
      return doomed.toList ++ later

/-- What is left when the doomed versions are deleted. -/
def remaining (rows : List Row) (doomed : List Doomed) : List Row :=
  rows.filter fun row => row.1 ∉ doomed.map Doomed.key

/-! ## Groups in key order -/

/-- The row holds a version of the group. -/
structure HasVersion (target : GcTarget) (group : Key × Key) (row : Row) (rev : HLC) : Prop where
  fits : Fits rev
  found : ∃ located, locate target row.1 = some located ∧
    (located.chunk row.1, located.tail row.1) = group ∧
    located.revision row.1 = encodeDescending rev

/-- The newest version of the group at or below a revision. -/
structure IsVisible (target : GcTarget) (group : Key × Key) (rows : List Row) (revision : HLC)
    (row : Row) : Prop where
  stored : row ∈ rows
  newest : ∃ rev, HasVersion target group row rev ∧ rev ≤ revision ∧
    ∀ other ∈ rows, ∀ rev', HasVersion target group other rev' → rev' ≤ revision → rev' ≤ rev

section Versions

variable {target : GcTarget} {group : Key × Key} {row row' : Row} {rev rev' : HLC}

theorem HasVersion.rev_unique (version : HasVersion target group row rev)
    (again : HasVersion target group row rev') : rev = rev' := by
  obtain ⟨located, found, _, encoded⟩ := version.found
  obtain ⟨located', found', _, encoded'⟩ := again.found
  rw [found] at found'
  obtain rfl := Option.some.inj found'
  have same := congrArg decodeDescending (encoded.symm.trans encoded')
  rw [decode_encodeDescending version.fits, decode_encodeDescending again.fits] at same
  exact Option.some.inj same

theorem HasVersion.group_unique {group' : Key × Key} (version : HasVersion target group row rev)
    (again : HasVersion target group' row rev') : group = group' := by
  obtain ⟨located, found, group_eq, _⟩ := version.found
  obtain ⟨located', found', group_eq', _⟩ := again.found
  rw [found] at found'
  obtain rfl := Option.some.inj found'
  exact group_eq.symm.trans group_eq'

/-- In key order, the versions of a group descend. -/
theorem HasVersion.rev_lt (isTarget : target ∈ gcTargets)
    (version : HasVersion target group row rev)
    (version' : HasVersion target group row' rev') (before : row.1 < row'.1) : rev' < rev := by
  obtain ⟨located, found, rfl, encoded⟩ := version.found
  obtain ⟨located', found', group_eq, encoded'⟩ := version'.found
  obtain ⟨sameChunk, sameTail⟩ := Prod.mk.inj group_eq
  rw [← encodeDescending_lt_iff version.fits version'.fits, ← encoded, ← encoded']
  by_contra notLess
  rcases (not_lt.mp notLess).eq_or_lt with same | less
  · exact before.ne (key_unique isTarget found found' sameChunk.symm sameTail.symm same.symm)
  · have behind : row'.1 < row.1 := by
      rw [key_eq_parts found, key_eq_parts found', sameChunk, append_assoc, append_assoc,
        append_lt_append_left, cons_append, cons_append, ← singleton_append,
        ← singleton_append (l := located.revision row.1 ++ _), append_lt_append_left]
      exact lt_append_of_lt (by rw [length_revision found, length_revision found']) less _ _
    exact lt_asymm before behind

theorem HasVersion.key_unique (isTarget : target ∈ gcTargets)
    (version : HasVersion target group row rev) (version' : HasVersion target group row' rev) :
    row.1 = row'.1 := by
  rcases lt_trichotomy row.1 row'.1 with before | same | behind
  · exact absurd (version.rev_lt isTarget version' before) (lt_irrefl _)
  · exact same
  · exact absurd (version'.rev_lt isTarget version behind) (lt_irrefl _)

/-- A located row holds a version of its group. -/
theorem hasVersion_of_locate {located : Located} (found : locate target row.1 = some located)
    (decoded : decodeDescending (located.revision row.1) = some rev) :
    HasVersion target (located.chunk row.1, located.tail row.1) row rev := by
  obtain ⟨revision, fits, encoded, isDecoded⟩ := decode_revision found
  rw [decoded] at isDecoded
  obtain rfl := Option.some.inj isDecoded
  exact ⟨fits, located, found, rfl, encoded.symm⟩

end Versions

/-! ## What the detector remembers -/

/-- The chunk that a row lies in. -/
def chunkOf (target : GcTarget) (row : Row) : Option Key :=
  (locate target row.1).map fun located => located.chunk row.1

theorem HasVersion.chunkOf_eq {target : GcTarget} {group : Key × Key} {row : Row} {rev : HLC}
    (version : HasVersion target group row rev) : chunkOf target row = some group.1 := by
  obtain ⟨located, found, rfl, _⟩ := version.found
  rw [chunkOf, found]
  rfl

/-- The version was the last of its group that was seen, and the rows of its chunk since then were
counted. -/
structure Remembers (target : GcTarget) (done : List Row) (base tail : Key) (nextSeq : Nat)
    (newer : Newer) : Prop where
  seen : ∃ early row mid, done = early ++ row :: mid ∧ newer.key = row.1 ∧
    newer.state = .ofValue row.2 ∧ HasVersion target (base, tail) row newer.rev ∧
    (∀ other ∈ mid, ∀ rev, ¬HasVersion target (base, tail) other rev) ∧
    newer.seq + 1 + (mid.filter fun other => chunkOf target other = some base).length = nextSeq

/-- Whatever is remembered was seen. -/
structure Detector.Holds (detector : Detector) (done : List Row) : Prop where
  distinct : (detector.opened.map Prod.fst).Nodup
  remembers : ∀ base chunk, (base, chunk) ∈ detector.opened → ∀ tail newer,
    chunk.groups.lookup tail = some newer →
      Remembers detector.target done base tail chunk.nextSeq newer

/-- A doomed version and its twin: the next-older version of the group, in the same state. -/
structure Twins (detector : Detector) (rows : List Row) (key : Key) : Prop where
  next : ∃ early row mid twin late group rev rev', rows = early ++ row :: (mid ++ twin :: late) ∧
    row.1 = key ∧ HasVersion detector.target group row rev ∧
    HasVersion detector.target group twin rev' ∧
    (∀ other ∈ mid, ∀ rev, ¬HasVersion detector.target group other rev) ∧
    EntryState.ofValue row.2 = .ofValue twin.2 ∧ rev < detector.watermark ∧
    (detector.orderSensitive → ∀ other ∈ mid, chunkOf detector.target other ≠ some group.1)

section Steps

variable {target : GcTarget} {detector next : Detector} {done : List Row} {row : Row}
  {base tail : Key} {nextSeq : Nat} {newer : Newer} {doomed : Option Doomed}

/-- A row of another group is passed over, and counted in its chunk. -/
theorem Remembers.pass (remembers : Remembers target done base tail nextSeq newer) (row : Row)
    (other : ∀ rev, ¬HasVersion target (base, tail) row rev) :
    Remembers target (done ++ [row]) base tail
      (if chunkOf target row = some base then nextSeq + 1 else nextSeq) newer := by
  obtain ⟨early, last, mid, split, key_eq, state_eq, version, none_between, counted⟩ :=
    remembers.seen
  refine ⟨early, last, mid ++ [row], by rw [split]; simp, key_eq, state_eq, version, ?_, ?_⟩
  · intro later hlater
    rcases mem_append.mp hlater with inMid | isRow
    · exact none_between later inMid
    · obtain rfl := mem_singleton.mp isRow
      exact other
  · rw [filter_append, length_append, ← counted]
    by_cases here : chunkOf target row = some base <;> simp [here, Nat.add_assoc]

/-- Making room only forgets. -/
theorem lookup_makeRoom {chunk : OpenChunk} {other : Key}
    (found : (detector.makeRoom chunk tail).groups.lookup other = some newer) :
    chunk.groups.lookup other = some newer := by
  unfold Detector.makeRoom at found
  split at found
  · exact found
  · split at found
    · split at found
      · exact found
      · rename_i evicted _ _
        by_cases same : other = evicted
        · rw [same, AList.lookup_erase] at found
          cases found
        · rwa [AList.lookup_erase_ne same] at found
    · exact found

/-- What an open chunk remembers, of a chunk that is open or not. -/
theorem Detector.Holds.current (holds : detector.Holds done) (base : Key) {chunk : OpenChunk}
    (current : OpenChunks.current base OpenChunk.empty detector.opened = chunk)
    (found : chunk.groups.lookup tail = some newer) :
    Remembers detector.target done base tail chunk.nextSeq newer := by
  by_cases isOpen : base ∈ detector.opened.map Prod.fst
  · obtain ⟨⟨_, content⟩, mem, rfl⟩ := mem_map.mp isOpen
    rw [OpenChunks.current_of_mem holds.distinct mem] at current
    exact holds.remembers _ _ (current ▸ mem) tail newer found
  · rw [OpenChunks.current_of_notMem isOpen] at current
    rw [← current] at found
    cases found

/-- Leaving chunks only forgets. -/
theorem Detector.Holds.leave (holds : detector.Holds done) {opened : List (Key × OpenChunk)}
    (fewer : opened <+ detector.opened) : Detector.Holds { detector with opened := opened } done :=
  ⟨holds.distinct.sublist (fewer.map _), fun base chunk isOpen =>
    holds.remembers base chunk (fewer.subset isOpen)⟩

/-- What is doomed is followed by the version that dooms it. -/
theorem twins_of_doom (remembers : Remembers detector.target done base tail nextSeq newer)
    {rev : HLC} {verdict : Doomed} (version : HasVersion detector.target (base, tail) row rev)
    (doomed : detector.doom newer (.ofValue row.2) nextSeq = some verdict) :
    Twins detector (done ++ [row]) verdict.key := by
  obtain ⟨early, last, mid, split, key_eq, state_eq, newerVersion, none_between, counted⟩ :=
    remembers.seen
  unfold Detector.doom at doomed
  split at doomed
  · cases doomed
  · rename_i sameState
    split at doomed
    · cases doomed
    · rename_i below
      split at doomed
      · cases doomed
      · rename_i adjacent
        obtain rfl := Option.some.inj doomed
        refine ⟨early, last, mid, row, [], (base, tail), newer.rev, rev, by simp [split],
          key_eq.symm, newerVersion, version, none_between, ?_, not_le.mp below, ?_⟩
        · rw [← state_eq]
          exact not_not.mp sameState
        · intro sensitive other inMid inChunk
          have next : newer.seq + 1 = nextSeq := not_not.mp fun apart => adjacent ⟨sensitive, apart⟩
          have uncounted : (mid.filter fun other => chunkOf detector.target other = some base) =
              [] := by
            rw [← length_eq_zero_iff]
            omega
          exact filter_eq_nil_iff.mp uncounted other inMid (decide_eq_true inChunk)

/-- A version takes the place of the newer one of its group, and the others grow older. -/
theorem Detector.Holds.see (holds : detector.Holds done) {rev : HLC}
    (version : HasVersion detector.target (base, tail) row rev) :
    Detector.Holds
      { detector with
        opened := OpenChunks.put base
          (detector.see (OpenChunks.current base OpenChunk.empty detector.opened) tail rev row).1
          detector.opened }
      (done ++ [row]) := by
  refine ⟨OpenChunks.nodup_put holds.distinct, fun other chunk isOpen later newer found => ?_⟩
  rcases OpenChunks.mem_put.mp isOpen with here | ⟨elsewhere, apart⟩
  · obtain ⟨rfl, rfl⟩ := Prod.mk.inj here
    by_cases same : later = tail
    · obtain rfl := same
      rw [Detector.see, AList.lookup_insert] at found
      obtain rfl := Option.some.inj found
      exact ⟨done, row, [], rfl, rfl, rfl, version, fun _ mem => (not_mem_nil mem).elim, rfl⟩
    · rw [Detector.see, AList.lookup_insert_ne same] at found
      have before := holds.current other rfl (lookup_makeRoom found)
      have passed := before.pass row fun rev' again =>
        same (congrArg Prod.snd (again.group_unique version))
      rw [version.chunkOf_eq, if_pos rfl] at passed
      exact passed
  · have before := holds.remembers other chunk elsewhere later newer found
    have passed := before.pass row fun rev' again =>
      apart (congrArg Prod.fst (again.group_unique version))
    rw [version.chunkOf_eq, if_neg fun same => apart (Option.some.inj same).symm] at passed
    exact passed

/-- A key that is no version leaves everything as it is. -/
theorem Detector.Holds.skip (holds : detector.Holds done)
    (nowhere : locate detector.target row.1 = none) : detector.Holds (done ++ [row]) := by
  refine ⟨holds.distinct, fun base chunk isOpen tail newer found => ?_⟩
  have passed := (holds.remembers base chunk isOpen tail newer found).pass row (by
    rintro rev ⟨_, located, here, _⟩
    rw [nowhere] at here
    cases here)
  rwa [chunkOf, nowhere, Option.map_none, if_neg (by simp)] at passed

/-- What stays as it is from call to call. -/
structure SameTask (detector next : Detector) : Prop where
  target : next.target = detector.target
  watermark : next.watermark = detector.watermark
  orderSensitive : next.orderSensitive = detector.orderSensitive

/-- A key can be visited, what was seen is remembered, and what is doomed has a twin. -/
theorem Detector.Holds.visit (holds : detector.Holds done) (row : Row) :
    ∃ next doomed, detector.visit row = some (next, doomed) ∧ SameTask detector next ∧
      next.Holds (done ++ [row]) ∧
      ∀ verdict ∈ doomed, Twins detector (done ++ [row]) verdict.key := by
  have left := holds.leave (dropWhile_sublist fun chunk => !insideChunk chunk.1 row.1)
  unfold Detector.visit
  generalize (detector.opened.dropWhile fun chunk => !insideChunk chunk.1 row.1) = opened at left ⊢
  cases found : locate detector.target row.1 with
  | none =>
    exact ⟨_, none, rfl, ⟨rfl, rfl, rfl⟩, left.skip found, fun _ nothing => nomatch nothing⟩
  | some located =>
    obtain ⟨rev, _, _, decoded⟩ := decode_revision found
    have version := hasVersion_of_locate found decoded
    simp only [decoded]
    refine ⟨_, _, rfl, ?_, left.see version, ?_⟩
    · exact ⟨rfl, rfl, rfl⟩
    intro verdict isDoomed
    obtain ⟨newer, remembered, doomed⟩ := Option.bind_eq_some_iff.mp isDoomed
    exact ⟨(twins_of_doom (left.current _ rfl remembered) version doomed).next⟩

/-- Every call keeps what is known of the rows that were visited. -/
theorem Detector.Holds.call (holds : detector.Holds done) (call : DetectorCall) :
    ∃ next doomed, detector.call call = some (next, doomed) ∧ SameTask detector next ∧
      next.Holds (done ++ call.row?.toList) ∧
      ∀ verdict ∈ doomed, Twins detector (done ++ call.row?.toList) verdict.key := by
  cases call with
  | visit row => exact holds.visit row
  | beginSlice =>
    refine ⟨_, none, rfl, ⟨rfl, rfl, rfl⟩, ?_, fun _ nothing => nomatch nothing⟩
    have same : done ++ DetectorCall.beginSlice.row?.toList = done := append_nil done
    rw [same]
    exact ⟨holds.distinct, holds.remembers⟩
  | forget =>
    exact ⟨_, none, rfl, ⟨rfl, rfl, rfl⟩,
      ⟨nodup_nil, fun _ _ isOpen => (not_mem_nil isOpen).elim⟩,
      fun _ nothing => nomatch nothing⟩

/-- More rows behind do not part twins. -/
theorem Twins.extend {rows : List Row} {key : Key} (twins : Twins detector rows key)
    (behind : List Row) : Twins detector (rows ++ behind) key := by
  obtain ⟨early, row, mid, twin, late, group, rev, rev', split, others⟩ := twins.next
  exact ⟨early, row, mid, twin, late ++ behind, group, rev, rev', by simp [split], others⟩

/-- A pass dooms versions that have a twin. -/
theorem Detector.Holds.run (holds : detector.Holds done) (calls : List DetectorCall) :
    ∃ doomed, detector.run calls = some doomed ∧
      ∀ verdict ∈ doomed, Twins detector (done ++ visited calls) verdict.key := by
  induction calls generalizing detector done with
  | nil => exact ⟨[], rfl, fun _ nothing => (not_mem_nil nothing).elim⟩
  | cons call calls ih =>
    obtain ⟨next, first, called, task, after, firstTwins⟩ := holds.call call
    obtain ⟨later, ran, laterTwins⟩ := ih after
    have rows_eq : done ++ visited (call :: calls) =
        done ++ call.row?.toList ++ visited calls := by
      rw [visited, filterMap_cons]
      cases call.row? <;> simp [visited]
    refine ⟨first.toList ++ later, by rw [Detector.run, called]; simp [ran], ?_⟩
    intro verdict mem
    rw [rows_eq]
    rcases mem_append.mp mem with inFirst | inLater
    · exact (firstTwins verdict (Option.mem_toList.mp inFirst)).extend _
    · obtain ⟨early, row, mid, twin, late, group, rev, rev', split, key_eq, version, twinVersion,
        others⟩ := (laterTwins verdict inLater).next
      rw [task.target, task.watermark, task.orderSensitive] at *
      exact ⟨early, row, mid, twin, late, group, rev, rev', split, key_eq, version, twinVersion,
        others⟩

end Steps

/-! ## What readers see -/

section Answers

variable {detector : Detector} {rows : List Row} {doomed : List Doomed} {group : Key × Key}
  {row heir : Row} {rev : HLC}

/-- The version that answers for a row when the doomed ones are gone. -/
structure IsHeir (detector : Detector) (rows : List Row) (doomed : List Doomed)
    (group : Key × Key) (row : Row) (rev : HLC) (heir : Row) (older : HLC) : Prop where
  remains : heir ∈ remaining rows doomed
  version : HasVersion detector.target group heir older
  older_le : older ≤ rev
  sameState : EntryState.ofValue heir.2 = .ofValue row.2
  newest : ∀ other ∈ remaining rows doomed, ∀ rev', HasVersion detector.target group other rev' →
    rev' ≤ rev → rev' ≤ older
  /-- In key order it stands where the row stood, among the other groups of the chunk. -/
  stands : detector.orderSensitive → ∀ other ∈ rows, chunkOf detector.target other = some group.1 →
    (∀ rev', ¬HasVersion detector.target group other rev') → (other.1 < row.1 ↔ other.1 < heir.1)

theorem mem_remaining : row ∈ remaining rows doomed ↔
    row ∈ rows ∧ row.1 ∉ doomed.map Doomed.key := by
  rw [remaining, mem_filter, decide_eq_true_eq]

/-- A version that nothing dooms answers for itself. -/
theorem isHeir_self (stored : row ∈ rows) (kept : row.1 ∉ doomed.map Doomed.key)
    (version : HasVersion detector.target group row rev) :
    IsHeir detector rows doomed group row rev row rev where
  remains := mem_remaining.mpr ⟨stored, kept⟩
  version := version
  older_le := le_refl _
  sameState := rfl
  newest _ _ _ _ below := below
  stands _ _ _ _ _ := Iff.rfl

/-- In key order, a twin stands behind its version, and no version of the group between them. -/
structure FollowedBy (detector : Detector) (rows : List Row) (row twin : Row) (group : Key × Key) :
    Prop where
  stored : row ∈ rows
  twinStored : twin ∈ rows
  before : row.1 < twin.1
  noneBetween : ∀ other ∈ rows, row.1 < other.1 → other.1 < twin.1 →
    ∀ rev, ¬HasVersion detector.target group other rev
  alone : detector.orderSensitive → ∀ other ∈ rows, row.1 < other.1 → other.1 < twin.1 →
    chunkOf detector.target other ≠ some group.1

/-- A row between two rows of a sorted list stands between them. -/
theorem mem_between {early mid late : List Row} {first second other : Row}
    (sorted : (early ++ first :: (mid ++ second :: late)).Pairwise fun one two => one.1 < two.1)
    (mem : other ∈ early ++ first :: (mid ++ second :: late)) (after : first.1 < other.1)
    (before : other.1 < second.1) : other ∈ mid := by
  obtain ⟨_, tailSorted, earlyBefore⟩ := pairwise_append.mp sorted
  obtain ⟨_, midSorted⟩ := pairwise_cons.mp tailSorted
  obtain ⟨_, lateSorted, _⟩ := pairwise_append.mp midSorted
  obtain ⟨secondBefore, _⟩ := pairwise_cons.mp lateSorted
  rcases mem_append.mp mem with inEarly | mem
  · exact absurd after (lt_asymm (earlyBefore other inEarly first mem_cons_self))
  rcases mem_cons.mp mem with rfl | mem
  · exact absurd after (lt_irrefl _)
  rcases mem_append.mp mem with inMid | mem
  · exact inMid
  rcases mem_cons.mp mem with rfl | inLate
  · exact absurd before (lt_irrefl _)
  · exact absurd before (lt_asymm (secondBefore other inLate))

theorem Twins.followedBy {key : Key} (twins : Twins detector rows key)
    (sorted : rows.Pairwise fun first second => first.1 < second.1) :
    ∃ row twin group rev rev', FollowedBy detector rows row twin group ∧ row.1 = key ∧
      HasVersion detector.target group row rev ∧ HasVersion detector.target group twin rev' ∧
      EntryState.ofValue row.2 = .ofValue twin.2 ∧ rev < detector.watermark := by
  obtain ⟨early, row, mid, twin, late, group, rev, rev', rfl, key_eq, version, twinVersion,
    noneBetween, sameState, below, alone⟩ := twins.next
  obtain ⟨_, tailSorted, _⟩ := pairwise_append.mp sorted
  refine ⟨row, twin, group, rev, rev', ⟨by simp, by simp, ?_, ?_, ?_⟩, key_eq, version, twinVersion,
    sameState, below⟩
  · exact (pairwise_cons.mp tailSorted).1 twin (by simp)
  · intro other mem after before
    exact noneBetween other (mem_between sorted mem after before)
  · intro sensitive other mem after before
    exact alone sensitive other (mem_between sorted mem after before)

theorem row_eq_of_key {other : Row} (sorted : rows.Pairwise fun first second => first.1 < second.1)
    (mem : row ∈ rows) (mem' : other ∈ rows) (same : row.1 = other.1) : row = other := by
  have distinct : (rows.map Prod.fst).Nodup := pairwise_map.mpr (sorted.imp fun less => less.ne)
  exact inj_on_of_nodup_map distinct mem mem' same

/-- Fewer rows lie behind the twin. -/
theorem FollowedBy.fewer {twin : Row} (follows : FollowedBy detector rows row twin group) :
    (rows.filter fun other => twin.1 < other.1).length <
      (rows.filter fun other => row.1 < other.1).length := by
  have nested : (rows.filter fun other => twin.1 < other.1) =
      (rows.filter fun other => row.1 < other.1).filter fun other => twin.1 < other.1 := by
    rw [filter_filter]
    refine filter_congr fun other _ => ?_
    by_cases behind : twin.1 < other.1
    · simp [behind, follows.before.trans behind]
    · simp [behind]
  rw [nested, length_filter_lt_length_iff_exists]
  exact ⟨twin, by simp [follows.twinStored, follows.before], by simp⟩

/-- The heir of the twin is the heir of a doomed version. -/
theorem FollowedBy.isHeir {twin : Row} {rev' older : HLC} (isTarget : detector.target ∈ gcTargets)
    (sorted : rows.Pairwise fun first second => first.1 < second.1)
    (follows : FollowedBy detector rows row twin group)
    (version : HasVersion detector.target group row rev)
    (twinVersion : HasVersion detector.target group twin rev')
    (sameState : EntryState.ofValue row.2 = .ofValue twin.2)
    (isDoomed : row.1 ∈ doomed.map Doomed.key)
    (isHeir : IsHeir detector rows doomed group twin rev' heir older) :
    IsHeir detector rows doomed group row rev heir older := by
  have descends := version.rev_lt isTarget twinVersion follows.before
  refine ⟨isHeir.remains, isHeir.version, isHeir.older_le.trans descends.le,
    isHeir.sameState.trans sameState.symm, ?_, ?_⟩
  · intro other remains revision otherVersion below
    obtain ⟨stored, kept⟩ := mem_remaining.mp remains
    refine isHeir.newest other remains revision otherVersion ?_
    -- the other version is not the row, so it lies behind it, and not before the twin
    have apart : revision ≠ rev := by
      rintro rfl
      exact kept (otherVersion.key_unique isTarget version ▸ isDoomed)
    by_contra newer
    have behindRow : row.1 < other.1 := by
      rcases lt_trichotomy row.1 other.1 with behind | same | ahead
      · exact behind
      · exact absurd (same ▸ isDoomed) kept
      · exact absurd (otherVersion.rev_lt isTarget version ahead) (not_lt.mpr below)
    have beforeTwin : other.1 < twin.1 := by
      rcases lt_trichotomy other.1 twin.1 with ahead | same | behind
      · exact ahead
      · obtain rfl := row_eq_of_key sorted stored follows.twinStored same
        exact absurd (otherVersion.rev_unique twinVersion).le newer
      · exact absurd (twinVersion.rev_lt isTarget otherVersion behind)
          (not_lt.mpr (not_le.mp newer).le)
    exact follows.noneBetween other stored behindRow beforeTwin revision otherVersion
  · intro sensitive other stored inChunk elsewhere
    rw [← isHeir.stands sensitive other stored inChunk elsewhere]
    constructor
    · exact fun ahead => ahead.trans follows.before
    · intro ahead
      rcases lt_trichotomy other.1 row.1 with before | same | behind
      · exact before
      · obtain rfl := row_eq_of_key sorted stored follows.stored same
        exact absurd version (elsewhere rev)
      · exact absurd inChunk (follows.alone sensitive other stored behind ahead)

/-- Every version has an heir: its twin's, if it is doomed. -/
theorem exists_heir (isTarget : detector.target ∈ gcTargets)
    (sorted : rows.Pairwise fun first second => first.1 < second.1)
    (twins : ∀ verdict ∈ doomed, Twins detector rows verdict.key) (stored : row ∈ rows)
    (version : HasVersion detector.target group row rev) :
    ∃ heir older, IsHeir detector rows doomed group row rev heir older := by
  -- by induction on how many rows lie behind the row
  induction count_eq : (rows.filter fun other => row.1 < other.1).length
    using Nat.strong_induction_on generalizing row rev with
  | _ count ih =>
    by_cases isDoomed : row.1 ∈ doomed.map Doomed.key
    case neg => exact ⟨row, rev, isHeir_self stored isDoomed version⟩
    obtain ⟨verdict, hverdict, key_eq⟩ := mem_map.mp isDoomed
    obtain ⟨first, twin, group', rev', older, follows, sameKey, version', twinVersion, sameState,
      _⟩ := (twins verdict hverdict).followedBy sorted
    obtain rfl := row_eq_of_key sorted follows.stored stored (sameKey.trans key_eq)
    obtain rfl := version'.group_unique version
    obtain rfl := version'.rev_unique version
    obtain ⟨heir, oldest, isHeir⟩ :=
      ih _ (count_eq ▸ follows.fewer) follows.twinStored twinVersion rfl
    exact ⟨heir, oldest,
      follows.isHeir isTarget sorted version twinVersion sameState isDoomed isHeir⟩

theorem IsVisible.cons {target : GcTarget} {first : Row} {rows : List Row} {revision : HLC}
    (visible : IsVisible target group rows revision row)
    (older : ∀ rev rev', HasVersion target group row rev → HasVersion target group first rev' →
      rev' ≤ revision → rev' ≤ rev) :
    IsVisible target group (first :: rows) revision row := by
  obtain ⟨rev, version, below, newest⟩ := visible.newest
  refine ⟨mem_cons_of_mem _ visible.stored, rev, version, below, fun other mem rev' version' => ?_⟩
  rcases mem_cons.mp mem with rfl | mem
  · exact older rev rev' version version'
  · exact newest other mem rev' version'

/-- Among rows that hold a version there is one that holds the newest. -/
theorem exists_newest {target : GcTarget} {rows : List Row} {revision : HLC}
    (stored : row ∈ rows) (version : HasVersion target group row rev) (below : rev ≤ revision) :
    ∃ newest, IsVisible target group rows revision newest := by
  induction rows generalizing row rev with
  | nil => cases stored
  | cons first others ih =>
    by_cases inOthers :
        ∃ other ∈ others, ∃ rev, HasVersion target group other rev ∧ rev ≤ revision
    · obtain ⟨other, mem, older, otherVersion, otherBelow⟩ := inOthers
      obtain ⟨newest, visible⟩ := ih mem otherVersion otherBelow
      by_cases newer : ∃ rev rev', HasVersion target group newest rev ∧
          HasVersion target group first rev' ∧ rev' ≤ revision ∧ rev < rev'
      · obtain ⟨rev, rev', newestVersion, firstVersion, firstBelow, less⟩ := newer
        obtain ⟨top, topVersion, _, isTop⟩ := visible.newest
        obtain rfl := topVersion.rev_unique newestVersion
        refine ⟨first, mem_cons_self, rev', firstVersion, firstBelow, fun later mem' => ?_⟩
        intro laterRev laterVersion laterBelow
        rcases mem_cons.mp mem' with rfl | mem'
        · exact (laterVersion.rev_unique firstVersion).le
        · exact (isTop later mem' laterRev laterVersion laterBelow).trans less.le
      · refine ⟨newest, visible.cons fun rev rev' newestVersion firstVersion firstBelow => ?_⟩
        by_contra less
        exact newer ⟨rev, rev', newestVersion, firstVersion, firstBelow, not_le.mp less⟩
    · have isFirst : row = first := by
        rcases mem_cons.mp stored with same | mem
        · exact same
        · exact absurd ⟨row, mem, rev, version, below⟩ inOthers
      refine ⟨row, stored, rev, version, below, fun other mem rev' version' below' => ?_⟩
      rcases mem_cons.mp mem with same | mem
      · rw [same, ← isFirst] at version'
        exact (version'.rev_unique version).le
      · exact absurd ⟨other, mem, rev', version', below'⟩ inOthers

/-- What the group shows at a revision. -/
def Shows (target : GcTarget) (group : Key × Key) (rows : List Row) (revision : HLC)
    (state : EntryState) : Prop :=
  ∃ row, IsVisible target group rows revision row ∧ EntryState.ofValue row.2 = state

/-- The heir of the visible version is visible. -/
theorem IsHeir.visible {revision : HLC}
    (visible : IsVisible detector.target group rows revision row)
    (version : HasVersion detector.target group row rev) {older : HLC}
    (isHeir : IsHeir detector rows doomed group row rev heir older) :
    IsVisible detector.target group (remaining rows doomed) revision heir := by
  obtain ⟨top, topVersion, below, newest⟩ := visible.newest
  obtain rfl := topVersion.rev_unique version
  refine ⟨isHeir.remains, older, isHeir.version, isHeir.older_le.trans below, ?_⟩
  intro other remains rev' otherVersion otherBelow
  exact isHeir.newest other remains rev' otherVersion
    (newest other (mem_remaining.mp remains).1 rev' otherVersion otherBelow)

/-- A group has one visible version. -/
theorem IsVisible.unique {target : GcTarget} {revision : HLC} {other : Row}
    (isTarget : target ∈ gcTargets)
    (sorted : rows.Pairwise fun first second => first.1 < second.1)
    (visible : IsVisible target group rows revision row)
    (again : IsVisible target group rows revision other) : row = other := by
  obtain ⟨rev, version, below, newest⟩ := visible.newest
  obtain ⟨rev', version', below', newest'⟩ := again.newest
  obtain rfl := le_antisymm (newest' row visible.stored rev version below)
    (newest other again.stored rev' version' below')
  exact row_eq_of_key sorted visible.stored again.stored (version.key_unique isTarget version')

/-- No group shows anything else when the doomed versions are gone. -/
theorem shows_remaining (isTarget : detector.target ∈ gcTargets)
    (sorted : rows.Pairwise fun first second => first.1 < second.1)
    (twins : ∀ verdict ∈ doomed, Twins detector rows verdict.key) (revision : HLC)
    (state : EntryState) :
    Shows detector.target group rows revision state ↔
      Shows detector.target group (remaining rows doomed) revision state := by
  constructor
  · rintro ⟨row, visible, rfl⟩
    obtain ⟨rev, version, _⟩ := visible.newest
    obtain ⟨heir, older, isHeir⟩ := exists_heir isTarget sorted twins visible.stored version
    exact ⟨heir, isHeir.visible visible version, isHeir.sameState⟩
  · rintro ⟨left, visibleAfter, rfl⟩
    obtain ⟨rev, version, below, _⟩ := visibleAfter.newest
    obtain ⟨newest, visible⟩ :=
      exists_newest (mem_remaining.mp visibleAfter.stored).1 version below
    obtain ⟨rev', version', _⟩ := visible.newest
    obtain ⟨heir, older, isHeir⟩ := exists_heir isTarget sorted twins visible.stored version'
    have same : heir = left := (isHeir.visible visible version').unique isTarget
      (sorted.sublist filter_sublist) visibleAfter
    exact ⟨newest, visible, same ▸ isHeir.sameState.symm⟩

/-- Two groups of a chunk whose versions lie in key order. -/
theorem order_remaining (isTarget : detector.target ∈ gcTargets)
    (sorted : rows.Pairwise fun first second => first.1 < second.1)
    (twins : ∀ verdict ∈ doomed, Twins detector rows verdict.key)
    (sensitive : detector.orderSensitive) {base tail tail' : Key} (apart : tail ≠ tail')
    {revision : HLC} {row' left left' : Row}
    (visible : IsVisible detector.target (base, tail) rows revision row)
    (visible' : IsVisible detector.target (base, tail') rows revision row')
    (after : IsVisible detector.target (base, tail) (remaining rows doomed) revision left)
    (after' : IsVisible detector.target (base, tail') (remaining rows doomed) revision left') :
    row.1 < row'.1 ↔ left.1 < left'.1 := by
  obtain ⟨rev, version, _⟩ := visible.newest
  obtain ⟨rev', version', _⟩ := visible'.newest
  obtain ⟨heir, older, isHeir⟩ := exists_heir isTarget sorted twins visible.stored version
  obtain ⟨heir', older', isHeir'⟩ := exists_heir isTarget sorted twins visible'.stored version'
  have sortedAfter : (remaining rows doomed).Pairwise fun first second => first.1 < second.1 :=
    sorted.sublist filter_sublist
  obtain rfl := (isHeir.visible visible version).unique isTarget sortedAfter after
  obtain rfl := (isHeir'.visible visible' version').unique isTarget sortedAfter after'
  have heirStored : heir ∈ rows := (mem_remaining.mp isHeir.remains).1
  -- the other group's version stands where it stood, first before the row and then before its heir
  have first := isHeir.stands sensitive row' visible'.stored version'.chunkOf_eq
    fun _ again => apart (congrArg Prod.snd (again.group_unique version'))
  have second := isHeir'.stands sensitive heir heirStored isHeir.version.chunkOf_eq
    fun _ again => apart.symm (congrArg Prod.snd (again.group_unique isHeir.version))
  have different : ∀ {row row' : Row} {rev rev' : HLC}, row ∈ rows → row' ∈ rows →
      HasVersion detector.target (base, tail) row rev →
      HasVersion detector.target (base, tail') row' rev' → row.1 ≠ row'.1 := by
    intro row row' rev rev' stored stored' version version' same
    obtain rfl := row_eq_of_key sorted stored stored' same
    exact apart (congrArg Prod.snd (version.group_unique version'))
  have one := different visible.stored visible'.stored version version'
  have two := different heirStored visible'.stored isHeir.version version'
  rw [← second]
  constructor
  · intro before
    exact lt_of_le_of_ne (not_lt.mp fun behind => lt_asymm before (first.mpr behind)) two
  · intro before
    exact lt_of_le_of_ne (not_lt.mp fun behind => lt_asymm before (first.mp behind)) one

end Answers

/-- The versions that a pass dooms are redundant: every group shows the same at every revision,
nothing promised is deleted, the oldest version of a group survives, and the groups of a chunk
stay in their order. -/
theorem collapse_is_lossless {target : GcTarget} (isTarget : target ∈ gcTargets) (watermark : HLC)
    (maxGroups : Nat) (calls : List DetectorCall)
    (sorted : (visited calls).Pairwise fun first second => first.1 < second.1) :
    ∃ doomed, (Detector.new target watermark maxGroups).run calls = some doomed ∧
      (∀ group revision state, Shows target group (visited calls) revision state ↔
        Shows target group (remaining (visited calls) doomed) revision state) ∧
      (∀ verdict ∈ doomed, ∃ row ∈ visited calls, ∃ group rev, row.1 = verdict.key ∧
        HasVersion target group row rev ∧ rev < watermark) ∧
      (∀ group, ∀ row ∈ visited calls, ∀ rev, HasVersion target group row rev →
        (∀ other ∈ visited calls, ∀ rev', HasVersion target group other rev' → rev ≤ rev') →
          row ∈ remaining (visited calls) doomed) ∧
      (target.cf = .branch .orderedChildren → ∀ base tail tail', tail ≠ tail' →
        ∀ revision row row' left left', IsVisible target (base, tail) (visited calls) revision row →
          IsVisible target (base, tail') (visited calls) revision row' →
          IsVisible target (base, tail) (remaining (visited calls) doomed) revision left →
          IsVisible target (base, tail') (remaining (visited calls) doomed) revision left' →
            (row.1 < row'.1 ↔ left.1 < left'.1)) := by
  have began : (Detector.new target watermark maxGroups).Holds [] :=
    ⟨nodup_nil, fun _ _ isOpen => (not_mem_nil isOpen).elim⟩
  obtain ⟨doomed, ran, twins⟩ := began.run calls
  rw [nil_append] at twins
  refine ⟨doomed, ran, ?_, ?_, ?_, ?_⟩
  · intro group revision state
    exact shows_remaining isTarget sorted twins revision state
  · intro verdict mem
    obtain ⟨row, twin, group, rev, _, follows, key_eq, version, _, _, below⟩ :=
      (twins verdict mem).followedBy sorted
    exact ⟨row, follows.stored, group, rev, key_eq, version, below⟩
  · intro group row stored rev version oldest
    refine mem_remaining.mpr ⟨stored, fun isDoomed => ?_⟩
    obtain ⟨verdict, mem, same⟩ := mem_map.mp isDoomed
    obtain ⟨first, twin, group', rev', older, follows, key_eq, version', twinVersion, _⟩ :=
      (twins verdict mem).followedBy sorted
    obtain rfl := row_eq_of_key sorted follows.stored stored (key_eq.trans same)
    obtain rfl := version'.group_unique version
    obtain rfl := version'.rev_unique version
    exact absurd (version.rev_lt isTarget twinVersion follows.before)
      (not_lt.mpr (oldest twin follows.twinStored older twinVersion))
  · intro isChildren base tail tail' apart revision row row' left left' visible visible' after
      after'
    exact order_remaining isTarget sorted twins (decide_eq_true isChildren) apart visible visible'
      after after'

/-! ## Two ordered children -/

def orderedTarget : GcTarget :=
  ⟨.branch .orderedChildren, true, [tagged 4 "ordered" (.beforeTrailing 1)], false⟩

def orderedKey (revision : HLC) (child : String) : Key :=
  (BranchKey.orderedChild "docs" "home" "a" revision child).bytes "acme" "web" "main"

def orderedChunk : Key :=
  build [utf8Bytes "acme", utf8Bytes "web", utf8Bytes "main", utf8Bytes "docs",
    utf8Bytes "ordered", utf8Bytes "home", utf8Bytes "a"]

/-- The first child was put into place again and again, the second one once in between. -/
def orderedCalls : List DetectorCall :=
  [.visit (orderedKey ⟨7, 0⟩ "page-1", utf8Bytes "intro"),
    .beginSlice,
    .visit (orderedKey ⟨5, 0⟩ "page-1", utf8Bytes "intro"),
    .visit (orderedKey ⟨4, 0⟩ "page-2", utf8Bytes "usage"),
    .visit (orderedKey ⟨3, 0⟩ "page-1", utf8Bytes "intro")]

theorem ordered_children_collapse :
    ∃ doomed, (Detector.new orderedTarget ⟨9, 0⟩ 2).run orderedCalls = some doomed ∧
      (Shows orderedTarget (orderedChunk, utf8Bytes "page-1") (visited orderedCalls) ⟨6, 0⟩
          (.live (utf8Bytes "intro")) ↔
        Shows orderedTarget (orderedChunk, utf8Bytes "page-1")
          (remaining (visited orderedCalls) doomed) ⟨6, 0⟩ (.live (utf8Bytes "intro"))) := by
  have isTarget : orderedTarget ∈ gcTargets := by decide
  have sorted : (visited orderedCalls).Pairwise fun first second => first.1 < second.1 := by
    decide +kernel
  obtain ⟨doomed, ran, shows, _⟩ := collapse_is_lossless isTarget ⟨9, 0⟩ 2 orderedCalls sorted
  exact ⟨doomed, ran, shows _ _ _⟩

end RaisinDB.History
