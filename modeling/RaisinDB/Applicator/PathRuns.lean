import RaisinDB.Applicator.PathIndex
import RaisinDB.Foundation.Machine

/-!
# The path index along a run

The index follows the versions as long as no version arrives below a tombstone
that was written for another claim.  Then the order of arrival leaves no trace.
-/

namespace RaisinDB.Applicator

open RaisinDB.Clock RaisinDB.Foundation RaisinDB.Replication List

/-! ## Tombstones say which claims have ended -/

namespace Holds

variable {applied : List NodeUpsert} {workspace : Workspace}

theorem readPath_live (holds : Holds applied workspace) {path value : String}
    {bound revision : HLC}
    (found : workspace.pathIndex.newestAtOrBefore path bound = some (revision, value))
    (live : isTombstoneValue value = false) :
    ∃ claim, IsLastClaim applied path bound claim ∧ claim.revision = revision ∧
      claim.node.id = value := by
  obtain ⟨below, stored, newest⟩ := VersionedStore.newestAtOrBefore_eq_some_iff.mp found
  obtain ⟨claim, hclaim, rfl, rfl, rfl⟩ := holds.live stored live
  refine ⟨claim, ⟨hclaim, rfl, below, fun other hother claims within => ?_⟩, rfl, rfl⟩
  by_contra after
  have absent := newest other.revision (not_le.mp after) within
  rw [← claims, holds.claims other hother] at absent
  cases absent

theorem not_current {bound : HLC} {claim : NodeUpsert}
    (left : ¬ IsCurrent applied bound claim) :
    ∃ other ∈ applied, other.node.id = claim.node.id ∧ other.revision ≤ bound ∧
      claim.revision < other.revision := by
  by_contra none
  refine left fun other hother same within => not_lt.mp fun after => ?_
  exact none ⟨other, hother, same, within, after⟩

theorem noneSpurious (follows : FollowsVersions applied workspace) : NoneSpurious applied workspace := by
  intro path ended stored
  have found : workspace.pathIndex.newestAtOrBefore path ended = some (ended, tombstone) :=
    VersionedStore.newestAtOrBefore_eq_some_iff.mpr
      ⟨le_refl ended, stored, fun later after within => absurd within (not_le.mpr after)⟩
  have reading := follows path ended
  rw [Workspace.readPath, found] at reading
  exact reading

theorem allEnded (holds : Holds applied workspace)
    (follows : FollowsVersions applied workspace) : AllEnded applied workspace := by
  intro path bound claim last left
  have reading : workspace.readPath path bound = .ended :=
    (follows path bound).unique holds.distinct ⟨claim, last, left⟩
  have claimed : workspace.pathIndex.get path claim.revision = some claim.node.id :=
    last.claims ▸ holds.claims claim last.mem
  obtain ⟨ended, value, found, after⟩ :=
    VersionedStore.exists_newestAtOrBefore (by rw [claimed]; rfl) last.below
  obtain ⟨below, stored, _⟩ := VersionedStore.newestAtOrBefore_eq_some_iff.mp found
  have reads : isTombstoneValue value = true := by
    by_contra live
    rw [Workspace.readPath, found] at reading
    simp [live] at reading
  obtain rfl := holds.ended stored reads
  refine ⟨ended, lt_of_le_of_ne after fun same => ?_, below, stored⟩
  rw [← same, claimed] at stored
  exact ne_tombstone (holds.named claim last.mem) (Option.some.inj stored)

theorem follows (holds : Holds applied workspace) (spurious : NoneSpurious applied workspace)
    (ended : AllEnded applied workspace) : FollowsVersions applied workspace := by
  intro path bound
  rw [Workspace.readPath]
  cases found : workspace.pathIndex.newestAtOrBefore path bound with
  | none =>
    intro claim hclaim claims below
    have absent := VersionedStore.newestAtOrBefore_eq_none_iff.mp found claim.revision below
    rw [← claims, holds.claims claim hclaim] at absent
    cases absent
  | some entry =>
    obtain ⟨revision, value⟩ := entry
    obtain ⟨below, stored, newest⟩ := VersionedStore.newestAtOrBefore_eq_some_iff.mp found
    dsimp only
    cases reads : isTombstoneValue value with
    | true =>
      obtain rfl := holds.ended stored reads
      obtain ⟨claim, last, left⟩ := spurious path revision stored
      refine ⟨claim, last.later below fun other hother claims after within => ?_,
        fun current => left (current.earlier below)⟩
      have absent := newest other.revision after within
      rw [← claims, holds.claims other hother] at absent
      cases absent
    | false =>
      obtain ⟨claim, last, rfl, rfl⟩ := holds.readPath_live found reads
      refine ⟨claim, last, ?_, rfl⟩
      by_contra left
      obtain ⟨later, after, within, stored⟩ := ended path bound claim last left
      rw [newest later after within] at stored
      cases stored

/-! ## Neighbouring versions -/

theorem newest (holds : Holds applied workspace) {id : String} {bound : HLC}
    {found : HLC × ReplicatedNode} :
    workspace.loadNodeReplacedBy id bound = some found ↔
      ∃ version ∈ applied, version.node.id = id ∧ found = (version.revision, version.node) ∧
        version.revision ≤ bound ∧ IsCurrent applied bound version := by
  rw [Workspace.loadNodeReplacedBy, Option.bind_eq_some_iff]
  constructor
  · rintro ⟨⟨revision, record⟩, read, mapped⟩
    obtain ⟨below, stored, newest⟩ := VersionedStore.newestAtOrBefore_eq_some_iff.mp read
    obtain ⟨version, hversion, rfl, rfl, rfl⟩ := (holds.records _ _ _).mp stored
    refine ⟨version, hversion, rfl, (Option.some.inj mapped).symm, below, ?_⟩
    intro other hother same within
    by_contra after
    have absent := newest other.revision (not_le.mp after) within
    rw [(holds.records _ _ _).mpr ⟨other, hother, same, rfl, rfl⟩] at absent
    cases absent
  · rintro ⟨version, hversion, rfl, rfl, below, current⟩
    refine ⟨(version.revision, some version.node),
      VersionedStore.newestAtOrBefore_eq_some_iff.mpr ⟨below, ?_, fun later after within => ?_⟩,
      rfl⟩
    · exact (holds.records _ _ _).mpr ⟨version, hversion, rfl, rfl, rfl⟩
    · cases stored : workspace.nodes.get version.node.id later with
      | none => rfl
      | some record =>
        obtain ⟨other, hother, same, rfl, _⟩ := (holds.records _ _ _).mp stored
        exact absurd (current other hother same within) (not_le.mpr after)

theorem oldest (holds : Holds applied workspace) {id : String} {bound revision : HLC}
    {record : Option ReplicatedNode}
    (read : workspace.loadNodeAfter id bound = some (revision, record)) :
    ∃ version ∈ applied, version.node.id = id ∧ version.revision = revision ∧
      record = some version.node ∧ bound < version.revision ∧
      ∀ other ∈ applied, other.node.id = id → bound < other.revision →
        version.revision ≤ other.revision := by
  obtain ⟨above, stored, oldest⟩ := VersionedStore.oldestAfter_eq_some_iff.mp read
  obtain ⟨version, hversion, rfl, rfl, rfl⟩ := (holds.records _ _ _).mp stored
  refine ⟨version, hversion, rfl, rfl, rfl, above, fun other hother same after => ?_⟩
  by_contra before
  have absent := oldest other.revision after (not_le.mp before)
  rw [(holds.records _ _ _).mpr ⟨other, hother, same, rfl, rfl⟩] at absent
  cases absent

end Holds

/-! ## What an upsert writes -/

section Write

variable (workspace : Workspace) (upsert : NodeUpsert)

/-- The upsert ends this path, which its node leaves. -/
def Replaces (path : String) : Prop :=
  ∃ found old, workspace.loadNodeReplacedBy upsert.node.id upsert.revision = some (found, old) ∧
    old.path = path ∧ path ≠ upsert.node.path ∧
    workspace.pathOwnedAt path old.id upsert.revision = true

/-- The upsert ends its own path at the revision of the next version of its node. -/
def Superseded (revision : HLC) : Prop :=
  ∃ newer, workspace.loadNodeAfter upsert.node.id upsert.revision = some (revision, newer) ∧
    newer.map ReplicatedNode.path ≠ some upsert.node.path ∧
    workspace.pathEntryWouldBeLive upsert.node upsert.revision revision = true

variable {workspace upsert}

theorem Superseded.above {revision : HLC} (superseded : Superseded workspace upsert revision) :
    upsert.revision < revision := by
  obtain ⟨newer, read, _, _⟩ := superseded
  exact (VersionedStore.oldestAfter_eq_some_iff.mp read).1

theorem endReplacedPath_put {path : String} (replaces : Replaces workspace upsert path) :
    workspace.endReplacedPath upsert =
      workspace.pathIndex.put path upsert.revision tombstone := by
  obtain ⟨found, old, read, rfl, moved, owned⟩ := replaces
  rw [Workspace.endReplacedPath, read]
  exact if_pos ⟨moved, owned⟩

theorem endReplacedPath_other (stays : ∀ path, ¬ Replaces workspace upsert path) :
    workspace.endReplacedPath upsert = workspace.pathIndex := by
  rw [Workspace.endReplacedPath]
  cases read : workspace.loadNodeReplacedBy upsert.node.id upsert.revision with
  | none => rfl
  | some entry =>
    obtain ⟨found, old⟩ := entry
    exact if_neg fun both => stays old.path ⟨found, old, read, rfl, both⟩

theorem tombstoneSupersededByNewer_put {revision : HLC}
    (superseded : Superseded workspace upsert revision)
    (index : VersionedStore String HLC String) :
    workspace.tombstoneSupersededByNewer upsert index =
      index.put upsert.node.path revision tombstone := by
  obtain ⟨newer, read, moved, live⟩ := superseded
  rw [Workspace.tombstoneSupersededByNewer, read]
  exact if_pos ⟨moved, live⟩

theorem tombstoneSupersededByNewer_other
    (stays : ∀ revision, ¬ Superseded workspace upsert revision)
    (index : VersionedStore String HLC String) :
    workspace.tombstoneSupersededByNewer upsert index = index := by
  rw [Workspace.tombstoneSupersededByNewer]
  cases read : workspace.loadNodeAfter upsert.node.id upsert.revision with
  | none => rfl
  | some entry =>
    obtain ⟨newerRev, newer⟩ := entry
    exact if_neg fun both => stays newerRev ⟨newer, read, both⟩

theorem get_endReplacedPath {path : String} {revision : HLC}
    (kept : ¬ (revision = upsert.revision ∧ Replaces workspace upsert path)) :
    (workspace.endReplacedPath upsert).get path revision =
      workspace.pathIndex.get path revision := by
  by_cases ends : ∃ path, Replaces workspace upsert path
  · obtain ⟨old, replaces⟩ := ends
    rw [endReplacedPath_put replaces]
    refine VersionedStore.get_put_other _ (fun same => kept ?_) _
    obtain ⟨rfl, rfl⟩ := Prod.mk.inj same
    exact ⟨rfl, replaces⟩
  · rw [endReplacedPath_other fun path replaces => ends ⟨path, replaces⟩]

theorem get_tombstoneSupersededByNewer {path : String} {revision : HLC}
    (kept : ¬ (path = upsert.node.path ∧ Superseded workspace upsert revision))
    (index : VersionedStore String HLC String) :
    (workspace.tombstoneSupersededByNewer upsert index).get path revision =
      index.get path revision := by
  by_cases ends : ∃ revision, Superseded workspace upsert revision
  · obtain ⟨newerRev, superseded⟩ := ends
    rw [tombstoneSupersededByNewer_put superseded]
    refine VersionedStore.get_put_other _ (fun same => kept ?_) _
    obtain ⟨rfl, rfl⟩ := Prod.mk.inj same
    exact ⟨rfl, superseded⟩
  · rw [tombstoneSupersededByNewer_other fun revision superseded => ends ⟨revision, superseded⟩]

theorem get_write_own :
    (workspace.writeVersion upsert).pathIndex.get upsert.node.path upsert.revision =
      some upsert.node.id := by
  rw [Workspace.writeVersion, get_tombstoneSupersededByNewer, VersionedStore.get_put_self]
  exact fun both => lt_irrefl _ both.2.above

theorem get_write_replaced {path : String} (replaces : Replaces workspace upsert path) :
    (workspace.writeVersion upsert).pathIndex.get path upsert.revision = some tombstone := by
  have moved : path ≠ upsert.node.path := by
    obtain ⟨_, _, _, _, moved, _⟩ := replaces
    exact moved
  rw [Workspace.writeVersion, get_tombstoneSupersededByNewer fun both => moved both.1,
    VersionedStore.get_put_other _ fun same => moved (Prod.mk.inj same).1,
    endReplacedPath_put replaces, VersionedStore.get_put_self]

theorem get_write_superseded {revision : HLC} (superseded : Superseded workspace upsert revision) :
    (workspace.writeVersion upsert).pathIndex.get upsert.node.path revision = some tombstone := by
  rw [Workspace.writeVersion, tombstoneSupersededByNewer_put superseded,
    VersionedStore.get_put_self]

/-- The batch leaves every other entry as it was. -/
theorem get_write_other {path : String} {revision : HLC} (old : revision ≠ upsert.revision)
    (kept : ¬ (path = upsert.node.path ∧ Superseded workspace upsert revision)) :
    (workspace.writeVersion upsert).pathIndex.get path revision =
      workspace.pathIndex.get path revision := by
  rw [Workspace.writeVersion, get_tombstoneSupersededByNewer kept,
    VersionedStore.get_put_other _ fun same => old (Prod.mk.inj same).2,
    get_endReplacedPath fun both => old both.1]

/-- An entry after the write is the claim, one of the two tombstones or an old one. -/
theorem get_write_cases {path value : String} {revision : HLC}
    (stored : (workspace.writeVersion upsert).pathIndex.get path revision = some value) :
    (path = upsert.node.path ∧ revision = upsert.revision ∧ value = upsert.node.id) ∨
    (value = tombstone ∧ revision = upsert.revision ∧ Replaces workspace upsert path) ∨
    (value = tombstone ∧ path = upsert.node.path ∧ Superseded workspace upsert revision) ∨
    workspace.pathIndex.get path revision = some value := by
  by_cases superseded : path = upsert.node.path ∧ Superseded workspace upsert revision
  · obtain ⟨rfl, ends⟩ := superseded
    rw [get_write_superseded ends] at stored
    exact .inr (.inr (.inl ⟨(Option.some.inj stored).symm, rfl, ends⟩))
  by_cases old : revision = upsert.revision
  · subst old
    by_cases own : path = upsert.node.path
    · subst own
      rw [get_write_own] at stored
      exact .inl ⟨rfl, rfl, (Option.some.inj stored).symm⟩
    · by_cases replaces : Replaces workspace upsert path
      · rw [get_write_replaced replaces] at stored
        exact .inr (.inl ⟨(Option.some.inj stored).symm, rfl, replaces⟩)
      · rw [Workspace.writeVersion, get_tombstoneSupersededByNewer superseded,
          VersionedStore.get_put_other _ fun same => own (Prod.mk.inj same).1,
          get_endReplacedPath fun both => replaces both.2] at stored
        exact .inr (.inr (.inr stored))
  · rw [get_write_other old superseded] at stored
    exact .inr (.inr (.inr stored))

end Write

/-! ## One version more -/

section Step

variable {applied : List NodeUpsert} {workspace : Workspace} {upsert : NodeUpsert}

/-- No applied version has the revision. -/
def Fresh (applied : List NodeUpsert) (upsert : NodeUpsert) : Prop :=
  ∀ other ∈ applied, other.revision ≠ upsert.revision

theorem mem_append_upsert {other : NodeUpsert} :
    other ∈ applied ++ [upsert] ↔ other ∈ applied ∨ other = upsert := by
  rw [mem_append, mem_singleton]

theorem Fresh.apply_eq (fresh : Fresh applied upsert) (holds : Holds applied workspace) :
    workspace.applyReplicatedUpsert upsert = workspace.writeVersion upsert := by
  rw [Workspace.applyReplicatedUpsert]
  cases read : workspace.loadNodeReplacedBy upsert.node.id upsert.revision with
  | none => rfl
  | some entry =>
    obtain ⟨version, hversion, _, rfl, _, _⟩ := holds.newest.mp read
    refine if_neg fun stale => fresh version hversion ?_
    rw [Workspace.staleInPlace, Bool.and_eq_true] at stale
    exact of_decide_eq_true stale.1

theorem Holds.revision_ne (holds : Holds applied workspace) (fresh : Fresh applied upsert)
    {path value : String} {revision : HLC}
    (stored : workspace.pathIndex.get path revision = some value) :
    revision ≠ upsert.revision := by
  rcases holds.entries path revision value stored with ⟨other, hother, _, rfl, _⟩ |
      ⟨_, other, hother, rfl, _⟩
  · exact fresh other hother
  · exact fresh other hother

/-- Where the next version supersedes the path, no claim of it is stored. -/
theorem Holds.superseded_moved (holds : Holds applied workspace) {revision : HLC}
    (superseded : Superseded workspace upsert revision) :
    ∃ newer ∈ applied, newer.node.id = upsert.node.id ∧ newer.revision = revision ∧
      newer.node.path ≠ upsert.node.path ∧
      ∀ other ∈ applied, other.node.id = upsert.node.id → upsert.revision < other.revision →
        revision ≤ other.revision := by
  obtain ⟨record, read, moved, _⟩ := superseded
  obtain ⟨newer, hnewer, same, rfl, rfl, _, oldest⟩ := holds.oldest read
  exact ⟨newer, hnewer, same, rfl, fun stays => moved (congrArg some stays), oldest⟩

theorem Holds.claim_kept (holds : Holds applied workspace) (fresh : Fresh applied upsert)
    {other : NodeUpsert} (hother : other ∈ applied) :
    (workspace.writeVersion upsert).pathIndex.get other.node.path other.revision =
      some other.node.id := by
  rw [get_write_other (fresh other hother), holds.claims other hother]
  rintro ⟨samePath, superseded⟩
  obtain ⟨newer, hnewer, _, sameRevision, moved, _⟩ := holds.superseded_moved superseded
  exact moved (holds.distinct.eq hnewer hother sameRevision ▸ samePath)

theorem tombstone_kept (holds : Holds applied workspace) (fresh : Fresh applied upsert)
    {path : String} {ended : HLC}
    (stored : workspace.pathIndex.get path ended = some tombstone) :
    (workspace.writeVersion upsert).pathIndex.get path ended = some tombstone := by
  by_cases superseded : path = upsert.node.path ∧ Superseded workspace upsert ended
  · obtain ⟨rfl, ends⟩ := superseded
    exact get_write_superseded ends
  · rw [get_write_other (holds.revision_ne fresh stored) superseded, stored]

theorem Holds.write (holds : Holds applied workspace) (fresh : Fresh applied upsert)
    (named : isTombstoneValue upsert.node.id = false) :
    Holds (applied ++ [upsert]) (workspace.writeVersion upsert) where
  distinct := by
    refine pairwise_append.mpr ⟨holds.distinct, pairwise_singleton _ _, ?_⟩
    intro other hother last hlast
    rw [mem_singleton.mp hlast]
    exact fresh other hother
  named other hother := by
    rcases mem_append_upsert.mp hother with old | rfl
    · exact holds.named other old
    · exact named
  records id revision record := by
    rw [Workspace.writeVersion]
    by_cases new : (id, revision) = (upsert.node.id, upsert.revision)
    · obtain ⟨rfl, rfl⟩ := Prod.mk.inj new
      rw [VersionedStore.get_put_self]
      constructor
      · intro same
        exact ⟨upsert, mem_append_upsert.mpr (.inr rfl), rfl, rfl, (Option.some.inj same).symm⟩
      · rintro ⟨other, hother, _, sameRevision, rfl⟩
        rcases mem_append_upsert.mp hother with old | rfl
        · exact absurd sameRevision (fresh other old)
        · rfl
    · rw [VersionedStore.get_put_other _ new, holds.records]
      constructor
      · rintro ⟨other, hother, facts⟩
        exact ⟨other, mem_append_upsert.mpr (.inl hother), facts⟩
      · rintro ⟨other, hother, rfl, rfl, same⟩
        rcases mem_append_upsert.mp hother with old | rfl
        · exact ⟨other, old, rfl, rfl, same⟩
        · exact absurd rfl new
  claims other hother := by
    rcases mem_append_upsert.mp hother with old | rfl
    · exact holds.claim_kept fresh old
    · exact get_write_own
  entries path revision value stored := by
    rcases get_write_cases stored with ⟨rfl, rfl, rfl⟩ | ⟨rfl, rfl, replaces⟩ |
        ⟨rfl, rfl, superseded⟩ | old
    · exact .inl ⟨upsert, mem_append_upsert.mpr (.inr rfl), rfl, rfl, rfl⟩
    · obtain ⟨_, _, _, _, moved, _⟩ := replaces
      exact .inr ⟨rfl, upsert, mem_append_upsert.mpr (.inr rfl), rfl, moved.symm⟩
    · obtain ⟨newer, hnewer, _, same, moved, _⟩ := holds.superseded_moved superseded
      exact .inr ⟨rfl, newer, mem_append_upsert.mpr (.inl hnewer), same, moved⟩
    · rcases holds.entries path revision value old with ⟨other, hother, facts⟩ |
          ⟨ended, other, hother, facts⟩
      · exact .inl ⟨other, mem_append_upsert.mpr (.inl hother), facts⟩
      · exact .inr ⟨ended, other, mem_append_upsert.mpr (.inl hother), facts⟩

theorem IsLastClaim.of_append {path : String} {bound : HLC} {claim : NodeUpsert}
    (last : IsLastClaim (applied ++ [upsert]) path bound claim) (old : claim ∈ applied) :
    IsLastClaim applied path bound claim :=
  ⟨old, last.claims, last.below, fun other hother =>
    last.last other (mem_append_upsert.mpr (.inl hother))⟩

/-- The claim of another path is no later claim of this one. -/
theorem IsLastClaim.append {path : String} {bound : HLC} {claim : NodeUpsert}
    (last : IsLastClaim applied path bound claim)
    (earlier : upsert.node.path = path → upsert.revision ≤ bound →
      upsert.revision ≤ claim.revision) :
    IsLastClaim (applied ++ [upsert]) path bound claim := by
  refine ⟨mem_append_upsert.mpr (.inl last.mem), last.claims, last.below, ?_⟩
  intro other hother claims within
  rcases mem_append_upsert.mp hother with old | rfl
  · exact last.last other old claims within
  · exact earlier claims within

theorem IsCurrent.of_append {bound : HLC} {version : NodeUpsert}
    (current : IsCurrent (applied ++ [upsert]) bound version) :
    IsCurrent applied bound version :=
  fun other hother => current other (mem_append_upsert.mpr (.inl hother))

/-- A version that its node has left ends its path at once. -/
theorem own_ended (holds : Holds applied workspace) (fresh : Fresh applied upsert) {bound : HLC}
    (last : IsLastClaim (applied ++ [upsert]) upsert.node.path bound upsert)
    {newer : NodeUpsert} (hnewer : newer ∈ applied) (same : newer.node.id = upsert.node.id)
    (within : newer.revision ≤ bound) (after : upsert.revision < newer.revision) :
    ∃ ended, upsert.revision < ended ∧ ended ≤ bound ∧
      (workspace.writeVersion upsert).pathIndex.get upsert.node.path ended = some tombstone := by
  have unclaimed : ∀ other ∈ applied, other.node.path = upsert.node.path →
      upsert.revision < other.revision → ¬ other.revision ≤ bound :=
    fun other hother claims later inside => absurd
      (last.last other (mem_append_upsert.mpr (.inl hother)) claims inside) (not_le.mpr later)
  have present : (workspace.nodes.get upsert.node.id newer.revision).isSome := by
    rw [(holds.records _ _ _).mpr ⟨newer, hnewer, same, rfl, rfl⟩]
    rfl
  obtain ⟨next, record, read, notLater⟩ := VersionedStore.exists_oldestAfter present after
  obtain ⟨version, hversion, _, rfl, rfl, above, _⟩ := holds.oldest read
  have nextWithin : version.revision ≤ bound := notLater.trans within
  have moved : (some version.node).map ReplicatedNode.path ≠ some upsert.node.path :=
    fun stays => unclaimed version hversion (Option.some.inj stays) above nextWithin
  cases live : workspace.pathEntryWouldBeLive upsert.node upsert.revision version.revision with
  | true =>
    exact ⟨version.revision, above, nextWithin, get_write_superseded ⟨_, read, moved, live⟩⟩
  | false =>
    -- an entry between the two versions already hides the claim, and it is no claim itself
    rw [Workspace.pathEntryWouldBeLive] at live
    cases found : workspace.pathIndex.newestAtOrBefore upsert.node.path version.revision with
    | none =>
      rw [found] at live
      cases live
    | some entry =>
      obtain ⟨ended, value⟩ := entry
      rw [found] at live
      obtain ⟨below, stored, _⟩ := VersionedStore.newestAtOrBefore_eq_some_iff.mp found
      have later : upsert.revision < ended :=
        not_le.mp fun early => absurd (Or.inl early) (of_decide_eq_false live)
      have tomb : value = tombstone := by
        rcases holds.entries _ _ _ stored with ⟨other, hother, claims, rfl, _⟩ | ⟨ended, _⟩
        · exact absurd (below.trans nextWithin) (unclaimed other hother claims later)
        · exact ended
      subst tomb
      exact ⟨ended, later, below.trans nextWithin, tombstone_kept holds fresh stored⟩

/-- The last claim of a node that moves is ended by the move. -/
theorem replaced_ended (holds : Holds applied workspace)
    (follows : FollowsVersions applied workspace) {path : String} {bound : HLC}
    {claim : NodeUpsert} (last : IsLastClaim applied path bound claim)
    (current : IsCurrent applied bound claim) (same : upsert.node.id = claim.node.id)
    (after : claim.revision < upsert.revision) (within : upsert.revision ≤ bound)
    (moved : path ≠ upsert.node.path) : Replaces workspace upsert path := by
  have read := holds.newest.mpr ⟨claim, last.mem, same.symm, rfl, after.le, current.earlier within⟩
  refine ⟨_, _, read, last.claims, moved, ?_⟩
  have reading : workspace.readPath path upsert.revision = .node claim.node.id :=
    (follows path upsert.revision).unique holds.distinct
      ⟨claim, last.earlier within after.le, current.earlier within, rfl⟩
  rw [Workspace.readPath] at reading
  rw [Workspace.pathOwnedAt]
  cases found : workspace.pathIndex.newestAtOrBefore path upsert.revision with
  | none =>
    rw [found] at reading
    cases reading
  | some entry =>
    obtain ⟨revision, value⟩ := entry
    rw [found] at reading
    dsimp only at reading ⊢
    cases reads : isTombstoneValue value with
    | true =>
      rw [reads] at reading
      cases reading
    | false =>
      rw [reads] at reading
      exact decide_eq_true (PathReading.node.inj reading)

theorem AllEnded.write (holds : Holds applied workspace) (fresh : Fresh applied upsert)
    (follows : FollowsVersions applied workspace) :
    AllEnded (applied ++ [upsert]) (workspace.writeVersion upsert) := by
  intro path bound claim last left
  obtain ⟨other, hother, same, within, after⟩ := Holds.not_current left
  rcases mem_append_upsert.mp last.mem with old | rfl
  · have oldLast := last.of_append old
    by_cases current : IsCurrent applied bound claim
    · -- only the new version can be what its node has left the claim for
      rcases mem_append_upsert.mp hother with hold | rfl
      · exact absurd (current other hold same within) (not_le.mpr after)
      · have moved : path ≠ other.node.path := fun stays => absurd
          (last.last other (mem_append_upsert.mpr (.inr rfl)) stays.symm within)
          (not_le.mpr after)
        exact ⟨other.revision, after, within, get_write_replaced
          (replaced_ended holds follows oldLast current same after within moved)⟩
    · obtain ⟨ended, above, below, stored⟩ :=
        holds.allEnded follows path bound claim oldLast current
      exact ⟨ended, above, below, tombstone_kept holds fresh stored⟩
  · obtain rfl := last.claims
    rcases mem_append_upsert.mp hother with hold | rfl
    · exact own_ended holds fresh last hold same within after
    · exact absurd after (lt_irrefl _)

/-- The tombstone of a move ends the claim that the node leaves. -/
theorem replaced_left (holds : Holds applied workspace) {path : String}
    (replaces : Replaces workspace upsert path) (fresh : Fresh applied upsert) :
    ∃ claim, IsLastClaim (applied ++ [upsert]) path upsert.revision claim ∧
      ¬ IsCurrent (applied ++ [upsert]) upsert.revision claim := by
  obtain ⟨found, old, read, rfl, moved, owned⟩ := replaces
  obtain ⟨version, hversion, same, shape, _, _⟩ := holds.newest.mp read
  obtain ⟨rfl, rfl⟩ := Prod.mk.inj shape
  rw [Workspace.pathOwnedAt] at owned
  cases entry : workspace.pathIndex.newestAtOrBefore version.node.path upsert.revision with
  | none =>
    rw [entry] at owned
    cases owned
  | some newest =>
    obtain ⟨revision, value⟩ := newest
    rw [entry] at owned
    obtain rfl : value = version.node.id := of_decide_eq_true owned
    obtain ⟨claim, last, rfl, owner⟩ :=
      holds.readPath_live entry (holds.named version hversion)
    refine ⟨claim, last.append fun claims => absurd claims.symm moved, fun current => ?_⟩
    have before : claim.revision < upsert.revision :=
      lt_of_le_of_ne last.below (fresh claim last.mem)
    have newest := current upsert (mem_append_upsert.mpr (.inr rfl))
      (same.symm.trans owner.symm) (le_refl _)
    exact absurd newest (not_le.mpr before)

/-- The tombstone of a late version ends that version. -/
theorem superseded_left (holds : Holds applied workspace)
    (named : isTombstoneValue upsert.node.id = false) {revision : HLC}
    (superseded : Superseded workspace upsert revision) :
    ∃ claim, IsLastClaim (applied ++ [upsert]) upsert.node.path revision claim ∧
      ¬ IsCurrent (applied ++ [upsert]) revision claim := by
  have above := superseded.above
  obtain ⟨newer, hnewer, same, rfl, moved, oldest⟩ := holds.superseded_moved superseded
  have here : upsert ∈ applied ++ [upsert] := mem_append_upsert.mpr (.inr rfl)
  refine ⟨upsert, ⟨here, rfl, above.le, fun other hother claims within => ?_⟩, fun current => ?_⟩
  · rcases mem_append_upsert.mp hother with old | rfl
    · by_contra late
      obtain ⟨_, _, _, live⟩ := superseded
      have stored := holds.claims other old
      rw [claims] at stored
      obtain ⟨found, value, read, later⟩ :=
        VersionedStore.exists_newestAtOrBefore (by rw [stored]; rfl) within
      obtain ⟨below, found_stored, _⟩ := VersionedStore.newestAtOrBefore_eq_some_iff.mp read
      rw [Workspace.pathEntryWouldBeLive, read] at live
      rcases of_decide_eq_true live with early | owner
      · exact late (later.trans early)
      · -- the entry is a claim of the node itself, so it is the next version, which has moved
        subst owner
        obtain ⟨claim, hclaim, claimed, rfl, mine⟩ := holds.live found_stored named
        have next := oldest claim hclaim mine ((not_le.mp late).trans_le later)
        exact moved (holds.distinct.eq hclaim hnewer (le_antisymm below next) ▸ claimed)
    · exact le_refl _
  · have newest := current newer (mem_append_upsert.mpr (.inl hnewer)) same (le_refl _)
    exact absurd newest (not_le.mpr above)

theorem NoneSpurious.write (holds : Holds applied workspace) (fresh : Fresh applied upsert)
    (spurious : NoneSpurious applied workspace) (unobstructed : Unobstructed workspace upsert) :
    NoneSpurious (applied ++ [upsert]) (workspace.writeVersion upsert) := by
  intro path ended stored
  rcases get_write_cases stored with ⟨_, _, mine⟩ | ⟨_, rfl, replaces⟩ |
      ⟨_, rfl, superseded⟩ | old
  · exact absurd mine.symm (ne_tombstone unobstructed.named)
  · exact replaced_left holds replaces fresh
  · exact superseded_left holds unobstructed.named superseded
  · obtain ⟨claim, last, left⟩ := spurious path ended old
    by_cases later : upsert.node.path = path ∧ upsert.revision ≤ ended ∧
        claim.revision < upsert.revision
    · obtain ⟨rfl, within, after⟩ := later
      have before : upsert.revision < ended :=
        lt_of_le_of_ne within (holds.revision_ne fresh old).symm
      obtain ⟨between, above, below, passed⟩ := unobstructed.clear ended old before
      refine ⟨upsert, ⟨mem_append_upsert.mpr (.inr rfl), rfl, within, ?_⟩, fun current => ?_⟩
      · intro other hother claims inside
        rcases mem_append_upsert.mp hother with hold | rfl
        · exact (last.last other hold claims inside).trans after.le
        · exact le_refl _
      · rcases passed with version | ⟨owner, claimed, live⟩
        · obtain ⟨record, stored⟩ := Option.isSome_iff_exists.mp version
          obtain ⟨newer, hnewer, same, rfl, _⟩ := (holds.records _ _ _).mp stored
          exact absurd (current newer (mem_append_upsert.mpr (.inl hnewer)) same below)
            (not_le.mpr above)
        · -- a claim between them would be later than the last one
          obtain ⟨other, hother, claims, rfl, _⟩ := holds.live claimed live
          exact absurd (last.last other hother claims below) (not_le.mpr (after.trans above))
    · refine ⟨claim, last.append fun claims within => ?_, fun current => left current.of_append⟩
      exact not_lt.mp fun after => later ⟨claims, within, after⟩

/-- A version that reads true after it is written met no obstruction. -/
theorem FollowsVersions.unobstructed (holds : Holds applied workspace)
    (fresh : Fresh applied upsert)
    (follows : FollowsVersions (applied ++ [upsert]) (workspace.writeVersion upsert)) :
    Unobstructed workspace upsert := by
  have here : upsert ∈ applied ++ [upsert] := mem_append_upsert.mpr (.inr rfl)
  have named : isTombstoneValue upsert.node.id = false := by
    by_contra reads
    have found : (workspace.writeVersion upsert).pathIndex.newestAtOrBefore upsert.node.path
        upsert.revision = some (upsert.revision, upsert.node.id) :=
      VersionedStore.newestAtOrBefore_eq_some_iff.mpr ⟨le_refl _, get_write_own,
        fun later after within => absurd within (not_le.mpr after)⟩
    have reading := follows upsert.node.path upsert.revision
    rw [Workspace.readPath, found] at reading
    dsimp only at reading
    rw [if_pos (Bool.not_eq_false _ ▸ reads)] at reading
    obtain ⟨claim, last, left⟩ := reading
    have distinct : DistinctRevisions (applied ++ [upsert]) := by
      refine pairwise_append.mpr ⟨holds.distinct, pairwise_singleton _ _, fun other hother => ?_⟩
      exact forall_mem_singleton.mpr (fresh other hother)
    have own : claim = upsert := distinct.eq last.mem here
      (le_antisymm last.below (last.last upsert here rfl (le_refl _)))
    exact left (own ▸ fun other _ _ within => within)
  refine ⟨named, fun ended stored after => ?_⟩
  obtain ⟨claim, last, left⟩ :=
    Holds.noneSpurious follows upsert.node.path ended (tombstone_kept holds fresh stored)
  have notEarlier := last.last upsert here rfl after.le
  rcases mem_append_upsert.mp last.mem with old | rfl
  · refine ⟨claim.revision, lt_of_le_of_ne notEarlier (fresh claim old).symm, last.below, ?_⟩
    exact .inr ⟨claim.node.id, last.claims ▸ holds.claims claim old, holds.named claim old⟩
  · obtain ⟨newer, hnewer, same, within, later⟩ := Holds.not_current left
    rcases mem_append_upsert.mp hnewer with old | rfl
    · refine ⟨newer.revision, later, within, .inl ?_⟩
      rw [(holds.records _ _ _).mpr ⟨newer, old, same, rfl, rfl⟩]
      rfl
    · exact absurd later (lt_irrefl _)

/-- While the index follows the versions, one more version keeps it so exactly when it is
unobstructed. -/
theorem follows_write_iff (holds : Holds applied workspace) (fresh : Fresh applied upsert)
    (follows : FollowsVersions applied workspace) :
    FollowsVersions (applied ++ [upsert]) (workspace.applyReplicatedUpsert upsert) ↔
      Unobstructed workspace upsert := by
  rw [fresh.apply_eq holds]
  constructor
  · exact FollowsVersions.unobstructed holds fresh
  · intro unobstructed
    exact (holds.write fresh unobstructed.named).follows
      (NoneSpurious.write holds fresh (Holds.noneSpurious follows) unobstructed)
      (AllEnded.write holds fresh follows)

end Step

/-! ## Runs -/

/-- The node's newest version at or below the bound lies on the path, and no other node claimed
the path after it. -/
def OwnsPath (applied : List NodeUpsert) (path : String) (bound : HLC) (id : String) : Prop :=
  ∃ version ∈ applied, version.node.id = id ∧ version.node.path = path ∧
    version.revision ≤ bound ∧ IsCurrent applied bound version ∧
    ∀ other ∈ applied, other.node.id ≠ id → other.node.path = path → other.revision ≤ bound →
      other.revision < version.revision

theorem expected_node_iff {applied : List NodeUpsert} (distinct : DistinctRevisions applied)
    {path id : String} {bound : HLC} :
    Expected applied path bound (.node id) ↔ OwnsPath applied path bound id := by
  constructor
  · rintro ⟨claim, last, current, rfl⟩
    refine ⟨claim, last.mem, rfl, last.claims, last.below, current, ?_⟩
    intro other hother different claims within
    refine lt_of_le_of_ne (last.last other hother claims within) fun same => different ?_
    rw [distinct.eq hother last.mem same]
  · rintro ⟨version, hversion, rfl, claims, below, current, unclaimed⟩
    refine ⟨version, ⟨hversion, claims, below, fun other hother claimed within => ?_⟩, current, rfl⟩
    by_cases same : other.node.id = version.node.id
    · exact current other hother same within
    · exact (unclaimed other hother same claimed within).le

/-- Both orders of arrival give the same reading of every path at every revision, which names
the node that owns the path. -/
def PathsConverge (first second : List NodeUpsert) : Prop :=
  ∀ path bound,
    (upsertMachine.final .empty first).readPath path bound =
        (upsertMachine.final .empty second).readPath path bound ∧
      ∀ id, (upsertMachine.final .empty first).readPath path bound = .node id ↔
        OwnsPath first path bound id

/-- Every version of the run arrives unobstructed. -/
def RunsUnobstructed (upserts : List NodeUpsert) : Prop :=
  ∀ transition ∈ upsertMachine.transitions .empty upserts,
    Unobstructed transition.before transition.event

/-- The index follows the versions after every part of the run. -/
def FollowsThroughout (upserts : List NodeUpsert) : Prop :=
  ∀ early late, upserts = early ++ late →
    FollowsVersions early (upsertMachine.final .empty early)

theorem holds_empty : Holds [] Workspace.empty where
  distinct := Pairwise.nil
  named upsert hmem := by cases hmem
  records id revision record := by
    constructor
    · intro stored
      cases stored
    · rintro ⟨upsert, hmem, _⟩
      cases hmem
  claims upsert hmem := by cases hmem
  entries path revision value stored := by cases stored

theorem follows_empty : FollowsVersions [] Workspace.empty :=
  fun _ _ claim hmem => by cases hmem

theorem fresh_of_distinct {early : List NodeUpsert} {upsert : NodeUpsert}
    (distinct : DistinctRevisions (early ++ [upsert])) : Fresh early upsert :=
  fun other hother => (pairwise_append.mp distinct).2.2 other hother upsert mem_cons_self

theorem runsUnobstructed_concat {early : List NodeUpsert} {upsert : NodeUpsert} :
    RunsUnobstructed (early ++ [upsert]) ↔
      RunsUnobstructed early ∧ Unobstructed (upsertMachine.final .empty early) upsert := by
  rw [RunsUnobstructed, Machine.transitions_append, forall_mem_append]
  exact and_congr_right fun _ => forall_mem_singleton

/-- Along an unobstructed run the stores hold the versions and the index follows them. -/
theorem run_holds {upserts : List NodeUpsert} (distinct : DistinctRevisions upserts)
    (unobstructed : RunsUnobstructed upserts) :
    Holds upserts (upsertMachine.final .empty upserts) ∧
      FollowsVersions upserts (upsertMachine.final .empty upserts) := by
  induction upserts using reverseRecOn with
  | nil => exact ⟨holds_empty, follows_empty⟩
  | append_singleton early upsert ih =>
    have fresh := fresh_of_distinct distinct
    obtain ⟨before, here⟩ := runsUnobstructed_concat.mp unobstructed
    obtain ⟨holds, follows⟩ := ih (pairwise_append.mp distinct).1 before
    have step : upsertMachine.final .empty (early ++ [upsert]) =
        (upsertMachine.final .empty early).applyReplicatedUpsert upsert :=
      upsertMachine.final_append _ early [upsert]
    rw [step]
    refine ⟨?_, (follows_write_iff holds fresh follows).mpr here⟩
    rw [fresh.apply_eq holds]
    exact holds.write fresh here.named

theorem followsThroughout_iff {upserts : List NodeUpsert} (distinct : DistinctRevisions upserts) :
    FollowsThroughout upserts ↔ RunsUnobstructed upserts := by
  induction upserts using reverseRecOn with
  | nil =>
    refine ⟨(fun _ transition hmem => by cases hmem), fun _ early late split => ?_⟩
    obtain rfl := (append_eq_nil_iff.mp split.symm).1
    exact follows_empty
  | append_singleton early upsert ih =>
    have fresh := fresh_of_distinct distinct
    have step := upsertMachine.final_append .empty early [upsert]
    have before := ih (pairwise_append.mp distinct).1
    rw [runsUnobstructed_concat]
    constructor
    · intro throughout
      have unobstructed := before.mp fun first second split =>
        throughout first (second ++ [upsert]) (by rw [split, append_assoc])
      obtain ⟨holds, follows⟩ := run_holds (pairwise_append.mp distinct).1 unobstructed
      have last := throughout (early ++ [upsert]) [] (append_nil _).symm
      rw [step] at last
      exact ⟨unobstructed, (follows_write_iff holds fresh follows).mp last⟩
    · rintro ⟨unobstructed, here⟩ first second split
      rcases eq_nil_or_concat second with rfl | ⟨rest, last, rfl⟩
      · rw [append_nil] at split
        subst split
        exact (run_holds distinct (runsUnobstructed_concat.mpr ⟨unobstructed, here⟩)).2
      · rw [concat_eq_append, ← append_assoc] at split
        exact before.mpr unobstructed first rest (append_inj' split rfl).1

/-- The index follows the versions throughout a run exactly when every version arrives
unobstructed, and two such runs of the same versions converge. -/
theorem replicated_paths_converge {first second : List NodeUpsert}
    (distinct : DistinctRevisions first) (perm : first ~ second) :
    (FollowsThroughout first ↔ RunsUnobstructed first) ∧
      (RunsUnobstructed first → RunsUnobstructed second → PathsConverge first second) := by
  refine ⟨followsThroughout_iff distinct, fun unobstructed unobstructed' path bound => ?_⟩
  have distinct' : DistinctRevisions second :=
    distinct.perm perm fun different => different.symm
  obtain ⟨_, follows⟩ := run_holds distinct unobstructed
  obtain ⟨_, follows'⟩ := run_holds distinct' unobstructed'
  have expected := follows path bound
  refine ⟨expected.unique distinct ((follows' path bound).perm perm.symm), fun id => ?_⟩
  rw [← expected_node_iff distinct]
  exact ⟨fun reading => reading ▸ expected, fun owned => expected.unique distinct owned⟩

/-- Where every tombstone of the path lies below the version, nothing obstructs it. -/
theorem Unobstructed.of_none_above {workspace : Workspace} {upsert : NodeUpsert}
    (named : isTombstoneValue upsert.node.id = false)
    (below : ∀ entry ∈ workspace.pathIndex.entries.entries, entry.1.1 = upsert.node.path →
      entry.2 = tombstone → entry.1.2 ≤ upsert.revision) : Unobstructed workspace upsert := by
  refine ⟨named, fun ended stored above => absurd above (not_lt.mpr ?_)⟩
  exact below _ (VersionedStore.mem_entries_of_get stored) rfl rfl

/-- A version of a node at a millisecond. -/
def versionAt (id path : String) (millis : Nat) : NodeUpsert := ⟨⟨id, path, none⟩, ⟨millis, 0⟩⟩

/-- Node `a` moves from `/p` to `/s`.  Node `b` takes `/p` over, and its claim arrives below the
tombstone of the move. -/
theorem late_takeover_stays_hidden :
    ¬ ∀ first second : List NodeUpsert, DistinctRevisions first → first ~ second →
      PathsConverge first second := by
  intro claim
  have converge := claim
    [versionAt "a" "/p" 1, versionAt "a" "/q" 2, versionAt "b" "/p" 3, versionAt "a" "/s" 4]
    [versionAt "a" "/p" 1, versionAt "a" "/s" 4, versionAt "b" "/p" 3, versionAt "a" "/q" 2]
    (by decide) (by decide)
  exact absurd (converge "/p" ⟨4, 0⟩).1 (by decide +kernel)

/-- A takeover after a move, and the same versions backwards. -/
theorem takeover_converges :
    PathsConverge [versionAt "a" "/p" 1, versionAt "a" "/q" 2, versionAt "b" "/p" 3]
      [versionAt "b" "/p" 3, versionAt "a" "/q" 2, versionAt "a" "/p" 1] := by
  refine (replicated_paths_converge (by decide) (by decide)).2 ?_ ?_
  · refine forall_mem_cons.mpr ⟨?_, forall_mem_cons.mpr ⟨?_, forall_mem_singleton.mpr ?_⟩⟩ <;>
      exact .of_none_above (by decide) (by decide +kernel)
  · refine forall_mem_cons.mpr ⟨?_, forall_mem_cons.mpr ⟨?_, forall_mem_singleton.mpr ?_⟩⟩ <;>
      exact .of_none_above (by decide) (by decide +kernel)

end RaisinDB.Applicator
