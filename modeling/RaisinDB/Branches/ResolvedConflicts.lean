import RaisinDB.Branches.MergeRuns
import RaisinDB.Branches.Resolution

/-!
# Conflicts and their resolutions

A merge with resolutions does not ask which conflicts there are.  A conflict without
a resolution is decided by the copy, and so is one in another workspace than the one
in which the change walk first meets the node.
-/

namespace RaisinDB.Branches

open RaisinDB.Clock RaisinDB.Foundation RaisinDB.Replication List
open Fallible

/-! ## Reads of a content -/

section Reads

variable {first second : Content} {workspace nodeId : String} {bound : HLC}

theorem loadNodeAt_congr (same : ∀ revision ≤ bound, first.get (.node workspace nodeId) revision =
      second.get (.node workspace nodeId) revision) :
    loadNodeAt first workspace nodeId bound = loadNodeAt second workspace nodeId bound := by
  rw [loadNodeAt, loadNodeAt, VersionedStore.newestAtOrBefore_congr same]

theorem ContentValue.isTombstone_iff {value : ContentValue} :
    value.isTombstone = true ↔ value = .tombstone := by
  cases value with
  | node node => simp [isTombstone]
  | overlay overlay => simp [isTombstone]
  | entry text => simp [isTombstone]
  | tombstone => simp [isTombstone]

theorem endedByNodeDelete_iff {versionRevision : HLC} :
    endedByNodeDelete first workspace nodeId versionRevision bound = true ↔
      (∃ revision, versionRevision ≤ revision ∧ revision ≤ bound ∧
        first.get (.node workspace nodeId) revision = some .tombstone) ∨
      ∃ revision, first.newestAtOrBefore (.node workspace nodeId) versionRevision =
        some (revision, .tombstone) := by
  rw [endedByNodeDelete, Bool.or_eq_true, any_eq_true, Option.any_eq_true]
  refine or_congr ⟨?_, ?_⟩ ⟨?_, ?_⟩
  · rintro ⟨revision, hrevision, tombstone⟩
    obtain ⟨_, within⟩ := VersionedStore.mem_revisions.mp hrevision
    obtain ⟨after, before⟩ := of_decide_eq_true within
    obtain ⟨value, stored, isTombstone⟩ := (Option.any_eq_true _ _).mp tombstone
    exact ⟨revision, after, before, ContentValue.isTombstone_iff.mp isTombstone ▸ stored⟩
  · rintro ⟨revision, after, before, stored⟩
    refine ⟨revision, VersionedStore.mem_revisions.mpr ⟨by rw [stored]; rfl, ?_⟩, ?_⟩
    · exact decide_eq_true ⟨after, before⟩
    · rw [stored]
      rfl
  · rintro ⟨⟨revision, value⟩, newest, isTombstone⟩
    exact ⟨revision, ContentValue.isTombstone_iff.mp isTombstone ▸ newest⟩
  · rintro ⟨revision, newest⟩
    exact ⟨(revision, .tombstone), newest, rfl⟩

theorem endedByNodeDelete_congr (same : ∀ revision ≤ bound,
      first.get (.node workspace nodeId) revision = second.get (.node workspace nodeId) revision)
    {versionRevision : HLC} (within : versionRevision ≤ bound) :
    endedByNodeDelete first workspace nodeId versionRevision bound =
      endedByNodeDelete second workspace nodeId versionRevision bound := by
  rw [Bool.eq_iff_iff, endedByNodeDelete_iff, endedByNodeDelete_iff,
    VersionedStore.newestAtOrBefore_congr fun revision below => same revision (below.trans within)]
  refine or_congr_left ⟨?_, ?_⟩
  · rintro ⟨revision, after, before, stored⟩
    exact ⟨revision, after, before, (same revision before) ▸ stored⟩
  · rintro ⟨revision, after, before, stored⟩
    exact ⟨revision, after, before, (same revision before).symm ▸ stored⟩

theorem readOverlay_congr {locale : String} (node : ∀ revision ≤ bound,
      first.get (.node workspace nodeId) revision = second.get (.node workspace nodeId) revision)
    (overlay : ∀ revision ≤ bound, first.get (.overlay workspace nodeId locale) revision =
      second.get (.overlay workspace nodeId locale) revision) :
    readOverlay first workspace nodeId locale bound =
      readOverlay second workspace nodeId locale bound := by
  rw [readOverlay, readOverlay, VersionedStore.newestAtOrBefore_congr overlay]
  cases newest : second.newestAtOrBefore (.overlay workspace nodeId locale) bound with
  | none => rfl
  | some version =>
    obtain ⟨revision, value⟩ := version
    obtain ⟨within, _, _⟩ := VersionedStore.newestAtOrBefore_eq_some_iff.mp newest
    rw [Option.bind_some, Option.bind_some, endedByNodeDelete_congr node within]

/-- The delete that ends a version at the revision of the read is the newest record. -/
theorem endedByNodeDelete_self :
    endedByNodeDelete first workspace nodeId bound bound = true ↔
      ∃ revision, first.newestAtOrBefore (.node workspace nodeId) bound =
        some (revision, .tombstone) := by
  rw [endedByNodeDelete_iff, or_iff_right_iff_imp]
  rintro ⟨revision, after, before, stored⟩
  obtain rfl := le_antisymm before after
  exact ⟨revision, VersionedStore.newestAtOrBefore_self stored⟩

end Reads

/-! ## What a resolution names -/

/-- Where the value of a node or of a locale is stored. -/
def conflictKey (workspace : String) : String × Option String → ContentKey
  | (nodeId, none) => .node workspace nodeId
  | (nodeId, some locale) => .overlay workspace nodeId locale

/-- What a reader finds for a node or for a locale; a tombstone stands for nothing. -/
def readConflict (content : Content) (workspace : String) (key : String × Option String)
    (revision : HLC) : ContentValue :=
  match key with
  | (nodeId, none) => nodeValue (loadNodeAt content workspace nodeId revision)
  | (nodeId, some locale) => overlayValue (readOverlay content workspace nodeId locale revision)

/-- The value that a resolution names in a workspace. -/
def MergeSides.chosenValue (sides : MergeSides) (state : RepositoryState) (workspace : String)
    (resolution : ConflictResolution) : Except BranchError ContentValue :=
  match resolution.translationLocale with
  | none => (sides.chosenNode state workspace resolution).map fun chosen =>
      nodeValue (chosen.map Prod.fst)
  | some locale => (sides.chosenOverlay state workspace locale resolution).map overlayValue

/-- The last resolution for a key. -/
def lastFor (key : String × Option String) (resolutions : List ConflictResolution) :
    Option ConflictResolution :=
  (resolutions.filter fun resolution => resolution.key = key).getLast?

theorem lastFor_cons {key : String × Option String} {resolution : ConflictResolution}
    {resolutions : List ConflictResolution} :
    lastFor key (resolution :: resolutions) =
      (lastFor key resolutions).or (if resolution.key = key then some resolution else none) := by
  rw [lastFor, filter_cons]
  by_cases here : resolution.key = key
  · rw [if_pos (decide_eq_true here), if_pos here, getLast?_cons, lastFor]
    cases (resolutions.filter fun resolution => decide (resolution.key = key)).getLast? with
    | none => rfl
    | some last => rfl
  · rw [if_neg (by simpa using here), if_neg here, Option.or_none, lastFor]

theorem lastFor_isSome_iff {key : String × Option String} {resolutions : List ConflictResolution} :
    (lastFor key resolutions).isSome ↔ ∃ resolution ∈ resolutions, resolution.key = key := by
  rw [lastFor, getLast?_isSome, ← length_pos_iff, length_pos_iff_exists_mem]
  simp only [mem_filter, decide_eq_true_eq]

theorem lastFor_key {key : String × Option String} {resolutions : List ConflictResolution}
    {last : ConflictResolution} (found : lastFor key resolutions = some last) : last.key = key :=
  of_decide_eq_true (mem_filter.mp (mem_of_getLast? found)).2

/-- Two states whose contents differ at one revision at most. -/
def AgreeApart (revision : HLC) (first second : RepositoryState) : Prop :=
  ∀ name key other, other ≠ revision →
    (first.contents name).get key other = (second.contents name).get key other

section Chosen

variable {mergeRevision : HLC} {first second : RepositoryState} {sides : MergeSides}

/-- Both heads are older than the merge revision. -/
def MergeSides.Older (sides : MergeSides) (mergeRevision : HLC) : Prop :=
  ∀ side, sides.head side < mergeRevision

/-- What is written at the merge revision does not show at the heads. -/
theorem AgreeApart.chosenValue (agree : AgreeApart mergeRevision first second)
    (older : sides.Older mergeRevision) (workspace : String) (resolution : ConflictResolution) :
    sides.chosenValue first workspace resolution = sides.chosenValue second workspace resolution := by
  have below : ∀ side key revision, revision ≤ sides.head side →
      (first.contents (sides.branchName side)).get key revision =
        (second.contents (sides.branchName side)).get key revision :=
    fun side key revision within => agree _ key revision (ne_of_lt (within.trans_lt (older side)))
  have nodes : ∀ side, sides.loadNode first workspace resolution.nodeId side =
      sides.loadNode second workspace resolution.nodeId side :=
    fun side => loadNodeAt_congr (below side _)
  have overlays : ∀ locale side, sides.readSide first workspace resolution.nodeId locale side =
      sides.readSide second workspace resolution.nodeId locale side :=
    fun locale side => readOverlay_congr (below side _) (below side _)
  rw [MergeSides.chosenValue, MergeSides.chosenValue]
  cases resolution.translationLocale with
  | none => simp only [MergeSides.chosenNode, nodes]
  | some locale => simp only [MergeSides.chosenOverlay, overlays]

end Chosen

/-! ## What the resolutions have written -/

section Written

variable {writers : IndexWriters} {faults : Faults} {mergeRevision : HLC} {sides : MergeSides}
  {sourceChanges targetChanges : AList fun _ : String => String × ChangeOperation}
  {explicit : List (String × String)}

/-- The resolutions of a list are written in the workspaces of the target's changes, and nothing
else that a resolution could have named. -/
structure Written (mergeRevision : HLC) (sides : MergeSides)
    (targetChanges : AList fun _ : String => String × ChangeOperation)
    (explicit : List (String × String)) (start state final : RepositoryState)
    (resolutions : List ConflictResolution) : Prop where
  lookup : ∀ name, final.lookup name = state.lookup name
  graph : final.graph = state.graph
  apart : AgreeApart mergeRevision final state
  known : ∀ resolution ∈ resolutions, (targetChanges.lookup resolution.nodeId).isSome
  resolved : ∀ workspace operation key resolution, lastFor key resolutions = some resolution →
    targetChanges.lookup key.1 = some (workspace, operation) →
      ∃ value, sides.chosenValue start workspace resolution = .ok value ∧
        (final.contents sides.targetBranch).get (conflictKey workspace key) mergeRevision =
          some value
  untouched : ∀ workspace key, (∀ locale ∈ key.2, (key.1, locale) ∈ explicit) →
    (lastFor key resolutions = none ∨
      ∀ operation, targetChanges.lookup key.1 ≠ some (workspace, operation)) →
      (final.contents sides.targetBranch).get (conflictKey workspace key) mergeRevision =
        (state.contents sides.targetBranch).get (conflictKey workspace key) mergeRevision

theorem Written.nil (start state : RepositoryState) :
    Written mergeRevision sides targetChanges explicit start state state [] := by
  refine ⟨fun _ => rfl, rfl, fun _ _ _ _ => rfl, ?_, ?_, fun _ _ _ _ => rfl⟩
  · intro resolution impossible
    cases impossible
  · intro workspace operation key resolution impossible
    cases impossible

theorem Written.cons {start state middle final : RepositoryState} {resolution : ConflictResolution}
    {resolutions : List ConflictResolution}
    (own : ∀ locale ∈ resolution.translationLocale, (resolution.nodeId, locale) ∈ explicit)
    (first : Written mergeRevision sides targetChanges explicit start state middle [resolution])
    (rest : Written mergeRevision sides targetChanges explicit start middle final resolutions) :
    Written mergeRevision sides targetChanges explicit start state final
      (resolution :: resolutions) := by
  refine ⟨fun name => (rest.lookup name).trans (first.lookup name), rest.graph.trans first.graph,
    ?_, ?_, ?_, ?_⟩
  · intro name key other different
    exact (rest.apart name key other different).trans (first.apart name key other different)
  · intro other hother
    rcases mem_cons.mp hother with rfl | later
    · exact first.known other (mem_singleton_self other)
    · exact rest.known other later
  · intro workspace operation key last found hworkspace
    rw [lastFor_cons, Option.or_eq_some_iff] at found
    rcases found with later | ⟨none, here⟩
    · exact rest.resolved workspace operation key last later hworkspace
    · split at here
      · rename_i same
        obtain rfl := Option.some.inj here
        subst same
        have single : lastFor resolution.key [resolution] = some resolution := by
          rw [lastFor_cons, if_pos rfl]
          rfl
        obtain ⟨value, chosen, stored⟩ :=
          first.resolved workspace operation _ resolution single hworkspace
        exact ⟨value, chosen, (rest.untouched workspace _ own (Or.inl none)).trans stored⟩
      · cases here
  · intro workspace key explicitly either
    rw [lastFor_cons, Option.or_eq_none_iff] at either
    refine (rest.untouched workspace key explicitly (either.imp_left And.left)).trans
      (first.untouched workspace key explicitly (either.imp_left fun both => ?_))
    rw [lastFor_cons, both.2]
    rfl

theorem conflictKey_isIndex (workspace : String) (key : String × Option String) :
    (conflictKey workspace key).isIndex = false := by
  obtain ⟨nodeId, locale⟩ := key
  cases locale with
  | none => rfl
  | some locale => rfl

theorem conflictKey_inj {workspace other : String} {key key' : String × Option String} :
    conflictKey workspace key = conflictKey other key' ↔ workspace = other ∧ key = key' := by
  obtain ⟨nodeId, locale⟩ := key
  obtain ⟨nodeId', locale'⟩ := key'
  cases locale with
  | none =>
    cases locale' with
    | none => simp [conflictKey]
    | some locale' => simp [conflictKey]
  | some locale =>
    cases locale' with
    | none => simp [conflictKey]
    | some locale' =>
      simp only [conflictKey, ContentKey.overlay.injEq, Prod.mk.injEq, Option.some.injEq]

@[simp] theorem get_putRows_self {state : RepositoryState} {name : String} {revision : HLC}
    {rows : List (ContentKey × ContentValue)} {key : ContentKey} {other : HLC} :
    ((state.putRows name revision rows).contents name).get key other =
      ((state.contents name).putAll revision rows).get key other := by
  rw [RepositoryState.putRows, RepositoryState.contents_setContent_self]

theorem agreeApart_putRows (state : RepositoryState) (name : String) (revision : HLC)
    (rows : List (ContentKey × ContentValue)) :
    AgreeApart revision (state.putRows name revision rows) state := by
  intro branch key other different
  by_cases here : branch = name
  · subst here
    rw [get_putRows_self, VersionedStore.get_putAll_other _ different]
  · rw [RepositoryState.putRows, RepositoryState.contents_setContent_other _ here]

/-- A batch that writes what one resolution names, and nothing else that one could name. -/
theorem Written.single {start state final : RepositoryState} {resolution : ConflictResolution}
    {workspace : String} {operation : ChangeOperation}
    (lookup : ∀ name, final.lookup name = state.lookup name) (graph : final.graph = state.graph)
    (apart : AgreeApart mergeRevision final state)
    (hworkspace : targetChanges.lookup resolution.nodeId = some (workspace, operation))
    {value : ContentValue} (chosen : sides.chosenValue start workspace resolution = .ok value)
    (stored : (final.contents sides.targetBranch).get (conflictKey workspace resolution.key)
      mergeRevision = some value)
    (untouched : ∀ other key, (∀ locale ∈ key.2, (key.1, locale) ∈ explicit) →
      conflictKey other key ≠ conflictKey workspace resolution.key →
      (final.contents sides.targetBranch).get (conflictKey other key) mergeRevision =
        (state.contents sides.targetBranch).get (conflictKey other key) mergeRevision) :
    Written mergeRevision sides targetChanges explicit start state final [resolution] := by
  refine ⟨lookup, graph, apart, ?_, ?_, ?_⟩
  · intro other hother
    rw [mem_singleton.mp hother, hworkspace]
    rfl
  · intro other operation' key last found hother
    rw [lastFor_cons, Option.or_eq_some_iff] at found
    rcases found with impossible | ⟨_, here⟩
    · cases impossible
    · split at here
      · rename_i same
        obtain rfl := Option.some.inj here
        subst same
        obtain ⟨rfl, _⟩ := Prod.mk.inj (Option.some.inj (hworkspace.symm.trans hother))
        exact ⟨value, chosen, stored⟩
      · cases here
  · intro other key explicitly either
    refine untouched other key explicitly fun same => ?_
    obtain ⟨rfl, rfl⟩ := conflictKey_inj.mp same
    rcases either with none | elsewhere
    · rw [lastFor_cons, if_pos rfl] at none
      cases none
    · exact elsewhere operation hworkspace

theorem changes_eq_ok {resolution : ConflictResolution} {sourceOp targetOp : ChangeOperation}
    {workspace : String}
    (known : resolution.changes sourceChanges targetChanges = .ok (sourceOp, workspace, targetOp)) :
    targetChanges.lookup resolution.nodeId = some (workspace, targetOp) := by
  rw [ConflictResolution.changes] at known
  split at known
  · cases known
  · split at known
    · cases known
    · rename_i targetChange found
      rw [found]
      cases known
      rfl

/-- The rows of the overlays that go with a node leave the explicit ones alone. -/
theorem conflictKey_notMem_nodeTranslations {state : RepositoryState} {workspace nodeId : String}
    {kept : Option MergeSide} {other : String} {key : String × Option String}
    (explicitly : ∀ locale ∈ key.2, (key.1, locale) ∈ explicit) :
    conflictKey other key ∉ (overlayRows workspace nodeId
      (sides.nodeTranslations state workspace nodeId kept explicit)).map Prod.fst := by
  intro hmem
  obtain ⟨row, hrow, same⟩ := mem_map.mp hmem
  obtain ⟨⟨locale, overlay⟩, hlocale, rfl⟩ := mem_map.mp hrow
  have same' : conflictKey workspace (nodeId, some locale) = conflictKey other key := same
  obtain ⟨_, rfl⟩ := conflictKey_inj.mp same'
  have absent := (mem_filter.mp hlocale).2
  exact of_decide_eq_true absent (explicitly locale rfl)

theorem applyResolution_written {start state final : RepositoryState}
    {resolution : ConflictResolution} {index : Nat} {info : NodeChangeInfo}
    (older : sides.Older mergeRevision) (agree : AgreeApart mergeRevision state start)
    (run : outcome (applyResolution writers faults mergeRevision sides sourceChanges targetChanges
      explicit index resolution) state = (.ok info, final)) :
    Written mergeRevision sides targetChanges explicit start state final [resolution] := by
  cases locale : resolution.translationLocale with
  | none =>
    simp only [applyResolution, locale, outcome_bind_eq_ok, outcome_query_ok, outcome_step_ok,
      writeResolvedNode, writeResolvedNodeTranslations, outcome_change, outcome_pure,
      Prod.mk.injEq] at run
    obtain ⟨⟨sourceOp, workspace, targetOp⟩, _, ⟨known, rfl⟩, _, _, ⟨_, rfl⟩, kept, _,
      ⟨chosen, _, ⟨hchosen, rfl⟩, _, _, ⟨_, rfl⟩, _, rfl⟩, _, _, ⟨_, rfl⟩, _, _, ⟨_, rfl⟩, _,
      rfl⟩ := run
    have key : resolution.key = (resolution.nodeId, none) := by rw [ConflictResolution.key, locale]
    have value : sides.chosenValue start workspace resolution =
        .ok (nodeValue (chosen.map Prod.fst)) := by
      rw [← agree.chosenValue older, MergeSides.chosenValue, locale]
      dsimp only
      rw [hchosen]
      rfl
    refine Written.single (fun _ => rfl) rfl ?_ (changes_eq_ok known) value ?_ ?_
    · intro name key other different
      exact (agreeApart_putRows _ _ _ _ name key other different).trans
        (agreeApart_putRows _ _ _ _ name key other different)
    · rw [get_putRows_self, VersionedStore.get_putAll_absent, get_putRows_self, key]
      · exact VersionedStore.get_putAll_append _ _ [] _ (notMem_indexRows _ rfl)
      · refine conflictKey_notMem_nodeTranslations fun found impossible => ?_
        rw [key] at impossible
        cases impossible
    · intro other found explicitly different
      rw [get_putRows_self,
        VersionedStore.get_putAll_absent _ _ (conflictKey_notMem_nodeTranslations explicitly),
        get_putRows_self, VersionedStore.get_putAll_absent]
      intro hmem
      rcases mem_cons.mp hmem with same | index
      · rw [key] at different
        exact different same
      · exact notMem_indexRows _ (conflictKey_isIndex other found) index
  | some locale' =>
    simp only [applyResolution, locale, outcome_bind_eq_ok, outcome_query_ok, outcome_step_ok,
      writeResolvedTranslation, outcome_change, outcome_pure, Prod.mk.injEq] at run
    obtain ⟨⟨sourceOp, workspace, targetOp⟩, _, ⟨known, rfl⟩, _, _, ⟨_, rfl⟩, _, _,
      ⟨chosen, _, ⟨hchosen, rfl⟩, _, rfl⟩, _, rfl⟩ := run
    have key : resolution.key = (resolution.nodeId, some locale') := by
      rw [ConflictResolution.key, locale]
    have value : sides.chosenValue start workspace resolution = .ok (overlayValue chosen) := by
      rw [← agree.chosenValue older, MergeSides.chosenValue, locale]
      dsimp only
      rw [hchosen]
      rfl
    refine Written.single (fun _ => rfl) rfl (agreeApart_putRows _ _ _ _) (changes_eq_ok known)
      value ?_ ?_
    · rw [get_putRows_self, key]
      exact VersionedStore.get_putAll_append _ _ [] _ not_mem_nil
    · intro other found _ different
      rw [get_putRows_self, VersionedStore.get_putAll_absent]
      intro hmem
      rw [key] at different
      exact different (mem_singleton.mp hmem)

theorem applyResolutions_written {start state final : RepositoryState}
    {resolutions : List ConflictResolution} {index : Nat} {infos : List NodeChangeInfo}
    (older : sides.Older mergeRevision) (agree : AgreeApart mergeRevision state start)
    (own : ∀ resolution ∈ resolutions, ∀ locale ∈ resolution.translationLocale,
      (resolution.nodeId, locale) ∈ explicit)
    (run : outcome (applyResolutions writers faults mergeRevision sides sourceChanges targetChanges
      explicit index resolutions) state = (.ok infos, final)) :
    Written mergeRevision sides targetChanges explicit start state final resolutions := by
  induction resolutions generalizing state index infos with
  | nil =>
    obtain ⟨_, rfl⟩ := Prod.mk.inj run
    exact Written.nil start state
  | cons resolution resolutions ih =>
    rw [applyResolutions, outcome_bind_eq_ok] at run
    obtain ⟨info, middle, first, run⟩ := run
    rw [outcome_bind_eq_ok] at run
    obtain ⟨infos', last, rest, run⟩ := run
    obtain ⟨_, rfl⟩ := Prod.mk.inj run
    have written := applyResolution_written older agree first
    refine written.cons (own resolution mem_cons_self) (ih ?_ (fun other hother =>
      own other (mem_cons_of_mem _ hother)) rest)
    exact fun name key other different =>
      (written.apart name key other different).trans (agree name key other different)

end Written

/-! ## What a reader finds after the merge -/

namespace MergeSides

variable (sides : MergeSides) (state : RepositoryState)

/-- The entries of both branches, as the copy puts them together. -/
def bothBranches : Content :=
  (state.contents sides.targetBranch).copyUpTo (state.contents sides.sourceBranch)
    sides.source.head

/-- The nodes that the target has changed, with the workspaces of the first changes that the walk
meets. -/
def targetChanges : AList fun _ : String => String × ChangeOperation :=
  state.repository.collectBranchChanges sides.target.head
    (state.graph.divergence sides.source.head sides.target.head)

/-- The workspace in which a resolution for the node is written. -/
def targetWorkspace (nodeId : String) : Option String :=
  ((sides.targetChanges state).lookup nodeId).map Prod.fst

/-- The merge leaves the node deleted: its last resolution says so, or without one the newest
version of both branches. -/
def NodeEnded (mergeRevision : HLC) (resolutions : List ConflictResolution)
    (workspace nodeId : String) : Prop :=
  match lastFor (nodeId, none) resolutions with
  | some resolution => sides.chosenValue state workspace resolution = .ok .tombstone
  | none => ∃ revision, (sides.bothBranches state).newestAtOrBefore (.node workspace nodeId)
      mergeRevision = some (revision, .tombstone)

/-- Nothing that the merge does takes the place of what the resolution names. -/
structure Prevails (mergeRevision : HLC) (resolutions : List ConflictResolution)
    (resolution : ConflictResolution) (workspace : String) : Prop where
  repeated : sides.targetWorkspace state resolution.nodeId = some workspace →
    (resolution.translationLocale.isSome →
      ¬ sides.NodeEnded state mergeRevision resolutions workspace resolution.nodeId) →
      ∀ last ∈ lastFor resolution.key resolutions,
        sides.chosenValue state workspace resolution = sides.chosenValue state workspace last
  ended : sides.targetWorkspace state resolution.nodeId = some workspace →
    resolution.translationLocale.isSome →
      sides.NodeEnded state mergeRevision resolutions workspace resolution.nodeId →
        sides.chosenValue state workspace resolution = .ok .tombstone
  elsewhere : sides.targetWorkspace state resolution.nodeId ≠ some workspace →
    sides.chosenValue state workspace resolution =
      .ok (readConflict (sides.bothBranches state) workspace resolution.key mergeRevision)

end MergeSides

section Resolved

variable {writers : IndexWriters} {faults : Faults} {mergeRevision : HLC}
  {targetBranch sourceBranch : String} {state final : RepositoryState} {target source : Branch}
  {resolutions : List ConflictResolution} {result : MergeResult}

theorem resolveMerge_success
    (run : outcome (resolveMergeWithResolutions writers faults mergeRevision targetBranch
      sourceBranch resolutions) state = (.ok (some result), final))
    (htarget : state.lookup targetBranch = some target)
    (hsource : state.lookup sourceBranch = some source)
    (newer : target.head < mergeRevision) (newerSource : source.head < mergeRevision) :
    ∃ middle changedNodes,
      Written mergeRevision ⟨targetBranch, target, sourceBranch, source⟩
        (MergeSides.targetChanges ⟨targetBranch, target, sourceBranch, source⟩ state)
        (explicitTranslations resolutions) state state middle resolutions ∧
      final = middle.merged writers mergeRevision targetBranch sourceBranch target source
        changedNodes := by
  simp only [resolveMergeWithResolutions, outcome_bind_eq_ok, outcome_step_ok, outcome_query_ok,
    Except.ok.injEq] at run
  obtain ⟨⟨target', source'⟩, _, found, _, _, ⟨_, rfl⟩, divergence, _, ⟨hdivergence, rfl⟩, _, _,
    ⟨_, rfl⟩, _, _, ⟨rfl, rfl⟩, _, _, ⟨rfl, rfl⟩, resolved, middle, applied, _, _, ⟨_, rfl⟩, line,
    _, ⟨_, rfl⟩, run⟩ := run
  obtain ⟨_, _, htarget', open', hsource', rfl⟩ := outcome_mergeSides_ok.mp found
  obtain rfl := Option.some.inj (htarget.symm.trans htarget')
  obtain rfl := Option.some.inj (hsource.symm.trans hsource')
  rw [BranchRepository.calculateDivergence_eq hsource htarget] at hdivergence
  obtain rfl := Except.ok.inj hdivergence
  have older : MergeSides.Older ⟨targetBranch, target, sourceBranch, source⟩ mergeRevision := by
    intro side
    cases side with
    | target => exact newer
    | source => exact newerSource
  have written := applyResolutions_written older (fun _ _ _ _ => rfl) (fun resolution hresolution
    locale hlocale => mem_filterMap.mpr ⟨resolution, hresolution, by
      rw [Option.mem_def.mp hlocale]; rfl⟩) applied
  cases line with
  | none =>
    obtain ⟨impossible, _⟩ := Prod.mk.inj run
    cases Except.ok.inj impossible
  | some walk =>
    rw [outcome_bind_eq_ok] at run
    obtain ⟨result', next, merged, run⟩ := run
    obtain ⟨_, rfl⟩ := Prod.mk.inj run
    have found' := (written.lookup targetBranch).trans htarget
    exact ⟨_, _, written, (outcome_completeMerge_ok found' open' merged).1⟩

section After

variable {sides : MergeSides} {middle : RepositoryState}
  {targetChanges : AList fun _ : String => String × ChangeOperation}
  {explicit : List (String × String)}

/-- Only the merge revision tells the content of the target from both branches together. -/
structure CopiedOver (mergeRevision : HLC) (sides : MergeSides) (state middle : RepositoryState)
    (after : Content) : Prop where
  other : ∀ key revision, key.isIndex = false → revision ≠ mergeRevision →
    after.get key revision = (sides.bothBranches state).get key revision
  self : ∀ key, key.isIndex = false →
    after.get key mergeRevision = (middle.contents sides.targetBranch).get key mergeRevision

theorem get_bothBranches_newer (older : sides.Older mergeRevision) (key : ContentKey) :
    (sides.bothBranches state).get key mergeRevision =
      (state.contents sides.targetBranch).get key mergeRevision := by
  have newer : sides.source.head < mergeRevision := older .source
  rw [MergeSides.bothBranches, VersionedStore.get_copyUpTo, if_neg (not_le.mpr newer),
    Option.or_none]

theorem copiedOver_merged (writers : IndexWriters) (changedNodes : List NodeChangeInfo)
    (older : sides.Older mergeRevision)
    (apart : AgreeApart mergeRevision middle state) :
    CopiedOver mergeRevision sides state middle ((middle.merged writers mergeRevision
      sides.targetBranch sides.sourceBranch sides.target sides.source changedNodes).contents
        sides.targetBranch) := by
  refine ⟨?_, ?_⟩
  · intro key revision stored different
    rw [get_merged stored, MergeSides.bothBranches, VersionedStore.get_copyUpTo,
      VersionedStore.get_copyUpTo, apart _ key revision different, apart _ key revision different]
  · intro key stored
    rw [get_merged stored]
    exact get_bothBranches_newer older key

/-- A node record that a resolution has written is what a reader finds. -/
theorem readConflict_node {content : Content} {workspace nodeId : String} {chosen : Option Node}
    (stored : content.get (.node workspace nodeId) mergeRevision = some (nodeValue chosen)) :
    readConflict content workspace (nodeId, none) mergeRevision = nodeValue chosen := by
  rw [readConflict, loadNodeAt, VersionedStore.newestAtOrBefore_self stored]
  cases chosen with
  | none => rfl
  | some node => rfl

/-- An overlay that a resolution has written is what a reader finds, unless the node is deleted. -/
theorem readConflict_overlay {content : Content} {workspace nodeId locale : String}
    {chosen : Option LocaleOverlay}
    (stored : content.get (.overlay workspace nodeId locale) mergeRevision =
      some (overlayValue chosen)) :
    readConflict content workspace (nodeId, some locale) mergeRevision =
      if endedByNodeDelete content workspace nodeId mergeRevision mergeRevision then .tombstone
      else overlayValue chosen := by
  rw [readConflict, readOverlay, VersionedStore.newestAtOrBefore_self stored, Option.bind_some]
  split
  · rfl
  · cases chosen with
    | none => rfl
    | some overlay => rfl

/-- What a resolution names is a node, an overlay or nothing. -/
theorem chosenValue_eq_ok {workspace : String} {resolution : ConflictResolution}
    {value : ContentValue} (chosen : sides.chosenValue state workspace resolution = .ok value) :
    (resolution.translationLocale = none → ∃ node, value = nodeValue node) ∧
      (resolution.translationLocale.isSome → ∃ overlay, value = overlayValue overlay) := by
  rw [MergeSides.chosenValue] at chosen
  cases locale : resolution.translationLocale with
  | none =>
    rw [locale] at chosen
    refine ⟨fun _ => ?_, fun impossible => by cases impossible⟩
    cases named : sides.chosenNode state workspace resolution with
    | error error =>
      rw [named] at chosen
      cases chosen
    | ok found =>
      rw [named] at chosen
      exact ⟨_, (Except.ok.inj chosen).symm⟩
  | some found =>
    rw [locale] at chosen
    refine ⟨fun impossible => (by cases impossible), fun _ => ?_⟩
    dsimp only at chosen
    cases named : sides.chosenOverlay state workspace found resolution with
    | error error =>
      rw [named] at chosen
      cases chosen
    | ok overlay =>
      rw [named] at chosen
      exact ⟨_, (Except.ok.inj chosen).symm⟩

theorem targetWorkspace_eq_some_iff {workspace nodeId : String} :
    sides.targetWorkspace state nodeId = some workspace ↔
      ∃ operation, (sides.targetChanges state).lookup nodeId = some (workspace, operation) := by
  rw [MergeSides.targetWorkspace, Option.map_eq_some_iff]
  constructor
  · rintro ⟨⟨found, operation⟩, stored, rfl⟩
    exact ⟨operation, stored⟩
  · rintro ⟨operation, stored⟩
    exact ⟨(workspace, operation), stored, rfl⟩

variable {after : Content} (older : sides.Older mergeRevision)
  (written : Written mergeRevision sides (sides.targetChanges state)
    (explicitTranslations resolutions) state state middle resolutions)
  (copied : CopiedOver mergeRevision sides state middle after)

include older written copied

/-- What no resolution has named is as both branches together have it. -/
theorem get_after_untouched {workspace : String} {key : String × Option String}
    (explicitly : ∀ locale ∈ key.2, (key.1, locale) ∈ explicitTranslations resolutions)
    (either : lastFor key resolutions = none ∨
      sides.targetWorkspace state key.1 ≠ some workspace) (revision : HLC) :
    after.get (conflictKey workspace key) revision =
      (sides.bothBranches state).get (conflictKey workspace key) revision := by
  by_cases same : revision = mergeRevision
  · subst same
    rw [copied.self _ (conflictKey_isIndex workspace key), get_bothBranches_newer older]
    refine written.untouched workspace key explicitly (either.imp_right fun elsewhere => ?_)
    exact fun operation found => elsewhere (targetWorkspace_eq_some_iff.mpr ⟨operation, found⟩)
  · exact copied.other _ revision (conflictKey_isIndex workspace key) same

omit older in
/-- What the last resolution for a key names is stored at the merge revision. -/
theorem get_after_resolved {workspace : String} {key : String × Option String}
    {resolution : ConflictResolution} (last : lastFor key resolutions = some resolution)
    (hworkspace : sides.targetWorkspace state key.1 = some workspace) :
    ∃ value, sides.chosenValue state workspace resolution = .ok value ∧
      after.get (conflictKey workspace key) mergeRevision = some value := by
  obtain ⟨operation, found⟩ := targetWorkspace_eq_some_iff.mp hworkspace
  obtain ⟨value, chosen, stored⟩ := written.resolved workspace operation key resolution last found
  exact ⟨value, chosen, (copied.self _ (conflictKey_isIndex workspace key)).trans stored⟩

/-- In the workspace of its resolutions a node is deleted exactly if they say so, or the copy. -/
theorem ended_after_iff {workspace nodeId : String}
    (hworkspace : sides.targetWorkspace state nodeId = some workspace) :
    endedByNodeDelete after workspace nodeId mergeRevision mergeRevision = true ↔
      sides.NodeEnded state mergeRevision resolutions workspace nodeId := by
  rw [endedByNodeDelete_self, MergeSides.NodeEnded]
  cases last : lastFor (nodeId, none) resolutions with
  | none =>
    have same : after.newestAtOrBefore (conflictKey workspace (nodeId, none)) mergeRevision =
        (sides.bothBranches state).newestAtOrBefore (conflictKey workspace (nodeId, none))
          mergeRevision :=
      VersionedStore.newestAtOrBefore_congr fun revision _ => get_after_untouched older written
        copied (fun locale impossible => by cases impossible) (Or.inl last) revision
    rw [conflictKey] at same
    rw [same]
  | some resolution =>
    obtain ⟨value, chosen, stored⟩ := get_after_resolved written copied last hworkspace
    have newest := VersionedStore.newestAtOrBefore_self stored
    rw [conflictKey] at newest
    dsimp only
    rw [newest, chosen]
    constructor
    · rintro ⟨revision, same⟩
      rw [(Prod.mk.inj (Option.some.inj same)).2]
    · intro same
      exact ⟨mergeRevision, by rw [Except.ok.inj same]⟩

/-- In another workspace the copy decides. -/
theorem readConflict_elsewhere {workspace : String} {key : String × Option String}
    (explicitly : ∀ locale ∈ key.2, (key.1, locale) ∈ explicitTranslations resolutions)
    (elsewhere : sides.targetWorkspace state key.1 ≠ some workspace) :
    readConflict after workspace key mergeRevision =
      readConflict (sides.bothBranches state) workspace key mergeRevision := by
  obtain ⟨nodeId, locale⟩ := key
  have node : ∀ revision, after.get (conflictKey workspace (nodeId, none)) revision =
      (sides.bothBranches state).get (conflictKey workspace (nodeId, none)) revision :=
    get_after_untouched older written copied (fun locale impossible => by cases impossible)
      (Or.inr elsewhere)
  cases locale with
  | none => rw [readConflict, readConflict, loadNodeAt_congr fun revision _ => node revision]
  | some locale =>
    have overlay := get_after_untouched older written copied explicitly (Or.inr elsewhere)
    rw [readConflict, readConflict, readOverlay_congr (fun revision _ => node revision)
      fun revision _ => overlay revision]

theorem prevails_iff {resolution : ConflictResolution} (listed : resolution ∈ resolutions)
    (workspace : String) :
    sides.Prevails state mergeRevision resolutions resolution workspace ↔
      sides.chosenValue state workspace resolution =
        .ok (readConflict after workspace resolution.key mergeRevision) := by
  have explicitly : ∀ locale ∈ resolution.translationLocale,
      (resolution.nodeId, locale) ∈ explicitTranslations resolutions := fun locale hlocale =>
    mem_filterMap.mpr ⟨resolution, listed, by rw [Option.mem_def.mp hlocale]; rfl⟩
  by_cases here : sides.targetWorkspace state resolution.nodeId = some workspace
  · obtain ⟨last, hlast⟩ := Option.isSome_iff_exists.mp
      (lastFor_isSome_iff.mpr ⟨resolution, listed, rfl⟩)
    obtain ⟨value, chosen, stored⟩ := get_after_resolved written copied hlast here
    have sameLocale : last.translationLocale = resolution.translationLocale :=
      congrArg Prod.snd (lastFor_key hlast)
    cases locale : resolution.translationLocale with
    | none =>
      have key : resolution.key = (resolution.nodeId, none) := by
        rw [ConflictResolution.key, locale]
      obtain ⟨node, rfl⟩ := (chosenValue_eq_ok chosen).1 (sameLocale.trans locale)
      rw [key] at stored
      rw [key, readConflict_node stored, ← chosen]
      constructor
      · intro prevails
        refine prevails.repeated here (fun impossible => ?_) last hlast
        rw [locale] at impossible
        cases impossible
      · intro same
        refine ⟨fun _ _ other hother => ?_, fun _ impossible => ?_, fun there => absurd here there⟩
        · rw [Option.mem_def, hlast] at hother
          rw [← Option.some.inj hother]
          exact same
        · rw [locale] at impossible
          cases impossible
    | some found =>
      have key : resolution.key = (resolution.nodeId, some found) := by
        rw [ConflictResolution.key, locale]
      have translated : resolution.translationLocale.isSome := by rw [locale]; rfl
      obtain ⟨overlay, rfl⟩ := (chosenValue_eq_ok chosen).2 (sameLocale ▸ translated)
      rw [key] at stored
      rw [key, readConflict_overlay stored]
      by_cases ended : sides.NodeEnded state mergeRevision resolutions workspace resolution.nodeId
      · rw [if_pos ((ended_after_iff older written copied here).mpr ended)]
        exact ⟨fun prevails => prevails.ended here translated ended, fun same =>
          ⟨fun _ alive => absurd ended (alive translated), fun _ _ _ => same,
            fun there => absurd here there⟩⟩
      · rw [if_neg fun delete => ended ((ended_after_iff older written copied here).mp delete),
          ← chosen]
        constructor
        · exact fun prevails => prevails.repeated here (fun _ => ended) last hlast
        · intro same
          refine ⟨fun _ _ other hother => ?_, fun _ _ dead => absurd dead ended,
            fun there => absurd here there⟩
          rw [Option.mem_def, hlast] at hother
          rw [← Option.some.inj hother]
          exact same
  · rw [readConflict_elsewhere older written copied explicitly here]
    exact ⟨fun prevails => prevails.elsewhere here, fun same =>
      ⟨fun there => absurd there here, fun there => absurd there here, fun _ => same⟩⟩

end After

/-- Every reported conflict has a resolution, and a reader finds what it names wherever the target
has changed the node. -/
def ConflictsResolved (mergeRevision : HLC) (sides : MergeSides) (state final : RepositoryState)
    (resolutions : List ConflictResolution) : Prop :=
  ∀ conflicts, findMergeConflicts state sides.targetBranch sides.sourceBranch =
      .ok conflicts →
    ∀ conflict ∈ conflicts, ∃ resolution ∈ resolutions,
      resolution.key = (conflict.nodeId, conflict.translationLocale) ∧
      ∀ revision change,
        Compared state.graph sides.target.head sides.source.head revision change →
        change.key = (conflict.nodeId, conflict.translationLocale) →
          sides.chosenValue state change.workspace resolution =
            .ok (readConflict (final.contents sides.targetBranch) change.workspace resolution.key
              mergeRevision)

/-- Every conflict has a resolution that nothing takes the place of. -/
def ResolutionsPrevail (mergeRevision : HLC) (sides : MergeSides) (state : RepositoryState)
    (resolutions : List ConflictResolution) : Prop :=
  ∀ key, InConflict state.graph sides.target.head sides.source.head key →
    ∃ resolution ∈ resolutions, resolution.key = key ∧
      ∀ revision change,
        Compared state.graph sides.target.head sides.source.head revision change →
        change.key = key →
          sides.Prevails state mergeRevision resolutions resolution change.workspace

end Resolved

/-! ## Two lists of resolutions -/

def movePage (nodeId path : String) (revision : HLC) (name : String) : HistoryEvent :=
  .commit name revision [addPage nodeId path] (some [⟨nodeId, "content", .modified, none⟩])

/-- Both branches move the same page. -/
def movedHistory : List HistoryEvent :=
  [.fork "main" none none false,
    .commit "main" (rev 1) [addPage "home" "/home"] (some [listPage "home"]),
    .fork "feature" (some "main") none false,
    movePage "home" "/start" (rev 2) "feature",
    movePage "home" "/welcome" (rev 3) "main"]

def movedPages : RepositoryState := (historyMachine noIndexes).final .empty movedHistory

def keepOursFor (nodeId : String) : ConflictResolution :=
  ⟨nodeId, .keepOurs, ⟨true, .ok ∅, .error "", .error ""⟩, none⟩

def mainAndFeature : MergeSides := ⟨"main", ⟨rev 3, false⟩, "feature", ⟨rev 2, false⟩⟩

/-- The page has no properties. -/
def homeConflict : MergeConflict :=
  ⟨"home", "", .bothModified, some (.node ∅), some (.node ∅), some (.node ∅), none⟩

end RaisinDB.Branches
