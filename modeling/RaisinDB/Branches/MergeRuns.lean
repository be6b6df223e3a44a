import RaisinDB.Branches.MergeHistories

/-!
# What merges show

In a history of permitted steps, the target of a successful merge shows at its new
head what the commits of the source have changed, and its own nodes otherwise.
-/

namespace RaisinDB.Branches

open RaisinDB.Clock RaisinDB.Foundation RaisinDB.Replication List
open Fallible

/-- Some commit that the target does not have wrote the node. -/
def ChangedBySource (state : RepositoryState) (target source : HLC) (workspace nodeId : String) :
    Prop :=
  ∃ revision ∈ state.graph.unmerged source target, ∃ value,
    Wrote state workspace nodeId revision value

/-- At its new head the target shows the nodes of the source that commits of the source changed,
and its own ones otherwise. -/
def ShowsSource (before after : RepositoryState) (targetBranch sourceBranch : String) : Prop :=
  ∀ target source merged, before.lookup targetBranch = some target →
    before.lookup sourceBranch = some source → after.lookup targetBranch = some merged →
      ∀ workspace nodeId,
        (ChangedBySource before target.head source.head workspace nodeId →
          loadNodeAt (after.contents targetBranch) workspace nodeId merged.head =
            loadNodeAt (before.contents sourceBranch) workspace nodeId source.head) ∧
        (¬ ChangedBySource before target.head source.head workspace nodeId →
          loadNodeAt (after.contents targetBranch) workspace nodeId merged.head =
            loadNodeAt (before.contents targetBranch) workspace nodeId target.head)

section Reads

variable {state : RepositoryState}

/-- Nothing of a consistent branch lies above its head. -/
theorem Consistent.get_above (consistent : Consistent state) {name : String} {branch : Branch}
    (found : state.lookup name = some branch) {workspace nodeId : String} {revision : HLC}
    (above : branch.head < revision) :
    (state.contents name).get (.node workspace nodeId) revision = none := by
  by_contra present
  obtain ⟨value, stored⟩ := Option.ne_none_iff_exists'.mp present
  have reach := ((consistent.get_iff found).mp stored).1
  exact absurd (consistent.growing.le reach) (not_le.mpr above)

/-- A store that has the versions of a consistent branch reads like it at every later head. -/
theorem Consistent.loadNodeAt_eq (consistent : Consistent state) {name : String} {branch : Branch}
    (found : state.lookup name = some branch) {content : Content} {head : HLC}
    (later : branch.head ≤ head) {workspace nodeId : String}
    (same : ∀ revision ≤ head, content.get (.node workspace nodeId) revision =
      (state.contents name).get (.node workspace nodeId) revision) :
    loadNodeAt content workspace nodeId head =
      loadNodeAt (state.contents name) workspace nodeId branch.head := by
  rw [loadNodeAt, loadNodeAt, VersionedStore.newestAtOrBefore_congr same,
    VersionedStore.newestAtOrBefore_later later]
  exact fun revision above _ => consistent.get_above found above

/-- A commit of its own that wrote a node is compared. -/
theorem Consistent.compared (consistent : Consistent state) {head other revision : HLC}
    (fresh : revision ∈ state.graph.unmerged head other) {workspace nodeId : String}
    {value : ContentValue} (wrote : Wrote state workspace nodeId revision value) :
    ∃ found change, Compared state.graph head other found change ∧ change.key = (nodeId, none) := by
  obtain ⟨record, stored, merge, change, hchange, key, operation⟩ :=
    consistent.listed _ _ _ _ wrote
  refine ⟨revision, change, ⟨fresh, ⟨record, stored, hchange, ?_⟩, operation⟩, key⟩
  intro mergeParent isParent
  rw [merge] at isParent
  cases isParent

/-- Without conflicts a node has not been written on both sides. -/
theorem Consistent.one_side (consistent : Consistent state) {targetBranch sourceBranch : String}
    {target source : Branch} (htarget : state.lookup targetBranch = some target)
    (hsource : state.lookup sourceBranch = some source)
    (none : findMergeConflicts state targetBranch sourceBranch = .ok [])
    {workspace nodeId : String}
    (changed : ChangedBySource state target.head source.head workspace nodeId)
    {revision : HLC} {value : ContentValue} (wrote : Wrote state workspace nodeId revision value)
    (reach : state.graph.Reaches target.head revision) :
    state.graph.Reaches source.head revision := by
  by_contra own
  obtain ⟨found, unmerged, value', wrote'⟩ := changed
  obtain ⟨conflicts, run, reported⟩ := findMergeConflicts_spec htarget hsource
  have both : InConflict state.graph target.head source.head (nodeId, Option.none) :=
    ⟨consistent.compared unmerged wrote', consistent.compared ⟨reach, own⟩ wrote⟩
  obtain ⟨conflict, hconflict, _⟩ := (reported _).mpr both
  rw [none] at run
  rw [← Except.ok.inj run] at hconflict
  cases hconflict

theorem Consistent.shows_threeWay (consistent : Consistent state) {writers : IndexWriters}
    {mergeRevision : HLC} (fresh : Fresh state mergeRevision) {targetBranch sourceBranch : String}
    {target source : Branch} (htarget : state.lookup targetBranch = some target)
    (hsource : state.lookup sourceBranch = some source)
    (none : findMergeConflicts state targetBranch sourceBranch = .ok [])
    (changedNodes : List NodeChangeInfo) (workspace nodeId : String) :
    let after := state.merged writers mergeRevision targetBranch sourceBranch target source
      changedNodes
    (ChangedBySource state target.head source.head workspace nodeId →
      loadNodeAt (after.contents targetBranch) workspace nodeId mergeRevision =
        loadNodeAt (state.contents sourceBranch) workspace nodeId source.head) ∧
    (¬ ChangedBySource state target.head source.head workspace nodeId →
      loadNodeAt (after.contents targetBranch) workspace nodeId mergeRevision =
        loadNodeAt (state.contents targetBranch) workspace nodeId target.head) := by
  have newer := (fresh.heads targetBranch target htarget).le
  have newerSource := (fresh.heads sourceBranch source hsource).le
  refine ⟨fun changed => ?_, fun unchanged => ?_⟩
  · refine consistent.loadNodeAt_eq hsource newerSource fun revision _ => ?_
    rw [get_merged rfl, VersionedStore.get_copyUpTo]
    cases own : (state.contents targetBranch).get (.node workspace nodeId) revision with
    | some value =>
      obtain ⟨reach, wrote⟩ := (consistent.get_iff htarget).mp own
      have both := consistent.one_side htarget hsource none changed wrote reach
      exact ((consistent.get_iff hsource).mpr ⟨both, wrote⟩).symm
    | none =>
      rw [Option.none_or]
      by_cases below : revision ≤ source.head
      · rw [if_pos below]
      · rw [if_neg below, consistent.get_above hsource (not_le.mp below)]
  · refine consistent.loadNodeAt_eq htarget newer fun revision _ => ?_
    rw [get_merged rfl, VersionedStore.get_copyUpTo]
    cases own : (state.contents targetBranch).get (.node workspace nodeId) revision with
    | some value => rfl
    | none =>
      rw [Option.none_or]
      by_contra copied
      obtain ⟨value, stored⟩ := Option.ne_none_iff_exists'.mp copied
      split at stored
      · obtain ⟨reach, wrote⟩ := (consistent.get_iff hsource).mp stored
        have fresh' : ¬ state.graph.Reaches target.head revision := fun old => by
          rw [(consistent.get_iff htarget).mpr ⟨old, wrote⟩] at own
          cases own
        exact unchanged ⟨revision, ⟨reach, fresh'⟩, value, wrote⟩
      · cases stored

end Reads

/-! ## Increasing revisions are fresh -/

/-- The revisions that an event names are older. -/
def HistoryEvent.Below (bound : HLC) : HistoryEvent → Prop
  | .fork _ _ fromRevision _ => ∀ revision ∈ fromRevision, revision < bound
  | .commit _ revision _ _ => revision < bound
  | .merge _ _ _ mergeRevision => mergeRevision < bound

instance (bound : HLC) (event : HistoryEvent) : Decidable (event.Below bound) :=
  match event with
  | .fork _ _ fromRevision _ => inferInstanceAs (Decidable (∀ revision ∈ fromRevision, revision < bound))
  | .commit _ revision _ _ => inferInstanceAs (Decidable (revision < bound))
  | .merge _ _ _ mergeRevision => inferInstanceAs (Decidable (mergeRevision < bound))

section Increasing

variable {state : RepositoryState} {bound : HLC}

theorem Fresh.putBranch (fresh : Fresh state bound) {name : String} {branch : Branch}
    (older : branch.head < bound) : Fresh (state.putBranch name branch) bound := by
  refine ⟨fresh.positive, fun other found hfound => ?_, fresh.metas, fresh.versions⟩
  by_cases same : other = name
  · subst same
    rw [state.lookup_putBranch_self] at hfound
    exact Option.some.inj hfound ▸ older
  · rw [state.lookup_putBranch_other same] at hfound
    exact fresh.heads other found hfound

theorem Fresh.advanceHead (fresh : Fresh state bound) (name : String) (branch : Branch)
    {newHead : HLC} (older : newHead < bound) :
    Fresh (state.advanceHead name branch newHead) bound := by
  rw [RepositoryState.advanceHead]
  split
  · exact fresh
  · exact fresh.putBranch older

theorem Fresh.storeRevisionMeta (fresh : Fresh state bound) {revision : HLC} (older : revision < bound)
    (record : RevisionMeta) : Fresh (state.storeRevisionMeta revision record) bound := by
  refine ⟨fresh.positive, fresh.heads, fun other recorded => ?_, fresh.versions⟩
  by_cases same : other = revision
  · exact same ▸ older
  · rw [RevisionGraph.Recorded, RepositoryState.graph_storeRevisionMeta,
      RevisionGraph.getRevisionMeta_store_other same] at recorded
    exact fresh.metas other recorded

theorem Fresh.setContent (fresh : Fresh state bound) {name : String} {content : Content}
    (older : ∀ workspace nodeId revision value,
      content.get (.node workspace nodeId) revision = some value → revision < bound) :
    Fresh (state.setContent name content) bound := by
  refine ⟨fresh.positive, fresh.heads, fresh.metas, ?_⟩
  rintro workspace nodeId revision value ⟨other, stored⟩
  by_cases same : other = name
  · subst same
    rw [state.contents_setContent_self] at stored
    exact older _ _ _ _ stored
  · rw [state.contents_setContent_other same] at stored
    exact fresh.versions _ _ _ _ ⟨other, stored⟩

theorem Fresh.copyUpTo (fresh : Fresh state bound) (name source : String) (maxRevision : HLC) :
    Fresh (state.setContent name ((state.contents name).copyUpTo (state.contents source)
      maxRevision)) bound := by
  refine fresh.setContent fun workspace nodeId revision value stored => ?_
  rw [VersionedStore.get_copyUpTo, Option.or_eq_some_iff] at stored
  rcases stored with own | ⟨_, copied⟩
  · exact fresh.versions _ _ _ _ ⟨name, own⟩
  · split at copied
    · exact fresh.versions _ _ _ _ ⟨source, copied⟩
    · cases copied

theorem Fresh.putAll (fresh : Fresh state bound) (name : String) {revision : HLC}
    (older : revision < bound) (rows : List (ContentKey × ContentValue)) :
    Fresh (state.setContent name ((state.contents name).putAll revision rows)) bound := by
  refine fresh.setContent fun workspace nodeId other value stored => ?_
  by_cases same : other = revision
  · exact same ▸ older
  · rw [VersionedStore.get_putAll_other _ same] at stored
    exact fresh.versions _ _ _ _ ⟨name, stored⟩

theorem Fresh.createBranch (fresh : Fresh state bound) {name : String} {source : Option String}
    {fromRevision : Option HLC} {isProtected : Bool}
    (below : (HistoryEvent.fork name source fromRevision isProtected).Below bound) :
    Fresh (outcome (createBranch name source fromRevision isProtected) state).2 bound := by
  have effective : ∀ revision, effectiveRevision state source fromRevision = some revision →
      revision < bound := by
    intro revision found
    rw [effectiveRevision, Option.or_eq_some_iff, Option.bind_eq_some_iff] at found
    rcases found with given | ⟨_, origin, _, head⟩
    · exact below revision given
    · obtain ⟨branch, hbranch, rfl⟩ := Option.map_eq_some_iff.mp head
      exact fresh.heads origin branch hbranch
  rw [Branches.createBranch, outcome_bind, outcome_query]
  dsimp only
  rw [outcome_bind, outcome_change]
  dsimp only
  cases found : effectiveRevision state source fromRevision with
  | none => exact fresh.putBranch fresh.positive
  | some revision => exact (fresh.putBranch (effective revision found)).copyUpTo _ _ _

theorem Fresh.commitNodes (fresh : Fresh state bound) {name : String} {revision : HLC}
    {writes : List NodeWrite} {record : Option (List NodeChangeInfo)} (older : revision < bound) :
    Fresh (outcome (commitNodes name revision writes record) state).2 bound := by
  rw [Branches.commitNodes, outcome_bind, outcome_query]
  cases found : state.lookup name with
  | none => exact fresh
  | some branch =>
    have written := fresh.putAll name older (writes.map NodeWrite.row)
    cases record with
    | none => exact written.advanceHead _ _ older
    | some changes => exact (written.storeRevisionMeta older _).advanceHead _ _ older

theorem Fresh.mergeBranches (fresh : Fresh state bound) {writers : IndexWriters}
    {targetBranch sourceBranch : String} {strategy : MergeStrategy} {mergeRevision : HLC}
    (older : mergeRevision < bound) :
    Fresh (outcome (mergeBranches writers noFaults mergeRevision targetBranch sourceBranch
      strategy) state).2 bound := by
  cases run : outcome (Branches.mergeBranches writers noFaults mergeRevision targetBranch
      sourceBranch strategy) state with
  | mk answer final =>
    rcases mergeBranches_otherwise run with ⟨result, rfl, success⟩ | rfl
    · obtain ⟨target, source, htarget, hsource, _, same | forward | merged⟩ :=
        mergeBranches_success run success
      · exact same.2 ▸ fresh
      · obtain ⟨_, _, _, rfl⟩ := forward
        exact fresh.advanceHead _ _ (fresh.heads sourceBranch source hsource)
      · obtain ⟨_, _, _, rfl⟩ := merged
        have advanced := (fresh.storeRevisionMeta older ⟨some target.head, some source.head,
          state.repository.mergeChangedNodes target source⟩).advanceHead targetBranch target older
        exact (advanced.copyUpTo targetBranch sourceBranch source.head).putAll targetBranch older _
    · exact fresh

end Increasing

/-- A revision newer than all revisions of a history is fresh at its end. -/
theorem fresh_final (writers : IndexWriters) {bound : HLC} (positive : ⟨0, 0⟩ < bound)
    {events : List HistoryEvent} (below : ∀ event ∈ events, event.Below bound) :
    Fresh ((historyMachine writers).final .empty events) bound := by
  have start : Fresh .empty bound := by
    refine ⟨positive, ?_, ?_, ?_⟩
    · intro name branch found
      cases found
    · intro other recorded
      cases recorded
    · rintro workspace nodeId revision value ⟨name, stored⟩
      cases stored
  refine (historyMachine writers).final_invariant (fun state => Fresh state bound)
    (fun _ event => event.Below bound) ?_ start
    fun transition htransition => below _ ((historyMachine writers).event_mem htransition)
  intro state event fresh older
  rw [historyMachine_step_fst]
  cases event with
  | fork name source fromRevision isProtected => exact fresh.createBranch older
  | commit name revision writes record => exact fresh.commitNodes older
  | merge targetBranch sourceBranch strategy mergeRevision => exact fresh.mergeBranches older

/-- In a history of permitted steps every successful merge shows the work of its source. -/
theorem merges_show_source (writers : IndexWriters) {events : List HistoryEvent}
    (permitted : ∀ transition ∈ (historyMachine writers).transitions .empty events,
      Permitted transition.before transition.event) :
    ∀ transition ∈ (historyMachine writers).transitions .empty events,
      ∀ targetBranch sourceBranch strategy mergeRevision result,
        transition.event = .merge targetBranch sourceBranch strategy mergeRevision →
        transition.output = .ok (some result) → result.success = true →
          ShowsSource transition.before transition.after targetBranch sourceBranch := by
  intro transition htransition targetBranch sourceBranch strategy mergeRevision result event output
    success
  have consistent := ((historyMachine writers).transitions_invariant Consistent Permitted
    (consistent_step writers) consistent_empty permitted transition htransition).1
  have allowed := permitted transition htransition
  obtain ⟨early, _, late, _, rfl⟩ := (historyMachine writers).mem_transitions_iff.mp htransition
  dsimp only at event output allowed consistent
  subst event
  obtain ⟨fresh, passes⟩ := allowed
  -- the answer of the event is the result of the merge
  rw [historyMachine] at output
  dsimp only [HistoryEvent.action] at output
  obtain ⟨found, final, run, answer⟩ := outcome_bind_eq_ok.mp (Prod.ext output rfl)
  obtain ⟨same, last⟩ := Prod.mk.inj answer
  obtain rfl := Option.some.inj (Except.ok.inj same)
  have reached : ((historyMachine writers).step ((historyMachine writers).final .empty early)
      (.merge targetBranch sourceBranch strategy mergeRevision)).1 = final := last.symm
  dsimp only
  rw [reached]
  intro target source merged htarget hsource hmerged workspace nodeId
  obtain ⟨target', source', htarget', hsource', _, cases⟩ := mergeBranches_success run success
  obtain rfl := Option.some.inj (htarget.symm.trans htarget')
  obtain rfl := Option.some.inj (hsource.symm.trans hsource')
  rcases cases with ⟨same, rfl⟩ | ⟨_, isForward, possible, rfl⟩ | ⟨_, _, none, rfl⟩
  · obtain rfl := Option.some.inj (htarget.symm.trans hmerged)
    refine ⟨fun changed => ?_, fun _ => rfl⟩
    obtain ⟨revision, unmerged, _⟩ := changed
    exact absurd (same ▸ unmerged.1) unmerged.2
  · have ancestor := consistent.ancestor_of_fastForward htarget hsource possible
    have newer := lt_of_le_of_ne (consistent.growing.le ancestor.1) ancestor.2
    rw [advanceHead_eq newer, RepositoryState.lookup_putBranch_self] at hmerged
    obtain rfl := Option.some.inj hmerged
    refine ⟨fun changed => ?_, fun _ => ?_⟩
    · obtain ⟨revision, unmerged, value, wrote⟩ := changed
      exact absurd wrote (passes isForward target source htarget hsource revision unmerged _ _ _)
    · rw [advanceHead_eq newer]
      exact consistent.loadNodeAt_eq htarget newer.le fun _ _ => rfl
  · have head : merged.head = mergeRevision := by
      rw [RepositoryState.merged, advanceHead_eq (fresh.heads targetBranch target htarget)] at hmerged
      have lookup := (RepositoryState.lookup_putBranch_self _ _ _).symm.trans hmerged
      rw [← Option.some.inj lookup]
    rw [head]
    exact consistent.shows_threeWay fresh htarget hsource none _ workspace nodeId

/-! ## Two histories -/

/-- A history whose steps are permitted goes on with a permitted step. -/
theorem permitted_append {writers : IndexWriters} {events : List HistoryEvent}
    (early : ∀ transition ∈ (historyMachine writers).transitions .empty events,
      Permitted transition.before transition.event) (event : HistoryEvent)
    (last : Permitted ((historyMachine writers).final .empty events) event) :
    ∀ transition ∈ (historyMachine writers).transitions .empty (events ++ [event]),
      Permitted transition.before transition.event := by
  intro transition htransition
  rw [(historyMachine writers).transitions_append] at htransition
  rcases mem_append.mp htransition with before | here
  · exact early transition before
  · rw [mem_singleton.mp here]
    exact last

/-- In a permitted history a fork at the head of its source is permitted. -/
theorem permitted_fork_at_head {writers : IndexWriters} {events : List HistoryEvent}
    (early : ∀ transition ∈ (historyMachine writers).transitions .empty events,
      Permitted transition.before transition.event) (name source : String) (origin : Branch)
    (absent : ((historyMachine writers).final .empty events).lookup name = none)
    (found : ((historyMachine writers).final .empty events).lookup source = some origin)
    (isProtected : Bool) :
    Permitted ((historyMachine writers).final .empty events)
      (.fork name (some source) none isProtected) := by
  have consistent := (historyMachine writers).final_invariant Consistent Permitted
    (consistent_step writers) consistent_empty early
  refine ⟨absent, fun maxRevision effective => ⟨origin, found, ?_, ?_⟩⟩
  · rw [effectiveRevision, Option.none_or, Option.bind_some, found] at effective
    rw [← Option.some.inj effective]
    exact RevisionGraph.Reaches.refl _
  · intro workspace nodeId revision value _ stored
    rw [effectiveRevision, Option.none_or, Option.bind_some, found] at effective
    rw [← Option.some.inj effective]
    exact ((consistent.get_iff found).mp stored).1

def noIndexes : IndexWriters := ⟨fun _ _ _ _ => [], fun _ _ => []⟩

/-- A node of the content workspace without properties. -/
def pageAt (path : String) : Node := ⟨path, ∅⟩

def addPage (nodeId path : String) : NodeWrite := ⟨"content", nodeId, some (pageAt path)⟩

def listPage (nodeId : String) : NodeChangeInfo := ⟨nodeId, "content", .added, none⟩

/-- A page on the main branch, and another one on a branch that forked from it. -/
def featureHistory : List HistoryEvent :=
  [.fork "main" none none false,
    .commit "main" (rev 1) [addPage "home" "/home"] (some [listPage "home"]),
    .fork "feature" (some "main") none false,
    .commit "feature" (rev 2) [addPage "news" "/news"] (some [listPage "news"])]

/-- Then the main branch goes on. -/
def teamHistory : List HistoryEvent :=
  featureHistory ++
    [.commit "main" (rev 3) [addPage "team" "/team"] (some [listPage "team"])]

theorem permitted_commit_page {writers : IndexWriters} {events : List HistoryEvent} (name : String)
    (millis : Nat) (below : ∀ event ∈ events, event.Below (rev millis)) (positive : 0 < millis)
    (nodeId path : String) :
    Permitted ((historyMachine writers).final .empty events)
      (.commit name (rev millis) [addPage nodeId path] (some [listPage nodeId])) := by
  refine ⟨fresh_final writers (hlc_lt_iff.mpr (Or.inl positive)) below, [listPage nodeId], rfl, ?_⟩
  intro write hwrite
  rw [mem_singleton.mp hwrite]
  exact ⟨listPage nodeId, mem_singleton_self _, rfl, fun impossible => by cases impossible⟩

theorem permitted_featureHistory :
    ∀ transition ∈ (historyMachine noIndexes).transitions .empty featureHistory,
      Permitted transition.before transition.event := by
  have start : ∀ transition ∈ (historyMachine noIndexes).transitions .empty
      [.fork "main" none none false], Permitted transition.before transition.event := by
    intro transition htransition
    rw [mem_singleton.mp htransition]
    exact ⟨rfl, fun maxRevision impossible => by cases impossible⟩
  have home := permitted_append start _ (permitted_commit_page "main" 1 (by decide) (by decide)
    "home" "/home")
  have fork := permitted_append home _ (permitted_fork_at_head home "feature" "main" ⟨rev 1, false⟩
    (by decide +kernel) (by decide +kernel) false)
  exact permitted_append fork _ (permitted_commit_page "feature" 2 (by decide) (by decide) "news"
    "/news")

/-- A fast-forward reports success, and the new page is not on the main branch. -/
theorem fast_forward_hides_source :
    (∀ transition ∈ (historyMachine noIndexes).transitions .empty featureHistory,
      Permitted transition.before transition.event) ∧
    Fresh ((historyMachine noIndexes).final .empty featureHistory) (rev 3) ∧
    ((historyMachine noIndexes).step ((historyMachine noIndexes).final .empty featureHistory)
      (.merge "main" "feature" .fastForward (rev 3))).2 = .ok (some ⟨true, some 2, [], true, 0⟩) ∧
    ¬ ShowsSource ((historyMachine noIndexes).final .empty featureHistory)
      ((historyMachine noIndexes).step ((historyMachine noIndexes).final .empty featureHistory)
        (.merge "main" "feature" .fastForward (rev 3))).1 "main" "feature" := by
  refine ⟨permitted_featureHistory, fresh_final noIndexes (by decide) (by decide),
    by decide +kernel, fun shows => ?_⟩
  have changed : ChangedBySource ((historyMachine noIndexes).final .empty featureHistory) (rev 1)
      (rev 2) "content" "news" := by
    refine ⟨rev 2, ⟨RevisionGraph.Reaches.refl _, fun old => ?_⟩, .node (pageAt "/news"), "feature",
      rfl⟩
    exact absurd (RevisionGraph.mem_ancestry.mpr old) (by decide +kernel)
  have shown := (shows ⟨rev 1, false⟩ ⟨rev 2, false⟩ ⟨rev 2, false⟩ (by decide +kernel)
    (by decide +kernel) (by decide +kernel) "content" "news").1 changed
  have hidden : (loadNodeAt (((historyMachine noIndexes).step
      ((historyMachine noIndexes).final .empty featureHistory)
        (.merge "main" "feature" .fastForward (rev 3))).1.contents "main") "content" "news"
          (rev 2)).isSome = false := by decide +kernel
  have there : (loadNodeAt (((historyMachine noIndexes).final .empty featureHistory).contents
      "feature") "content" "news" (rev 2)).isSome = true := by decide +kernel
  rw [shown, there] at hidden
  cases hidden

/-- After a three-way merge the main branch shows the page of the other branch. -/
theorem three_way_shows_news :
    loadNodeAt (((historyMachine noIndexes).final .empty
        (teamHistory ++ [.merge "main" "feature" .threeWay (rev 4)])).contents "main") "content"
          "news" (rev 4) =
      loadNodeAt (((historyMachine noIndexes).final .empty teamHistory).contents "feature")
        "content" "news" (rev 2) := by
  have team := permitted_append permitted_featureHistory _
    (permitted_commit_page "main" 3 (by decide) (by decide) "team" "/team")
  have all := permitted_append team (.merge "main" "feature" .threeWay (rev 4))
    ⟨fresh_final noIndexes (by decide) (by decide), fun impossible => by cases impossible⟩
  have shows := merges_show_source noIndexes all _
    ((historyMachine noIndexes).mem_transitions_iff.mpr ⟨teamHistory, _, [], rfl, rfl⟩) "main"
    "feature" .threeWay (rev 4) ⟨true, some 4, [], false, 1⟩ rfl (by decide +kernel) rfl
  have changed : ChangedBySource ((historyMachine noIndexes).final .empty teamHistory) (rev 3)
      (rev 2) "content" "news" := by
    refine ⟨rev 2, ⟨RevisionGraph.Reaches.refl _, fun old => ?_⟩, .node (pageAt "/news"), "feature",
      rfl⟩
    exact absurd (RevisionGraph.mem_ancestry.mpr old) (by decide +kernel)
  have shown := (shows ⟨rev 3, false⟩ ⟨rev 2, false⟩ ⟨rev 4, false⟩ (by decide +kernel)
    (by decide +kernel) (by decide +kernel) "content" "news").1 changed
  rw [(historyMachine noIndexes).final_append]
  exact shown

end RaisinDB.Branches
