import RaisinDB.Branches.Merge
import RaisinDB.Foundation.Machine

/-!
# Histories of forks, commits and merges

A branch should hold exactly what the commits of its history have written.  Forks,
recorded commits and three-way merges keep this; a fast-forward moves the head over
commits whose entries the target does not have.
-/

namespace RaisinDB.Branches

open RaisinDB.Clock RaisinDB.Foundation RaisinDB.Replication List
open Fallible

/-! ## Events -/

/-- Without a revision the fork is taken at the head of its source. -/
def effectiveRevision (state : RepositoryState) (source : Option String)
    (fromRevision : Option HLC) : Option HLC :=
  fromRevision.or (source.bind fun found => (state.lookup found).map Branch.head)

def createBranch (name : String) (source : Option String) (fromRevision : Option HLC)
    (isProtected : Bool) : Merging Unit := do
  let effective ← query fun state => .ok (effectiveRevision state source fromRevision)
  change fun state => state.putBranch name ⟨effective.getD ⟨0, 0⟩, isProtected⟩
  match effective with
  | none => return ()
  | some maxRevision => copyContents none (source.getD "main") name maxRevision

/-- A node that a commit writes, or its deletion. -/
structure NodeWrite where
  workspace : String
  nodeId : String
  node : Option Node

def NodeWrite.row (write : NodeWrite) : ContentKey × ContentValue :=
  (.node write.workspace write.nodeId,
    match write.node with
    | some node => .node node
    | none => .tombstone)

/-- The nodes, the metadata if the writer makes any, and the head are one batch. -/
def commitNodes (name : String) (revision : HLC) (writes : List NodeWrite)
    (record : Option (List NodeChangeInfo)) : Merging Unit := do
  let branch ← query fun state =>
    match state.lookup name with
    | some branch => .ok branch
    | none => .error (.notFound ("Branch '" ++ name ++ "' not found during commit"))
  change fun state => state.setContent name
    ((state.contents name).putAll revision (writes.map NodeWrite.row))
  match record with
  | none => pure ()
  | some changes =>
      change fun state => state.storeRevisionMeta revision ⟨some branch.head, none, changes⟩
  change fun state => state.advanceHead name branch revision

inductive HistoryEvent where
  | fork (name : String) (source : Option String) (fromRevision : Option HLC)
      (isProtected : Bool)
  | commit (name : String) (revision : HLC) (writes : List NodeWrite)
      (record : Option (List NodeChangeInfo))
  | merge (targetBranch sourceBranch : String) (strategy : MergeStrategy) (mergeRevision : HLC)

/-- A merge answers with its result. -/
def HistoryEvent.action (writers : IndexWriters) : HistoryEvent → Merging (Option MergeResult)
  | .fork name source fromRevision isProtected => do
      createBranch name source fromRevision isProtected
      return none
  | .commit name revision writes record => do
      commitNodes name revision writes record
      return none
  | .merge targetBranch sourceBranch strategy mergeRevision => do
      let result ← mergeBranches writers noFaults mergeRevision targetBranch sourceBranch strategy
      return some result

def historyMachine (writers : IndexWriters) :
    Machine RepositoryState HistoryEvent (Except BranchError (Option MergeResult)) where
  step state event :=
    ((outcome (event.action writers) state).2, (outcome (event.action writers) state).1)

theorem historyMachine_step_fst (writers : IndexWriters) (state : RepositoryState)
    (event : HistoryEvent) :
    ((historyMachine writers).step state event).1 =
      match event with
      | .fork name source fromRevision isProtected =>
        (outcome (createBranch name source fromRevision isProtected) state).2
      | .commit name revision writes record =>
        (outcome (commitNodes name revision writes record) state).2
      | .merge targetBranch sourceBranch strategy mergeRevision =>
        (outcome (mergeBranches writers noFaults mergeRevision targetBranch sourceBranch
          strategy) state).2 := by
  have only {α : Type} (action : Merging α) (answer : α → Option MergeResult) :
      (outcome (action >>= fun value => pure (answer value)) state).2 = (outcome action state).2 := by
    rw [outcome_bind]
    cases outcome action state with
    | mk found next =>
      cases found with
      | ok value => rfl
      | error error => rfl
  cases event with
  | fork name source fromRevision isProtected => exact only _ _
  | commit name revision writes record => exact only _ _
  | merge targetBranch sourceBranch strategy mergeRevision => exact only _ _

/-! ## What a branch should hold -/

/-- Some commit wrote the node at the revision. -/
def Wrote (state : RepositoryState) (workspace nodeId : String) (revision : HLC)
    (value : ContentValue) : Prop :=
  ∃ name, (state.contents name).get (.node workspace nodeId) revision = some value

/-- The metadata of a commit lists the node. -/
def Listed (graph : RevisionGraph) (revision : HLC) (nodeId : String) : Prop :=
  ∃ record, graph.getRevisionMeta revision = some record ∧ record.mergeParent = none ∧
    ∃ change ∈ record.changedNodes, change.key = (nodeId, none) ∧ change.operation ≠ .reordered

/-- Every branch holds what the commits of its history wrote, and these commits list it. -/
structure Consistent (state : RepositoryState) : Prop where
  growing : state.graph.Growing
  sound : ∀ name workspace nodeId revision value,
    (state.contents name).get (.node workspace nodeId) revision = some value →
      ∃ branch, state.lookup name = some branch ∧ state.graph.Reaches branch.head revision
  complete : ∀ name branch workspace nodeId revision value, state.lookup name = some branch →
    state.graph.Reaches branch.head revision → Wrote state workspace nodeId revision value →
      (state.contents name).get (.node workspace nodeId) revision = some value
  listed : ∀ workspace nodeId revision value, Wrote state workspace nodeId revision value →
    Listed state.graph revision nodeId
  positive : ∀ workspace nodeId revision value, Wrote state workspace nodeId revision value →
    ⟨0, 0⟩ < revision

/-- The revision is newer than everything in the repository. -/
structure Fresh (state : RepositoryState) (revision : HLC) : Prop where
  positive : ⟨0, 0⟩ < revision
  heads : ∀ name branch, state.lookup name = some branch → branch.head < revision
  metas : ∀ other, state.graph.Recorded other → other < revision
  versions : ∀ workspace nodeId other value, Wrote state workspace nodeId other value →
    other < revision

/-! ## A new commit in the graph -/

namespace RevisionGraph

variable {graph : RevisionGraph} {revision : HLC} {record : RevisionMeta}

theorem getRevisionMeta_store_self :
    (graph.storeRevisionMeta revision record).getRevisionMeta revision = some record :=
  AList.lookup_insert graph.metas

theorem getRevisionMeta_store_other {other : HLC} (different : other ≠ revision) :
    (graph.storeRevisionMeta revision record).getRevisionMeta other = graph.getRevisionMeta other :=
  AList.lookup_insert_ne different

theorem links_store_self : (graph.storeRevisionMeta revision record).links revision =
    record.links := by
  rw [links, getRevisionMeta_store_self]

theorem links_store_other {other : HLC} (different : other ≠ revision) :
    (graph.storeRevisionMeta revision record).links other = graph.links other := by
  rw [links, links, getRevisionMeta_store_other different]

theorem Growing.store (growing : graph.Growing) (older : ∀ link ∈ record.links, link < revision) :
    (graph.storeRevisionMeta revision record).Growing := by
  intro found link linked
  by_cases same : found = revision
  · subst same
    rw [links_store_self] at linked
    exact older link linked
  · rw [links_store_other same] at linked
    exact growing found link linked

/-- Older heads have the history they had. -/
theorem reaches_store_older (growing : graph.Growing) {head : HLC} (older : head < revision)
    {found : HLC} :
    (graph.storeRevisionMeta revision record).Reaches head found ↔ graph.Reaches head found := by
  constructor
  · intro reach
    induction reach with
    | refl => exact Reaches.refl head
    | @tail node link _ linked ih =>
      have different : node ≠ revision := ne_of_lt ((growing.le ih).trans_lt older)
      rw [links_store_other different] at linked
      exact ih.trans (Reaches.link linked)
  · intro reach
    induction reach with
    | refl => exact Reaches.refl head
    | @tail node link before linked ih =>
      have different : node ≠ revision :=
        ne_of_lt ((growing.le before).trans_lt older)
      exact ih.trans (Reaches.link (by rw [links_store_other different]; exact linked))

/-- The history of the new commit. -/
theorem reaches_store_self (growing : graph.Growing) (older : ∀ link ∈ record.links, link < revision)
    {found : HLC} :
    (graph.storeRevisionMeta revision record).Reaches revision found ↔
      found = revision ∨ ∃ link ∈ record.links, graph.Reaches link found := by
  rw [Reaches, Foundation.Reaches, Relation.ReflTransGen.cases_head_iff]
  refine or_congr eq_comm ⟨?_, ?_⟩
  · rintro ⟨link, linked, reach⟩
    have linked' : link ∈ record.links := by
      have listed : link ∈ (graph.storeRevisionMeta revision record).links revision := linked
      rwa [links_store_self] at listed
    exact ⟨link, linked', (reaches_store_older growing (older link linked')).mp reach⟩
  · rintro ⟨link, linked, reach⟩
    refine ⟨link, ?_, (reaches_store_older growing (older link linked)).mpr reach⟩
    rwa [links_store_self]

end RevisionGraph

/-! ## What keeps the branches consistent -/

/-- A new commit on a branch that then holds its own writes and the histories it links to. -/
structure Extends (state after : RepositoryState) (name : String) (revision : HLC)
    (record : RevisionMeta) : Prop where
  graph : after.graph = state.graph.storeRevisionMeta revision record
  older : ∀ link ∈ record.links, link < revision
  head : ∃ branch, after.lookup name = some branch ∧ branch.head = revision
  others : ∀ other, other ≠ name → after.lookup other = state.lookup other ∧
    after.contents other = state.contents other
  own : ∀ workspace nodeId value,
    (after.contents name).get (.node workspace nodeId) revision = some value →
      record.mergeParent = none ∧ ∃ change ∈ record.changedNodes,
        change.key = (nodeId, none) ∧ change.operation ≠ .reordered
  linked : ∀ workspace nodeId other value, other ≠ revision →
    ((after.contents name).get (.node workspace nodeId) other = some value ↔
      (∃ link ∈ record.links, state.graph.Reaches link other) ∧
        Wrote state workspace nodeId other value)

section Extends

variable {state after : RepositoryState} {name : String} {revision : HLC} {record : RevisionMeta}

/-- Nothing but the new commit is new. -/
theorem Extends.wrote (extension : Extends state after name revision record)
    {workspace nodeId : String} {other : HLC} {value : ContentValue} (different : other ≠ revision)
    (wrote : Wrote after workspace nodeId other value) : Wrote state workspace nodeId other value := by
  obtain ⟨branch, stored⟩ := wrote
  by_cases same : branch = name
  · subst same
    exact ((extension.linked _ _ _ _ different).mp stored).2
  · exact ⟨branch, (extension.others branch same).2 ▸ stored⟩

theorem Consistent.extend (consistent : Consistent state) (fresh : Fresh state revision)
    (extension : Extends state after name revision record) : Consistent after := by
  have growing := consistent.growing
  obtain ⟨branch, found, headed⟩ := extension.head
  have wroteOwn : ∀ workspace nodeId value, Wrote after workspace nodeId revision value →
      (after.contents name).get (.node workspace nodeId) revision = some value := by
    rintro workspace nodeId value ⟨other, stored⟩
    by_cases same : other = name
    · exact same ▸ stored
    · rw [(extension.others other same).2] at stored
      exact absurd (fresh.versions _ _ _ _ ⟨other, stored⟩) (lt_irrefl revision)
  refine ⟨?_, ?_, ?_, ?_, ?_⟩
  · rw [extension.graph]
    exact growing.store extension.older
  · intro other workspace nodeId found' value stored
    by_cases same : other = name
    · subst same
      refine ⟨branch, found, ?_⟩
      rw [extension.graph, headed, RevisionGraph.reaches_store_self growing extension.older]
      by_cases here : found' = revision
      · exact Or.inl here
      · exact Or.inr ((extension.linked _ _ _ _ here).mp stored).1
    · obtain ⟨lookup, contents⟩ := extension.others other same
      rw [contents] at stored
      obtain ⟨old, hold, reach⟩ := consistent.sound other workspace nodeId found' value stored
      refine ⟨old, lookup.trans hold, ?_⟩
      rw [extension.graph, RevisionGraph.reaches_store_older growing (fresh.heads other old hold)]
      exact reach
  · intro other old workspace nodeId found' value hold reach wrote
    by_cases same : other = name
    · subst same
      obtain rfl := Option.some.inj (found.symm.trans hold)
      rw [extension.graph, headed, RevisionGraph.reaches_store_self growing extension.older] at reach
      by_cases here : found' = revision
      · subst here
        exact wroteOwn workspace nodeId value wrote
      · refine (extension.linked _ _ _ _ here).mpr ⟨reach.resolve_left here, ?_⟩
        exact extension.wrote here wrote
    · obtain ⟨lookup, contents⟩ := extension.others other same
      rw [lookup] at hold
      have older := fresh.heads other old hold
      rw [extension.graph, RevisionGraph.reaches_store_older growing older] at reach
      have different : found' ≠ revision := ne_of_lt ((growing.le reach).trans_lt older)
      rw [contents]
      exact consistent.complete other old _ _ _ _ hold reach (extension.wrote different wrote)
  · intro workspace nodeId found' value wrote
    rw [Listed, extension.graph]
    by_cases here : found' = revision
    · subst here
      obtain ⟨merge, change, hchange, facts⟩ :=
        extension.own workspace nodeId value (wroteOwn workspace nodeId value wrote)
      exact ⟨record, RevisionGraph.getRevisionMeta_store_self, merge, change, hchange, facts⟩
    · obtain ⟨old, stored, facts⟩ :=
        consistent.listed workspace nodeId found' value (extension.wrote here wrote)
      exact ⟨old, (RevisionGraph.getRevisionMeta_store_other here).trans stored, facts⟩
  · intro workspace nodeId found' value wrote
    by_cases here : found' = revision
    · exact here ▸ fresh.positive
    · exact consistent.positive _ _ _ _ (extension.wrote here wrote)

end Extends

/-- What a consistent branch holds. -/
theorem Consistent.get_iff {state : RepositoryState} (consistent : Consistent state) {name : String}
    {branch : Branch} (found : state.lookup name = some branch) {workspace nodeId : String}
    {revision : HLC} {value : ContentValue} :
    (state.contents name).get (.node workspace nodeId) revision = some value ↔
      state.graph.Reaches branch.head revision ∧ Wrote state workspace nodeId revision value := by
  constructor
  · intro stored
    obtain ⟨branch', found', reach⟩ := consistent.sound _ _ _ _ _ stored
    obtain rfl := Option.some.inj (found.symm.trans found')
    exact ⟨reach, name, stored⟩
  · rintro ⟨reach, wrote⟩
    exact consistent.complete _ _ _ _ _ _ found reach wrote

theorem Consistent.get_none {state : RepositoryState} (consistent : Consistent state)
    {name : String} (absent : state.lookup name = none) (workspace nodeId : String)
    (revision : HLC) : (state.contents name).get (.node workspace nodeId) revision = none := by
  by_contra present
  obtain ⟨value, stored⟩ := Option.ne_none_iff_exists'.mp present
  obtain ⟨branch, found, _⟩ := consistent.sound _ _ _ _ _ stored
  rw [absent] at found
  cases found

/-- The condition on a step of a history.  A fork is taken where the history of its revision has
everything that is copied; a commit lists what it writes; a fast-forward passes no commit that
wrote a node. -/
def Permitted (state : RepositoryState) : HistoryEvent → Prop
  | .fork name source fromRevision _ => state.lookup name = none ∧
      ∀ maxRevision, effectiveRevision state source fromRevision = some maxRevision →
        ∃ origin, state.lookup (source.getD "main") = some origin ∧
          state.graph.Reaches origin.head maxRevision ∧
          ∀ workspace nodeId revision value, revision ≤ maxRevision →
            (state.contents (source.getD "main")).get (.node workspace nodeId) revision =
              some value → state.graph.Reaches maxRevision revision
  | .commit _ revision writes record => Fresh state revision ∧ ∃ changes, record = some changes ∧
      ∀ write ∈ writes, ∃ change ∈ changes,
        change.key = (write.nodeId, none) ∧ change.operation ≠ .reordered
  | .merge targetBranch sourceBranch strategy mergeRevision => Fresh state mergeRevision ∧
      (strategy = .fastForward → ∀ target source, state.lookup targetBranch = some target →
        state.lookup sourceBranch = some source →
          ∀ revision ∈ state.graph.unmerged source.head target.head,
            ∀ workspace nodeId value, ¬ Wrote state workspace nodeId revision value)

section Steps

variable {state : RepositoryState}

/-- A branch without history. -/
theorem Consistent.root (consistent : Consistent state) {name : String}
    (absent : state.lookup name = none) (isProtected : Bool) :
    Consistent (state.putBranch name ⟨⟨0, 0⟩, isProtected⟩) := by
  refine ⟨consistent.growing, ?_, ?_, consistent.listed, consistent.positive⟩
  · intro other workspace nodeId revision value stored
    have different : other ≠ name := by
      rintro rfl
      exact absurd (consistent.get_none absent workspace nodeId revision)
        (Option.ne_none_iff_exists'.mpr ⟨value, stored⟩)
    obtain ⟨branch, found, reach⟩ := consistent.sound other _ _ _ _ stored
    exact ⟨branch, (state.lookup_putBranch_other different _).trans found, reach⟩
  · intro other branch workspace nodeId revision value found reach wrote
    by_cases same : other = name
    · subst same
      rw [state.lookup_putBranch_self] at found
      obtain rfl := Option.some.inj found
      exact absurd (consistent.growing.le reach) (not_le.mpr (consistent.positive _ _ _ _ wrote))
    · rw [state.lookup_putBranch_other same] at found
      exact consistent.complete other branch _ _ _ _ found reach wrote

theorem Consistent.fork (consistent : Consistent state) {name : String} {source : Option String}
    {fromRevision : Option HLC} {isProtected : Bool}
    (permitted : Permitted state (.fork name source fromRevision isProtected)) :
    Consistent (outcome (createBranch name source fromRevision isProtected) state).2 := by
  obtain ⟨absent, origins⟩ := permitted
  rw [createBranch, outcome_bind, outcome_query]
  dsimp only
  rw [outcome_bind, outcome_change]
  dsimp only
  cases effective : effectiveRevision state source fromRevision with
  | none => exact consistent.root absent isProtected
  | some maxRevision =>
    obtain ⟨origin, horigin, reach, within⟩ := origins maxRevision effective
    change Consistent ((state.putBranch name ⟨maxRevision, isProtected⟩).setContent name
      ((state.contents name).copyUpTo (state.contents (source.getD "main")) maxRevision))
    have copied : ∀ workspace nodeId revision value,
        ((state.contents name).copyUpTo (state.contents (source.getD "main")) maxRevision).get
            (.node workspace nodeId) revision = some value ↔
          state.graph.Reaches maxRevision revision ∧
            Wrote state workspace nodeId revision value := by
      intro workspace nodeId revision value
      rw [VersionedStore.get_copyUpTo, consistent.get_none absent, Option.none_or]
      constructor
      · intro stored
        by_cases below : revision ≤ maxRevision
        · rw [if_pos below] at stored
          exact ⟨within workspace nodeId revision value below stored, _, stored⟩
        · rw [if_neg below] at stored
          cases stored
      · rintro ⟨later, wrote⟩
        rw [if_pos (consistent.growing.le later)]
        exact (consistent.get_iff horigin).mpr ⟨reach.trans later, wrote⟩
    have wroteBefore : ∀ workspace nodeId revision value,
        Wrote ((state.putBranch name ⟨maxRevision, isProtected⟩).setContent name
          ((state.contents name).copyUpTo (state.contents (source.getD "main")) maxRevision))
          workspace nodeId revision value → Wrote state workspace nodeId revision value := by
      rintro workspace nodeId revision value ⟨other, stored⟩
      by_cases same : other = name
      · subst same
        rw [RepositoryState.contents_setContent_self] at stored
        exact ((copied _ _ _ _).mp stored).2
      · rw [RepositoryState.contents_setContent_other _ same] at stored
        exact ⟨other, stored⟩
    refine ⟨consistent.growing, ?_, ?_, fun _ _ _ _ wrote => consistent.listed _ _ _ _
      (wroteBefore _ _ _ _ wrote), fun _ _ _ _ wrote => consistent.positive _ _ _ _
      (wroteBefore _ _ _ _ wrote)⟩
    · intro other workspace nodeId revision value stored
      by_cases same : other = name
      · subst same
        rw [RepositoryState.contents_setContent_self] at stored
        exact ⟨_, state.lookup_putBranch_self _ _, ((copied _ _ _ _).mp stored).1⟩
      · rw [RepositoryState.contents_setContent_other _ same] at stored
        obtain ⟨branch, found, reach'⟩ := consistent.sound other _ _ _ _ stored
        exact ⟨branch, (state.lookup_putBranch_other same _).trans found, reach'⟩
    · intro other branch workspace nodeId revision value found reach' wrote
      have old := wroteBefore _ _ _ _ wrote
      by_cases same : other = name
      · subst same
        rw [RepositoryState.lookup_setContent, state.lookup_putBranch_self] at found
        obtain rfl := Option.some.inj found
        rw [RepositoryState.contents_setContent_self]
        exact (copied _ _ _ _).mpr ⟨reach', old⟩
      · rw [RepositoryState.lookup_setContent, state.lookup_putBranch_other same] at found
        rw [RepositoryState.contents_setContent_other _ same]
        exact consistent.complete other branch _ _ _ _ found reach' old

/-- The rows of a commit are the only new versions at its revision. -/
theorem get_putAll_writes {content : Content} {revision : HLC} {writes : List NodeWrite}
    {workspace nodeId : String} {value : ContentValue}
    (absent : content.get (.node workspace nodeId) revision = none)
    (stored : (content.putAll revision (writes.map NodeWrite.row)).get (.node workspace nodeId)
      revision = some value) : ∃ write ∈ writes, write.nodeId = nodeId := by
  by_contra none
  have unwritten : ContentKey.node workspace nodeId ∉
      (writes.map NodeWrite.row).map Prod.fst := by
    intro hmem
    obtain ⟨row, hrow, key⟩ := mem_map.mp hmem
    obtain ⟨write, hwrite, rfl⟩ := mem_map.mp hrow
    exact none ⟨write, hwrite, (ContentKey.node.inj key).2⟩
  rw [content.get_putAll_absent revision unwritten, absent] at stored
  cases stored

theorem advanceHead_eq {name : String} {branch : Branch} {revision : HLC}
    (newer : branch.head < revision) :
    state.advanceHead name branch revision =
      state.putBranch name { branch with head := revision } := by
  rw [RepositoryState.advanceHead, if_neg (not_le.mpr newer)]

/-- No node has a version at a fresh revision. -/
theorem Fresh.get_none {revision : HLC} (fresh : Fresh state revision) (name workspace nodeId : String) :
    (state.contents name).get (.node workspace nodeId) revision = none := by
  by_contra present
  obtain ⟨value, stored⟩ := Option.ne_none_iff_exists'.mp present
  exact absurd (fresh.versions _ _ _ _ ⟨name, stored⟩) (lt_irrefl revision)

theorem Consistent.commit (consistent : Consistent state) {name : String} {revision : HLC}
    {writes : List NodeWrite} {record : Option (List NodeChangeInfo)}
    (permitted : Permitted state (.commit name revision writes record)) :
    Consistent (outcome (commitNodes name revision writes record) state).2 := by
  obtain ⟨fresh, changes, rfl, lists⟩ := permitted
  rw [commitNodes, outcome_bind, outcome_query]
  cases found : state.lookup name with
  | none => exact consistent
  | some branch =>
    have newer := fresh.heads name branch found
    change Consistent (((state.setContent name ((state.contents name).putAll revision
      (writes.map NodeWrite.row))).storeRevisionMeta revision
        ⟨some branch.head, none, changes⟩).advanceHead name branch revision)
    rw [advanceHead_eq newer]
    refine consistent.extend fresh
      (?_ : Extends state _ name revision ⟨some branch.head, none, changes⟩)
    refine ⟨rfl, ?_, ⟨_, RepositoryState.lookup_putBranch_self _ _ _, rfl⟩, ?_, ?_, ?_⟩
    · intro link linked
      rw [mem_singleton.mp linked]
      exact newer
    · intro other different
      exact ⟨RepositoryState.lookup_putBranch_other _ different _,
        RepositoryState.contents_setContent_other _ different _⟩
    · intro workspace nodeId value stored
      rw [RepositoryState.contents_putBranch, RepositoryState.contents_storeRevisionMeta,
        RepositoryState.contents_setContent_self] at stored
      obtain ⟨write, hwrite, rfl⟩ :=
        get_putAll_writes (fresh.get_none name workspace nodeId) stored
      exact ⟨rfl, lists write hwrite⟩
    · intro workspace nodeId other value different
      rw [RepositoryState.contents_putBranch, RepositoryState.contents_storeRevisionMeta,
        RepositoryState.contents_setContent_self, VersionedStore.get_putAll_other _ different,
        consistent.get_iff found]
      refine and_congr_left fun _ => ?_
      exact ⟨fun reach => ⟨branch.head, mem_singleton_self _, reach⟩,
        fun ⟨link, linked, reach⟩ => mem_singleton.mp linked ▸ reach⟩

/-- Nodes are not entries of a derived index. -/
theorem Consistent.threeWay (consistent : Consistent state) {writers : IndexWriters}
    {mergeRevision : HLC} (fresh : Fresh state mergeRevision) {targetBranch sourceBranch : String}
    {target source : Branch} (htarget : state.lookup targetBranch = some target)
    (hsource : state.lookup sourceBranch = some source) (changedNodes : List NodeChangeInfo) :
    Consistent (state.merged writers mergeRevision targetBranch sourceBranch target source
      changedNodes) := by
  have newer := fresh.heads targetBranch target htarget
  have newerSource := fresh.heads sourceBranch source hsource
  have shape : ∀ other, (state.merged writers mergeRevision targetBranch sourceBranch target source
      changedNodes).lookup other = (state.putBranch targetBranch
        { target with head := mergeRevision }).lookup other := by
    intro other
    rw [RepositoryState.merged, advanceHead_eq newer]
    rfl
  refine consistent.extend fresh (?_ : Extends state _ targetBranch mergeRevision
    ⟨some target.head, some source.head, changedNodes⟩)
  refine ⟨?_, ?_, ?_, ?_, ?_, ?_⟩
  · rw [RepositoryState.merged, advanceHead_eq newer]
    rfl
  · intro link linked
    rcases mem_append.mp linked with first | second
    · rw [← Option.some.inj (Option.mem_toList.mp first)]
      exact newer
    · rw [← Option.some.inj (Option.mem_toList.mp second)]
      exact newerSource
  · exact ⟨_, (shape targetBranch).trans (state.lookup_putBranch_self _ _), rfl⟩
  · intro other different
    refine ⟨(shape other).trans (state.lookup_putBranch_other different _), ?_⟩
    rw [RepositoryState.merged, advanceHead_eq newer,
      RepositoryState.contents_setContent_other _ different,
      RepositoryState.contents_setContent_other _ different]
    rfl
  · intro workspace nodeId value stored
    rw [get_merged rfl, VersionedStore.get_copyUpTo, fresh.get_none, fresh.get_none, Option.none_or, ite_self] at stored
    cases stored
  · intro workspace nodeId other value _
    have linked : (∃ link ∈ RevisionMeta.links ⟨some target.head, some source.head, changedNodes⟩,
        state.graph.Reaches link other) ↔
          state.graph.Reaches target.head other ∨ state.graph.Reaches source.head other := by
      simp [RevisionMeta.links]
    rw [get_merged rfl, VersionedStore.get_copyUpTo, linked, Option.or_eq_some_iff, consistent.get_iff htarget]
    constructor
    · rintro (⟨reach, wrote⟩ | ⟨_, stored⟩)
      · exact ⟨Or.inl reach, wrote⟩
      · by_cases below : other ≤ source.head
        · rw [if_pos below, consistent.get_iff hsource] at stored
          exact ⟨Or.inr stored.1, stored.2⟩
        · rw [if_neg below] at stored
          cases stored
    · rintro ⟨either, wrote⟩
      by_cases own : state.graph.Reaches target.head other
      · exact Or.inl ⟨own, wrote⟩
      · have reach := either.resolve_left own
        refine Or.inr ⟨?_, ?_⟩
        · by_contra present
          obtain ⟨value', stored⟩ := Option.ne_none_iff_exists'.mp present
          exact own ((consistent.get_iff htarget).mp stored).1
        · rw [if_pos (consistent.growing.le reach)]
          exact (consistent.get_iff hsource).mpr ⟨reach, wrote⟩

theorem Consistent.ancestor_of_fastForward (consistent : Consistent state)
    {targetBranch sourceBranch : String} {target source : Branch}
    (htarget : state.lookup targetBranch = some target)
    (hsource : state.lookup sourceBranch = some source)
    (possible : state.repository.canFastForward targetBranch sourceBranch = .ok true) :
    state.graph.ProperAncestor target.head source.head := by
  rw [BranchRepository.canFastForward_eq htarget hsource] at possible
  exact consistent.growing.fastForward_iff.mp (of_decide_eq_true (Except.ok.inj possible))

theorem Consistent.fastForward (consistent : Consistent state) {targetBranch : String}
    {target source : Branch} (htarget : state.lookup targetBranch = some target)
    (ancestor : state.graph.ProperAncestor target.head source.head)
    (nothing : ∀ revision ∈ state.graph.unmerged source.head target.head,
      ∀ workspace nodeId value, ¬ Wrote state workspace nodeId revision value) :
    Consistent (state.advanceHead targetBranch target source.head) := by
  have newer : target.head < source.head :=
    lt_of_le_of_ne (consistent.growing.le ancestor.1) ancestor.2
  rw [advanceHead_eq newer]
  refine ⟨consistent.growing, ?_, ?_, consistent.listed, consistent.positive⟩
  · intro name workspace nodeId revision value stored
    obtain ⟨branch, found, reach⟩ := consistent.sound name _ _ _ _ stored
    by_cases same : name = targetBranch
    · subst same
      obtain rfl := Option.some.inj (htarget.symm.trans found)
      exact ⟨_, state.lookup_putBranch_self _ _, ancestor.1.trans reach⟩
    · exact ⟨branch, (state.lookup_putBranch_other same _).trans found, reach⟩
  · intro name branch workspace nodeId revision value found reach wrote
    by_cases same : name = targetBranch
    · subst same
      rw [state.lookup_putBranch_self] at found
      obtain rfl := Option.some.inj found
      by_cases own : state.graph.Reaches target.head revision
      · exact consistent.complete _ _ _ _ _ _ htarget own wrote
      · exact absurd wrote (nothing revision ⟨reach, own⟩ workspace nodeId value)
    · rw [state.lookup_putBranch_other same] at found
      exact consistent.complete name branch _ _ _ _ found reach wrote

theorem Consistent.merge (consistent : Consistent state) {writers : IndexWriters}
    {targetBranch sourceBranch : String} {strategy : MergeStrategy} {mergeRevision : HLC}
    (permitted : Permitted state (.merge targetBranch sourceBranch strategy mergeRevision)) :
    Consistent (outcome (mergeBranches writers noFaults mergeRevision targetBranch sourceBranch
      strategy) state).2 := by
  obtain ⟨fresh, passes⟩ := permitted
  cases run : outcome (mergeBranches writers noFaults mergeRevision targetBranch sourceBranch
      strategy) state with
  | mk answer final =>
    rcases mergeBranches_otherwise run with ⟨result, rfl, success⟩ | rfl
    · obtain ⟨target, source, htarget, hsource, _, same | forward | merged⟩ :=
        mergeBranches_success run success
      · exact same.2 ▸ consistent
      · obtain ⟨_, isForward, possible, rfl⟩ := forward
        exact consistent.fastForward htarget
          (consistent.ancestor_of_fastForward htarget hsource possible)
          (passes isForward target source htarget hsource)
      · obtain ⟨_, _, _, rfl⟩ := merged
        exact consistent.threeWay fresh htarget hsource _
    · exact consistent

end Steps

theorem consistent_empty : Consistent .empty := by
  refine ⟨?_, ?_, ?_, ?_, ?_⟩
  · intro revision link linked
    cases linked
  · intro name workspace nodeId revision value stored
    cases stored
  · intro name branch workspace nodeId revision value found
    cases found
  · rintro workspace nodeId revision value ⟨name, stored⟩
    cases stored
  · rintro workspace nodeId revision value ⟨name, stored⟩
    cases stored

theorem consistent_step (writers : IndexWriters) (state : RepositoryState) (event : HistoryEvent)
    (consistent : Consistent state) (permitted : Permitted state event) :
    Consistent ((historyMachine writers).step state event).1 := by
  rw [historyMachine_step_fst]
  cases event with
  | fork name source fromRevision isProtected => exact consistent.fork permitted
  | commit name revision writes record => exact consistent.commit permitted
  | merge targetBranch sourceBranch strategy mergeRevision => exact consistent.merge permitted

end RaisinDB.Branches
