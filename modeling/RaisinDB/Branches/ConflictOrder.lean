import RaisinDB.Branches.Conflicts

/-!
# The order in which conflicts are looked for

The revisions of a branch are kept in a hash set, and the change that is met first
stands for all changes of its node.  When the commits of a branch have recorded
different operations for a node, the order of the set can decide the type of the
conflict.
-/

namespace RaisinDB.Branches

open RaisinDB.Clock RaisinDB.Foundation RaisinDB.Replication List

/-- An order in which a set of all revisions of a head may be iterated. -/
structure IterationOrder (graph : RevisionGraph) (head : HLC) (order : List HLC) : Prop where
  nodup : order.Nodup
  mem_iff : ∀ revision, revision ∈ order ↔ graph.Reaches head revision

/-! ## The first change wins -/

theorem lookup_orInsert_foldl {ε κ ν : Type} [DecidableEq κ] {key : ε → κ} {value : ε → ν}
    {items : List ε} {start : AList fun _ : κ => ν} {found : κ} :
    (items.foldl (fun changes item => orInsert changes (key item) (value item)) start).lookup
        found = (start.lookup found).or ((items.find? fun item => key item = found).map value) := by
  induction items generalizing start with
  | nil => simp
  | cons item items ih =>
    rw [foldl_cons, ih, find?_cons, orInsert]
    by_cases here : key item = found
    · subst here
      by_cases present : key item ∈ start
      · obtain ⟨old, stored⟩ := Option.isSome_iff_exists.mp (AList.lookup_isSome.mpr present)
        rw [if_pos present, stored]
        rfl
      · rw [if_neg present, AList.lookup_insert, AList.lookup_eq_none.mpr present]
        simp
    · have other : (orInsert start (key item) (value item)).lookup found = start.lookup found := by
        rw [orInsert]
        split
        · rfl
        · exact AList.lookup_insert_ne (Ne.symm here)
      rw [← orInsert, other, decide_eq_false here]

/-- The workspace and the operation that a commit has recorded for a node or a locale. -/
def changeIn (graph : RevisionGraph) (otherRevisions : List HLC) (key : String × Option String)
    (revision : HLC) : Option (String × ChangeOperation) :=
  (graph.getRevisionMeta revision).bind fun record =>
    ((comparedChanges otherRevisions record).find? fun change => change.key = key).map
      fun change => (change.workspace, change.operation)

/-- What the collected changes have for a key is that of the first commit with one. -/
theorem lookup_collectExclusiveChanges {graph : RevisionGraph} {order otherOrder : List HLC}
    {key : String × Option String} :
    ((collectExclusiveChanges graph order otherOrder).lookup key).map
        (fun change => (change.1, change.2.1)) =
      (order.filter fun revision => revision ∉ otherOrder).findSome?
        (changeIn graph otherOrder key) := by
  rw [collectExclusiveChanges, lookup_orInsert_foldl, AList.lookup_empty, Option.none_or,
    Option.map_map]
  induction order.filter fun revision => decide (revision ∉ otherOrder) with
  | nil => rfl
  | cons revision revisions ih =>
    rw [flatMap_cons, find?_append, findSome?_cons, changeIn]
    cases stored : graph.getRevisionMeta revision with
    | none => simpa using ih
    | some record =>
      dsimp only [Option.bind_some]
      rw [find?_map]
      cases found : (comparedChanges otherOrder record).find? fun change =>
          decide (change.key = key) with
      | none =>
        have found' : (comparedChanges otherOrder record).find? ((fun entry :
            NodeChangeInfo × HLC => decide ((entry.1.nodeId, entry.1.translationLocale) = key)) ∘
              fun change => (change, revision)) = none := found
        rw [found']
        simpa using ih
      | some change =>
        have found' : (comparedChanges otherOrder record).find? ((fun entry :
            NodeChangeInfo × HLC => decide ((entry.1.nodeId, entry.1.translationLocale) = key)) ∘
              fun change => (change, revision)) = some change := found
        rw [found']
        rfl

theorem mem_conflictsInOrder {state : RepositoryState} {sides : MergeSides}
    {sourceOrder targetOrder : List HLC} {conflict : MergeConflict} :
    conflict ∈ sides.conflictsInOrder state sourceOrder targetOrder ↔
      ∃ sourceChange targetChange,
        (sourceOrder.filter fun revision => revision ∉ targetOrder).findSome?
          (changeIn state.graph targetOrder conflict.key) = some sourceChange ∧
        (targetOrder.filter fun revision => revision ∉ sourceOrder).findSome?
          (changeIn state.graph sourceOrder conflict.key) = some targetChange ∧
        conflict = sides.conflictOf state conflict.key sourceChange targetChange := by
  simp only [← lookup_collectExclusiveChanges, Option.map_eq_some_iff]
  rw [mem_conflictsInOrder_iff]
  constructor
  · rintro ⟨key, sourceChange, targetChange, ofSource, ofTarget, rfl⟩
    exact ⟨_, _, ⟨sourceChange, ofSource, rfl⟩, ⟨targetChange, ofTarget, rfl⟩, rfl⟩
  · rintro ⟨_, _, ⟨sourceChange, ofSource, rfl⟩, ⟨targetChange, ofTarget, rfl⟩, same⟩
    exact ⟨conflict.key, sourceChange, targetChange, ofSource, ofTarget, same⟩

/-! ## Changes of the commits -/

/-- The commit of one head only has recorded the change, and conflicts are looked for in it. -/
def RecordsChange (graph : RevisionGraph) (head other : HLC) (key : String × Option String)
    (revision : HLC) (change : String × ChangeOperation) : Prop :=
  revision ∈ graph.unmerged head other ∧
    changeIn graph (graph.ancestry other) key revision = some change

/-- A commit of one head only, at which conflicts are looked for, has recorded the change. -/
def Recorded (graph : RevisionGraph) (head other : HLC) (key : String × Option String)
    (change : String × ChangeOperation) : Prop :=
  ∃ revision, RecordsChange graph head other key revision change

/-- The commit is not a merge. -/
def OwnOperation (graph : RevisionGraph) (head other : HLC) (key : String × Option String)
    (revision : HLC) (operation : ChangeOperation) : Prop :=
  (∃ workspace, RecordsChange graph head other key revision (workspace, operation)) ∧
    ∀ record, graph.getRevisionMeta revision = some record → record.mergeParent = none

/-- The newest operation of a head for the key. -/
def NewestOperation (graph : RevisionGraph) (head other : HLC) (key : String × Option String)
    (operation : ChangeOperation) : Prop :=
  ∃ revision, OwnOperation graph head other key revision operation ∧
    ∀ later operation', OwnOperation graph head other key later operation' → later ≤ revision

section Orders

variable {graph : RevisionGraph} {head other : HLC} {order otherOrder : List HLC}
  {key : String × Option String}

/-- Any revision can come first. -/
theorem iterationOrder_first {revision : HLC} (reach : graph.Reaches head revision) :
    IterationOrder graph head (revision :: (graph.ancestry head).erase revision) := by
  have nodup : (graph.ancestry head).Nodup := RevisionGraph.nodup_ancestry head
  have present : revision ∈ graph.ancestry head := RevisionGraph.mem_ancestry.mpr reach
  have perm := perm_cons_erase present
  exact ⟨perm.nodup_iff.mp nodup, fun found => perm.mem_iff.symm.trans RevisionGraph.mem_ancestry⟩

theorem changeIn_eq (isOrder : IterationOrder graph other otherOrder) (revision : HLC) :
    changeIn graph otherOrder key revision =
      changeIn graph (graph.ancestry other) key revision := by
  have same : ∀ record, comparedChanges otherOrder record =
      comparedChanges (graph.ancestry other) record := by
    intro record
    have members : ∀ found, decide (found ∈ otherOrder) = decide (found ∈ graph.ancestry other) :=
      fun found => decide_eq_decide.mpr ((isOrder.mem_iff found).trans
        RevisionGraph.mem_ancestry.symm)
    rw [comparedChanges, comparedChanges]
    simp only [members]
  rw [changeIn, changeIn]
  simp only [same]

theorem mem_exclusive (isOrder : IterationOrder graph head order)
    (isOther : IterationOrder graph other otherOrder) {revision : HLC} :
    (revision ∈ order.filter fun revision => revision ∉ otherOrder) ↔
      revision ∈ graph.unmerged head other := by
  rw [mem_filter, isOrder.mem_iff, decide_eq_true_iff, isOther.mem_iff]
  rfl

/-- What an order chooses is the change of some commit. -/
theorem recorded_of_findSome (isOrder : IterationOrder graph head order)
    (isOther : IterationOrder graph other otherOrder) {change : String × ChangeOperation}
    (chosen : (order.filter fun revision => revision ∉ otherOrder).findSome?
      (changeIn graph otherOrder key) = some change) :
    Recorded graph head other key change := by
  obtain ⟨revision, hmem, recorded⟩ := exists_of_findSome?_eq_some chosen
  exact ⟨revision, (mem_exclusive isOrder isOther).mp hmem, changeIn_eq isOther revision ▸ recorded⟩

/-- Every order chooses something for a key that some commit has recorded. -/
theorem findSome_isSome (isOrder : IterationOrder graph head order)
    (isOther : IterationOrder graph other otherOrder) {revision : HLC}
    {change : String × ChangeOperation}
    (records : RecordsChange graph head other key revision change) :
    ∃ chosen, (order.filter fun revision => revision ∉ otherOrder).findSome?
      (changeIn graph otherOrder key) = some chosen := by
  rw [← Option.isSome_iff_exists, findSome?_isSome_iff]
  refine ⟨revision, (mem_exclusive isOrder isOther).mpr records.1, ?_⟩
  rw [changeIn_eq isOther, records.2]
  rfl

/-- The commit that comes first is chosen. -/
theorem findSome_first (isOther : IterationOrder graph other otherOrder) {revision : HLC}
    {change : String × ChangeOperation}
    (records : RecordsChange graph head other key revision change) :
    ((revision :: (graph.ancestry head).erase revision).filter fun revision =>
      revision ∉ otherOrder).findSome? (changeIn graph otherOrder key) = some change := by
  have exclusive : revision ∉ otherOrder := fun shared =>
    records.1.2 ((isOther.mem_iff revision).mp shared)
  rw [filter_cons, if_pos (decide_eq_true exclusive), findSome?_cons, changeIn_eq isOther,
    records.2]

/-- A head with an own operation has a newest one. -/
theorem exists_newestOperation {revision : HLC} {operation : ChangeOperation}
    (own : OwnOperation graph head other key revision operation) :
    ∃ newest, NewestOperation graph head other key newest := by
  have finite : {found | ∃ operation, OwnOperation graph head other key found operation}.Finite :=
    (RevisionGraph.finite_unmerged head other).subset fun found owned =>
      owned.choose_spec.1.choose_spec.1
  obtain ⟨newest, ⟨operation', own'⟩, greatest⟩ :=
    finite.exists_maximal ⟨revision, operation, own⟩
  refine ⟨operation', newest, own', fun later operation'' own'' => ?_⟩
  rcases le_total later newest with before | after
  · exact before
  · exact greatest ⟨operation'', own''⟩ after

end Orders

/-! ## When the order does not matter -/

/-! A type of its own determines both operations. -/

theorem sourceOp_eq_of_type {first second targetOp : ChangeOperation}
    (special : determineConflictType first targetOp ≠ .bothModified)
    (same : determineConflictType second targetOp = determineConflictType first targetOp) :
    second = first := by
  revert special same
  cases first <;> cases second <;> cases targetOp <;> decide

theorem targetOp_eq_of_type {sourceOp first second : ChangeOperation}
    (special : determineConflictType sourceOp first ≠ .bothModified)
    (same : determineConflictType sourceOp second = determineConflictType sourceOp first) :
    second = first := by
  revert special same
  cases first <;> cases second <;> cases sourceOp <;> decide

section Independent

/-- Some iteration orders of the two sets of revisions give the conflicts. -/
def Reported (state : RepositoryState) (sides : MergeSides) (conflicts : List MergeConflict) :
    Prop :=
  ∃ sourceOrder targetOrder : HLC → List HLC,
    IterationOrder state.graph sides.source.head (sourceOrder sides.source.head) ∧
    IterationOrder state.graph sides.target.head (targetOrder sides.target.head) ∧
    findMergeConflictsIn state sourceOrder targetOrder sides.targetBranch sides.sourceBranch =
      .ok conflicts

/-- What a report should be, whatever the order of the sets. -/
structure OrderIndependent (state : RepositoryState) (sides : MergeSides) : Prop where
  same : ∀ conflicts conflicts', Reported state sides conflicts → Reported state sides conflicts' →
    ∀ conflict, conflict ∈ conflicts ↔ conflict ∈ conflicts'
  exact_keys : ∀ conflicts, Reported state sides conflicts →
    ∀ key, (∃ conflict ∈ conflicts, conflict.key = key) ↔
      (∃ revision operation,
        OwnOperation state.graph sides.source.head sides.target.head key revision operation) ∧
      ∃ revision operation,
        OwnOperation state.graph sides.target.head sides.source.head key revision operation
  newest_types : ∀ conflicts, Reported state sides conflicts →
    ∀ conflict ∈ conflicts, ∃ sourceOp targetOp,
      NewestOperation state.graph sides.source.head sides.target.head conflict.key sourceOp ∧
      NewestOperation state.graph sides.target.head sides.source.head conflict.key targetOp ∧
      conflict.conflictType = determineConflictType sourceOp targetOp

/-- Each branch has recorded one operation, or no pair of them has a type of its own. -/
def OperationsAgree (graph : RevisionGraph) (target source : HLC) (key : String × Option String) :
    Prop :=
  ((∀ one two, Recorded graph source target key one → Recorded graph source target key two →
      one.2 = two.2) ∧
    ∀ one two, Recorded graph target source key one → Recorded graph target source key two →
      one.2 = two.2) ∨
  ∀ one two, Recorded graph source target key one → Recorded graph target source key two →
    determineConflictType one.2 two.2 = .bothModified

/-- The workspaces that the commits of a branch name have the same node or overlay. -/
structure WorkspacesAgree (state : RepositoryState) (sides : MergeSides)
    (key : String × Option String) : Prop where
  base : sides.commonAncestor state ≠ ⟨0, 0⟩ → ∀ one two,
    Recorded state.graph sides.target.head sides.source.head key one →
    Recorded state.graph sides.target.head sides.source.head key two →
      propertiesAt (state.contents sides.targetBranch) one.1 key (sides.commonAncestor state) =
        propertiesAt (state.contents sides.targetBranch) two.1 key (sides.commonAncestor state)
  target : ∀ one two,
    Recorded state.graph sides.target.head sides.source.head key one →
    Recorded state.graph sides.target.head sides.source.head key two →
      propertiesAt (state.contents sides.targetBranch) one.1 key sides.target.head =
        propertiesAt (state.contents sides.targetBranch) two.1 key sides.target.head
  source : ∀ one two,
    Recorded state.graph sides.source.head sides.target.head key one →
    Recorded state.graph sides.source.head sides.target.head key two →
      propertiesAt (state.contents sides.sourceBranch) one.1 key sides.source.head =
        propertiesAt (state.contents sides.sourceBranch) two.1 key sides.source.head
  -- an overlay is reported under the path of its node
  path : key.2.isSome → ∀ one two,
    Recorded state.graph sides.target.head sides.source.head key one →
    Recorded state.graph sides.target.head sides.source.head key two →
      sides.translationPath state one.1 key.1 = sides.translationPath state two.1 key.1

/-- For what both branches have changed, each has a commit that is not a merge, and it does not
matter which of the recorded changes is taken. -/
structure ChangesAgree (state : RepositoryState) (sides : MergeSides)
    (key : String × Option String) : Prop where
  ownSource : ∃ revision operation,
    OwnOperation state.graph sides.source.head sides.target.head key revision operation
  ownTarget : ∃ revision operation,
    OwnOperation state.graph sides.target.head sides.source.head key revision operation
  operations : OperationsAgree state.graph sides.target.head sides.source.head key
  workspaces : WorkspacesAgree state sides key

variable {state : RepositoryState} {sides : MergeSides} {key : String × Option String}

/-- Changes that agree give every pair of commits the same conflict. -/
theorem ChangesAgree.conflictOf_eq (agree : ChangesAgree state sides key)
    {one two one' two' : String × ChangeOperation}
    (hone : Recorded state.graph sides.source.head sides.target.head key one)
    (htwo : Recorded state.graph sides.target.head sides.source.head key two)
    (hone' : Recorded state.graph sides.source.head sides.target.head key one')
    (htwo' : Recorded state.graph sides.target.head sides.source.head key two') :
    sides.conflictOf state key one two = sides.conflictOf state key one' two' := by
  have type : determineConflictType one.2 two.2 = determineConflictType one'.2 two'.2 := by
    obtain ⟨sources, targets⟩ | common := agree.operations
    · rw [sources one one' hone hone', targets two two' htwo htwo']
    · rw [common one two hone htwo, common one' two' hone' htwo']
  have base : sides.baseProperties state two.1 key = sides.baseProperties state two'.1 key := by
    rw [MergeSides.baseProperties, MergeSides.baseProperties]
    by_cases shared : sides.commonAncestor state ≠ ⟨0, 0⟩
    · rw [if_pos shared, if_pos shared, agree.workspaces.base shared two two' htwo htwo']
    · rw [if_neg shared, if_neg shared]
  have target := agree.workspaces.target two two' htwo htwo'
  have source := agree.workspaces.source one one' hone hone'
  have path : sides.resolveConflictPath state two.1 key =
      sides.resolveConflictPath state two'.1 key := by
    funext target source
    rw [MergeSides.resolveConflictPath, MergeSides.resolveConflictPath]
    by_cases overlay : key.2.isSome
    · rw [if_pos overlay, if_pos overlay, agree.workspaces.path overlay two two' htwo htwo']
    · rw [if_neg overlay, if_neg overlay]
  rw [← MergeSides.targetProperties, ← MergeSides.targetProperties] at target
  rw [← MergeSides.sourceProperties, ← MergeSides.sourceProperties] at source
  rw [MergeSides.conflictOf, MergeSides.conflictOf, type, base, target, source, path]

/-- The changes agree if all pairs of them give the same conflict. -/
theorem agree_of_conflictOf_eq
    (same : ∀ one two one' two',
      Recorded state.graph sides.source.head sides.target.head key one →
      Recorded state.graph sides.target.head sides.source.head key two →
      Recorded state.graph sides.source.head sides.target.head key one' →
      Recorded state.graph sides.target.head sides.source.head key two' →
        sides.conflictOf state key one two = sides.conflictOf state key one' two')
    {source target : String × ChangeOperation}
    (ofSource : Recorded state.graph sides.source.head sides.target.head key source)
    (ofTarget : Recorded state.graph sides.target.head sides.source.head key target) :
    OperationsAgree state.graph sides.target.head sides.source.head key ∧
      WorkspacesAgree state sides key := by
  have targets := fun one two hone htwo => same source one source two ofSource hone ofSource htwo
  have sources := fun one two hone htwo => same one target two target hone ofTarget htwo ofTarget
  refine ⟨?_, ?_, ?_, ?_, ?_⟩
  · by_cases common : determineConflictType source.2 target.2 = .bothModified
    · exact Or.inr fun one two hone htwo => (congrArg MergeConflict.conflictType
        (same one two source target hone htwo ofSource ofTarget)).trans common
    · have toSource : ∀ one, Recorded state.graph sides.source.head sides.target.head key one →
          one.2 = source.2 := fun one hone => sourceOp_eq_of_type common
        (congrArg MergeConflict.conflictType (sources one source hone ofSource))
      have toTarget : ∀ one, Recorded state.graph sides.target.head sides.source.head key one →
          one.2 = target.2 := fun one hone => targetOp_eq_of_type common
        (congrArg MergeConflict.conflictType (targets one target hone ofTarget))
      exact Or.inl ⟨fun one two hone htwo => (toSource one hone).trans (toSource two htwo).symm,
        fun one two hone htwo => (toTarget one hone).trans (toTarget two htwo).symm⟩
  · intro shared one two hone htwo
    have shown : sides.baseProperties state one.1 key = sides.baseProperties state two.1 key :=
      congrArg MergeConflict.baseProperties (targets one two hone htwo)
    rwa [MergeSides.baseProperties, MergeSides.baseProperties, if_pos shared, if_pos shared]
      at shown
  · exact fun one two hone htwo =>
      congrArg MergeConflict.targetProperties (targets one two hone htwo)
  · exact fun one two hone htwo =>
      congrArg MergeConflict.sourceProperties (sources one two hone htwo)
  · intro overlay one two hone htwo
    have shown := congrArg MergeConflict.path (targets one two hone htwo)
    dsimp only [MergeSides.conflictOf, MergeSides.resolveConflictPath] at shown
    rwa [if_pos overlay, if_pos overlay] at shown

variable (htarget : state.lookup sides.targetBranch = some sides.target)
  (hsource : state.lookup sides.sourceBranch = some sides.source)

include htarget hsource

/-- Where one branch has everything of the other, no conflict would be found either. -/
theorem Reported.in_order {conflicts : List MergeConflict}
    (reported : Reported state sides conflicts) :
    ∃ sourceOrder targetOrder, IterationOrder state.graph sides.source.head sourceOrder ∧
      IterationOrder state.graph sides.target.head targetOrder ∧
      ∀ conflict, conflict ∈ conflicts ↔
        conflict ∈ sides.conflictsInOrder state sourceOrder targetOrder := by
  obtain ⟨sourceOrder, targetOrder, isSource, isTarget, run⟩ := reported
  refine ⟨_, _, isSource, isTarget, fun conflict => ?_⟩
  rw [findMergeConflictsIn_eq htarget hsource] at run
  obtain rfl := Except.ok.inj run
  by_cases synced : (state.graph.divergence sides.source.head sides.target.head).ahead = 0 ∨
      (state.graph.divergence sides.source.head sides.target.head).behind = 0
  · rw [if_pos synced]
    refine iff_of_false not_mem_nil fun found => ?_
    obtain ⟨_, _, ofSource, ofTarget, _⟩ := mem_conflictsInOrder.mp found
    obtain ⟨_, ofSource, _⟩ := recorded_of_findSome isSource isTarget ofSource
    obtain ⟨_, ofTarget, _⟩ := recorded_of_findSome isTarget isSource ofTarget
    exact not_synced ofSource ofTarget synced
  · rw [if_neg synced]

/-- The order of the sets can pick any commit of each branch for a key. -/
theorem reported_in_some_order {one two : String × ChangeOperation}
    (ofSource : Recorded state.graph sides.source.head sides.target.head key one)
    (ofTarget : Recorded state.graph sides.target.head sides.source.head key two) :
    ∃ conflicts, Reported state sides conflicts ∧ ∀ conflict, conflict.key = key →
      (conflict ∈ conflicts ↔ conflict = sides.conflictOf state key one two) := by
  obtain ⟨revision, ofSource⟩ := ofSource
  obtain ⟨revision', ofTarget⟩ := ofTarget
  have isSource := iterationOrder_first ofSource.1.1
  have isTarget := iterationOrder_first ofTarget.1.1
  refine ⟨_, ⟨fun _ => _, fun _ => _, isSource, isTarget,
    findMergeConflictsIn_eq htarget hsource _ _⟩, ?_⟩
  rintro conflict rfl
  have first := findSome_first isTarget ofSource
  have second := findSome_first isSource ofTarget
  rw [if_neg (not_synced ofSource.1 ofTarget.1), mem_conflictsInOrder]
  constructor
  · rintro ⟨one', two', chosen, chosen', same⟩
    obtain rfl := Option.some.inj (first.symm.trans chosen)
    obtain rfl := Option.some.inj (second.symm.trans chosen')
    exact same
  · exact fun same => ⟨one, two, first, second, same⟩

/-- Every order reports the keys that both heads have recorded, each for a pair of their changes. -/
theorem Reported.mem_imp {conflicts : List MergeConflict}
    (reported : Reported state sides conflicts) {conflict : MergeConflict} (mem : conflict ∈ conflicts) :
    ∃ one two, Recorded state.graph sides.source.head sides.target.head conflict.key one ∧
      Recorded state.graph sides.target.head sides.source.head conflict.key two ∧
      conflict = sides.conflictOf state conflict.key one two := by
  obtain ⟨_, _, isSource, isTarget, exactly⟩ := reported.in_order htarget hsource
  obtain ⟨one, two, chosen, chosen', same⟩ := mem_conflictsInOrder.mp ((exactly conflict).mp mem)
  exact ⟨one, two, recorded_of_findSome isSource isTarget chosen,
    recorded_of_findSome isTarget isSource chosen', same⟩

/-- With agreeing changes every order reports the conflict that any two of them give. -/
theorem ChangesAgree.reported_mem {conflicts : List MergeConflict}
    (reported : Reported state sides conflicts) (agree : ChangesAgree state sides key)
    {one two : String × ChangeOperation}
    (ofSource : Recorded state.graph sides.source.head sides.target.head key one)
    (ofTarget : Recorded state.graph sides.target.head sides.source.head key two) :
    sides.conflictOf state key one two ∈ conflicts := by
  obtain ⟨_, _, isSource, isTarget, exactly⟩ := reported.in_order htarget hsource
  obtain ⟨one', hone'⟩ := findSome_isSome isSource isTarget ofSource.choose_spec
  obtain ⟨two', htwo'⟩ := findSome_isSome isTarget isSource ofTarget.choose_spec
  refine (exactly _).mpr (mem_conflictsInOrder.mpr ⟨one', two', hone', htwo', ?_⟩)
  exact agree.conflictOf_eq ofSource ofTarget (recorded_of_findSome isSource isTarget hone')
    (recorded_of_findSome isTarget isSource htwo')

/-- Agreeing changes make every order report the same conflicts. -/
theorem orderIndependent_of_agree
    (agree : ∀ key one two, Recorded state.graph sides.source.head sides.target.head key one →
      Recorded state.graph sides.target.head sides.source.head key two →
        ChangesAgree state sides key) :
    OrderIndependent state sides := by
  have within : ∀ conflicts conflicts', Reported state sides conflicts →
      Reported state sides conflicts' → ∀ conflict ∈ conflicts, conflict ∈ conflicts' := by
    intro _ _ reported reported' conflict mem
    obtain ⟨one, two, hone, htwo, same⟩ := reported.mem_imp htarget hsource mem
    rw [same]
    exact (agree _ one two hone htwo).reported_mem htarget hsource reported' hone htwo
  refine ⟨fun conflicts conflicts' reported reported' conflict =>
    ⟨within _ _ reported reported' conflict, within _ _ reported' reported conflict⟩, ?_, ?_⟩
  · intro conflicts reported key
    constructor
    · rintro ⟨conflict, mem, rfl⟩
      obtain ⟨one, two, hone, htwo, _⟩ := reported.mem_imp htarget hsource mem
      exact ⟨(agree _ one two hone htwo).ownSource, (agree _ one two hone htwo).ownTarget⟩
    · rintro ⟨⟨revision, _, ⟨_, own⟩, _⟩, ⟨revision', _, ⟨_, own'⟩, _⟩⟩
      exact ⟨_, (agree key _ _ ⟨revision, own⟩ ⟨revision', own'⟩).reported_mem htarget hsource
        reported ⟨revision, own⟩ ⟨revision', own'⟩, rfl⟩
  · intro conflicts reported conflict mem
    obtain ⟨one, two, hone, htwo, same⟩ := reported.mem_imp htarget hsource mem
    have agrees := agree _ one two hone htwo
    obtain ⟨_, _, ownSource⟩ := agrees.ownSource
    obtain ⟨_, _, ownTarget⟩ := agrees.ownTarget
    obtain ⟨sourceOp, newest⟩ := exists_newestOperation ownSource
    obtain ⟨targetOp, newest'⟩ := exists_newestOperation ownTarget
    refine ⟨sourceOp, targetOp, newest, newest', ?_⟩
    obtain ⟨revision, ⟨⟨_, own⟩, _⟩, _⟩ := newest
    obtain ⟨revision', ⟨⟨_, own'⟩, _⟩, _⟩ := newest'
    exact congrArg MergeConflict.conflictType
      (same.trans (agrees.conflictOf_eq hone htwo ⟨revision, own⟩ ⟨revision', own'⟩))

/-- Conflict reports do not depend on the order of the revision sets exactly if the changes of the
commits agree for every key that both branches have recorded. -/
theorem report_order_independent_iff :
    OrderIndependent state sides ↔
      ∀ key one two, Recorded state.graph sides.source.head sides.target.head key one →
        Recorded state.graph sides.target.head sides.source.head key two →
          ChangesAgree state sides key := by
  refine ⟨fun independent key source target ofSource ofTarget => ?_,
    orderIndependent_of_agree htarget hsource⟩
  -- the orders that put two given commits first have to report the same
  have constant : ∀ one two one' two',
      Recorded state.graph sides.source.head sides.target.head key one →
      Recorded state.graph sides.target.head sides.source.head key two →
      Recorded state.graph sides.source.head sides.target.head key one' →
      Recorded state.graph sides.target.head sides.source.head key two' →
        sides.conflictOf state key one two = sides.conflictOf state key one' two' := by
    intro one two one' two' hone htwo hone' htwo'
    obtain ⟨conflicts, reported, exactly⟩ := reported_in_some_order htarget hsource hone htwo
    obtain ⟨conflicts', reported', exactly'⟩ := reported_in_some_order htarget hsource hone' htwo'
    have here := (exactly (sides.conflictOf state key one two) rfl).mpr rfl
    rw [independent.same _ _ reported reported'] at here
    exact (exactly' _ rfl).mp here
  obtain ⟨conflicts, reported, exactly⟩ := reported_in_some_order htarget hsource ofSource ofTarget
  obtain ⟨ownSource, ownTarget⟩ := (independent.exact_keys _ reported key).mp
    ⟨_, (exactly (sides.conflictOf state key source target) rfl).mpr rfl, rfl⟩
  obtain ⟨operations, workspaces⟩ := agree_of_conflictOf_eq constant ofSource ofTarget
  exact ⟨ownSource, ownTarget, operations, workspaces⟩

end Independent

/-! ## Two repositories -/

def titled (title : String) : ContentValue :=
  .node ⟨"/page", (∅ : AList fun _ : String => Value).insert "title" (.string title)⟩

def pageVersions (versions : List (HLC × String)) : Content :=
  versions.foldl (fun content version =>
    content.putAll version.1 [(.node "content" "page", titled version.2)]) .empty

/-- The page that a reader finds under a title. -/
def shownAs (title : String) : Option ConflictProperties :=
  some (.node ((∅ : AList fun _ : String => Value).insert "title" (.string title)).toFinmap)

/-- Two branches of one first commit; the source has two commits more, the target one. -/
def pageRepository (base : Option String) (first second other : ChangeOperation) :
    RepositoryState :=
  let initial := (base.map fun title => (rev 1, title)).toList
  ⟨⟨(AList.insert "main" ⟨rev 4, false⟩ (∅ : AList fun _ : String => Branch)).insert "feature"
      ⟨rev 3, false⟩,
    ⟨(((∅ : AList fun _ : HLC => RevisionMeta).insert (rev 1) ⟨none, none, []⟩).insert (rev 2)
      ⟨some (rev 1), none, [⟨"page", "content", first, none⟩]⟩).insert (rev 3)
      ⟨some (rev 2), none, [⟨"page", "content", second, none⟩]⟩ |>.insert (rev 4)
      ⟨some (rev 1), none, [⟨"page", "content", other, none⟩]⟩⟩⟩,
    fun name => pageVersions (initial ++
      if name = "main" then [(rev 4, "ours")] else [(rev 2, "draft"), (rev 3, "theirs")])⟩

/-- A page that two branches have added; the source then changed its own. -/
def twiceChanged : RepositoryState := pageRepository none .added .modified .added

/-- A page that both branches have changed. -/
def onlyModified : RepositoryState := pageRepository (some "page") .modified .modified .modified

def featureIntoMain : MergeSides := ⟨"main", ⟨rev 4, false⟩, "feature", ⟨rev 3, false⟩⟩

/-- Whichever commit of the source comes first, it is the same conflict. -/
theorem modified_pages_are_independent : OrderIndependent onlyModified featureIntoMain := by
  refine (report_order_independent_iff (by decide +kernel) (by decide +kernel)).mpr ?_
  have modified : ∀ entry ∈ onlyModified.graph.metas.entries, entry.2.mergeParent = none ∧
      ∀ change ∈ entry.2.changedNodes,
        change.workspace = "content" ∧ change.operation = .modified := by
    decide +kernel
  have operations : ∀ head other key change, Recorded onlyModified.graph head other key change →
      change = ("content", .modified) ∧
        ∃ revision, OwnOperation onlyModified.graph head other key revision .modified := by
    rintro head other key change ⟨revision, records⟩
    obtain ⟨record, stored, found⟩ := Option.bind_eq_some_iff.mp records.2
    obtain ⟨info, hinfo, rfl⟩ := Option.map_eq_some_iff.mp found
    have listed : info ∈ record.changedNodes := by
      have compared := mem_of_find?_eq_some hinfo
      rw [comparedChanges] at compared
      split at compared
      · cases compared
      · exact mem_of_mem_filter compared
    obtain ⟨inContent, isModified⟩ := (modified _ (AList.mem_lookup_iff.mp stored)).2 info listed
    rw [inContent, isModified] at records ⊢
    refine ⟨rfl, revision, ⟨_, records⟩, fun record stored => ?_⟩
    exact (modified _ (AList.mem_lookup_iff.mp stored)).1
  have same : ∀ head other key one two, Recorded onlyModified.graph head other key one →
      Recorded onlyModified.graph head other key two → one = two :=
    fun head other key one two hone htwo =>
      (operations _ _ _ _ hone).1.trans (operations _ _ _ _ htwo).1.symm
  rintro key one two hone htwo
  refine ⟨⟨_, _, (operations _ _ _ _ hone).2.choose_spec⟩,
    ⟨_, _, (operations _ _ _ _ htwo).2.choose_spec⟩, Or.inl ⟨?_, ?_⟩, ?_, ?_, ?_, ?_⟩
  · exact fun one two hone htwo => by rw [same _ _ _ _ _ hone htwo]
  · exact fun one two hone htwo => by rw [same _ _ _ _ _ hone htwo]
  · exact fun _ one two hone htwo => by rw [same _ _ _ _ _ hone htwo]
  · exact fun one two hone htwo => by rw [same _ _ _ _ _ hone htwo]
  · exact fun one two hone htwo => by rw [same _ _ _ _ _ hone htwo]
  · exact fun _ one two hone htwo => by rw [same _ _ _ _ _ hone htwo]

/-- Two orders of the same sets give the same conflict different types. -/
theorem order_decides_type :
    IterationOrder twiceChanged.graph (rev 3) [rev 1, rev 2, rev 3] ∧
    IterationOrder twiceChanged.graph (rev 3) [rev 3, rev 2, rev 1] ∧
    IterationOrder twiceChanged.graph (rev 4) [rev 1, rev 4] ∧
    findMergeConflictsIn twiceChanged (fun _ => [rev 1, rev 2, rev 3]) (fun _ => [rev 1, rev 4])
        "main" "feature" =
      .ok [⟨"page", "", .bothAdded, none, shownAs "ours", shownAs "theirs", none⟩] ∧
    findMergeConflictsIn twiceChanged (fun _ => [rev 3, rev 2, rev 1]) (fun _ => [rev 1, rev 4])
        "main" "feature" =
      .ok [⟨"page", "", .bothModified, none, shownAs "ours", shownAs "theirs", none⟩] ∧
    ¬ OrderIndependent twiceChanged featureIntoMain := by
  have order : ∀ head listed, listed.Perm (twiceChanged.graph.ancestry head) →
      IterationOrder twiceChanged.graph head listed := fun head listed perm =>
    ⟨perm.nodup_iff.mpr (RevisionGraph.nodup_ancestry head), fun revision =>
      perm.mem_iff.trans RevisionGraph.mem_ancestry⟩
  have one := order (rev 3) [rev 1, rev 2, rev 3] (by decide +kernel)
  have two := order (rev 3) [rev 3, rev 2, rev 1] (by decide +kernel)
  have three := order (rev 4) [rev 1, rev 4] (by decide +kernel)
  have first : findMergeConflictsIn twiceChanged (fun _ => [rev 1, rev 2, rev 3])
      (fun _ => [rev 1, rev 4]) "main" "feature" =
        .ok [⟨"page", "", .bothAdded, none, shownAs "ours", shownAs "theirs", none⟩] := by
    decide +kernel
  have second : findMergeConflictsIn twiceChanged (fun _ => [rev 3, rev 2, rev 1])
      (fun _ => [rev 1, rev 4]) "main" "feature" =
        .ok [⟨"page", "", .bothModified, none, shownAs "ours", shownAs "theirs", none⟩] := by
    decide +kernel
  refine ⟨one, two, three, first, second, fun independent => ?_⟩
  have same := (independent.same _ _ ⟨fun _ => _, fun _ => _, one, three, first⟩
    ⟨fun _ => _, fun _ => _, two, three, second⟩
    ⟨"page", "", .bothAdded, none, shownAs "ours", shownAs "theirs", none⟩).mp
      (mem_singleton_self _)
  exact absurd (congrArg MergeConflict.conflictType (mem_singleton.mp same)) (by decide)

end RaisinDB.Branches
