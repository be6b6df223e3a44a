import RaisinDB.Branches.ChangeWalks

/-!
# Where a history enters another

The loop along first parents, and when all walks of a merge, a resolution and a
diff see exactly the commits that the other branch does not have.
-/

namespace RaisinDB.Branches

open RaisinDB.Clock RaisinDB.Foundation RaisinDB.Replication List

namespace RevisionGraph

variable {graph : RevisionGraph}

/-! ## The loop along first parents -/

/-- The line of first parents, not followed from the stop. -/
def lineUntil (graph : RevisionGraph) (stop revision : HLC) : List HLC :=
  if revision = stop then [] else graph.firstParent revision

def OnLineUntil (graph : RevisionGraph) (stop head revision : HLC) : Prop :=
  Foundation.Reaches (graph.lineUntil stop) head revision

theorem mem_firstParent {revision parent : HLC} :
    parent ∈ graph.firstParent revision ↔
      ∃ record, graph.getRevisionMeta revision = some record ∧ record.parent = some parent := by
  rw [firstParent, Option.mem_toList, Option.bind_eq_some_iff]

theorem firstParent_eq {revision : HLC} {record : RevisionMeta}
    (stored : graph.getRevisionMeta revision = some record) :
    graph.firstParent revision = record.parent.toList := by
  rw [firstParent, stored]
  rfl

theorem links_of_firstParent {revision parent : HLC}
    (first : parent ∈ graph.firstParent revision) : parent ∈ graph.links revision := by
  obtain ⟨record, stored, isParent⟩ := mem_firstParent.mp first
  rw [links, stored]
  exact mem_append_left _ (Option.mem_toList.mpr isParent)

theorem mem_lineUntil {stop revision parent : HLC} :
    parent ∈ graph.lineUntil stop revision ↔
      revision ≠ stop ∧ parent ∈ graph.firstParent revision := by
  rw [lineUntil]
  by_cases same : revision = stop
  · rw [if_pos same]
    exact iff_of_false not_mem_nil fun both => both.1 same
  · rw [if_neg same]
    exact ⟨fun first => ⟨same, first⟩, fun both => both.2⟩

theorem OnLine.reaches {head revision : HLC} (line : graph.OnLine head revision) :
    graph.Reaches head revision :=
  Relation.ReflTransGen.mono (fun _ _ first => links_of_firstParent first) _ _ line

theorem OnLineUntil.onLine {stop head revision : HLC}
    (line : graph.OnLineUntil stop head revision) : graph.OnLine head revision :=
  Relation.ReflTransGen.mono (fun _ _ first => (mem_lineUntil.mp first).2) _ _ line

/-- On a line that ends at once there is only its head. -/
theorem onLineUntil_iff {stop head revision : HLC} :
    graph.OnLineUntil stop head revision ↔ revision = head ∨
      ∃ parent ∈ graph.lineUntil stop head, graph.OnLineUntil stop parent revision := by
  rw [OnLineUntil, Foundation.Reaches, Relation.ReflTransGen.cases_head_iff]
  exact or_congr_left eq_comm

/-- The loop has taken the line down to the stop. -/
structure TakesLine (graph : RevisionGraph) (stop head : HLC) (chain : List Collected) : Prop where
  recorded : ∀ revision, graph.OnLineUntil stop head revision → revision ≠ stop →
    graph.Recorded revision
  taken : ∀ revision, (∃ collected ∈ chain, collected.revision = revision) ↔
    graph.OnLineUntil stop head revision ∧ revision ≠ stop

theorem TakesLine.stop (stop : HLC) : TakesLine graph stop stop [] := by
  have ends : ∀ revision, graph.OnLineUntil stop stop revision → revision = stop := by
    intro revision line
    rcases onLineUntil_iff.mp line with here | ⟨parent, first, _⟩
    · exact here
    · exact absurd rfl (mem_lineUntil.mp first).1
  refine ⟨fun revision line different => absurd (ends revision line) different, fun revision => ?_⟩
  refine iff_of_false ?_ fun both => both.2 (ends revision both.1)
  rintro ⟨collected, hmem, _⟩
  cases hmem

/-- A revision joins the line of its parent, if it has one. -/
theorem TakesLine.cons {stop revision : HLC} {record : RevisionMeta} {chain : List Collected}
    (different : revision ≠ stop) (stored : graph.getRevisionMeta revision = some record)
    (recorded : ∀ other parent, parent ∈ graph.firstParent revision →
      graph.OnLineUntil stop parent other → other ≠ stop → graph.Recorded other)
    (taken : ∀ other, (∃ collected ∈ chain, collected.revision = other) ↔
      (∃ parent ∈ graph.firstParent revision, graph.OnLineUntil stop parent other) ∧ other ≠ stop) :
    TakesLine graph stop revision (⟨revision, record⟩ :: chain) := by
  have step : ∀ other, graph.OnLineUntil stop revision other ↔ other = revision ∨
      ∃ parent ∈ graph.firstParent revision, graph.OnLineUntil stop parent other := by
    intro other
    rw [onLineUntil_iff, lineUntil, if_neg different]
  constructor
  · intro other line notStop
    rcases (step other).mp line with rfl | ⟨parent, first, rest⟩
    · rw [Recorded, stored]
      rfl
    · exact recorded other parent first rest notStop
  · intro other
    rw [step]
    constructor
    · rintro ⟨collected, hmem, rfl⟩
      rcases mem_cons.mp hmem with rfl | later
      · exact ⟨.inl rfl, different⟩
      · obtain ⟨line, notStop⟩ := (taken collected.revision).mp ⟨collected, later, rfl⟩
        exact ⟨.inr line, notStop⟩
    · rintro ⟨rfl | line, notStop⟩
      · exact ⟨⟨other, record⟩, mem_cons_self, rfl⟩
      · obtain ⟨collected, hmem, same⟩ := (taken other).mpr ⟨line, notStop⟩
        exact ⟨collected, mem_cons_of_mem _ hmem, same⟩

/-- The loop takes the line, or it fails at a revision of the line without metadata. -/
theorem firstParentLoop_cases {stop revision : HLC} {fuel : Nat}
    {result : Except BranchError (List Collected)}
    (ran : graph.firstParentLoop stop fuel revision = some result) :
    (∃ chain, result = .ok chain ∧ TakesLine graph stop revision chain) ∨
    (∃ error, result = .error error ∧ ∃ lost, graph.OnLineUntil stop revision lost ∧
      lost ≠ stop ∧ ¬ graph.Recorded lost) := by
  induction fuel generalizing revision result with
  | zero => cases ran
  | succ fuel ih =>
    rw [firstParentLoop] at ran
    by_cases different : revision = stop
    · rw [if_pos different] at ran
      subst different
      exact .inl ⟨[], (Option.some.inj ran).symm, .stop revision⟩
    rw [if_neg different] at ran
    cases stored : graph.getRevisionMeta revision with
    | none =>
      rw [stored] at ran
      refine .inr ⟨_, (Option.some.inj ran).symm, revision, Relation.ReflTransGen.refl,
        different, ?_⟩
      rw [Recorded, stored]
      exact Bool.false_ne_true
    | some record =>
      rw [stored] at ran
      dsimp only at ran
      cases isParent : record.parent with
      | none =>
        rw [isParent] at ran
        have noParent : ∀ parent, parent ∉ graph.firstParent revision := by
          intro parent
          rw [firstParent_eq stored, isParent]
          exact not_mem_nil
        refine .inl ⟨_, (Option.some.inj ran).symm, .cons different stored ?_ fun other => ?_⟩
        · exact fun other parent first => absurd first (noParent parent)
        · refine iff_of_false ?_ ?_
          · rintro ⟨collected, hmem, _⟩
            cases hmem
          · rintro ⟨⟨parent, first, _⟩, _⟩
            exact noParent parent first
      | some parent =>
        rw [isParent] at ran
        obtain ⟨rest, ranRest, same⟩ := Option.map_eq_some_iff.mp ran
        have only : ∀ other, other ∈ graph.firstParent revision ↔ other = parent := by
          intro other
          rw [firstParent_eq stored, isParent]
          exact mem_singleton
        rcases ih ranRest with ⟨chain, rfl, line⟩ | ⟨error, rfl, lost, onLine, notStop, missing⟩
        · refine .inl ⟨_, same.symm, .cons different stored ?_ fun other => ?_⟩
          · intro other parent' first
            rw [(only parent').mp first]
            exact line.recorded other
          · rw [line.taken other]
            simp only [only, exists_eq_left]
        · refine .inr ⟨error, same.symm, lost, ?_, notStop, missing⟩
          exact onLineUntil_iff.mpr (.inr ⟨parent,
            mem_lineUntil.mpr ⟨different, (only parent).mpr rfl⟩, onLine⟩)

/-- Without cycles the loop ends: the revisions on its way are different stored ones. -/
theorem firstParentLoop_ends (acyclic : graph.Acyclic) {stop revision : HLC} {fuel : Nat}
    {passed : List HLC} (distinct : passed.Nodup)
    (before : ∀ earlier ∈ passed, graph.Recorded earlier ∧
      ∃ link ∈ graph.links earlier, graph.Reaches link revision)
    (enough : graph.metas.keys.length < fuel + passed.length) :
    ∃ result, graph.firstParentLoop stop fuel revision = some result := by
  induction fuel generalizing revision passed with
  | zero =>
    have stored : passed ⊆ graph.metas.keys := fun earlier hmem =>
      AList.mem_keys.mp (AList.lookup_isSome.mp (before earlier hmem).1)
    have small := (subperm_of_subset distinct stored).length_le
    omega
  | succ fuel ih =>
    rw [firstParentLoop]
    by_cases different : revision = stop
    · exact ⟨_, if_pos different⟩
    rw [if_neg different]
    cases stored : graph.getRevisionMeta revision with
    | none => exact ⟨_, rfl⟩
    | some record =>
      dsimp only
      cases isParent : record.parent with
      | none => exact ⟨_, rfl⟩
      | some parent =>
        have linked : parent ∈ graph.links revision :=
          links_of_firstParent (mem_firstParent.mpr ⟨record, stored, isParent⟩)
        have new : revision ∉ passed := fun again => by
          obtain ⟨_, link, hlink, reach⟩ := before revision again
          exact acyclic revision link hlink reach
        have before' : ∀ earlier ∈ revision :: passed, graph.Recorded earlier ∧
            ∃ link ∈ graph.links earlier, graph.Reaches link parent := by
          intro earlier hmem
          rcases mem_cons.mp hmem with rfl | old
          · exact ⟨recorded_of_link linked, parent, linked, Reaches.refl parent⟩
          · obtain ⟨known, link, hlink, reach⟩ := before earlier old
            exact ⟨known, link, hlink, reach.trans (Reaches.link linked)⟩
        obtain ⟨result, ran⟩ := ih (nodup_cons.mpr ⟨new, distinct⟩) before'
          (by rw [length_cons]; omega)
        exact ⟨_, by dsimp only; rw [ran]; rfl⟩

theorem sourceLine_ends (acyclic : graph.Acyclic) (head stop : HLC) :
    ∃ result, graph.sourceLine head stop = some result :=
  firstParentLoop_ends acyclic nodup_nil (fun earlier hmem => by cases hmem) (Nat.lt_succ_self _)

theorem LineEntersAt.fresh {head other base revision : HLC}
    (enters : graph.LineEntersAt head other base) (line : graph.OnLineUntil base head revision)
    (different : revision ≠ base) : graph.Recorded revision ∧ ¬ graph.Reaches other revision := by
  induction line with
  | refl => exact enters.start.resolve_left different
  | @tail node parent before first ih =>
    obtain ⟨notBase, first⟩ := mem_lineUntil.mp first
    have onLine : graph.OnLine head node := OnLineUntil.onLine before
    have nodeFresh := (ih notBase).2
    exact (enters.parents node ⟨onLine.reaches, nodeFresh⟩ onLine notBase parent
      first).resolve_left different

theorem onLineUntil_of_unmerged {head other base revision : HLC}
    (outside : base ∈ graph.unmerged head other → ¬ graph.Recorded base)
    (line : graph.OnLine head revision) (new : ¬ graph.Reaches other revision) :
    graph.OnLineUntil base head revision := by
  induction line with
  | refl => exact Relation.ReflTransGen.refl
  | @tail node parent before first ih =>
    have linked := links_of_firstParent first
    have nodeFresh : ¬ graph.Reaches other node := fun old => new (old.trans (Reaches.link linked))
    refine (ih nodeFresh).tail (mem_lineUntil.mpr ⟨?_, first⟩)
    rintro rfl
    exact outside ⟨OnLine.reaches before, nodeFresh⟩ (recorded_of_link linked)

theorem collectsUnmerged_sourceLine_iff (acyclic : graph.Acyclic) {head other base : HLC} :
    (∃ chain, graph.sourceLine head base = some (.ok chain) ∧
      graph.CollectsUnmerged head other chain) ↔ graph.LineEntersAt head other base := by
  constructor
  · rintro ⟨chain, ran, exact⟩
    have line : TakesLine graph base head chain := by
      rcases firstParentLoop_cases ran with ⟨chain', same, line⟩ | ⟨error, impossible, _⟩
      · rw [Except.ok.inj same]
        exact line
      · cases impossible
    have fresh : ∀ revision, graph.OnLineUntil base head revision → revision ≠ base →
        graph.Recorded revision ∧ ¬ graph.Reaches other revision := fun revision on different =>
      ⟨line.recorded revision on different,
        ((exact revision).mp ((line.taken revision).mpr ⟨on, different⟩)).2.2⟩
    have taken : ∀ revision ∈ graph.unmerged head other, graph.Recorded revision →
        graph.OnLineUntil base head revision ∧ revision ≠ base := fun revision new recorded =>
      (line.taken revision).mp ((exact revision).mpr ⟨recorded, new⟩)
    refine ⟨?_, fun revision new _ different parent first => ?_, fun new recorded =>
      (taken base new recorded).2 rfl, fun revision new recorded =>
      (taken revision new recorded).1.onLine⟩
    · by_cases same : head = base
      · exact .inl same
      · exact .inr (fresh head Relation.ReflTransGen.refl same)
    · by_cases same : parent = base
      · exact .inl same
      · have on := (taken revision new (recorded_of_link (links_of_firstParent first))).1
        exact .inr (fresh parent (on.tail (mem_lineUntil.mpr ⟨different, first⟩)) same)
  · intro enters
    obtain ⟨result, ran⟩ := sourceLine_ends acyclic head base
    rcases firstParentLoop_cases ran with ⟨chain, rfl, line⟩ | ⟨error, rfl, lost, on, different, gone⟩
    · refine ⟨chain, ran, fun revision => ?_⟩
      rw [line.taken revision]
      constructor
      · rintro ⟨on, different⟩
        obtain ⟨recorded, new⟩ := enters.fresh on different
        exact ⟨recorded, on.onLine.reaches, new⟩
      · rintro ⟨recorded, new⟩
        refine ⟨onLineUntil_of_unmerged enters.outside (enters.whole revision new recorded) new.2, ?_⟩
        rintro rfl
        exact enters.outside new recorded
    · exact absurd (enters.fresh on different).1 gone

/-! ## Deciding where a history enters another -/

/-- The line of first parents as a list. -/
def line (graph : RevisionGraph) (head : HLC) : List HLC :=
  searchFrom graph.firstParent (graph.allLinks.length + 1) [] [head]

theorem mem_line {head revision : HLC} :
    revision ∈ graph.line head ↔ graph.OnLine head revision := by
  have inside : ∀ node link, link ∈ graph.firstParent node → link ∈ head :: graph.allLinks :=
    fun node link first => mem_cons_of_mem _ (mem_allLinks (links_of_firstParent first))
  exact (searchFrom_explores inside Exploring.init (nodup_singleton head) mem_cons_self
    (le_refl _)).mem_iff

theorem entersAt_iff {head other base : HLC} :
    graph.EntersAt head other base ↔
      (head ∈ graph.ancestry other → (graph.getRevisionMeta head).isSome → head = base) ∧
      (∀ revision ∈ graph.ancestry head, revision ∉ graph.ancestry other →
        ∀ link ∈ graph.links revision, link ∈ graph.ancestry other →
          (graph.getRevisionMeta link).isSome → link = base) ∧
      (base ∈ graph.ancestry head → base ∉ graph.ancestry other →
        ¬ (graph.getRevisionMeta base).isSome) := by
  simp only [mem_ancestry]
  constructor
  · intro enters
    exact ⟨enters.start, fun revision reach new => enters.links revision ⟨reach, new⟩,
      fun reach new => enters.outside ⟨reach, new⟩⟩
  · rintro ⟨start, links, outside⟩
    exact ⟨start, fun revision new => links revision new.1 new.2, fun new => outside new.1 new.2⟩

instance entersAtDecidable (head other base : HLC) : Decidable (graph.EntersAt head other base) :=
  decidable_of_iff _ entersAt_iff.symm

theorem lineEntersAt_iff {head other base : HLC} :
    graph.LineEntersAt head other base ↔
      (head = base ∨ ((graph.getRevisionMeta head).isSome ∧ head ∉ graph.ancestry other)) ∧
      (∀ revision ∈ graph.line head, revision ∉ graph.ancestry other → revision ≠ base →
        ∀ parent ∈ graph.firstParent revision,
          parent = base ∨ ((graph.getRevisionMeta parent).isSome ∧ parent ∉ graph.ancestry other)) ∧
      (base ∈ graph.ancestry head → base ∉ graph.ancestry other →
        ¬ (graph.getRevisionMeta base).isSome) ∧
      (∀ revision ∈ graph.ancestry head, revision ∉ graph.ancestry other →
        (graph.getRevisionMeta revision).isSome → revision ∈ graph.line head) := by
  simp only [mem_ancestry, mem_line]
  constructor
  · intro enters
    exact ⟨enters.start, fun revision on new => enters.parents revision ⟨on.reaches, new⟩ on,
      fun reach new => enters.outside ⟨reach, new⟩,
      fun revision reach new => enters.whole revision ⟨reach, new⟩⟩
  · rintro ⟨start, parents, outside, whole⟩
    exact ⟨start, fun revision new on => parents revision on new.2,
      fun new => outside new.1 new.2, fun revision new => whole revision new.1 new.2⟩

instance lineEntersAtDecidable (head other base : HLC) :
    Decidable (graph.LineEntersAt head other base) :=
  decidable_of_iff _ lineEntersAt_iff.symm

end RevisionGraph

/-! ## The walks of two branches -/

/-- An entry of the map is one of the changes that were offered. -/
theorem mem_foldl_orInsert {ε κ ν : Type} [DecidableEq κ] {key : ε → κ} {value : ε → ν}
    {offered : List ε} {start : AList fun _ : κ => ν} {entry : Sigma fun _ : κ => ν}
    (hmem : entry ∈ (offered.foldl
      (fun changes item => orInsert changes (key item) (value item)) start).entries) :
    entry ∈ start.entries ∨ ∃ item ∈ offered, entry = ⟨key item, value item⟩ := by
  induction offered generalizing start with
  | nil => exact .inl hmem
  | cons first rest ih =>
    rcases ih hmem with before | ⟨item, later, same⟩
    · dsimp only [orInsert] at before
      by_cases present : key first ∈ start
      · rw [if_pos present] at before
        exact .inl before
      · rw [if_neg present, AList.insert_of_notMem present] at before
        rcases mem_cons.mp before with here | old
        · exact .inr ⟨first, mem_cons_self, here⟩
        · exact .inl old
    · exact .inr ⟨item, mem_cons_of_mem _ later, same⟩

/-- A commit that the other head does not have lists a change of the node. -/
def ChangedUnmerged (graph : RevisionGraph) (head other : HLC) (nodeId : String)
    (locale : Option String) : Prop :=
  ∃ revision ∈ graph.unmerged head other, ∃ record,
    graph.getRevisionMeta revision = some record ∧
      ∃ change ∈ record.changedNodes, change.nodeId = nodeId ∧ change.translationLocale = locale

section Walks

variable (repository : BranchRepository) (targetBranch sourceBranch : String)
  (target source : Branch)

/-- Every walk of a merge, a resolution and a diff of the source against the target sees the
unmerged commits, and what is listed was changed in one of them. -/
structure WalksSeeUnmerged : Prop where
  walk : repository.revisions.CollectsUnmerged source.head target.head
    (repository.branchWalk source.head
      (repository.revisions.divergence source.head target.head))
  targetWalk : repository.revisions.CollectsUnmerged target.head source.head
    (repository.branchWalk target.head
      (repository.revisions.divergence source.head target.head))
  line : ∃ chain, repository.revisions.sourceLine source.head
      (repository.revisions.divergence source.head target.head).commonAncestor =
        some (.ok chain) ∧
    repository.revisions.CollectsUnmerged source.head target.head chain
  merged : ∀ change ∈ repository.mergeChangedNodes target source,
    ChangedUnmerged repository.revisions source.head target.head change.nodeId
      change.translationLocale
  listed : ∀ pathAt diff, repository.diffBranches pathAt sourceBranch targetBranch = .ok diff →
    ∀ info ∈ diff.added ++ diff.modified ++ diff.deleted,
      ChangedUnmerged repository.revisions source.head target.head info.nodeId
        info.translationLocale

variable {repository targetBranch sourceBranch target source}

theorem changedUnmerged_of_walk {head other : HLC} {walk : List Collected}
    (exact : repository.revisions.CollectsUnmerged head other walk)
    (stored : ∀ collected ∈ walk,
      repository.revisions.getRevisionMeta collected.revision = some collected.record)
    {collected : Collected} (hcollected : collected ∈ walk) {change : NodeChangeInfo}
    (hchange : change ∈ collected.record.changedNodes) :
    ChangedUnmerged repository.revisions head other change.nodeId change.translationLocale :=
  ⟨collected.revision, ((exact collected.revision).mp ⟨collected, hcollected, rfl⟩).2,
    collected.record, stored collected hcollected, change, hchange, rfl, rfl⟩

theorem branchWalk_stored {head : HLC} {divergence : BranchDivergence} :
    ∀ collected ∈ repository.branchWalk head divergence,
      repository.revisions.getRevisionMeta collected.revision = some collected.record := by
  intro collected hcollected
  obtain ⟨node, _, taken⟩ := mem_filterMap.mp hcollected
  obtain ⟨rfl, _, stored⟩ := RevisionGraph.mem_collect.mp taken
  exact stored

theorem listed_of_walk (htarget : repository.branches.lookup targetBranch = some target)
    (hsource : repository.branches.lookup sourceBranch = some source)
    (exact : repository.revisions.CollectsUnmerged source.head target.head
      (repository.branchWalk source.head (repository.revisions.divergence source.head target.head)))
    {pathAt : String → String → HLC → Option String} {diff : BranchDiff}
    (ran : repository.diffBranches pathAt sourceBranch targetBranch = .ok diff) :
    ∀ info ∈ diff.added ++ diff.modified ++ diff.deleted,
      ChangedUnmerged repository.revisions source.head target.head info.nodeId
        info.translationLocale := by
  rw [BranchRepository.diffBranches, BranchRepository.getBranch, hsource,
    BranchRepository.calculateDivergence_eq hsource htarget] at ran
  obtain rfl := Except.ok.inj ran
  intro info hinfo
  obtain ⟨entry, hentry, rfl⟩ : ∃ entry ∈ (changesByLocale (repository.branchWalk source.head
      (repository.revisions.divergence source.head target.head))).entries,
        NodeDiffInfo.mk entry.1.1 entry.2.1 (pathAt entry.2.1 entry.1.1 entry.2.2.2) entry.2.2.1
          entry.1.2 = info := by
    simp only [mem_append, mem_filter] at hinfo
    rcases hinfo with (added | modified) | deleted
    · exact mem_map.mp added.1
    · exact mem_map.mp modified.1
    · exact mem_map.mp deleted.1
  rcases mem_foldl_orInsert hentry with impossible | ⟨item, hitem, rfl⟩
  · cases impossible
  · obtain ⟨collected, hcollected, hmap⟩ := mem_flatMap.mp hitem
    obtain ⟨change, hchange, rfl⟩ := mem_map.mp hmap
    exact changedUnmerged_of_walk exact branchWalk_stored hcollected hchange

/-- The walks see the unmerged commits exactly when both histories lead into one another only at
the merge base and the source is a line of first parents. -/
theorem walks_see_unmerged_iff (acyclic : repository.revisions.Acyclic)
    (htarget : repository.branches.lookup targetBranch = some target)
    (hsource : repository.branches.lookup sourceBranch = some source) {base : HLC}
    (isBase : repository.revisions.IsWalkBase source.head target.head base) :
    WalksSeeUnmerged repository targetBranch sourceBranch target source ↔
      repository.revisions.EntersAt source.head target.head base ∧
      repository.revisions.EntersAt target.head source.head base ∧
      repository.revisions.LineEntersAt source.head target.head base := by
  obtain rfl := RevisionGraph.isWalkBase_iff.mp isBase
  rw [← RevisionGraph.collectsUnmerged_changeWalk_iff,
    ← RevisionGraph.collectsUnmerged_changeWalk_iff,
    ← RevisionGraph.collectsUnmerged_sourceLine_iff acyclic]
  constructor
  · exact fun sees => ⟨sees.walk, sees.targetWalk, sees.line⟩
  · rintro ⟨walk, targetWalk, line⟩
    refine ⟨walk, targetWalk, line, fun change hchange => ?_, fun pathAt diff ran =>
      listed_of_walk htarget hsource walk ran⟩
    obtain ⟨collected, hcollected, hchange⟩ := mem_flatMap.mp hchange
    exact changedUnmerged_of_walk walk branchWalk_stored hcollected hchange

end Walks

theorem RevisionGraph.Growing.acyclic {graph : RevisionGraph} (growing : graph.Growing) :
    graph.Acyclic :=
  fun revision link linked back => absurd (growing.le back) (not_le.mpr (growing revision link linked))

/-- The source merged the target at 4.  Around the base 3 there is a way to the root. -/
theorem root_is_collected_again :
    ¬ ∀ (repository : BranchRepository) (targetBranch sourceBranch : String)
      (target source : Branch), repository.revisions.Acyclic →
        repository.branches.lookup targetBranch = some target →
        repository.branches.lookup sourceBranch = some source →
        WalksSeeUnmerged repository targetBranch sourceBranch target source := by
  intro claim
  have growing : mergedOnce.revisions.Growing := RevisionGraph.growing_of_metas (by decide)
  have sees := claim mergedOnce "target" "source" ⟨rev 5, false⟩ ⟨rev 6, false⟩ growing.acyclic
    (by decide) (by decide)
  have taken := (sees.walk (rev 1)).mp ⟨⟨rev 1, commit []⟩, by decide +kernel, rfl⟩
  exact taken.2.2 (RevisionGraph.mem_ancestry.mp (by decide +kernel))

/-- Two branches of one root, with a commit each. -/
def forkedOnce : BranchRepository :=
  repositoryOf [("source", 3), ("target", 2)] [(1, []), (2, [1]), (3, [1])]

theorem forked_walks_see_unmerged :
    WalksSeeUnmerged forkedOnce "target" "source" ⟨rev 2, false⟩ ⟨rev 3, false⟩ := by
  have growing : forkedOnce.revisions.Growing := RevisionGraph.growing_of_metas (by decide)
  have base : (forkedOnce.revisions.divergence (rev 3) (rev 2)).commonAncestor = rev 1 := by
    decide +kernel
  have isBase : forkedOnce.revisions.IsWalkBase (rev 3) (rev 2) (rev 1) :=
    RevisionGraph.isWalkBase_iff.mpr base.symm
  refine (walks_see_unmerged_iff growing.acyclic (by decide) (by decide) isBase).mpr ?_
  exact ⟨by decide +kernel, by decide +kernel, by decide +kernel⟩

end RaisinDB.Branches
