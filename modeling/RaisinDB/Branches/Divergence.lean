import RaisinDB.Branches.RevisionGraph

/-!
# How far two branches have diverged

The counts compare everything that the two heads can reach.  The merge base is
the newest revision that both can reach.
-/

namespace RaisinDB.Branches

open RaisinDB.Clock RaisinDB.Foundation RaisinDB.Replication List

/-! ## The calculation -/

structure Branch where
  head : HLC
  isProtected : Bool
  deriving DecidableEq

inductive BranchError where
  | notFound (message : String)
  | forbidden (message : String)
  | validation (message : String)
  | storage
  deriving DecidableEq

structure BranchDivergence where
  ahead : Nat
  behind : Nat
  commonAncestor : HLC
  deriving DecidableEq

/-- The divergence of two heads. -/
def RevisionGraph.divergence (graph : RevisionGraph) (current base : HLC) : BranchDivergence :=
  if current = base then ⟨0, 0, current⟩
  else
    let currentRevisions := graph.ancestry current
    let baseRevisions := graph.ancestry base
    -- the current head was merged into the base
    if current ∈ baseRevisions then ⟨0, 0, current⟩
    else
      { ahead := (currentRevisions.filter fun revision => revision ∉ baseRevisions).length
        behind := (baseRevisions.filter fun revision => revision ∉ currentRevisions).length
        commonAncestor :=
          (currentRevisions.filter fun revision => revision ∈ baseRevisions).max?.getD ⟨0, 0⟩ }

/-- The branch records and the revisions they share. -/
structure BranchRepository where
  branches : AList fun _ : String => Branch
  revisions : RevisionGraph

namespace BranchRepository

variable (repository : BranchRepository)

def getBranch (name : String) : Except BranchError Branch :=
  match repository.branches.lookup name with
  | some branch => .ok branch
  | none => .error (.notFound ("Branch '" ++ name ++ "' not found"))

def calculateDivergence (currentBranch baseBranch : String) :
    Except BranchError BranchDivergence := do
  let current ← repository.getBranch currentBranch
  let base ← repository.getBranch baseBranch
  return repository.revisions.divergence current.head base.head

/-- The source is the current branch of the comparison. -/
def canFastForward (targetBranch sourceBranch : String) : Except BranchError Bool := do
  let divergence ← repository.calculateDivergence sourceBranch targetBranch
  return divergence.behind = 0 ∧ divergence.ahead > 0

end BranchRepository

/-! ## What the graph says -/

namespace RevisionGraph

variable (graph : RevisionGraph)

/-- The revisions of a head that the other head does not have. -/
def unmerged (head other : HLC) : Set HLC :=
  { revision | graph.Reaches head revision ∧ ¬ graph.Reaches other revision }

/-- The other head has the revision and goes on from it. -/
def ProperAncestor (revision head : HLC) : Prop := graph.Reaches head revision ∧ revision ≠ head

/-- A revision of both heads that no other revision of both goes on from. -/
structure IsMergeBase (current base revision : HLC) : Prop where
  ofCurrent : graph.Reaches current revision
  ofBase : graph.Reaches base revision
  newest : ∀ other, graph.Reaches current other → graph.Reaches base other →
    ¬ graph.ProperAncestor revision other

/-- Some revision belongs to both heads. -/
def Meet (current base : HLC) : Prop :=
  ∃ revision, graph.Reaches current revision ∧ graph.Reaches base revision

variable {graph}

theorem Growing.not_proper (growing : graph.Growing) {revision other : HLC}
    (notOlder : other ≤ revision) : ¬ graph.ProperAncestor revision other :=
  fun proper => proper.2 (le_antisymm (growing.le proper.1) notOlder)

/-- A list without repetitions counts the set of its members. -/
theorem length_eq_ncard {revisions : List HLC} (distinct : revisions.Nodup) {set : Set HLC}
    (members : ∀ revision, revision ∈ revisions ↔ revision ∈ set) :
    revisions.length = set.ncard := by
  have same : set = (revisions.toFinset : Set HLC) :=
    Set.ext fun revision => by rw [Finset.mem_coe, mem_toFinset, members]
  rw [same, Set.ncard_coe_finset, toFinset_card_of_nodup distinct]

theorem length_filter_ancestry (head other : HLC) :
    ((graph.ancestry head).filter fun revision => revision ∉ graph.ancestry other).length =
      (graph.unmerged head other).ncard := by
  refine length_eq_ncard ((nodup_ancestry head).filter _) fun revision => ?_
  rw [mem_filter, decide_eq_true_iff, mem_ancestry, mem_ancestry]
  exact Iff.rfl

theorem unmerged_eq_empty_iff {head other : HLC} :
    graph.unmerged head other = ∅ ↔ graph.Reaches other head := by
  constructor
  · intro none
    by_contra fresh
    have here : head ∈ graph.unmerged head other := ⟨Reaches.refl head, fresh⟩
    rw [none] at here
    exact here
  · intro merged
    refine Set.eq_empty_iff_forall_notMem.mpr fun revision hmem => ?_
    exact hmem.2 (merged.trans hmem.1)

theorem finite_unmerged (head other : HLC) : (graph.unmerged head other).Finite := by
  refine (graph.ancestry head).toFinset.finite_toSet.subset fun revision hmem => ?_
  exact mem_toFinset.mpr (mem_ancestry.mpr hmem.1)

theorem ncard_unmerged_eq_zero_iff {head other : HLC} :
    (graph.unmerged head other).ncard = 0 ↔ graph.Reaches other head := by
  rw [Set.ncard_eq_zero (finite_unmerged head other), unmerged_eq_empty_iff]

/-! ## The three cases of the calculation -/

theorem divergence_merged {current base : HLC} (merged : graph.Reaches base current) :
    graph.divergence current base = ⟨0, 0, current⟩ := by
  by_cases same : current = base
  · exact if_pos same
  · rw [divergence, if_neg same]
    exact if_pos (mem_ancestry.mpr merged)

theorem divergence_apart {current base : HLC} (apart : ¬ graph.Reaches base current) :
    graph.divergence current base =
      ⟨(graph.unmerged current base).ncard, (graph.unmerged base current).ncard,
        ((graph.ancestry current).filter fun revision =>
          revision ∈ graph.ancestry base).max?.getD ⟨0, 0⟩⟩ := by
  have different : current ≠ base := fun same => apart (same ▸ Reaches.refl current)
  have outside : current ∉ graph.ancestry base := fun inside => apart (mem_ancestry.mp inside)
  rw [divergence, if_neg different]
  dsimp only
  rw [if_neg outside, length_filter_ancestry, length_filter_ancestry]

theorem divergence_ahead (current base : HLC) :
    (graph.divergence current base).ahead = (graph.unmerged current base).ncard := by
  by_cases merged : graph.Reaches base current
  · rw [divergence_merged merged]
    exact (ncard_unmerged_eq_zero_iff.mpr merged).symm
  · rw [divergence_apart merged]

theorem divergence_behind {current base : HLC} (fresh : ¬ graph.ProperAncestor current base) :
    (graph.divergence current base).behind = (graph.unmerged base current).ncard := by
  by_cases merged : graph.Reaches base current
  · have same : current = base := not_not.mp fun different => fresh ⟨merged, different⟩
    rw [divergence_merged merged]
    exact (ncard_unmerged_eq_zero_iff.mpr (same ▸ Reaches.refl current)).symm
  · rw [divergence_apart merged]

/-- The newest revision of both heads. -/
theorem commonAncestor_eq_some {current base : HLC} (apart : ¬ graph.Reaches base current)
    (meet : graph.Meet current base) :
    graph.Reaches current (graph.divergence current base).commonAncestor ∧
      graph.Reaches base (graph.divergence current base).commonAncestor ∧
      ∀ other, graph.Reaches current other → graph.Reaches base other →
        other ≤ (graph.divergence current base).commonAncestor := by
  have common : ∀ revision, revision ∈ ((graph.ancestry current).filter fun revision =>
      revision ∈ graph.ancestry base) ↔
        graph.Reaches current revision ∧ graph.Reaches base revision := fun revision => by
    rw [mem_filter, decide_eq_true_iff, mem_ancestry, mem_ancestry]
  rw [divergence_apart apart]
  cases greatest : ((graph.ancestry current).filter fun revision =>
      revision ∈ graph.ancestry base).max? with
  | none =>
      obtain ⟨revision, both⟩ := meet
      have hmem := (common revision).mpr both
      rw [max?_eq_none_iff.mp greatest] at hmem
      cases hmem
  | some found =>
      obtain ⟨hfound, bounds⟩ := max?_eq_some_iff.mp greatest
      obtain ⟨ofCurrent, ofBase⟩ := (common found).mp hfound
      exact ⟨ofCurrent, ofBase, fun other one two => bounds other ((common other).mpr ⟨one, two⟩)⟩

theorem commonAncestor_disjoint {current base : HLC} (disjoint : ¬ graph.Meet current base) :
    (graph.divergence current base).commonAncestor = ⟨0, 0⟩ := by
  have apart : ¬ graph.Reaches base current := fun merged =>
    disjoint ⟨current, Reaches.refl current, merged⟩
  have none : ((graph.ancestry current).filter fun revision =>
      revision ∈ graph.ancestry base) = [] := by
    refine filter_eq_nil_iff.mpr fun revision hmem inside => disjoint ⟨revision, ?_⟩
    exact ⟨mem_ancestry.mp hmem, mem_ancestry.mp (of_decide_eq_true inside)⟩
  rw [divergence_apart apart, none]
  rfl

theorem Growing.isMergeBase (growing : graph.Growing) {current base : HLC}
    (meet : graph.Meet current base) :
    graph.IsMergeBase current base (graph.divergence current base).commonAncestor := by
  by_cases merged : graph.Reaches base current
  · rw [divergence_merged merged]
    exact ⟨Reaches.refl current, merged, fun other ofCurrent _ =>
      growing.not_proper (growing.le ofCurrent)⟩
  · obtain ⟨ofCurrent, ofBase, newest⟩ := commonAncestor_eq_some merged meet
    exact ⟨ofCurrent, ofBase, fun other one two => growing.not_proper (newest other one two)⟩

/-- A fast-forward needs commits on the source and none on the target. -/
theorem Growing.fastForward_iff (growing : graph.Growing) {target source : HLC} :
    (graph.divergence source target).behind = 0 ∧ (graph.divergence source target).ahead > 0 ↔
      graph.ProperAncestor target source := by
  rw [divergence_ahead, gt_iff_lt, Nat.pos_iff_ne_zero, ne_eq, ncard_unmerged_eq_zero_iff]
  by_cases merged : graph.Reaches target source
  · -- the source has nothing new, so the target is no proper ancestor of it
    refine iff_of_false (fun both => both.2 merged) ?_
    exact growing.not_proper (growing.le merged)
  · rw [divergence_apart merged]
    dsimp only
    rw [ncard_unmerged_eq_zero_iff]
    constructor
    · exact fun both => ⟨both.1, fun same => merged (same ▸ Reaches.refl target)⟩
    · exact fun proper => ⟨proper.1, merged⟩

end RevisionGraph

/-! ## Branches -/

/-- The counts and the merge base of two heads are those of the graph. -/
structure MatchesGraph (graph : RevisionGraph) (current base : HLC)
    (divergence : BranchDivergence) : Prop where
  ahead : divergence.ahead = (graph.unmerged current base).ncard
  behind : divergence.behind = (graph.unmerged base current).ncard
  ancestor : graph.IsMergeBase current base divergence.commonAncestor

namespace BranchRepository

variable {repository : BranchRepository} {currentBranch baseBranch : String}
  {current base : Branch}

theorem calculateDivergence_eq (hcurrent : repository.branches.lookup currentBranch = some current)
    (hbase : repository.branches.lookup baseBranch = some base) :
    repository.calculateDivergence currentBranch baseBranch =
      .ok (repository.revisions.divergence current.head base.head) := by
  rw [calculateDivergence, getBranch, getBranch, hcurrent, hbase]
  rfl

theorem canFastForward_eq (htarget : repository.branches.lookup currentBranch = some current)
    (hsource : repository.branches.lookup baseBranch = some base) :
    repository.canFastForward currentBranch baseBranch =
      .ok (decide ((repository.revisions.divergence base.head current.head).behind = 0 ∧
        (repository.revisions.divergence base.head current.head).ahead > 0)) := by
  rw [canFastForward, calculateDivergence_eq hsource htarget]
  rfl

/-- The divergence of two branches, wherever neither shortcut nor missing base stands in. -/
theorem calculateDivergence_matches (growing : repository.revisions.Growing)
    (hcurrent : repository.branches.lookup currentBranch = some current)
    (hbase : repository.branches.lookup baseBranch = some base) :
    ∃ divergence swapped, repository.calculateDivergence currentBranch baseBranch = .ok divergence ∧
      repository.calculateDivergence baseBranch currentBranch = .ok swapped ∧
      divergence.ahead = (repository.revisions.unmerged current.head base.head).ncard ∧
      (¬ repository.revisions.ProperAncestor current.head base.head →
        divergence.behind = (repository.revisions.unmerged base.head current.head).ncard ∧
          swapped.ahead = divergence.behind) ∧
      (repository.revisions.Meet current.head base.head →
        repository.revisions.IsMergeBase current.head base.head divergence.commonAncestor) ∧
      (¬ repository.revisions.Meet current.head base.head →
        divergence.commonAncestor = ⟨0, 0⟩) ∧
      (repository.canFastForward currentBranch baseBranch = .ok true ↔
        repository.revisions.ProperAncestor current.head base.head) := by
  refine ⟨_, _, calculateDivergence_eq hcurrent hbase, calculateDivergence_eq hbase hcurrent,
    RevisionGraph.divergence_ahead _ _, fun fresh => ?_, growing.isMergeBase,
    RevisionGraph.commonAncestor_disjoint, ?_⟩
  · have behind := RevisionGraph.divergence_behind fresh
    exact ⟨behind, (RevisionGraph.divergence_ahead _ _).trans behind.symm⟩
  · rw [canFastForward_eq hcurrent hbase, ← growing.fastForward_iff]
    exact ⟨fun same => of_decide_eq_true (Except.ok.inj same), fun both =>
      congrArg Except.ok (decide_eq_true both)⟩

end BranchRepository

/-- A revision of the examples. -/
def rev (millis : Nat) : HLC := ⟨millis, 0⟩

/-- Metadata without changes. -/
def commit (parents : List Nat) : RevisionMeta := ⟨parents[0]?.map rev, parents[1]?.map rev, []⟩

def graphOf (commits : List (Nat × List Nat)) : RevisionGraph :=
  ⟨(commits.map fun entry => ⟨rev entry.1, commit entry.2⟩).toAList⟩

def repositoryOf (heads : List (String × Nat)) (commits : List (Nat × List Nat)) :
    BranchRepository :=
  ⟨(heads.map fun entry => ⟨entry.1, ⟨rev entry.2, false⟩⟩).toAList, graphOf commits⟩

/-- Two branches with a root of their own have no base to return. -/
theorem disjoint_branches_have_no_base :
    ¬ ∀ (repository : BranchRepository) (currentBranch baseBranch : String)
      (current base : Branch), repository.revisions.Growing →
        repository.branches.lookup currentBranch = some current →
        repository.branches.lookup baseBranch = some base →
        ∃ divergence, repository.calculateDivergence currentBranch baseBranch = .ok divergence ∧
          MatchesGraph repository.revisions current.head base.head divergence := by
  intro claim
  obtain ⟨divergence, result, exact⟩ := claim (repositoryOf [("a", 1), ("b", 2)] [(1, []), (2, [])])
    "a" "b" ⟨rev 1, false⟩ ⟨rev 2, false⟩
    (RevisionGraph.growing_of_metas (by decide)) (by decide) (by decide)
  have found : divergence = ⟨1, 1, ⟨0, 0⟩⟩ := Except.ok.inj (result.symm.trans (by decide +kernel))
  have reach := RevisionGraph.mem_ancestry.mpr exact.ancestor.ofCurrent
  rw [found] at reach
  exact absurd reach (by decide +kernel)

/-- The source merged the target at 4, and both went on. -/
def mergedOnce : BranchRepository :=
  repositoryOf [("source", 6), ("target", 5)]
    [(1, []), (2, [1]), (3, [1]), (4, [2, 3]), (5, [3]), (6, [4])]

theorem merged_branches_match :
    ∃ divergence swapped, mergedOnce.calculateDivergence "source" "target" = .ok divergence ∧
      mergedOnce.calculateDivergence "target" "source" = .ok swapped ∧
      swapped.ahead = divergence.behind := by
  have growing : mergedOnce.revisions.Growing := RevisionGraph.growing_of_metas (by decide)
  have hsource : mergedOnce.branches.lookup "source" = some ⟨rev 6, false⟩ := by decide
  have htarget : mergedOnce.branches.lookup "target" = some ⟨rev 5, false⟩ := by decide
  obtain ⟨divergence, swapped, one, two, _, behind, _⟩ :=
    BranchRepository.calculateDivergence_matches growing hsource htarget
  refine ⟨divergence, swapped, one, two, (behind fun proper => ?_).2⟩
  exact absurd (RevisionGraph.mem_ancestry.mpr proper.1) (by decide +kernel)

end RaisinDB.Branches
