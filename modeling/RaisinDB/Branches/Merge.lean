import RaisinDB.Branches.Conflicts
import RaisinDB.Foundation.Fallible

/-!
# Merging branches

Each branch has its own versions of every entry, while heads and revisions are
shared.  A fast-forward moves the head of the target; a three-way merge writes a
merge commit, moves the head to it and copies the entries of the source.
-/

namespace RaisinDB.Branches

open RaisinDB.Clock RaisinDB.Foundation RaisinDB.Replication List

/-! ## The merge -/

inductive MergeStrategy where
  | fastForward
  | threeWay
  deriving DecidableEq

structure MergeResult where
  success : Bool
  revision : Option Nat
  conflicts : List MergeConflict
  fastForward : Bool
  nodesChanged : Nat
  deriving DecidableEq

/-- The steps of a merge at which the storage can fail. -/
inductive MergeStep where
  | getTarget
  | getSource
  | divergence
  | conflicts
  | changes
  | resolution (index : Nat)
  | resolvedOverlays (index : Nat)
  | sourceLine
  | storeRevisionMeta
  | updateHead
  | compoundAfterCopy
  | localizedAfterCopy
  deriving DecidableEq

/-- Where the storage fails.  The copy may stop after any number of entries. -/
structure Faults where
  failing : MergeStep → Bool
  copyStops : Option Nat

def noFaults : Faults := ⟨fun _ => false, none⟩

abbrev Merging := Fallible RepositoryState BranchError

open Fallible

def step (faults : Faults) (mergeStep : MergeStep) : Merging Unit :=
  reject (faults.failing mergeStep) .storage

def findBranch (role name : String) : Merging Branch :=
  query fun state =>
    match state.lookup name with
    | some branch => .ok branch
    | none => .error (.notFound (role ++ " branch '" ++ name ++ "' not found"))

/-- A head only moves forwards. -/
def updateHead (name : String) (newHead : HLC) : Merging Unit := do
  let branch ← query fun state => state.repository.getBranch name
  reject branch.isProtected (.forbidden
    ("Cannot modify protected branch '" ++ name ++ "': branch is protected from commits"))
  if newHead ≤ branch.head then return ()
  change fun state => state.putBranch name { branch with head := newHead }

/-- Entries that the target has are kept. -/
def copyContents (copyStops : Option Nat) (sourceBranch targetBranch : String)
    (maxRevision : HLC) : Merging Unit := do
  match copyStops with
  | none =>
      change fun state => state.setContent targetBranch
        ((state.contents targetBranch).copyUpTo (state.contents sourceBranch) maxRevision)
  | some count =>
      change fun state => state.setContent targetBranch
        ((state.contents targetBranch).putVersions (((state.contents targetBranch).pending
          (state.contents sourceBranch) maxRevision).take count))
      reject true .storage

/-- The entries that the writers of the derived indexes add, from what they find stored. -/
structure IndexWriters where
  resolved : RepositoryState → (workspace nodeId : String) → Option Node →
    List ((ColumnFamily × List String) × ContentValue)
  localized : RepositoryState → List NodeChangeInfo →
    List ((ColumnFamily × List String) × ContentValue)

/-- Rows of derived indexes. -/
def indexRows (rows : List ((ColumnFamily × List String) × ContentValue)) :
    List (ContentKey × ContentValue) :=
  rows.map fun row => (.index row.1.1 row.1.2, row.2)

section Merge

variable (writers : IndexWriters) (faults : Faults) (mergeRevision : HLC)
  (targetBranch sourceBranch : String)

/-- Both branches; nothing is merged into a protected one. -/
def mergeSides : Merging (Branch × Branch) := do
  step faults .getTarget
  let target ← findBranch "Target" targetBranch
  reject target.isProtected
    (.forbidden ("Cannot merge into protected branch '" ++ targetBranch ++ "'"))
  step faults .getSource
  let source ← findBranch "Source" sourceBranch
  return (target, source)

/-- The merge commit, the head and the copy, in this order. -/
def completeMerge (target source : Branch) (changedNodes : List NodeChangeInfo) :
    Merging MergeResult := do
  step faults .storeRevisionMeta
  change fun state => state.storeRevisionMeta mergeRevision
    ⟨some target.head, some source.head, changedNodes⟩
  step faults .updateHead
  updateHead targetBranch mergeRevision
  copyContents faults.copyStops sourceBranch targetBranch source.head
  step faults .compoundAfterCopy
  step faults .localizedAfterCopy
  change fun state => state.setContent targetBranch ((state.contents targetBranch).putAll
    mergeRevision (indexRows (writers.localized state changedNodes)))
  return ⟨true, some mergeRevision.timestampMs, [], false, changedNodes.length⟩

/-- Everything a three-way merge reads. -/
def threeWayPlan (target source : Branch) :
    Merging (List MergeConflict × List NodeChangeInfo) := do
  step faults .conflicts
  let conflicts ← query fun state => findMergeConflicts state targetBranch sourceBranch
  if conflicts ≠ [] then return (conflicts, [])
  step faults .divergence
  step faults .changes
  let changedNodes ← query fun state => .ok (state.repository.mergeChangedNodes target source)
  return ([], changedNodes)

def mergeThreeWay (target source : Branch) : Merging MergeResult := do
  let plan ← threeWayPlan faults targetBranch sourceBranch target source
  if plan.1 ≠ [] then return ⟨false, none, plan.1, false, 0⟩
  completeMerge writers faults mergeRevision targetBranch sourceBranch target source plan.2

def mergeFastForward (source : Branch) : Merging MergeResult := do
  step faults .divergence
  let canFf ← query fun state => state.repository.canFastForward targetBranch sourceBranch
  reject (!canFf)
    (.validation "Fast-forward merge not possible: branches have diverged")
  step faults .updateHead
  updateHead targetBranch source.head
  return ⟨true, some source.head.timestampMs, [], true, 0⟩

def mergeBranches (strategy : MergeStrategy) : Merging MergeResult := do
  let (target, source) ← mergeSides faults targetBranch sourceBranch
  if target.head = source.head then
    return ⟨true, some target.head.timestampMs, [], false, 0⟩
  match strategy with
  | .fastForward => mergeFastForward faults targetBranch sourceBranch source
  | .threeWay => mergeThreeWay writers faults mergeRevision targetBranch sourceBranch target source

end Merge

/-! ## What a successful merge has done -/

/-- The head moves to the revision if it is newer. -/
def RepositoryState.advanceHead (state : RepositoryState) (name : String) (branch : Branch)
    (newHead : HLC) : RepositoryState :=
  if newHead ≤ branch.head then state else state.putBranch name { branch with head := newHead }

section Spec

variable {writers : IndexWriters} {faults : Faults} {mergeRevision : HLC}
  {targetBranch sourceBranch : String} {state final : RepositoryState}

theorem outcome_step_ok {mergeStep : MergeStep} {answer : Unit} :
    outcome (step faults mergeStep) state = (.ok answer, final) ↔
      faults.failing mergeStep = false ∧ final = state := by
  rw [step, outcome_reject]
  cases faults.failing mergeStep with
  | true => exact iff_of_false (fun impossible => by cases impossible) fun both => by cases both.1
  | false => exact ⟨fun same => ⟨rfl, (Prod.mk.inj same).2.symm⟩, fun both => by rw [both.2]; rfl⟩

theorem outcome_reject_ok {fails : Bool} {error : BranchError} {answer : Unit} :
    outcome (reject fails error : Merging Unit) state = (.ok answer, final) ↔
      fails = false ∧ final = state := by
  rw [outcome_reject]
  cases fails with
  | true => exact iff_of_false (fun impossible => by cases impossible) fun both => by cases both.1
  | false => exact ⟨fun same => ⟨rfl, (Prod.mk.inj same).2.symm⟩, fun both => by rw [both.2]; rfl⟩

theorem outcome_query_ok {α : Type} {read : RepositoryState → Except BranchError α} {answer : α} :
    outcome (query read : Merging α) state = (.ok answer, final) ↔
      read state = .ok answer ∧ final = state := by
  rw [outcome_query, Prod.mk.injEq, eq_comm (a := state)]

theorem outcome_findBranch_ok {role name : String} {branch : Branch} :
    outcome (findBranch role name) state = (.ok branch, final) ↔
      state.lookup name = some branch ∧ final = state := by
  rw [findBranch, outcome_query_ok]
  refine and_congr_left fun _ => ?_
  cases state.lookup name with
  | none => exact iff_of_false (fun impossible => by cases impossible) fun impossible => by cases impossible
  | some found => exact ⟨fun same => congrArg some (Except.ok.inj same), fun same => by
    rw [Option.some.inj same]⟩

theorem getBranch_eq_ok {name : String} {branch : Branch} :
    state.repository.getBranch name = .ok branch ↔ state.lookup name = some branch := by
  rw [BranchRepository.getBranch, RepositoryState.lookup]
  cases state.repository.branches.lookup name with
  | none => exact iff_of_false (fun impossible => by cases impossible) fun impossible => by cases impossible
  | some found => exact ⟨fun same => congrArg some (Except.ok.inj same), fun same => by
    rw [Option.some.inj same]⟩

theorem outcome_updateHead {name : String} {branch : Branch} (found : state.lookup name = some branch)
    (open' : branch.isProtected = false) (newHead : HLC) :
    outcome (updateHead name newHead) state = (.ok (), state.advanceHead name branch newHead) := by
  obtain ⟨head, isProtected⟩ := branch
  dsimp only at open'
  subst open'
  rw [updateHead, outcome_bind, outcome_query, getBranch_eq_ok.mpr found]
  dsimp only
  rw [outcome_bind, outcome_reject, RepositoryState.advanceHead]
  simp only [Bool.false_eq_true, if_false]
  by_cases older : newHead ≤ head
  · rw [if_pos older, if_pos older]
    rfl
  · rw [if_neg older, if_neg older]
    rfl

theorem outcome_mergeSides_ok {sides : Branch × Branch} :
    outcome (mergeSides faults targetBranch sourceBranch) state = (.ok sides, final) ↔
      faults.failing .getTarget = false ∧ faults.failing .getSource = false ∧
        state.lookup targetBranch = some sides.1 ∧ sides.1.isProtected = false ∧
        state.lookup sourceBranch = some sides.2 ∧ final = state := by
  simp only [mergeSides, outcome_bind_eq_ok, outcome_step_ok, outcome_findBranch_ok,
    outcome_reject_ok, outcome_pure, Prod.mk.injEq, Except.ok.injEq]
  constructor
  · rintro ⟨_, _, ⟨first, rfl⟩, target, _, ⟨found, rfl⟩, _, _, ⟨open', rfl⟩, _, _, ⟨second, rfl⟩,
      source, _, ⟨found', rfl⟩, rfl, rfl⟩
    exact ⟨first, second, found, open', found', rfl⟩
  · rintro ⟨first, second, found, open', found', rfl⟩
    exact ⟨(), _, ⟨first, rfl⟩, sides.1, _, ⟨found, rfl⟩, (), _, ⟨open', rfl⟩, (), _, ⟨second, rfl⟩,
      sides.2, _, ⟨found', rfl⟩, rfl, rfl⟩

theorem outcome_threeWayPlan_ok {target source : Branch}
    {plan : List MergeConflict × List NodeChangeInfo} :
    outcome (threeWayPlan faults targetBranch sourceBranch target source) state =
        (.ok plan, final) →
      findMergeConflicts state targetBranch sourceBranch = .ok plan.1 ∧
        (plan.1 = [] → plan.2 = state.repository.mergeChangedNodes target source) ∧
        final = state := by
  intro run
  simp only [threeWayPlan, outcome_bind_eq_ok, outcome_step_ok, outcome_query_ok] at run
  obtain ⟨_, _, ⟨_, rfl⟩, conflicts, _, ⟨found, rfl⟩, run⟩ := run
  by_cases none : conflicts = []
  · rw [if_neg (not_not.mpr none)] at run
    simp only [outcome_bind_eq_ok, outcome_step_ok, outcome_query_ok, outcome_pure,
      Prod.mk.injEq, Except.ok.injEq] at run
    obtain ⟨_, _, ⟨_, rfl⟩, _, _, ⟨_, rfl⟩, _, _, ⟨rfl, rfl⟩, rfl, rfl⟩ := run
    exact ⟨none ▸ found, fun _ => rfl, rfl⟩
  · rw [if_pos none] at run
    obtain ⟨answer, rfl⟩ := Prod.mk.inj run
    obtain rfl := Except.ok.inj answer
    exact ⟨found, fun empty => absurd empty none, rfl⟩

/-- The state that a three-way merge leaves. -/
def RepositoryState.merged (state : RepositoryState) (writers : IndexWriters) (mergeRevision : HLC)
    (targetBranch sourceBranch : String) (target source : Branch)
    (changedNodes : List NodeChangeInfo) : RepositoryState :=
  let recorded := state.storeRevisionMeta mergeRevision
    ⟨some target.head, some source.head, changedNodes⟩
  let advanced := recorded.advanceHead targetBranch target mergeRevision
  let copied := advanced.setContent targetBranch
    ((advanced.contents targetBranch).copyUpTo (advanced.contents sourceBranch) source.head)
  copied.setContent targetBranch ((copied.contents targetBranch).putAll mergeRevision
    (indexRows (writers.localized copied changedNodes)))

theorem notMem_indexRows (rows : List ((ColumnFamily × List String) × ContentValue))
    {key : ContentKey} (stored : key.isIndex = false) : key ∉ (indexRows rows).map Prod.fst := by
  intro hmem
  obtain ⟨row, hrow, rfl⟩ := mem_map.mp hmem
  obtain ⟨entry, _, rfl⟩ := mem_map.mp hrow
  cases stored

@[simp] theorem contents_advanceHead (name : String) (branch : Branch) (revision : HLC) :
    (state.advanceHead name branch revision).contents = state.contents := by
  rw [RepositoryState.advanceHead]
  split
  · rfl
  · rfl

/-- The versions of a node or of an overlay after the copy. -/
theorem get_merged {target source : Branch} {changedNodes : List NodeChangeInfo} {key : ContentKey}
    (stored : key.isIndex = false) (revision : HLC) :
    ((state.merged writers mergeRevision targetBranch sourceBranch target source
        changedNodes).contents targetBranch).get key revision =
      ((state.contents targetBranch).copyUpTo (state.contents sourceBranch) source.head).get key
        revision := by
  rw [RepositoryState.merged, RepositoryState.contents_setContent_self,
    VersionedStore.get_putAll_absent _ _ (notMem_indexRows _ stored),
    RepositoryState.contents_setContent_self, contents_advanceHead,
    RepositoryState.contents_storeRevisionMeta]

theorem outcome_completeMerge_ok {target source : Branch} {changedNodes : List NodeChangeInfo}
    {result : MergeResult} (found : state.lookup targetBranch = some target)
    (open' : target.isProtected = false)
    (run : outcome (completeMerge writers faults mergeRevision targetBranch sourceBranch target
      source changedNodes) state = (.ok result, final)) :
    final = state.merged writers mergeRevision targetBranch sourceBranch target source changedNodes ∧
      result = ⟨true, some mergeRevision.timestampMs, [], false, changedNodes.length⟩ := by
  simp only [completeMerge, outcome_bind_eq_ok, outcome_step_ok, outcome_change, Prod.mk.injEq,
    outcome_pure, Except.ok.injEq] at run
  obtain ⟨_, _, ⟨_, rfl⟩, _, _, ⟨_, rfl⟩, _, _, ⟨_, rfl⟩, _, _, moved, _, _, copied, _, _, ⟨_, rfl⟩,
    _, _, ⟨_, rfl⟩, _, _, ⟨_, rfl⟩, rfl, rfl⟩ := run
  rw [outcome_updateHead (by exact found) open', Prod.mk.injEq] at moved
  obtain ⟨_, rfl⟩ := moved
  cases stops : faults.copyStops with
  | none =>
    rw [stops] at copied
    obtain ⟨_, rfl⟩ := Prod.mk.inj copied
    exact ⟨rfl, rfl⟩
  | some count =>
    rw [stops] at copied
    simp only [copyContents, outcome_bind_eq_ok, outcome_reject_ok] at copied
    obtain ⟨_, _, _, impossible, _⟩ := copied
    cases impossible

/-- What a merge that reports success has done. -/
theorem mergeBranches_success {strategy : MergeStrategy} {result : MergeResult}
    (run : outcome (mergeBranches writers faults mergeRevision targetBranch sourceBranch strategy)
      state = (.ok result, final)) (success : result.success = true) :
    ∃ target source, state.lookup targetBranch = some target ∧
      state.lookup sourceBranch = some source ∧ target.isProtected = false ∧
      ((target.head = source.head ∧ final = state) ∨
        (target.head ≠ source.head ∧ strategy = .fastForward ∧
          state.repository.canFastForward targetBranch sourceBranch = .ok true ∧
          final = state.advanceHead targetBranch target source.head) ∨
        (target.head ≠ source.head ∧ strategy = .threeWay ∧
          findMergeConflicts state targetBranch sourceBranch = .ok [] ∧
          final = state.merged writers mergeRevision targetBranch sourceBranch target source
            (state.repository.mergeChangedNodes target source))) := by
  rw [mergeBranches, outcome_bind_eq_ok] at run
  obtain ⟨⟨target, source⟩, _, sides, run⟩ := run
  obtain ⟨_, _, htarget, open', hsource, rfl⟩ := outcome_mergeSides_ok.mp sides
  refine ⟨target, source, htarget, hsource, open', ?_⟩
  dsimp only at run
  by_cases same : target.head = source.head
  · rw [if_pos same] at run
    exact Or.inl ⟨same, (Prod.mk.inj run).2.symm⟩
  · rw [if_neg same] at run
    cases strategy with
    | fastForward =>
      simp only [mergeFastForward, outcome_bind_eq_ok, outcome_step_ok, outcome_query_ok,
        outcome_reject_ok, outcome_pure, Prod.mk.injEq] at run
      obtain ⟨_, _, ⟨_, rfl⟩, canFf, _, ⟨possible, rfl⟩, _, _, ⟨allowed, rfl⟩, _, _, ⟨_, rfl⟩, _,
        _, moved, _, rfl⟩ := run
      rw [outcome_updateHead htarget open', Prod.mk.injEq] at moved
      rw [Bool.not_eq_false'] at allowed
      exact Or.inr (Or.inl ⟨same, rfl, allowed ▸ possible, moved.2.symm⟩)
    | threeWay =>
      simp only [mergeThreeWay, outcome_bind_eq_ok] at run
      obtain ⟨plan, _, planned, run⟩ := run
      obtain ⟨conflicts, changed, rfl⟩ := outcome_threeWayPlan_ok planned
      by_cases none : plan.1 = []
      · rw [if_neg (not_not.mpr none)] at run
        obtain ⟨rfl, _⟩ := outcome_completeMerge_ok htarget open' run
        exact Or.inr (Or.inr ⟨same, rfl, none ▸ conflicts, by rw [changed none]⟩)
      · rw [if_pos none] at run
        obtain ⟨answer, _⟩ := Prod.mk.inj run
        rw [← Except.ok.inj answer] at success
        cases success

/-! ## What a merge without success has done -/

theorem silent_step (mergeStep : MergeStep) : Silent (step faults mergeStep) := silent_reject _ _

theorem silent_mergeSides : Silent (mergeSides faults targetBranch sourceBranch) :=
  (silent_step _).bind fun _ => (silent_query _).bind fun _ => (silent_reject _ _).bind fun _ =>
    (silent_step _).bind fun _ => (silent_query _).bind fun _ => silent_pure _

theorem silent_threeWayPlan (target source : Branch) :
    Silent (threeWayPlan faults targetBranch sourceBranch target source) := by
  refine (silent_step _).bind fun _ => (silent_query _).bind fun conflicts => ?_
  by_cases none : conflicts = []
  · rw [if_neg (not_not.mpr none)]
    exact (silent_step _).bind fun _ => (silent_step _).bind fun _ => (silent_query _).bind
      fun _ => silent_pure _
  · rw [if_pos none]
    exact silent_pure _

theorem outcome_completeMerge {target source : Branch} {changedNodes : List NodeChangeInfo}
    (found : state.lookup targetBranch = some target) (open' : target.isProtected = false) :
    outcome (completeMerge writers noFaults mergeRevision targetBranch sourceBranch target source
        changedNodes) state =
      (.ok ⟨true, some mergeRevision.timestampMs, [], false, changedNodes.length⟩,
        state.merged writers mergeRevision targetBranch sourceBranch target source
          changedNodes) := by
  have moved : outcome (updateHead targetBranch mergeRevision)
      (state.storeRevisionMeta mergeRevision ⟨some target.head, some source.head, changedNodes⟩) =
        (.ok (), (state.storeRevisionMeta mergeRevision
          ⟨some target.head, some source.head, changedNodes⟩).advanceHead targetBranch target
            mergeRevision) :=
    outcome_updateHead (by exact found) open' mergeRevision
  rw [completeMerge, outcome_bind]
  change outcome (_ >>= _) _ = _
  rw [outcome_bind, outcome_change]
  change outcome (_ >>= _) _ = _
  rw [outcome_bind]
  change outcome (_ >>= _) _ = _
  rw [outcome_bind, moved]
  rfl

/-- Without faults a merge either reports success or leaves everything as it was. -/
theorem mergeBranches_otherwise {strategy : MergeStrategy} {answer : Except BranchError MergeResult}
    (run : outcome (mergeBranches writers noFaults mergeRevision targetBranch sourceBranch strategy)
      state = (answer, final)) :
    (∃ result, answer = .ok result ∧ result.success = true) ∨ final = state := by
  rw [mergeBranches, outcome_bind] at run
  cases sides : outcome (mergeSides noFaults targetBranch sourceBranch) state with
  | mk found next =>
    obtain rfl := silent_mergeSides.eq sides
    rw [sides] at run
    cases found with
    | error error => exact Or.inr (Prod.mk.inj run).2.symm
    | ok pair =>
      obtain ⟨target, source⟩ := pair
      obtain ⟨_, _, htarget, open', hsource, _⟩ := outcome_mergeSides_ok.mp sides
      dsimp only at run htarget open' hsource
      by_cases same : target.head = source.head
      · rw [if_pos same] at run
        exact Or.inr (Prod.mk.inj run).2.symm
      · rw [if_neg same] at run
        cases strategy with
        | fastForward =>
          rw [mergeFastForward, outcome_bind] at run
          change outcome (_ >>= _) next = _ at run
          rw [outcome_bind, outcome_query,
            BranchRepository.canFastForward_eq htarget hsource] at run
          dsimp only at run
          rw [outcome_bind, outcome_reject] at run
          split at run
          · rename_i refused
            split at refused
            · cases refused
            · cases refused
              change outcome (_ >>= _) next = _ at run
              rw [outcome_bind] at run
              change outcome (_ >>= _) next = _ at run
              rw [outcome_bind, outcome_updateHead htarget open'] at run
              exact Or.inl ⟨_, (Prod.mk.inj run).1.symm, rfl⟩
          · rename_i refused
            have unchanged := (Prod.mk.inj refused).2
            exact Or.inr ((Prod.mk.inj run).2.symm.trans unchanged.symm)
        | threeWay =>
          rw [mergeThreeWay, outcome_bind] at run
          cases planned : outcome (threeWayPlan noFaults targetBranch sourceBranch target
              source) next with
          | mk plan next' =>
            obtain rfl := (silent_threeWayPlan target source).eq planned
            rw [planned] at run
            cases plan with
            | error error => exact Or.inr (Prod.mk.inj run).2.symm
            | ok plan =>
              dsimp only at run
              by_cases none : plan.1 = []
              · rw [if_neg (not_not.mpr none), outcome_completeMerge htarget open'] at run
                exact Or.inl ⟨_, (Prod.mk.inj run).1.symm, rfl⟩
              · rw [if_pos none] at run
                exact Or.inr (Prod.mk.inj run).2.symm

end Spec

end RaisinDB.Branches
