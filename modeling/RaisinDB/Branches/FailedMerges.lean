import RaisinDB.Branches.ResolvedConflicts

/-!
# Merges that fail

Nothing is undone when a merge fails.  The resolutions before the failure stay written
at the merge revision, and the head stays where it was moved, ahead of entries that
were never copied.
-/

namespace RaisinDB.Branches

open RaisinDB.Clock RaisinDB.Foundation RaisinDB.Replication List
open Fallible

/-- The head of the branch and all reads of it are as they were. -/
def Untouched (name : String) (before after : RepositoryState) : Prop :=
  after.lookup name = before.lookup name ∧
    ∀ key revision, (after.contents name).newestAtOrBefore key revision =
      (before.contents name).newestAtOrBefore key revision

/-- The merge revision is newer than the head of the target and than all of its entries. -/
def FreshFor (state : RepositoryState) (name : String) (revision : HLC) : Prop :=
  (∀ branch, state.lookup name = some branch → branch.head < revision) ∧
    ∀ key, (state.contents name).get key revision = none

theorem Untouched.refl (name : String) (state : RepositoryState) : Untouched name state state :=
  ⟨rfl, fun _ _ => rfl⟩

/-- The revision is written or the head has moved to it. -/
def Marked (name : String) (revision : HLC) (state : RepositoryState) : Prop :=
  (∃ key, ((state.contents name).get key revision).isSome) ∨
    ∃ branch, state.lookup name = some branch ∧ revision ≤ branch.head

theorem FreshFor.not_untouched {name : String} {revision : HLC} {before after : RepositoryState}
    (fresh : FreshFor before name revision) (marked : Marked name revision after) :
    ¬ Untouched name before after := by
  rintro ⟨lookup, reads⟩
  rcases marked with ⟨key, present⟩ | ⟨branch, found, moved⟩
  · obtain ⟨value, stored⟩ := Option.isSome_iff_exists.mp present
    have newest := VersionedStore.newestAtOrBefore_self stored
    rw [reads, VersionedStore.newestAtOrBefore_eq_some_iff, fresh.2 key] at newest
    cases newest.2.1
  · rw [lookup] at found
    exact absurd moved (not_le.mpr (fresh.1 branch found))

section Marks

variable {writers : IndexWriters} {faults : Faults} {mergeRevision : HLC}
  {targetBranch sourceBranch : String} {state final : RepositoryState} {target source : Branch}

/-- A content that keeps all versions keeps the mark. -/
theorem Marked.setContent (marked : Marked targetBranch mergeRevision state) {content : Content}
    (keeps : ∀ key, ((state.contents targetBranch).get key mergeRevision).isSome →
      (content.get key mergeRevision).isSome) :
    Marked targetBranch mergeRevision (state.setContent targetBranch content) := by
  refine marked.imp_left fun present => ?_
  obtain ⟨key, present⟩ := present
  refine ⟨key, ?_⟩
  rw [RepositoryState.contents_setContent_self]
  exact keeps key present

theorem Marked.putRows (marked : Marked targetBranch mergeRevision state)
    (rows : List (ContentKey × ContentValue)) :
    Marked targetBranch mergeRevision (state.putRows targetBranch mergeRevision rows) :=
  marked.setContent fun _ present => VersionedStore.isSome_get_putAll rows present

theorem Marked.advanceHead (marked : Marked targetBranch mergeRevision state)
    (branch : Branch) :
    Marked targetBranch mergeRevision
      (state.advanceHead targetBranch branch mergeRevision) := by
  rcases marked with written | ⟨found, hfound, moved⟩
  · exact Or.inl (by rwa [contents_advanceHead])
  · rw [RepositoryState.advanceHead]
    split
    · exact Or.inr ⟨found, hfound, moved⟩
    · exact Or.inr ⟨_, RepositoryState.lookup_putBranch_self _ _ _, le_refl _⟩

theorem marked_updateHead : Preserves (Marked targetBranch mergeRevision)
    (updateHead targetBranch mergeRevision) := by
  refine (silent_query _).preserves.bind fun branch => (silent_reject _ _).preserves.bind fun _ => ?_
  by_cases older : mergeRevision ≤ branch.head
  · rw [if_pos older]
    exact (silent_pure _).preserves
  · rw [if_neg older]
    refine preserves_change fun state marked => ?_
    have advanced := marked.advanceHead branch
    rwa [RepositoryState.advanceHead, if_neg older] at advanced

theorem marked_copyContents (copyStops : Option Nat) (maxRevision : HLC) :
    Preserves (Marked targetBranch mergeRevision)
      (copyContents copyStops sourceBranch targetBranch maxRevision) := by
  cases copyStops with
  | none =>
    exact preserves_change fun state marked =>
      marked.setContent fun _ present => VersionedStore.isSome_get_putVersions _ present
  | some count =>
    refine (preserves_change fun state marked => ?_).bind fun _ => (silent_reject _ _).preserves
    exact marked.setContent fun _ present => VersionedStore.isSome_get_putVersions _ present

/-- The rest of a merge after the head has moved. -/
def afterHead (writers : IndexWriters) (faults : Faults) (mergeRevision : HLC)
    (targetBranch sourceBranch : String) (source : Branch) (changedNodes : List NodeChangeInfo) :
    Merging MergeResult := do
  copyContents faults.copyStops sourceBranch targetBranch source.head
  step faults .compoundAfterCopy
  step faults .localizedAfterCopy
  change fun state => state.setContent targetBranch ((state.contents targetBranch).putAll
    mergeRevision (indexRows (writers.localized state changedNodes)))
  return ⟨true, some mergeRevision.timestampMs, [], false, changedNodes.length⟩

theorem marked_afterHead (changedNodes : List NodeChangeInfo) :
    Preserves (Marked targetBranch mergeRevision) (afterHead writers faults mergeRevision
      targetBranch sourceBranch source changedNodes) := by
  refine (marked_copyContents _ _).bind fun _ => (silent_step _).preserves.bind fun _ =>
    (silent_step _).preserves.bind fun _ => (preserves_change fun state marked => ?_).bind
      fun _ => (silent_pure _).preserves
  exact marked.setContent fun _ present => VersionedStore.isSome_get_putAll _ present

theorem marked_completeMerge (changedNodes : List NodeChangeInfo) :
    Preserves (Marked targetBranch mergeRevision) (completeMerge writers faults mergeRevision
      targetBranch sourceBranch target source changedNodes) := by
  refine (silent_step _).preserves.bind fun _ => (preserves_change fun state marked => ?_).bind
    fun _ => (silent_step _).preserves.bind fun _ => marked_updateHead.bind fun _ =>
      marked_afterHead changedNodes
  exact marked

theorem outcome_step {mergeStep : MergeStep} (passes : faults.failing mergeStep = false) :
    outcome (step faults mergeStep) state = (.ok (), state) :=
  outcome_step_ok.mpr ⟨passes, rfl⟩

theorem completeMerge_untouched {changedNodes : List NodeChangeInfo}
    {answer : Except BranchError MergeResult}
    (stops : faults.failing .storeRevisionMeta = true ∨ faults.failing .updateHead = true)
    (run : outcome (completeMerge writers faults mergeRevision targetBranch sourceBranch target
      source changedNodes) state = (answer, final)) : Untouched targetBranch state final := by
  rw [completeMerge, outcome_bind, step, outcome_reject] at run
  cases first : faults.failing .storeRevisionMeta with
  | true =>
    rw [first] at run
    rw [← (Prod.mk.inj run).2]
    exact Untouched.refl _ _
  | false =>
    rw [first] at stops run
    have second : faults.failing .updateHead = true := stops.resolve_left fun wrong => by
      cases wrong
    change outcome (_ >>= _) _ = _ at run
    rw [outcome_bind_of_ok (outcome_change _ _), outcome_bind, step, outcome_reject, second] at run
    rw [← (Prod.mk.inj run).2]
    exact ⟨rfl, fun _ _ => rfl⟩

theorem completeMerge_marked (changedNodes : List NodeChangeInfo)
    (found : state.lookup targetBranch = some target) (open' : target.isProtected = false)
    (first : faults.failing .storeRevisionMeta = false)
    (second : faults.failing .updateHead = false) :
    Marked targetBranch mergeRevision (outcome (completeMerge writers faults mergeRevision
      targetBranch sourceBranch target source changedNodes) state).2 := by
  rw [completeMerge, outcome_bind_of_ok (outcome_step first),
    outcome_bind_of_ok (outcome_change _ _), outcome_bind_of_ok (outcome_step second),
    outcome_bind_of_ok (outcome_updateHead (by exact found) open' mergeRevision)]
  refine marked_afterHead changedNodes _ (Or.inr ?_)
  rw [RepositoryState.advanceHead]
  by_cases older : mergeRevision ≤ target.head
  · rw [if_pos older]
    exact ⟨target, found, older⟩
  · rw [if_neg older]
    exact ⟨_, RepositoryState.lookup_putBranch_self _ _ _, le_refl _⟩

end Marks

/-! ## Failed merges -/

/-- A three-way merge without conflicts gets as far as moving the head. -/
def MovesHead (faults : Faults) (targetBranch sourceBranch : String) (strategy : MergeStrategy)
    (state : RepositoryState) : Prop :=
  strategy = .threeWay ∧ ∃ target source, state.lookup targetBranch = some target ∧
    target.isProtected = false ∧ state.lookup sourceBranch = some source ∧
    target.head ≠ source.head ∧
    findMergeConflicts state targetBranch sourceBranch = .ok [] ∧
    ∀ mergeStep ∈ [MergeStep.getTarget, .getSource, .conflicts, .divergence, .changes,
      .storeRevisionMeta, .updateHead], faults.failing mergeStep = false

section Merge

variable {writers : IndexWriters} {faults : Faults} {mergeRevision : HLC}
  {targetBranch sourceBranch : String} {state final : RepositoryState} {strategy : MergeStrategy}

theorem mergeBranches_marked {answer : Except BranchError MergeResult}
    (run : outcome (mergeBranches writers faults mergeRevision targetBranch sourceBranch strategy)
      state = (answer, final))
    (moves : MovesHead faults targetBranch sourceBranch strategy state) :
    Marked targetBranch mergeRevision final := by
  change Marked targetBranch mergeRevision (answer, final).2
  rw [← run]
  obtain ⟨rfl, target, source, htarget, open', hsource, different, none, passes⟩ := moves
  have sides : outcome (mergeSides faults targetBranch sourceBranch) state =
      (.ok (target, source), state) :=
    outcome_mergeSides_ok.mpr ⟨passes _ (by decide), passes _ (by decide), htarget, open', hsource,
      rfl⟩
  have plan : outcome (threeWayPlan faults targetBranch sourceBranch target source) state =
      (.ok ([], state.repository.mergeChangedNodes target source), state) := by
    rw [threeWayPlan, outcome_bind_of_ok (outcome_step (passes _ (by decide))),
      outcome_bind_of_ok (outcome_query_ok.mpr ⟨none, rfl⟩), if_neg (not_not.mpr rfl),
      outcome_bind_of_ok (outcome_step (passes _ (by decide))),
      outcome_bind_of_ok (outcome_step (passes _ (by decide)))]
    rfl
  rw [mergeBranches, outcome_bind_of_ok sides]
  dsimp only
  rw [if_neg different, mergeThreeWay, outcome_bind_of_ok plan, if_neg (not_not.mpr rfl)]
  exact completeMerge_marked _ htarget open' (passes _ (by decide)) (passes _ (by decide))

theorem mergeFastForward_silent {target source : Branch}
    (htarget : state.lookup targetBranch = some target) (open' : target.isProtected = false)
    {error : BranchError}
    (run : outcome (mergeFastForward faults targetBranch sourceBranch source) state =
      (.error error, final)) : final = state := by
  rw [mergeFastForward] at run
  rcases (silent_step _).error_of_bind run with same | ⟨_, _, run⟩
  · exact same
  rcases (silent_query _).error_of_bind run with same | ⟨_, _, run⟩
  · exact same
  rcases (silent_reject _ _).error_of_bind run with same | ⟨_, _, run⟩
  · exact same
  rcases (silent_step _).error_of_bind run with same | ⟨_, _, run⟩
  · exact same
  rw [outcome_bind_of_ok (outcome_updateHead htarget open' source.head)] at run
  cases (Prod.mk.inj run).1

theorem threeWayPlan_ok_passes {target source : Branch}
    {plan : List MergeConflict × List NodeChangeInfo} (none : plan.1 = [])
    (run : outcome (threeWayPlan faults targetBranch sourceBranch target source) state =
      (.ok plan, final)) :
    ∀ mergeStep ∈ [MergeStep.conflicts, .divergence, .changes],
      faults.failing mergeStep = false := by
  simp only [threeWayPlan, outcome_bind_eq_ok, outcome_step_ok, outcome_query_ok] at run
  obtain ⟨_, _, ⟨first, rfl⟩, conflicts, _, ⟨found, rfl⟩, run⟩ := run
  by_cases empty : conflicts = []
  · rw [if_neg (not_not.mpr empty)] at run
    simp only [outcome_bind_eq_ok, outcome_step_ok] at run
    obtain ⟨_, _, ⟨second, rfl⟩, _, _, ⟨third, rfl⟩, _⟩ := run
    simp [first, second, third]
  · rw [if_pos empty] at run
    obtain ⟨answer, _⟩ := Prod.mk.inj run
    rw [← Except.ok.inj answer] at none
    exact absurd none empty

theorem mergeBranches_untouched {error : BranchError}
    (run : outcome (mergeBranches writers faults mergeRevision targetBranch sourceBranch strategy)
      state = (.error error, final))
    (early : ¬ MovesHead faults targetBranch sourceBranch strategy state) :
    Untouched targetBranch state final := by
  rw [mergeBranches] at run
  rcases silent_mergeSides.error_of_bind run with rfl | ⟨⟨target, source⟩, found, run⟩
  · exact Untouched.refl _ _
  obtain ⟨getTarget, getSource, htarget, open', hsource, _⟩ := outcome_mergeSides_ok.mp found
  dsimp only at run htarget open' hsource
  by_cases same : target.head = source.head
  · rw [if_pos same] at run
    cases (Prod.mk.inj run).1
  rw [if_neg same] at run
  cases strategy with
  | fastForward =>
    rw [mergeFastForward_silent htarget open' run]
    exact Untouched.refl _ _
  | threeWay =>
    rw [mergeThreeWay] at run
    rcases (silent_threeWayPlan target source).error_of_bind run with rfl | ⟨plan, planned, run⟩
    · exact Untouched.refl _ _
    obtain ⟨conflicts, _, _⟩ := outcome_threeWayPlan_ok planned
    by_cases none : plan.1 = []
    · rw [if_neg (not_not.mpr none)] at run
      have stops : faults.failing .storeRevisionMeta = true ∨
          faults.failing .updateHead = true := by
        by_contra passes
        obtain ⟨first, second⟩ := not_or.mp passes
        have planPasses := threeWayPlan_ok_passes none planned
        refine early ⟨rfl, target, source, htarget, open', hsource, same, none ▸ conflicts, ?_⟩
        simp only [forall_mem_cons] at planPasses ⊢
        simp only [Bool.eq_false_iff] at *
        exact ⟨getTarget, getSource, planPasses.1, planPasses.2.1, planPasses.2.2.1, first, second,
          planPasses.2.2.2⟩
      exact completeMerge_untouched stops run
    · rw [if_pos none] at run
      cases (Prod.mk.inj run).1

end Merge

/-! ## Failed resolutions -/

/-- A merge with resolutions gets as far as writing the first one, or without any as far as moving
the head. -/
def WritesSomething (faults : Faults) (targetBranch sourceBranch : String)
    (resolutions : List ConflictResolution) (state : RepositoryState) : Prop :=
  ∃ target source, state.lookup targetBranch = some target ∧ target.isProtected = false ∧
    state.lookup sourceBranch = some source ∧
    (∀ mergeStep ∈ [MergeStep.getTarget, .getSource, .divergence, .changes],
      faults.failing mergeStep = false) ∧
    let divergence := state.graph.divergence source.head target.head
    match resolutions with
    | [] =>
        (∃ walk, state.graph.sourceLine source.head divergence.commonAncestor = some (.ok walk)) ∧
          ∀ mergeStep ∈ [MergeStep.sourceLine, .storeRevisionMeta, .updateHead],
            faults.failing mergeStep = false
    | resolution :: _ =>
        faults.failing (.resolution 0) = false ∧ ∃ sourceOp workspace targetOp value,
          resolution.changes (state.repository.collectBranchChanges source.head divergence)
            (state.repository.collectBranchChanges target.head divergence) =
              .ok (sourceOp, workspace, targetOp) ∧
          MergeSides.chosenValue ⟨targetBranch, target, sourceBranch, source⟩ state workspace
            resolution = .ok value

section Resolve

variable {writers : IndexWriters} {faults : Faults} {mergeRevision : HLC} {sides : MergeSides}
  {sourceChanges targetChanges : AList fun _ : String => String × ChangeOperation}
  {explicit : List (String × String)} {state final : RepositoryState}

theorem marked_applyResolution (index : Nat) (resolution : ConflictResolution) :
    Preserves (Marked sides.targetBranch mergeRevision) (applyResolution writers faults
      mergeRevision sides sourceChanges targetChanges explicit index resolution) := by
  refine (silent_query _).preserves.bind fun change => (silent_step _).preserves.bind fun _ => ?_
  cases resolution.translationLocale with
  | none =>
    refine Preserves.bind ?_ fun kept => (silent_step _).preserves.bind fun _ =>
      (preserves_change fun _ marked => marked.putRows _).bind fun _ => (silent_pure _).preserves
    exact (silent_query _).preserves.bind fun chosen =>
      (preserves_change fun _ marked => marked.putRows _).bind fun _ => (silent_pure _).preserves
  | some locale =>
    refine Preserves.bind ?_ fun _ => (silent_pure _).preserves
    exact (silent_query _).preserves.bind fun chosen =>
      preserves_change fun _ marked => marked.putRows _

theorem marked_applyResolutions (sides : MergeSides) (index : Nat)
    (resolutions : List ConflictResolution) :
    Preserves (Marked sides.targetBranch mergeRevision) (applyResolutions writers faults
      mergeRevision sides sourceChanges targetChanges explicit index resolutions) := by
  induction resolutions generalizing index with
  | nil => exact (silent_pure _).preserves
  | cons resolution resolutions ih =>
    exact (marked_applyResolution index resolution).bind fun _ =>
      (ih (index + 1)).bind fun _ => (silent_pure _).preserves

/-- The first batch of a resolution writes its row at the merge revision. -/
theorem marked_of_row {name : String} {key : ContentKey} {value : ContentValue}
    (rows : List (ContentKey × ContentValue)) :
    Marked name mergeRevision (state.putRows name mergeRevision ((key, value) :: rows)) := by
  refine Or.inl ⟨key, ?_⟩
  rw [get_putRows_self]
  refine VersionedStore.isSome_get_putAll rows ?_
  rw [VersionedStore.get_put_self]
  rfl

theorem applyResolution_marked {index : Nat} {resolution : ConflictResolution}
    {sourceOp targetOp : ChangeOperation} {workspace : String} {value : ContentValue}
    (passes : faults.failing (.resolution index) = false)
    (known : resolution.changes sourceChanges targetChanges = .ok (sourceOp, workspace, targetOp))
    (chosen : sides.chosenValue state workspace resolution = .ok value) :
    Marked sides.targetBranch mergeRevision (outcome (applyResolution writers faults mergeRevision
      sides sourceChanges targetChanges explicit index resolution) state).2 := by
  rw [applyResolution, outcome_bind_of_ok (outcome_query_ok.mpr ⟨known, rfl⟩)]
  dsimp only
  rw [outcome_bind_of_ok (outcome_step passes)]
  rw [MergeSides.chosenValue] at chosen
  cases locale : resolution.translationLocale with
  | none =>
    rw [locale] at chosen
    dsimp only at chosen ⊢
    cases named : sides.chosenNode state workspace resolution with
    | error error =>
      rw [named] at chosen
      cases chosen
    | ok found =>
      have written : outcome (writeResolvedNode writers mergeRevision sides workspace
          resolution) state = (.ok (found.map Prod.snd),
            state.putRows sides.targetBranch mergeRevision
              ((.node workspace resolution.nodeId, nodeValue (found.map Prod.fst)) ::
                indexRows (writers.resolved state workspace resolution.nodeId
                  (found.map Prod.fst)))) := by
        rw [writeResolvedNode, outcome_bind_of_ok (outcome_query_ok.mpr ⟨named, rfl⟩)]
        rfl
      rw [outcome_bind_of_ok written]
      refine Preserves.bind (silent_step _).preserves (fun _ =>
        (preserves_change fun _ marked => marked.putRows _).bind fun _ =>
          (silent_pure _).preserves) _ (marked_of_row _)
  | some found =>
    rw [locale] at chosen
    dsimp only at chosen ⊢
    cases named : sides.chosenOverlay state workspace found resolution with
    | error error =>
      rw [named] at chosen
      cases chosen
    | ok overlay =>
      have written : outcome (writeResolvedTranslation mergeRevision sides workspace found
          resolution) state = (.ok (), state.putRows sides.targetBranch mergeRevision
            (overlayRows workspace resolution.nodeId [(found, overlay)])) := by
        rw [writeResolvedTranslation, outcome_bind_of_ok (outcome_query_ok.mpr ⟨named, rfl⟩)]
        rfl
      rw [outcome_bind_of_ok written]
      exact marked_of_row _

end Resolve

section Failed

variable {writers : IndexWriters} {faults : Faults} {mergeRevision : HLC}
  {targetBranch sourceBranch : String} {resolutions : List ConflictResolution}
  {state final : RepositoryState}

theorem resolveMerge_marked {answer : Except BranchError (Option MergeResult)}
    (run : outcome (resolveMergeWithResolutions writers faults mergeRevision targetBranch
      sourceBranch resolutions) state = (answer, final))
    (writes : WritesSomething faults targetBranch sourceBranch resolutions state) :
    Marked targetBranch mergeRevision final := by
  change Marked targetBranch mergeRevision (answer, final).2
  rw [← run]
  obtain ⟨target, source, htarget, open', hsource, passes, first⟩ := writes
  have sides : outcome (mergeSides faults targetBranch sourceBranch) state =
      (.ok (target, source), state) :=
    outcome_mergeSides_ok.mpr ⟨passes _ (by decide), passes _ (by decide), htarget, open', hsource,
      rfl⟩
  have diverged := BranchRepository.calculateDivergence_eq hsource htarget
  rw [resolveMergeWithResolutions, outcome_bind_of_ok sides]
  dsimp only
  rw [outcome_bind_of_ok (outcome_step (passes _ (by decide))),
    outcome_bind_of_ok (outcome_query_ok.mpr ⟨diverged, rfl⟩),
    outcome_bind_of_ok (outcome_step (passes _ (by decide))), outcome_bind, outcome_query]
  dsimp only
  rw [outcome_bind, outcome_query]
  dsimp only
  cases resolutions with
  | nil =>
    obtain ⟨⟨walk, line⟩, passes'⟩ := first
    rw [applyResolutions, outcome_bind_of_ok (outcome_pure _ _),
      outcome_bind_of_ok (outcome_step (passes' _ (by decide))), outcome_bind, outcome_query]
    have line' : state.graph.sourceLine source.head
        (state.repository.revisions.divergence source.head target.head).commonAncestor =
          some (.ok walk) := line
    rw [line']
    exact Preserves.after (fun _ => (silent_pure _).preserves)
      (completeMerge_marked _ htarget open' (passes' _ (by decide)) (passes' _ (by decide)))
  | cons resolution resolutions =>
    obtain ⟨passes', sourceOp, workspace, targetOp, value, known, chosen⟩ := first
    refine Preserves.after (fun resolved => ?_) (Preserves.after (fun _ =>
      (marked_applyResolutions ⟨targetBranch, target, sourceBranch, source⟩ (0 + 1)
        resolutions).bind fun _ => (silent_pure _).preserves)
        (applyResolution_marked passes' known chosen))
    refine (silent_step _).preserves.bind fun _ => (silent_query _).preserves.bind fun line => ?_
    cases line with
    | none => exact (silent_pure _).preserves
    | some walk =>
      exact (marked_completeMerge _).bind fun _ => (silent_pure _).preserves

/-- A resolution that fails before its first batch leaves everything as it was. -/
theorem applyResolution_silent {sides : MergeSides}
    {sourceChanges targetChanges : AList fun _ : String => String × ChangeOperation}
    {explicit : List (String × String)} {index : Nat} {resolution : ConflictResolution}
    {answer : Except BranchError NodeChangeInfo}
    (early : ¬ (faults.failing (.resolution index) = false ∧ ∃ sourceOp workspace targetOp value,
      resolution.changes sourceChanges targetChanges = .ok (sourceOp, workspace, targetOp) ∧
        sides.chosenValue state workspace resolution = .ok value))
    (run : outcome (applyResolution writers faults mergeRevision sides sourceChanges targetChanges
      explicit index resolution) state = (answer, final)) :
    final = state ∧ ∃ error, answer = .error error := by
  rw [applyResolution, outcome_bind, outcome_query] at run
  cases known : resolution.changes sourceChanges targetChanges with
  | error error =>
    rw [known] at run
    obtain ⟨failed, same⟩ := Prod.mk.inj run
    exact ⟨same.symm, error, failed.symm⟩
  | ok change =>
    obtain ⟨sourceOp, workspace, targetOp⟩ := change
    rw [known] at run
    dsimp only at run
    rw [outcome_bind, step, outcome_reject] at run
    cases passes : faults.failing (.resolution index) with
    | true =>
      rw [passes] at run
      obtain ⟨failed, same⟩ := Prod.mk.inj run
      exact ⟨same.symm, _, failed.symm⟩
    | false =>
      rw [passes] at run
      have unnamed : ∀ value, sides.chosenValue state workspace resolution ≠ .ok value :=
        fun value chosen =>
          early ⟨passes, sourceOp, workspace, targetOp, value, known, chosen⟩
      simp only [MergeSides.chosenValue] at unnamed
      simp only [Bool.false_eq_true, if_false] at run
      cases locale : resolution.translationLocale with
      | none =>
        rw [locale] at unnamed run
        dsimp only at unnamed run
        cases named : sides.chosenNode state workspace resolution with
        | ok found =>
          rw [named] at unnamed
          exact absurd rfl (unnamed _)
        | error error =>
          rw [writeResolvedNode, outcome_bind, outcome_bind, outcome_query, named] at run
          obtain ⟨failed, same⟩ := Prod.mk.inj run
          exact ⟨same.symm, error, failed.symm⟩
      | some found =>
        rw [locale] at unnamed run
        dsimp only at unnamed run
        cases named : sides.chosenOverlay state workspace found resolution with
        | ok overlay =>
          rw [named] at unnamed
          exact absurd rfl (unnamed _)
        | error error =>
          rw [writeResolvedTranslation, outcome_bind, outcome_bind, outcome_query, named] at run
          obtain ⟨failed, same⟩ := Prod.mk.inj run
          exact ⟨same.symm, error, failed.symm⟩

theorem resolveMerge_untouched {error : BranchError}
    (run : outcome (resolveMergeWithResolutions writers faults mergeRevision targetBranch
      sourceBranch resolutions) state = (.error error, final))
    (early : ¬ WritesSomething faults targetBranch sourceBranch resolutions state) :
    Untouched targetBranch state final := by
  rw [resolveMergeWithResolutions] at run
  rcases silent_mergeSides.error_of_bind run with rfl | ⟨⟨target, source⟩, found, run⟩
  · exact Untouched.refl _ _
  obtain ⟨getTarget, getSource, htarget, open', hsource, _⟩ := outcome_mergeSides_ok.mp found
  dsimp only at run htarget open' hsource
  rcases (silent_step _).error_of_bind run with rfl | ⟨_, diverges, run⟩
  · exact Untouched.refl _ _
  rw [outcome_bind_of_ok (outcome_query_ok.mpr
    ⟨BranchRepository.calculateDivergence_eq hsource htarget, rfl⟩)] at run
  rcases (silent_step _).error_of_bind run with rfl | ⟨_, collects, run⟩
  · exact Untouched.refl _ _
  rw [outcome_bind, outcome_query] at run
  dsimp only at run
  rw [outcome_bind, outcome_query] at run
  dsimp only at run
  have passes : ∀ mergeStep ∈ [MergeStep.getTarget, .getSource, .divergence, .changes],
      faults.failing mergeStep = false := by
    simp [getTarget, getSource, (outcome_step_ok.mp diverges).1, (outcome_step_ok.mp collects).1]
  cases resolutions with
  | nil =>
    rw [applyResolutions, outcome_bind_of_ok (outcome_pure _ _)] at run
    rcases (silent_step _).error_of_bind run with rfl | ⟨_, walks, run⟩
    · exact Untouched.refl _ _
    rcases (silent_query _).error_of_bind run with rfl | ⟨line, passed, run⟩
    · exact Untouched.refl _ _
    obtain ⟨hline, _⟩ := outcome_query_ok.mp passed
    cases line with
    | none => cases (Prod.mk.inj run).1
    | some walk =>
      rw [outcome_bind_eq_error] at run
      rcases run with failed | ⟨_, _, _, impossible⟩
      · refine completeMerge_untouched ?_ failed
        by_contra stays
        obtain ⟨first, second⟩ := not_or.mp stays
        refine early ⟨target, source, htarget, open', hsource, passes, ⟨walk, ?_⟩, ?_⟩
        · split at hline
          · cases Except.ok.inj hline
          · rename_i found hfound
            cases found with
            | error error => cases hline
            | ok found =>
              rw [Option.some.inj (Except.ok.inj hline)] at hfound
              exact hfound
        · simp [(outcome_step_ok.mp walks).1, first, second]
      · cases (Prod.mk.inj impossible).1
  | cons resolution resolutions =>
    have unwritten := fun writes => early ⟨target, source, htarget, open', hsource, passes, writes⟩
    rw [applyResolutions, outcome_bind_eq_error, outcome_bind_eq_error] at run
    rcases run with (failed | ⟨_, _, first, _⟩) | ⟨_, _, applied, _⟩
    · rw [(applyResolution_silent unwritten failed).1]
      exact Untouched.refl _ _
    · obtain ⟨_, _, impossible⟩ := applyResolution_silent unwritten first
      cases impossible
    · rw [outcome_bind_eq_ok] at applied
      obtain ⟨_, _, first, _⟩ := applied
      obtain ⟨_, _, impossible⟩ := applyResolution_silent unwritten first
      cases impossible

end Failed

/-- A failed merge leaves the target as it was exactly if it fails before its first write to it. -/
theorem failed_merge_untouched_iff {writers : IndexWriters} {faults : Faults} {mergeRevision : HLC}
    {targetBranch sourceBranch : String} {state : RepositoryState}
    (fresh : FreshFor state targetBranch mergeRevision) :
    (∀ strategy error final,
      outcome (mergeBranches writers faults mergeRevision targetBranch sourceBranch strategy)
        state = (.error error, final) →
      (Untouched targetBranch state final ↔
        ¬ MovesHead faults targetBranch sourceBranch strategy state)) ∧
    ∀ resolutions error final,
      outcome (resolveMergeWithResolutions writers faults mergeRevision targetBranch sourceBranch
        resolutions) state = (.error error, final) →
      (Untouched targetBranch state final ↔
        ¬ WritesSomething faults targetBranch sourceBranch resolutions state) := by
  refine ⟨fun strategy error final run => ⟨fun untouched moves => ?_, mergeBranches_untouched run⟩,
    fun resolutions error final run => ⟨fun untouched writes => ?_, resolveMerge_untouched run⟩⟩
  · exact fresh.not_untouched (mergeBranches_marked run moves) untouched
  · exact fresh.not_untouched (resolveMerge_marked run writes) untouched

/-! ## Two failures -/

def keepTheirsFor (nodeId : String) : ConflictResolution :=
  { keepOursFor nodeId with resolutionType := .keepTheirs }

/-- The second resolution is refused after the first one was written, and the page has moved to
where the source has it. -/
theorem first_resolution_stays :
    (outcome (resolveMergeWithResolutions noIndexes noFaults (rev 4) "main" "feature"
      [keepTheirsFor "home", keepOursFor "ghost"]) movedPages).1 =
        .error (.validation "Resolution provided for node ghost which has no source change") ∧
    (loadNodeAt (movedPages.contents "main") "content" "home" (rev 4)).map Node.path =
      some "/welcome" ∧
    (loadNodeAt ((outcome (resolveMergeWithResolutions noIndexes noFaults (rev 4) "main" "feature"
      [keepTheirsFor "home", keepOursFor "ghost"]) movedPages).2.contents "main") "content" "home"
        (rev 4)).map Node.path = some "/start" ∧
    ¬ Untouched "main" movedPages (outcome (resolveMergeWithResolutions noIndexes noFaults (rev 4)
      "main" "feature" [keepTheirsFor "home", keepOursFor "ghost"]) movedPages).2 := by
  have before : (loadNodeAt (movedPages.contents "main") "content" "home" (rev 4)).map Node.path =
      some "/welcome" := by decide +kernel
  have after : (loadNodeAt ((outcome (resolveMergeWithResolutions noIndexes noFaults (rev 4) "main"
      "feature" [keepTheirsFor "home", keepOursFor "ghost"]) movedPages).2.contents "main")
        "content" "home" (rev 4)).map Node.path = some "/start" := by decide +kernel
  refine ⟨by decide +kernel, before, after, fun untouched => ?_⟩
  rw [loadNodeAt, untouched.2, ← loadNodeAt, before] at after
  exact absurd after (by decide)

/-- A resolution that is refused first leaves the branch as it was. -/
theorem refused_resolution_leaves_main :
    Untouched "main" movedPages (outcome (resolveMergeWithResolutions noIndexes noFaults (rev 4)
      "main" "feature" [keepOursFor "ghost"]) movedPages).2 := by
  have fresh : FreshFor movedPages "main" (rev 4) := by
    have found : movedPages.lookup "main" = some ⟨rev 3, false⟩ := by decide +kernel
    have others : ∀ entry ∈ (movedPages.contents "main").entries.entries, entry.1.2 ≠ rev 4 := by
      decide +kernel
    refine ⟨fun branch hbranch => ?_, fun key => ?_⟩
    · rw [← Option.some.inj (found.symm.trans hbranch)]
      decide
    · by_contra present
      obtain ⟨value, stored⟩ := Option.ne_none_iff_exists'.mp present
      exact others _ (VersionedStore.mem_entries_of_get stored) rfl
  have run : outcome (resolveMergeWithResolutions noIndexes noFaults (rev 4) "main" "feature"
      [keepOursFor "ghost"]) movedPages =
        (.error (.validation "Resolution provided for node ghost which has no source change"),
          (outcome (resolveMergeWithResolutions noIndexes noFaults (rev 4) "main" "feature"
            [keepOursFor "ghost"]) movedPages).2) :=
    Prod.ext (by decide +kernel) rfl
  refine ((failed_merge_untouched_iff fresh).2 _ _ _ run).mpr ?_
  rintro ⟨target, source, htarget, _, hsource, _, _, sourceOp, workspace, targetOp, value, known, _⟩
  have unknown : (movedPages.repository.collectBranchChanges (rev 2)
      (movedPages.graph.divergence (rev 2) (rev 3))).lookup "ghost" = none := by decide +kernel
  have target' : movedPages.lookup "main" = some ⟨rev 3, false⟩ := by decide +kernel
  have source' : movedPages.lookup "feature" = some ⟨rev 2, false⟩ := by decide +kernel
  obtain rfl := Option.some.inj (target'.symm.trans htarget)
  obtain rfl := Option.some.inj (source'.symm.trans hsource)
  rw [ConflictResolution.changes] at known
  dsimp only [keepOursFor] at known
  rw [unknown] at known
  cases known

end RaisinDB.Branches
