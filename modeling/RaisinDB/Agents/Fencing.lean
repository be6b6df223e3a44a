import RaisinDB.Agents.LegalRuns

/-!
# Who may commit

A driver proves with every commit that it holds the lease under the current epoch.  The
epoch is a new one whenever the lease changes hands, so the commits of two drivers, or of
one driver under two leases, never alternate.
-/

namespace RaisinDB.Agents

open List
open RaisinDB.Foundation (Value Machine)

section Fences

variable {service : Service} {history : RunHistory} {call : Call} {commit : Commit}
  {next run : StoredRun}

theorem checkFence_lease {stored : AgentRunRecord} {claim : LeaseFence} {now : Nat}
    (fenced : checkFence stored (.lease claim) now = .ok ()) :
    claim.epoch = stored.leaseEpoch ∧ (ledgerOf stored).owner = some (claim.owner, claim.epoch) := by
  unfold checkFence at fenced
  simp only [] at fenced
  split at fenced
  · next lease held =>
    split at fenced
    · next proof =>
      obtain ⟨owner, epoch, current, _⟩ := proof
      exact ⟨current, by simp [ledgerOf, held, owner, epoch]⟩
    · cases fenced
  · cases fenced

theorem Committed.epoch (committed : Committed service run call commit next) :
    run.record.leaseEpoch ≤ next.record.leaseEpoch ∧
      (next.record.leaseEpoch = run.record.leaseEpoch →
        (ledgerOf next.record).owner = (ledgerOf run.record).owner) := by
  have grows := Ledger.replay_epoch committed.legal
  rw [committed.replays] at grows
  exact grows

/-- The epoch of a claim that was accepted is over, or its owner holds the lease still. -/
def Outlives (claim : LeaseFence) (record : AgentRunRecord) : Prop :=
  claim.epoch < record.leaseEpoch ∨
    claim.epoch = record.leaseEpoch ∧
      ∀ holder, (ledgerOf record).owner = some holder → holder = (claim.owner, claim.epoch)

theorem Outlives.after {claim : LeaseFence} (committed : Committed service run call commit next)
    (outlives : Outlives claim run.record) : Outlives claim next.record := by
  obtain ⟨grows, still⟩ := committed.epoch
  rcases outlives with past | ⟨current, holds⟩
  · exact .inl (by omega)
  · rcases Nat.eq_or_lt_of_le grows with same | later
    · refine .inr ⟨by omega, fun holder held => holds holder ?_⟩
      rw [← still same.symm]
      exact held
    · exact .inl (by omega)

/-- Of two accepted claims the later one has a later epoch, unless it is the same. -/
def Ordered (first second : Option Commit) : Prop :=
  ∀ earlier later claim other, first = some earlier → second = some later →
    earlier.fence = .lease claim → later.fence = .lease other →
      claim.epoch < other.epoch ∨ claim = other

/-- What a step with an accepted claim leaves behind. -/
def Marked (transition : Foundation.Transition RunHistory Call (Option Commit))
    (history : RunHistory) : Prop :=
  Recorded history ∧ ∀ commit claim, transition.output = some commit →
    commit.fence = .lease claim → Outlives claim history.run.record

theorem marked_opens (recorded : Recorded history) (call : Call) :
    Marked ⟨history, call, (history.step service call).1, (history.step service call).2⟩
      (history.step service call).1 := by
  refine ⟨recorded.step call, ?_⟩
  intro commit claim accepted proof
  rcases step_cases service history call with ⟨other, run, ok, step⟩ | step
  · rw [step] at accepted ⊢
    cases accepted
    obtain ⟨_, committed⟩ := recorded.committed ok
    obtain ⟨current, held⟩ := checkFence_lease (proof ▸ committed.fenced)
    refine Outlives.after committed (.inr ⟨current, fun holder holds => ?_⟩)
    exact Option.some.inj (holds.symm.trans held)
  · rw [step] at accepted
    cases accepted

theorem marked_keeps {first : Foundation.Transition RunHistory Call (Option Commit)}
    (marked : Marked first history) (call : Call) :
    Marked first (history.step service call).1 := by
  obtain ⟨recorded, outlives⟩ := marked
  refine ⟨recorded.step call, ?_⟩
  intro commit claim accepted proof
  have before := outlives commit claim accepted proof
  rcases step_cases service history call with ⟨other, run, ok, step⟩ | step
  · rw [step]
    exact before.after (recorded.committed ok).2
  · rw [step]
    exact before

theorem marked_orders {first : Foundation.Transition RunHistory Call (Option Commit)}
    (marked : Marked first history) (call : Call) :
    Ordered first.output (history.step service call).2 := by
  obtain ⟨recorded, outlives⟩ := marked
  intro earlier later claim other accepted accepted' proof proof'
  have before := outlives earlier claim accepted proof
  rcases step_cases service history call with ⟨commit, run, ok, step⟩ | step
  · rw [step] at accepted'
    cases accepted'
    obtain ⟨_, committed⟩ := recorded.committed ok
    obtain ⟨current, held⟩ := checkFence_lease (proof' ▸ committed.fenced)
    rcases before with past | ⟨same, holds⟩
    · exact .inl (by omega)
    · have view := holds _ held
      simp only [Prod.mk.injEq] at view
      obtain ⟨owner, epoch⟩ := view
      cases claim
      cases other
      simp_all
  · rw [step] at accepted'
    cases accepted'

end Fences

theorem outputs_ordered (service : Service) {record : AgentRunRecord} (started : Started record)
    (input : Value) (calls : List Call) :
    ((runMachine service).outputs (RunHistory.start record input) calls).Pairwise Ordered := by
  rw [Machine.outputs, pairwise_map]
  have recorded : ∀ transition ∈
      (runMachine service).transitions (RunHistory.start record input) calls,
      Recorded transition.before ∧ Recorded transition.after :=
    (runMachine service).transitions_invariant Recorded (fun _ _ => True)
    (fun _ call recorded _ => recorded.step call) (started.recorded input) (fun _ _ => trivial)
  exact (runMachine service).transitions_pairwise Marked (fun history _ => Recorded history)
    (fun _ call recorded => marked_opens recorded call)
    (fun _ _ call marked => marked_keeps marked call)
    (fun _ _ call marked => marked_orders marked call)
    (fun transition mem => (recorded transition mem).1)

theorem accepted_ordered (service : Service) {record : AgentRunRecord} (started : Started record)
    (input : Value) (calls : List Call) :
    (acceptedCommits service record input calls).Pairwise
      fun earlier later => Ordered (some earlier) (some later) := by
  rw [acceptedCommits, pairwise_filterMap]
  refine (outputs_ordered service started input calls).imp ?_
  intro first second ordered earlier here later there
  rw [id] at here there
  exact here ▸ there ▸ ordered

/-- Fencing is exclusive: the accepted commits of two claims do not alternate.  An operation that may
not be replayed is started once, and no operation is completed twice. -/
theorem fencing_exclusive (service : Service) {record : AgentRunRecord} (started : Started record)
    (input : Value) (calls : List Call) :
    (∀ claim other : LeaseFence, claim ≠ other →
      (∀ (i j : Nat) (earlier later : Commit),
        (acceptedCommits service record input calls)[i]? = some earlier →
        (acceptedCommits service record input calls)[j]? = some later →
        earlier.fence = .lease claim → later.fence = .lease other → i < j) ∨
      ∀ (i j : Nat) (earlier later : Commit),
        (acceptedCommits service record input calls)[i]? = some earlier →
        (acceptedCommits service record input calls)[j]? = some later →
        earlier.fence = .lease claim → later.fence = .lease other → j < i) ∧
    (∀ opId, ((finalRun service record input calls).log.map RunEvent.kind).any
        (Ledger.startsUnsafe opId) = true →
      ((finalRun service record input calls).log.map RunEvent.kind).countP
        (Ledger.startsOp opId) = 1) ∧
    ∀ opId, ((finalRun service record input calls).log.map RunEvent.kind).countP
      (Ledger.completesOp opId) ≤ 1 := by
  have ordered := accepted_ordered service started input calls
  generalize acceptedCommits service record input calls = commits at ordered
  have at_once (i j : Nat) (earlier later : Commit) (here : commits[i]? = some earlier)
      (there : commits[j]? = some later) (before : i < j) :
      Ordered (some earlier) (some later) := by
    obtain ⟨small, same⟩ := List.getElem?_eq_some_iff.mp here
    obtain ⟨small', same'⟩ := List.getElem?_eq_some_iff.mp there
    rw [← same, ← same']
    exact pairwise_iff_getElem.mp ordered i j small small' before
  refine ⟨?_, ?_⟩
  · intro claim other different
    rcases Nat.lt_or_ge other.epoch claim.epoch with later | earlier
    · refine .inr fun i j first second here there proof proof' => ?_
      rcases Nat.lt_trichotomy i j with before | same | after
      · rcases at_once i j first second here there before first second claim other rfl rfl proof
          proof' with past | same
        · omega
        · exact absurd same different
      · subst same
        have one : first = second := Option.some.inj (here.symm.trans there)
        exact absurd (Fence.lease.inj (proof.symm.trans (one ▸ proof'))) different
      · exact after
    · refine .inl fun i j first second here there proof proof' => ?_
      rcases Nat.lt_trichotomy i j with before | same | after
      · exact before
      · subst same
        have one : first = second := Option.some.inj (here.symm.trans there)
        exact absurd (Fence.lease.inj (proof.symm.trans (one ▸ proof'))) different
      · rcases at_once j i second first there here after second first other claim rfl rfl proof'
          proof with past | same
        · omega
        · exact absurd same.symm different
  · obtain ⟨created, rest, shape, ⟨subject, principal, budgets, text, kind⟩, legal⟩ :=
      (started.reaches service input calls).logged.legal
    have dispatched := Ledger.dispatched_of_legal legal
    have log : (finalRun service record input calls).log.map RunEvent.kind =
        .runCreated subject principal budgets text :: rest.map RunEvent.kind := by
      rw [← kind]
      exact congrArg (map RunEvent.kind) shape
    rw [log]
    refine ⟨fun opId found => ?_, fun opId => ?_⟩
    · rw [countP_cons_of_neg (by simp [Ledger.startsOp])]
      exact dispatched.once opId (by simpa [Ledger.startsUnsafe] using found)
    · rw [countP_cons_of_neg (by simp [Ledger.completesOp])]
      exact dispatched.recorded opId

/-- A driver starts an operation and is gone; the one that takes over does not start it again. -/
def takenOverActions : List (Action × Nat) :=
  [(.acquire "a", 1), (.begin ⟨"a", 1⟩ {}, 2), (.takeover "b", 5000), (.acquire "b", 5001)]

theorem abandoned_operation_starts_once :
    ((plainFinal takenOverActions).log.map RunEvent.kind).countP
      (Ledger.startsOp "run/op/1") = 1 :=
  (fencing_exclusive plainService (.new plainRequest "run" 0) .null
    (plainCalls takenOverActions)).2.1 "run/op/1" (by decide +kernel)

end RaisinDB.Agents
