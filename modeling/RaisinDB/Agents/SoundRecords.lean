import RaisinDB.Agents.SoundLedgers

/-!
# Invariants that no commit fails

The store checks invariants inside every commit.  Every record that a run reaches keeps
them, so no transition of a service is refused for them.
-/

namespace RaisinDB.Agents

open List
open RaisinDB.Foundation (Value Machine)

/-- Parent, root and depth are set together, and the tree is not too deep. -/
structure Placed (record : AgentRunRecord) : Prop where
  root : record.parentRunId.isSome = record.rootRunId.isSome
  depth : record.parentRunId.isSome = decide (0 < record.depth)
  shallow : record.depth ≤ maxDepth

/-- The inbox of a reducer is read no further than the log goes. -/
def InboxRead (record : AgentRunRecord) : Prop :=
  ∀ binding, record.domain = some binding → binding.deliveredSeq ≤ record.lastSeq

structure Kept (record : AgentRunRecord) : Prop where
  sound : (ledgerOf record).Sound
  clean : record.Clean
  placed : Placed record
  inbox : InboxRead record

/-! ## How a start differs from the stored record -/

/-- The binding of a reducer stays, and neither its state nor its inbox goes back. -/
structure InboxGrows (record start : AgentRunRecord) : Prop where
  lastSeq : start.lastSeq = record.lastSeq
  bound : ∀ binding, record.domain = some binding → ∃ after, start.domain = some after ∧
    binding.stateRev ≤ after.stateRev ∧ binding.deliveredSeq ≤ after.deliveredSeq
  unbound : record.domain = none → start.domain = none
  read : InboxRead record → InboxRead start

theorem inboxGrows_of_same {record start : AgentRunRecord} (lastSeq : start.lastSeq = record.lastSeq)
    (same : start.domain = record.domain) : InboxGrows record start := by
  refine ⟨lastSeq, fun binding bound => ⟨binding, same.trans bound, le_rfl, le_rfl⟩,
    fun none => same.trans none, fun read binding bound => ?_⟩
  rw [lastSeq]
  exact read binding (same.symm.trans bound)

theorem inboxGrows_of_some {record start : AgentRunRecord} {binding after : DomainBinding}
    (lastSeq : start.lastSeq = record.lastSeq) (bound : record.domain = some binding)
    (bound' : start.domain = some after) (stateRev : binding.stateRev ≤ after.stateRev)
    (deliveredSeq : binding.deliveredSeq ≤ after.deliveredSeq)
    (read : InboxRead record → after.deliveredSeq ≤ record.lastSeq) : InboxGrows record start := by
  refine ⟨lastSeq, fun other bound'' => ?_, fun none => ?_, fun here other bound'' => ?_⟩
  · cases bound.symm.trans bound''
    exact ⟨after, bound', stateRev, deliveredSeq⟩
  · cases bound.symm.trans none
  · cases bound'.symm.trans bound''
    rw [lastSeq]
    exact read here

theorem scanDeliverable_some {log : List RunEvent} {past seq : Nat} {load : Loader}
    {event : ReducerEvent} (next : scanDeliverable log past load = some (seq, event)) :
    past < seq ∧ seq ∈ log.map RunEvent.seq := by
  obtain ⟨stored, mem, delivers⟩ := exists_of_findSome?_eq_some next
  obtain ⟨inLog, later⟩ := mem_filter.mp mem
  obtain ⟨delivered, _, same⟩ := Option.map_eq_some_iff.mp delivers
  cases same
  exact ⟨of_decide_eq_true later, mem_map_of_mem inLog⟩

theorem scanned_le {run : StoredRun} {record : AgentRunRecord} (logged : Logged run)
    (same : record = run.record) {past seq : Nat} {event : ReducerEvent}
    (next : scanDeliverable run.log past run.result = some (seq, event)) :
    past < seq ∧ seq ≤ record.lastSeq := by
  obtain ⟨later, mem⟩ := scanDeliverable_some next
  rw [logged.numbered, mem_range'_1] at mem
  rw [same]
  exact ⟨later, by omega⟩

theorem validateResponse_stateRev {checks : ResponseChecks} {req : ReducerRequest}
    {resp : ReducerResponse} (valid : validateResponse checks req resp = .ok ())
    (accepted : resp.refused = none) :
    resp.stateRev = req.stateRev ∨ resp.stateRev = req.stateRev + 1 := by
  by_contra neither
  rw [not_or] at neither
  unfold validateResponse at valid
  by_cases offered : (!req.accept.contains resp.contract) = true
  · rw [if_pos offered] at valid
    cases valid
  · rw [if_neg offered, if_neg (by rw [accepted]; exact Bool.false_ne_true)] at valid
    by_cases unknown : resp.effects.any Effect.isUnknown = true
    · rw [if_pos unknown] at valid
      cases valid
    · rw [if_neg unknown, if_pos neither] at valid
      cases valid

theorem callReducer_stateRev {service : Service} {run : StoredRun} {record : AgentRunRecord}
    {binding : DomainBinding} {reducer : Reducer} {event : ReducerEvent} {resp : ReducerResponse}
    (reply : service.callReducer run record binding reducer event = .ok resp) :
    resp.stateRev = binding.stateRev ∨ resp.stateRev = binding.stateRev + 1 := by
  unfold Service.callReducer at reply
  split at reply
  · cases reply
  · simp only [] at reply
    split at reply
    · cases reply
    · next answered =>
      split at reply
      · cases reply
      · next accepted =>
        split at reply
        · cases reply
        · next valid =>
          cases reply
          exact validateResponse_stateRev valid accepted

section Adjusted

variable {service : Service} {run : StoredRun} {record start : AgentRunRecord} {action : Action}

theorem Adjusted.inboxGrows (adjusted : Adjusted service run record action start)
    (logged : Logged run) (same : record = run.record) : InboxGrows record start := by
  cases adjusted with
  | same => exact inboxGrows_of_same rfl rfl
  | raised => exact inboxGrows_of_same rfl rfl
  | charged => exact inboxGrows_of_same rfl rfl
  | answered fence reducer bound next reply =>
    obtain ⟨later, below⟩ := scanned_le logged same next
    refine inboxGrows_of_some rfl bound rfl ?_ later.le fun _ => below
    rcases callReducer_stateRev reply with still | more
    · exact still.ge
    · simp only [advanceBinding, more]
      omega
  | finalized reducer bound next reply last =>
    obtain ⟨later, below⟩ := scanned_le logged same next
    refine inboxGrows_of_some rfl bound rfl ?_ later.le fun _ => below
    rcases callReducer_stateRev reply with still | more
    · exact still.ge
    · simp only [advanceBinding, more]
      omega
  | @marked reducer binding bound nothing =>
    exact inboxGrows_of_some rfl bound rfl le_rfl le_rfl fun read => read binding bound
  | skipped reducer bound next reply last =>
    obtain ⟨later, below⟩ := scanned_le logged same next
    exact inboxGrows_of_some rfl bound rfl le_rfl later.le fun _ => below

theorem Adjusted.clean (adjusted : Adjusted service run record action start)
    (clean : record.Clean) : start.Clean := by
  cases adjusted with
  | same => exact clean
  | raised => exact clean
  | charged => exact clean
  | answered fence reducer bound | finalized reducer bound | marked reducer bound
  | skipped reducer bound =>
    intro ended
    have before := clean ended
    rw [bound] at before
    exact before

/-- A start is placed in its tree where the record is. -/
theorem Adjusted.lineage (adjusted : Adjusted service run record action start) :
    start.parentRunId = record.parentRunId ∧ start.rootRunId = record.rootRunId ∧
      start.depth = record.depth := by
  cases adjusted <;> exact ⟨rfl, rfl, rfl⟩

end Adjusted

/-! ## One transition -/

/-- What the store compares before it takes a record. -/
structure Succeeds (record next : AgentRunRecord) : Prop where
  kept : Kept next
  grows : (ledgerOf record).Grows (ledgerOf next)
  version : record.version ≤ next.version
  inbox : ∀ binding, record.domain = some binding → ∃ after, next.domain = some after ∧
    binding.stateRev ≤ after.stateRev ∧ binding.deliveredSeq ≤ after.deliveredSeq
  lineage : next.parentRunId = record.parentRunId ∧ next.rootRunId = record.rootRunId ∧
    next.depth = record.depth

theorem Follows.succeeds {service : Service} {run : StoredRun} {record start : AgentRunRecord}
    {action : Action} {transition : Transition} (follows : Follows start transition)
    (adjusted : Adjusted service run record action start) (kept : Kept record)
    (logged : Logged run) (same : record = run.record) :
    Succeeds record transition.record := by
  have grown := adjusted.inboxGrows logged same
  have account := adjusted.ledgerOf
  obtain ⟨parent, root, depth⟩ := adjusted.lineage
  have origin := follows.origin
  have parent' : transition.record.parentRunId = start.parentRunId :=
    congrArg Origin.parentRunId origin
  have root' : transition.record.rootRunId = start.rootRunId := congrArg Origin.rootRunId origin
  have depth' : transition.record.depth = start.depth := congrArg Origin.depth origin
  have lastSeq : transition.record.lastSeq = start.lastSeq + transition.events.length :=
    congrArg Origin.seq origin
  have version : transition.record.version = start.version + 1 := congrArg Origin.version origin
  have inbox : transition.record.domain.map DomainBinding.inbox =
      start.domain.map DomainBinding.inbox := congrArg Origin.inbox origin
  have reads (after : DomainBinding) (bound : start.domain = some after) :
      ∃ next, transition.record.domain = some next ∧ next.inbox = after.inbox := by
    rw [bound, Option.map_some] at inbox
    exact Option.map_eq_some_iff.mp inbox
  have replays := follows.replays
  have legal := follows.legal
  rw [account.1] at replays legal
  refine ⟨⟨?_, follows.clean (adjusted.clean kept.clean), ?_, ?_⟩, ?_, ?_, ?_, ?_⟩
  · rw [← replays]
    exact kept.sound.replay legal
  · refine ⟨?_, ?_, ?_⟩
    · rw [parent', root', parent, root]
      exact kept.placed.root
    · rw [parent', depth', parent, depth]
      exact kept.placed.depth
    · rw [depth', depth]
      exact kept.placed.shallow
  · intro next bound
    have before : start.domain.map DomainBinding.inbox = some next.inbox := by
      rw [← inbox, bound, Option.map_some]
    obtain ⟨after, bound', same'⟩ := Option.map_eq_some_iff.mp before
    have read := grown.read kept.inbox after bound'
    have delivered : after.deliveredSeq = next.deliveredSeq := congrArg Prod.snd same'
    omega
  · rw [← replays]
    exact Ledger.grows_replay legal
  · rw [version, account.2.1]
    exact Nat.le_succ _
  · intro binding bound
    obtain ⟨after, bound', stateRev, deliveredSeq⟩ := grown.bound binding bound
    obtain ⟨next, bound'', same'⟩ := reads after bound'
    have rev : next.stateRev = after.stateRev := congrArg Prod.fst same'
    have delivered : next.deliveredSeq = after.deliveredSeq := congrArg Prod.snd same'
    exact ⟨next, bound'', by omega, by omega⟩
  · exact ⟨parent'.trans parent, root'.trans root, depth'.trans depth⟩

/-! ## The checks -/

section Checks

variable {record next : AgentRunRecord}

theorem checkLease_ok (kept : Kept next) : checkLease next = .ok () := by
  obtain ⟨owned, started⟩ := kept.sound.current
  unfold checkLease
  rw [if_neg, if_neg]
  · intro later
    obtain ⟨op, flying, epoch⟩ := (Option.any_eq_true _ _).mp later
    have bound := started op.view (by simp [ledgerOf, flying])
    have small : op.leaseEpoch ≤ next.leaseEpoch := bound
    simp only [decide_eq_true_eq] at epoch
    omega
  · intro other
    obtain ⟨lease, held, epoch⟩ := (Option.any_eq_true _ _).mp other
    have same := owned lease.view (by simp [ledgerOf, held])
    exact of_decide_eq_true epoch same

/-- The counters of 32 bits are not behind those of the record. -/
structure CountersKept (record next : AgentRunRecord) : Prop where
  turn : ¬ next.counters.turn < record.counters.turn
  checkpoint : ¬ next.counters.checkpoint < record.counters.checkpoint

theorem checkMonotone_ok (succeeds : Succeeds record next) (counters : CountersKept record next) :
    checkMonotone record next = .ok () := by
  obtain ⟨op, steer, request, epoch, _⟩ := succeeds.grows
  simp only [ledgerOf] at op steer request epoch
  have version := succeeds.version
  unfold checkMonotone
  rw [if_neg, if_neg (by omega)]
  swap
  · rintro (behind | behind | behind | behind | behind)
    · exact counters.turn behind
    · omega
    · omega
    · omega
    · exact counters.checkpoint behind
  cases bound : record.domain with
  | none => rfl
  | some binding =>
    obtain ⟨after, bound', stateRev, deliveredSeq⟩ := succeeds.inbox binding bound
    rw [bound']
    simp only []
    rw [if_neg (by omega)]

theorem checkEnded_ok (kept : Kept next) : checkEnded next = .ok () := by
  unfold checkEnded
  rw [if_neg, if_neg]
  · rintro ⟨ended, parked⟩
    have none := (kept.clean ended).2
    cases bound : next.domain <;> simp_all
  · rintro ⟨ended, left⟩
    have steers : queuedSteers next.steerQueue = [] := kept.sound.ended (by
      rw [ledgerOf, RunState.status_isTerminal]
      exact ended)
    rcases left with queued | unanswered
    · exact queued (map_eq_nil_iff.mp steers)
    · exact unanswered (kept.clean ended).1

theorem checkRequests_ok (kept : Kept next) : checkRequests next = .ok () := by
  have distinct : (next.state.openRequests.map PendingRequest.requestId).Nodup :=
    kept.sound.numbered.distinct
  unfold checkRequests
  rw [if_neg (not_not.mpr distinct), if_neg]
  intro unread
  obtain ⟨binding, bound, later⟩ := (Option.any_eq_true _ _).mp unread
  have read := kept.inbox binding bound
  simp only [decide_eq_true_eq] at later
  omega

theorem checkLineage_ok (succeeds : Succeeds record next) :
    checkLineage (some record) next = .ok () := by
  obtain ⟨root, depth, shallow⟩ := succeeds.kept.placed
  obtain ⟨parent, root', depth'⟩ := succeeds.lineage
  have children : record.children.length ≤ next.children.length := by
    have more := succeeds.grows.children
    simpa [ledgerOf, linkViews] using more
  unfold checkLineage
  simp only []
  rw [if_neg (by rw [root]; simp [← root, depth]), if_neg (by omega), if_neg, if_neg (by omega)]
  rw [parent, root', depth']
  simp

theorem checkBounds_ok (kept : Kept next) : checkBounds next = .ok () := by
  have children : next.children.length ≤ maxChildrenPerRun := by
    have few := kept.sound.roomy.children
    simpa [ledgerOf, linkViews] using few
  have mailbox : next.mailbox.length ≤ mailboxLimit := kept.sound.roomy.mailbox
  unfold checkBounds
  rw [if_neg (by omega), if_neg (by omega)]

theorem checkInvariants_refused (kept : Kept next) (behind : ¬ CountersKept record next) :
    checkInvariants (some record) next = violation "I3" "a counter decreased" := by
  have refused : checkMonotone record next = violation "I3" "a counter decreased" := by
    unfold checkMonotone
    rw [if_pos]
    by_contra monotone
    simp only [not_or] at monotone
    exact behind ⟨monotone.1, monotone.2.2.2.2⟩
  unfold checkInvariants
  rw [checkLease_ok kept, Option.elim_some, refused]
  rfl

/-- Only a counter of 32 bits can be refused. -/
theorem checkInvariants_ok_iff (succeeds : Succeeds record next) :
    checkInvariants (some record) next = .ok () ↔ CountersKept record next := by
  constructor
  · intro ok
    by_contra behind
    rw [checkInvariants_refused succeeds.kept behind] at ok
    cases ok
  · intro counters
    unfold checkInvariants
    rw [checkLease_ok succeeds.kept, Option.elim_some, checkMonotone_ok succeeds counters,
      checkEnded_ok succeeds.kept, checkRequests_ok succeeds.kept, checkLineage_ok succeeds,
      checkBounds_ok succeeds.kept]
    rfl

end Checks

/-! ## Counters of 32 bits -/

theorem not_add_lt {count : UInt32} {n : Nat} (room : count.toNat + n < 2 ^ 32) :
    ¬ count + .ofNat n < count := by
  rw [UInt32.lt_iff_toNat_lt, UInt32.toNat_add, UInt32.toNat_ofNat']
  omega

theorem add_lt_of_full {count : UInt32} {n : Nat} (small : n < 2 ^ 32)
    (full : 2 ^ 32 ≤ count.toNat + n) : count + .ofNat n < count := by
  have below := count.toNat_lt
  rw [UInt32.lt_iff_toNat_lt, UInt32.toNat_add, UInt32.toNat_ofNat']
  omega

/-- The turns that a transition begins and the checkpoints that it writes have room in the counters
of the record. -/
structure CountersLast (record : AgentRunRecord) (transition : Transition) : Prop where
  turns : record.counters.turn.toNat + transition.kinds.countP Ledger.startsTurn < 2 ^ 32
  checkpoints :
    record.counters.checkpoint.toNat + transition.kinds.countP Ledger.writesCheckpoint < 2 ^ 32

/-! ## Runs -/

theorem Started.kept {record : AgentRunRecord} (started : Started record) : Kept record := by
  have sound : (Agents.ledgerOf record).Sound := by
    rw [started.ledgerOf]
    exact Ledger.sound_created record.runId
  have queued : record.state.isTerminal = false := by cases started <;> rfl
  have unread (reducer : Option ReducerRef) (binding : DomainBinding)
      (bound : reducer.map DomainBinding.new = some binding) : binding.deliveredSeq ≤ 1 := by
    obtain ⟨ref, _, same⟩ := Option.map_eq_some_iff.mp bound
    rw [← same]
    exact Nat.zero_le 1
  refine ⟨sound, clean_of_live queued, ?_, ?_⟩
  · cases started with
    | new req runId now => exact ⟨rfl, rfl, Nat.zero_le _⟩
    | child spawned scope now =>
      obtain ⟨budgets, config, selected, admitted, _, _, _, _, planned⟩ := applySpawn_ok spawned
      obtain ⟨_, _, _, shallow⟩ := admitChild_ok admitted
      rw [planned]
      exact ⟨rfl, (decide_eq_true (Nat.succ_pos _)).symm, shallow.trans (min_le_right _ _)⟩
  · intro binding bound
    cases started with
    | new req runId now => exact unread req.reducer binding bound
    | child spawned scope now => exact unread _ binding bound

section Runs

variable {service : Service} {history : RunHistory}

/-- What every state of a run keeps. -/
structure Healthy (history : RunHistory) : Prop where
  recorded : Recorded history
  kept : Kept history.run.record

theorem Healthy.succeeds (healthy : Healthy history) {action : Action} {now : Nat} {fence : Fence}
    {transition : Transition}
    (computed : service.transitionOf history.run history.run.record now action =
      some (fence, transition)) : Succeeds history.run.record transition.record := by
  obtain ⟨start, adjusted, follows⟩ := transitionOf_follows computed
  exact follows.succeeds adjusted healthy.kept healthy.recorded.logged rfl

/-- A transition moves the counters on by what it logs. -/
theorem counters_of_transition {run : StoredRun} {action : Action} {now : Nat} {fence : Fence}
    {transition : Transition}
    (computed : service.transitionOf run run.record now action = some (fence, transition)) :
    transition.record.counters.turn = run.record.counters.turn +
        .ofNat (transition.kinds.countP Ledger.startsTurn) ∧
      transition.record.counters.checkpoint = run.record.counters.checkpoint +
        .ofNat (transition.kinds.countP Ledger.writesCheckpoint) := by
  obtain ⟨start, adjusted, follows⟩ := transitionOf_follows computed
  have counted := Ledger.count_replay follows.legal
  rw [follows.replays, adjusted.ledgerOf.1] at counted
  exact counted

/-- The invariants pass exactly the transitions whose counts have room. -/
theorem Healthy.checkInvariants_ok (healthy : Healthy history) {action : Action} {now : Nat}
    {fence : Fence} {transition : Transition}
    (computed : service.transitionOf history.run history.run.record now action =
      some (fence, transition)) :
    (CountersLast history.run.record transition →
      checkInvariants (some history.run.record) transition.record = .ok ()) ∧
    (transition.events.length < 2 ^ 32 →
      checkInvariants (some history.run.record) transition.record = .ok () →
        CountersLast history.run.record transition) := by
  obtain ⟨turn, checkpoint⟩ := counters_of_transition computed
  rw [checkInvariants_ok_iff (healthy.succeeds computed)]
  constructor
  · rintro ⟨turns, checkpoints⟩
    exact ⟨by rw [turn]; exact not_add_lt turns, by rw [checkpoint]; exact not_add_lt checkpoints⟩
  · rintro few ⟨turn', checkpoint'⟩
    rw [turn] at turn'
    rw [checkpoint] at checkpoint'
    have length : transition.kinds.length = transition.events.length := length_map ..
    have small (count : RunEventKind → Bool) : transition.kinds.countP count < 2 ^ 32 :=
      (countP_le_length.trans length.le).trans_lt few
    exact ⟨not_le.mp fun full => turn' (add_lt_of_full (small _) full),
      not_le.mp fun full => checkpoint' (add_lt_of_full (small _) full)⟩

theorem Healthy.step (healthy : Healthy history) (call : Call) :
    Healthy (history.step service call).1 := by
  refine ⟨healthy.recorded.step call, ?_⟩
  rcases step_cases service history call with ⟨commit, run, ok, step⟩ | step
  · obtain ⟨_, committed⟩ := healthy.recorded.committed ok
    rw [step, committed.record]
    exact (healthy.succeeds committed.computed).kept
  · rw [step]
    exact healthy.kept

theorem Healthy.status (healthy : Healthy history) (call : Call)
    (ended : history.run.record.state.isTerminal = true) :
    (history.step service call).1.run.record.state.status = history.run.record.state.status := by
  rcases step_cases service history call with ⟨commit, run, ok, step⟩ | step
  · obtain ⟨_, committed⟩ := healthy.recorded.committed ok
    have still := Ledger.status_replay committed.legal ((RunState.status_isTerminal _).trans ended)
    rw [committed.replays] at still
    rw [step]
    exact still
  · rw [step]

theorem Started.healthy {record : AgentRunRecord} (started : Started record) (service : Service)
    (input : Value) (calls : List Call) :
    Healthy ((runMachine service).final (RunHistory.start record input) calls) :=
  (runMachine service).final_invariant Healthy (fun _ _ => True)
    (fun _ call healthy _ => healthy.step call) ⟨started.recorded input, started.kept⟩
    (fun _ _ => trivial)

/-- How a run ended is final. -/
theorem ended_stays (service : Service) (healthy : Healthy history)
    (ended : history.run.record.state.isTerminal = true) (calls : List Call) :
    ((runMachine service).final history calls).run.record.state.status =
      history.run.record.state.status := by
  have kept : Healthy ((runMachine service).final history calls) ∧
      ((runMachine service).final history calls).run.record.state.status =
        history.run.record.state.status := by
    refine (runMachine service).final_invariant
      (fun later => Healthy later ∧ later.run.record.state.status = history.run.record.state.status)
      (fun _ _ => True) ?_ ⟨healthy, rfl⟩ (fun _ _ => trivial)
    rintro later call ⟨healthy', same⟩ _
    have terminal : later.run.record.state.isTerminal = true := by
      rw [← RunState.status_isTerminal, same, RunState.status_isTerminal]
      exact ended
    exact ⟨healthy'.step call, (healthy'.status call terminal).trans same⟩
  exact kept.2

/-! ## Rejected controls -/

/-- The actions that answer a control, a result from outside among them. -/
def Action.isControl : Action → Bool
  | .control .. | .logRejection .. | .deliver .. => true
  | _ => false

/-- Apart from the log, the version and the time, the record is as it was, and nothing but the
acknowledgement is stored. -/
def OnlyLogged (record : AgentRunRecord) (now : Nat) (transition : Transition) : Prop :=
  transition.record =
      { record with
        version := record.version + 1
        lastSeq := record.lastSeq + transition.events.length
        updatedAtMs := now } ∧
    transition.toOutputs = { control := transition.control }

theorem applyControl_rejected {payloadDigest : ControlKind → String} {record : AgentRunRecord}
    {cmd : ControlCommand} {authorized : Bool} {now : Nat}
    (rejected : ∀ seq, (applyControl payloadDigest record cmd authorized now).ack ≠ .applied seq) :
    OnlyLogged record now (applyControl payloadDigest record cmd authorized now).transition := by
  unfold applyControl at rejected ⊢
  simp only [] at rejected ⊢
  split at rejected
  · exact absurd rfl (rejected _)
  · exact ⟨rfl, rfl⟩

theorem rejected_control_only_logs {run : StoredRun} {record : AgentRunRecord} {action : Action}
    {now : Nat} {fence : Fence} {transition : Transition}
    (computed : service.transitionOf run record now action = some (fence, transition))
    (controls : action.isControl = true)
    (rejected : ∀ id seq digest, transition.control ≠ some (id, .applied seq, digest)) :
    OnlyLogged record now transition := by
  cases action with
  | control cmd system =>
    have submitted := (unfenced_some computed).2
    unfold Service.submitControl at submitted
    split at submitted
    · split at submitted
      · cases submitted
      · cases submitted
        exact ⟨rfl, rfl⟩
    · cases submitted
      refine applyControl_rejected fun seq same => rejected cmd.controlId seq
        (service.payloadDigest cmd.kind) ?_
      rw [← same]
      unfold applyControl
      simp only []
      split <;> rfl
  | logRejection cmd =>
    cases (unfenced_some computed).2
    exact ⟨rfl, rfl⟩
  | deliver key deliveryId envelope =>
    have delivered := (unfenced_some computed).2
    unfold Service.deliverExternal at delivered
    split at delivered
    · cases delivered
    · cases delivered
      unfold applyDelivery at rejected ⊢
      simp only [] at rejected ⊢
      split at rejected
      · exact ⟨rfl, rfl⟩
      · exact absurd rfl (rejected _ _ _)
  | _ => cases controls

end Runs

/-- The invariants refuse a transition exactly if a counter of 32 bits has no room for it, an ended
run has nothing left and stays ended, and a rejected control leaves no trace in the record. -/
theorem transitions_keep_invariants (service : Service) {record : AgentRunRecord}
    (started : Started record) (input : Value) (calls : List Call) :
    let run := finalRun service record input calls
    (∀ (action : Action) (now : Nat) (fence : Fence) (transition : Transition),
      service.transitionOf run run.record now action = some (fence, transition) →
        (CountersLast run.record transition →
          checkInvariants (some run.record) transition.record = .ok ()) ∧
        (transition.events.length < 2 ^ 32 →
          checkInvariants (some run.record) transition.record = .ok () →
            CountersLast run.record transition)) ∧
    (run.record.state.isTerminal = true →
      run.record.state.lease = none ∧ run.record.state.activeOp = none ∧
      run.record.state.openRequests = [] ∧ run.record.steerQueue = [] ∧
      run.record.unansweredCalls = [] ∧
      ∀ binding, run.record.domain = some binding → binding.outbox = none) ∧
    (run.record.state.isTerminal = true → ∀ more : List Call,
      (finalRun service record input (calls ++ more)).record.state.status =
        run.record.state.status) ∧
    ∀ (action : Action) (now : Nat) (fence : Fence) (transition : Transition),
      service.transitionOf run run.record now action = some (fence, transition) →
        action.isControl = true →
        (∀ id seq digest, transition.control ≠ some (id, .applied seq, digest)) →
        OnlyLogged run.record now transition := by
  have healthy := started.healthy service input calls
  refine ⟨?_, ?_, ?_, ?_⟩
  · intro action now fence transition computed
    exact healthy.checkInvariants_ok computed
  · intro ended
    obtain ⟨calls', parked⟩ := healthy.kept.clean ended
    have steers := healthy.kept.sound.ended ((RunState.status_isTerminal _).trans ended)
    refine ⟨?_, ?_, ?_, map_eq_nil_iff.mp steers, calls', ?_⟩
    · generalize (finalRun service record input calls).record.state = state at ended
      cases state <;> simp at ended ⊢
    · generalize (finalRun service record input calls).record.state = state at ended
      cases state <;> simp at ended ⊢
    · generalize (finalRun service record input calls).record.state = state at ended
      cases state <;> simp at ended ⊢
    · intro binding bound
      have bound' : ((runMachine service).final (RunHistory.start record input)
          calls).run.record.domain = some binding := bound
      rw [bound'] at parked
      simpa using parked
  · intro ended more
    have stays := ended_stays service healthy ended more
    rw [← Machine.final_append] at stays
    exact stays
  · intro action now fence transition computed controls rejected
    exact rejected_control_only_logs computed controls rejected

/-- A run is stopped before it was taken up; a driver comes too late. -/
def stoppedActions : List (Action × Nat) :=
  [(.control ⟨"c", .stop none, ⟨.user, "user", none⟩⟩ false, 1)]

/-- The first turn of a run. -/
def firstBegin : Option (Fence × Transition) :=
  plainService.transitionOf (plainFinal [(.acquire "a", 1)])
    (plainFinal [(.acquire "a", 1)]).record 2 (.begin ⟨"a", 1⟩ {})

theorem stopped_run_stays_stopped :
    (∃ fence transition, firstBegin = some (fence, transition) ∧
      checkInvariants (some (plainFinal [(.acquire "a", 1)]).record) transition.record = .ok ()) ∧
    (finalRun plainService plainRecord .null
      (plainCalls stoppedActions ++ [⟨plainRecord, .acquire "a", 2⟩])).record.state.status =
        .stopped := by
  constructor
  · obtain ⟨⟨fence, transition⟩, begun⟩ : ∃ begun, firstBegin = some begun :=
      Option.isSome_iff_exists.mp (by decide +kernel)
    have counts : ∀ begun ∈ firstBegin,
        (plainFinal [(.acquire "a", 1)]).record.counters.turn.toNat +
          begun.2.kinds.countP Ledger.startsTurn < 2 ^ 32 ∧
        (plainFinal [(.acquire "a", 1)]).record.counters.checkpoint.toNat +
          begun.2.kinds.countP Ledger.writesCheckpoint < 2 ^ 32 := by decide +kernel
    obtain ⟨turns, checkpoints⟩ := counts _ begun
    exact ⟨fence, transition, begun, ((transitions_keep_invariants plainService
      (.new plainRequest "run" 0) .null (plainCalls [(.acquire "a", 1)])).1 _ _ _ _ begun).1
        ⟨turns, checkpoints⟩⟩
  · have ended : (plainFinal stoppedActions).record.state.isTerminal = true := by decide +kernel
    have stopped : (plainFinal stoppedActions).record.state.status = .stopped := by decide +kernel
    exact ((transitions_keep_invariants plainService (.new plainRequest "run" 0) .null
      (plainCalls stoppedActions)).2.2.1 ended _).trans stopped

/-! ## The last checkpoint -/

def bareCheckpoint : CheckpointWrite := ⟨none, none, none, none, none, none, []⟩

section Checkpoints

variable {history : RunHistory}

/-- What is committed of a run that nobody holds. -/
def checkpointed (record : AgentRunRecord) : Transition :=
  Service.structuredCheckpoint record bareCheckpoint 0

theorem checkpoint_computed (queued : history.run.record.state.status = .queued) :
    plainService.transitionOf history.run history.run.record 0 (.writeCheckpoint bareCheckpoint) =
      some (.none, checkpointed history.run.record) := by
  have free : Service.mayWriteCheckpoint history.run.record bareCheckpoint = true := by
    unfold Service.mayWriteCheckpoint
    generalize history.run.record.state = state at queued
    rcases state with _ | ⟨_, _ | _⟩ | _ | _ | _ | ⟨_ | _ | _, _⟩ <;> first | rfl | cases queued
  exact if_pos free

theorem checkpoint_committed {run : StoredRun}
    (passes : checkInvariants (some run.record) (checkpointed run.record).record = .ok ()) :
    ∃ next, run.commit .none (checkpointed run.record) 0 = .ok next ∧
      next.record = (checkpointed run.record).record := by
  have verified : verifyCommit run.record .none (checkpointed run.record) 0 = .ok (numberEvents
      run.record.runId 0 (run.record.lastSeq + 1) (checkpointed run.record).events) := by
    have version : run.record.version = (checkpointed run.record).expectedVersion := rfl
    have follows : (checkpointed run.record).record.version = run.record.version + 1 ∧
        (checkpointed run.record).record.lastSeq =
          run.record.lastSeq + (checkpointed run.record).events.length := ⟨rfl, rfl⟩
    have identity : (checkpointed run.record).record.runId = run.record.runId ∧
        (checkpointed run.record).record.scope = run.record.scope := ⟨rfl, rfl⟩
    unfold verifyCommit
    rw [checkFence]
    dsimp only
    rw [if_neg (not_not.mpr version), if_neg (by tauto), if_neg (by tauto), passes]
  refine ⟨run.write (checkpointed run.record) (numberEvents run.record.runId 0
    (run.record.lastSeq + 1) (checkpointed run.record).events), ?_, rfl⟩
  unfold StoredRun.commit
  rw [verified]
  rfl

/-- A checkpoint is accepted while its number fits. -/
theorem checkpoint_accepted (healthy : Healthy history)
    (queued : history.run.record.state.status = .queued)
    (room : history.run.record.counters.checkpoint.toNat + 1 < 2 ^ 32) :
    let next := (history.step plainService
      ⟨history.run.record, .writeCheckpoint bareCheckpoint, 0⟩).1
    Healthy next ∧ next.run.record.state.status = .queued ∧
      next.run.record.counters.checkpoint.toNat =
        history.run.record.counters.checkpoint.toNat + 1 := by
  have computed := checkpoint_computed queued
  have passes := (healthy.checkInvariants_ok computed).1
    ⟨history.run.record.counters.turn.toNat_lt, room⟩
  obtain ⟨next, committed, record⟩ := checkpoint_committed passes
  have stepped : (history.step plainService
      ⟨history.run.record, .writeCheckpoint bareCheckpoint, 0⟩).1 =
        ⟨next, next.record :: history.loaded⟩ := by
    unfold RunHistory.step RunHistory.attempt
    rw [if_pos healthy.recorded.current, computed]
    dsimp only
    rw [committed]
  refine ⟨healthy.step _, ?_⟩
  rw [stepped]
  dsimp only
  rw [record]
  refine ⟨queued, ?_⟩
  have next : (checkpointed history.run.record).record.counters.checkpoint =
      history.run.record.counters.checkpoint + 1 := rfl
  rw [next, UInt32.toNat_add]
  exact Nat.mod_eq_of_lt room

/-- Checkpoint after checkpoint, as long as the numbers fit. -/
theorem checkpoints_accepted (n : Nat) {history : RunHistory} (healthy : Healthy history)
    (queued : history.run.record.state.status = .queued)
    (room : history.run.record.counters.checkpoint.toNat + n < 2 ^ 32) :
    let final := (runMachine plainService).final history
      (freshCalls plainService history (replicate n (.writeCheckpoint bareCheckpoint, 0)))
    Healthy final ∧ final.run.record.state.status = .queued ∧
      final.run.record.counters.checkpoint.toNat =
        history.run.record.counters.checkpoint.toNat + n := by
  induction n generalizing history with
  | zero => exact ⟨healthy, queued, rfl⟩
  | succ n ih =>
    obtain ⟨healthy', queued', number⟩ := checkpoint_accepted healthy queued (by omega)
    have later := ih healthy' queued' (by omega)
    rw [number, Nat.add_assoc, Nat.add_comm 1] at later
    exact later

end Checkpoints

/-- The number of one more checkpoint than 32 bits count is zero, which the invariants refuse. -/
theorem checkpoint_refused {n : Nat} (full : n + 1 = 2 ^ 32) :
    let run := plainFinal (replicate n (.writeCheckpoint bareCheckpoint, 0))
    ∃ transition, plainService.transitionOf run run.record 0 (.writeCheckpoint bareCheckpoint) =
        some (.none, transition) ∧
      checkInvariants (some run.record) transition.record =
        .error ⟨"I3", "a counter decreased"⟩ := by
  have started : Started plainRecord := .new plainRequest "run" 0
  obtain ⟨healthy, queued, number⟩ := checkpoints_accepted n
    (started.healthy plainService .null []) rfl (by change 0 + n < _; omega)
  have computed := checkpoint_computed queued
  refine ⟨_, computed, checkInvariants_refused (healthy.succeeds computed).kept fun kept => ?_⟩
  have last : 2 ^ 32 ≤ (plainFinal (replicate n
      (.writeCheckpoint bareCheckpoint, 0))).record.counters.checkpoint.toNat + 1 := by
    refine le_of_le_of_eq ?_ (congrArg (· + 1) number.symm)
    change _ ≤ 0 + n + 1
    omega
  exact kept.checkpoint (add_lt_of_full (n := 1) (by decide) last)

theorem last_checkpoint_is_refused :
    let run := plainFinal (replicate (2 ^ 32 - 1) (.writeCheckpoint bareCheckpoint, 0))
    ∃ transition, plainService.transitionOf run run.record 0 (.writeCheckpoint bareCheckpoint) =
        some (.none, transition) ∧
      checkInvariants (some run.record) transition.record =
        .error ⟨"I3", "a counter decreased"⟩ :=
  checkpoint_refused (by norm_num)

end RaisinDB.Agents
