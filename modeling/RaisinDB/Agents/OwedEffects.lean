import RaisinDB.Agents.HaltedRuns

/-!
# Effects that are owed

An effect in the outbox stays there until it is started.  Nothing else touches it, and what it
needs to be started stays as it was: no operation comes in between, so no call is opened or
answered, and the objective never changes.
-/

namespace RaisinDB.Agents

open List
open RaisinDB.Foundation (Value Machine ok_of_bind ok_of_map)

def AgentRunRecord.outbox (record : AgentRunRecord) : Option PendingEffect :=
  record.domain.bind DomainBinding.outbox

/-- What starting an effect depends on is as it was. -/
structure Carries (record next : AgentRunRecord) : Prop where
  domain : next.domain.map DomainBinding.outbox = record.domain.map DomainBinding.outbox
  op : next.counters.op = record.counters.op
  allowed : next.allowedTools = record.allowedTools
  calls : next.unansweredCalls = record.unansweredCalls
  policy : next.budgets.onExceeded = record.budgets.onExceeded
  idle : record.state.activeOp = none → next.state.activeOp = none

theorem Carries.outbox {record next : AgentRunRecord} (carries : Carries record next) :
    next.outbox = record.outbox := by
  have joined (record : AgentRunRecord) :
      record.outbox = (record.domain.map DomainBinding.outbox).join := by
    unfold AgentRunRecord.outbox
    cases record.domain <;> rfl
  rw [joined, joined, carries.domain]

/-- The run ends, and no operation was counted. -/
structure Ends (record next : AgentRunRecord) : Prop where
  ended : next.state.isTerminal = true
  op : next.counters.op = record.counters.op

namespace Carries

variable {record middle next : AgentRunRecord} {tx later : Tx}

theorem refl (record : AgentRunRecord) : Carries record record := ⟨rfl, rfl, rfl, rfl, rfl, id⟩

theorem trans (first : Carries record middle) (second : Carries middle next) :
    Carries record next where
  domain := second.domain.trans first.domain
  op := second.op.trans first.op
  allowed := second.allowed.trans first.allowed
  calls := second.calls.trans first.calls
  policy := second.policy.trans first.policy
  idle := second.idle ∘ first.idle

theorem setRecordState (record : AgentRunRecord) {state : RunState}
    (idle : record.state.activeOp = none → state.activeOp = none) :
    Carries record { record with state := state } :=
  ⟨rfl, rfl, rfl, rfl, rfl, idle⟩

theorem leaveLease (tx : Tx) (state : RunState) : Carries tx.record (tx.leaveLease state).record := by
  unfold Tx.leaveLease
  split
  · have left : tx.endTurn.releaseLease.record =
        { tx.record with currentTurn := none, leaseEpoch := tx.record.leaseEpoch + 1 } := by
      simp [Tx.releaseLease, Tx.bumpEpoch, Tx.push, Tx.endTurn_record]
    rw [left]
    exact ⟨rfl, rfl, rfl, rfl, rfl, id⟩
  · exact refl _

theorem enter (tx : Tx) {state : RunState} (live : state.isTerminal = false)
    (idle : tx.record.state.activeOp = none → state.activeOp = none) :
    Carries tx.record (tx.enter state).record := by
  have entered : (tx.enter state).record = { tx.record with state := state } := by
    simp [Tx.enter, live, Tx.setRecordState]
  rw [entered]
  exact setRecordState _ idle

theorem setState (tx : Tx) {state : RunState} (reason : Option String)
    (live : state.isTerminal = false)
    (idle : tx.record.state.activeOp = none → state.activeOp = none) :
    Carries tx.record (tx.setState state reason).record := by
  have same : (tx.leaveLease state).record.state = tx.record.state := by
    unfold Tx.leaveLease
    split
    · simp [Tx.releaseLease, Tx.bumpEpoch, Tx.push, Tx.endTurn_record]
    · rfl
  have moved := (leaveLease tx state).trans
    (enter (tx.leaveLease state) live fun none => idle (same ▸ none))
  simp only [Tx.setState]
  split <;> exact moved

theorem writeCheckpoint (tx : Tx) (reason : CheckpointReason) (summary : Option String) :
    Carries tx.record (tx.writeCheckpoint reason summary).record :=
  ⟨rfl, rfl, rfl, rfl, rfl, id⟩

theorem finish (tx : Tx) : Carries tx.record tx.finish.record := ⟨rfl, rfl, rfl, rfl, rfl, id⟩

theorem removeRequest (tx : Tx) (requestId : RequestId) :
    Carries tx.record (tx.removeRequest requestId).record := by
  rcases tx.removeRequest_cases requestId with ⟨same, _⟩ | ⟨next, moved, left⟩ | ⟨_, _, moved⟩
  · rw [same]
    exact refl _
  · rw [moved]
    exact setRecordState _ fun _ => left.noOp
  · rw [moved]
    exact setState tx _ rfl fun _ => rfl

theorem wakeForResult (tx : Tx) : Carries tx.record (Agents.wakeForResult tx).record := by
  unfold Agents.wakeForResult
  split
  · split
    · exact setRecordState _ fun _ => rfl
    · exact refl _
  · exact refl _

theorem keeps : Steady fun tx later => Carries tx.record later.record where
  trans := trans
  quiet quiet :=
    ⟨congrArg _ quiet.domain, quiet.op, quiet.allowed, quiet.calls, quiet.policy,
      fun none => quiet.state ▸ none⟩
  removeRequest := removeRequest
  wakeForResult := wakeForResult
  writeCheckpoint := writeCheckpoint
  snapshot _ _ _ _ := ⟨rfl, rfl, rfl, rfl, rfl, id⟩

end Carries

theorem Ends.terminate (tx : Tx) (status : TerminalStatus) (outcome : RunOutcome)
    (reason : Option String) : Ends tx.record (tx.terminate status outcome reason).record := by
  refine ⟨?_, (Holds.terminate tx status outcome reason).op⟩
  unfold Tx.terminate
  simp only [Tx.push, Tx.setState_state]
  rfl

/-! ## One commit -/

/-- An operation is in flight, and an outbox that is empty stays so. -/
structure Finishes (record next : AgentRunRecord) : Prop where
  active : record.state.activeOp ≠ none
  outbox : record.outbox = none → next.outbox = none

/-- What a commit does that neither begins an operation nor takes a step of the reducer. -/
inductive Waits (record next : AgentRunRecord) : Prop where
  | carries (carries : Carries record next)
  | ends (ends : Ends record next)
  | finishes (finishes : Finishes record next)

section Commits

variable {record : AgentRunRecord} {now : Nat} {transition : Transition}

theorem applyAcquire_carries {owner : String} {ttl : Nat}
    (ok : applyAcquire record owner now ttl = .ok transition) :
    Carries record transition.record := by
  unfold applyAcquire at ok
  split at ok
  · cases ok
    have bumped : Carries record
        ((Tx.new record now).bumpEpoch.push (.leaseAcquired owner
          (Tx.new record now).bumpEpoch.record.leaseEpoch)).record := ⟨rfl, rfl, rfl, rfl, rfl, id⟩
    exact (bumped.trans (Carries.setState _ none rfl fun _ => rfl)).trans (Carries.finish _)
  · cases ok

theorem applyRenew_carries {ttl : Nat} (ok : applyRenew record now ttl = .ok transition) :
    Carries record transition.record := by
  unfold applyRenew at ok
  simp only [] at ok
  split at ok
  · next lease activity state =>
    cases ok
    refine ⟨rfl, rfl, rfl, rfl, rfl, fun idle => ?_⟩
    rw [state] at idle
    cases activity <;> exact idle
  · next state =>
    cases ok
    refine ⟨rfl, rfl, rfl, rfl, rfl, fun idle => ?_⟩
    rw [state] at idle
    exact idle
  · cases ok

theorem applyRelease_carries {wake : Bool} (ok : applyRelease record now wake = .ok transition) :
    Carries record transition.record := by
  unfold applyRelease at ok
  split at ok
  · next lease requests state =>
    cases ok
    have released : Carries record
        ((Tx.new record now).setState (.queued requests .leaseReleased) none).record :=
      Carries.setState (Tx.new record now) none rfl fun _ => rfl
    cases wake <;> exact released.trans (Carries.finish _)
  · cases ok

theorem applyWait_carries {requests : List NewRequest}
    (ok : applyWait record requests now = .ok transition) : Carries record transition.record := by
  unfold applyWait at ok
  split at ok
  · next lease opened state =>
    obtain ⟨found, all, ok⟩ := ok_of_bind ok
    split at ok
    · cases ok
      have held := Carries.keeps.openRequests all
      exact (held.trans (Carries.setState _ none rfl fun _ => rfl)).trans (Carries.finish _)
    · cases ok
  · cases ok

theorem applyTerminal_ends {status : TerminalStatus} {outcome : RunOutcome}
    {reason : Option String} (ok : applyTerminal record status outcome reason now = .ok transition) :
    Ends record transition.record := by
  unfold applyTerminal at ok
  split at ok
  · cases ok
    have ends := Ends.terminate (Tx.new record now) status outcome reason
    exact ⟨ends.ended, ends.op⟩
  · cases ok

theorem applyReducerPause_carries {reason : String}
    (ok : applyReducerPause record reason now = .ok transition) :
    Carries record transition.record := by
  unfold applyReducerPause at ok
  split at ok
  · cases ok
    have reasoned : Carries record
        ({ Tx.new record now with
          record := { record with statusReason := some reason } } : Tx).record :=
      ⟨rfl, rfl, rfl, rfl, rfl, id⟩
    exact ((reasoned.trans (Carries.setState _ _ rfl fun _ => rfl)).trans
      (Carries.writeCheckpoint _ _ _)).trans (Carries.finish _)
  · cases ok

theorem structuredCheckpoint_carries (write : CheckpointWrite) :
    Carries record (Service.structuredCheckpoint record write now).record := by
  unfold Service.structuredCheckpoint
  cases write.state <;> exact ⟨rfl, rfl, rfl, rfl, rfl, id⟩

theorem applyDelivery_carries (key deliveryId : String) (envelope : Value) (digest : String) :
    Carries record (applyDelivery record key deliveryId envelope digest now).1.record := by
  unfold applyDelivery
  simp only []
  split
  · exact ⟨rfl, rfl, rfl, rfl, rfl, id⟩
  · next request found =>
    have stored : Carries record
        (storeJson (Tx.new record now) (externalId deliveryId) envelope).record :=
      ⟨rfl, rfl, rfl, rfl, rfl, id⟩
    have answered := stored.trans (Carries.keeps.resolveRequest _ request.requestId
      (externalResolution request deliveryId) none)
    exact answered.trans ((Carries.wakeForResult _).trans ⟨rfl, rfl, rfl, rfl, rfl, id⟩)

theorem applyFinish_waits {opId : OperationId} {result : OperationResult}
    (ok : applyFinish record opId result now = .ok transition) :
    Waits record transition.record := by
  unfold applyFinish at ok
  simp only [] at ok
  split at ok
  · next lease op pauseRequested state =>
    split at ok
    · cases ok
    · split at ok
      · cases ok
      · cases ok
        refine .finishes ⟨by rw [state]; exact Option.some_ne_none op, fun empty => ?_⟩
        generalize result.outcome.getD .succeeded = outcome
        have done : (completed (Tx.new record now) op result outcome).record.outbox = none := by
          obtain ⟨results, large, ref, stored⟩ :=
            storeResult_shape (Tx.new record now) op result.payload
          simp only [completed, stored, Tx.push]
          exact empty
        have left (current : Tx) (requests : List PendingRequest) :
            Carries current.record (leaveOperation current lease pauseRequested requests).record := by
          unfold leaveOperation
          split
          · exact (Carries.setState current _ rfl fun _ => rfl).trans (Carries.writeCheckpoint _ _ _)
          · split
            · exact Carries.setState current none rfl fun _ => rfl
            · exact Carries.setRecordState _ fun _ => rfl
        have carried : Carries (completed (Tx.new record now) op result outcome).record
            (finishRunning (Tx.new record now) lease op pauseRequested result outcome).record := by
          unfold finishRunning
          simp only []
          split
          · have opened : Carries (completed (Tx.new record now) op result outcome).record
                (openExternal (completed (Tx.new record now) op result outcome) op
                  (result.resumeKey.getD "")).1.record := ⟨rfl, rfl, rfl, rfl, rfl, id⟩
            exact opened.trans ((left _ _).trans (Carries.keeps.answerLanded _ _))
          · exact left _ _
        exact carried.outbox.trans done
  · next lease op stop state =>
    split at ok
    · cases ok
    · cases ok
      refine .ends ⟨(Ends.terminate _ _ _ _).ended, ?_⟩
      exact (Holds.finishCancelling (Tx.new record now) op stop result _).op
  · cases ok

theorem applyTakeover_waits {owner : String} {ttl : Nat} {takeover : Takeover}
    (ok : applyTakeover record owner now ttl = .ok takeover) :
    Waits record takeover.transition.record := by
  unfold applyTakeover at ok
  simp only [] at ok
  split at ok
  · cases ok
    exact .ends ⟨(Ends.terminate _ _ _ _).ended, (Ends.terminate _ _ _ _).op⟩
  · next old op pauseRequested state =>
    have active : record.state.activeOp ≠ none := by
      rw [state]
      exact Option.some_ne_none op
    split at ok
    · cases ok
      exact .finishes ⟨active, id⟩
    · cases ok
      refine .finishes ⟨active, fun empty => ?_⟩
      exact (Carries.setState _ _ rfl fun _ => rfl).outbox.trans empty
  · next old requests state =>
    cases ok
    exact .carries ((Carries.setState (Tx.new record now) _ rfl fun _ => rfl).trans (Carries.finish _))
  · cases ok

/-! ## Controls -/

/-- A control carries what is owed, or it ends the run. -/
def Moves (record next : AgentRunRecord) : Prop := Carries record next ∨ Ends record next

variable {tx next : Tx} {cmd : ControlCommand}

theorem stop_moves {reason : Option String} (ok : stop tx cmd reason = .ok next) :
    Moves tx.record next.record := by
  unfold stop at ok
  split at ok
  · cases ok
  · next lease op pauseRequested state =>
    cases ok
    have cancelled : Carries tx.record
        ({ tx with
          cancel := some (tx.record.runId, op.opId)
          record := { tx.record with statusReason := some "user_stop" } } : Tx).record :=
      ⟨rfl, rfl, rfl, rfl, rfl, id⟩
    refine .inl (cancelled.trans (Carries.setState _ _ rfl fun idle => ?_))
    change tx.record.state.activeOp = none at idle
    rw [state] at idle
    cases idle
  · cases ok
    exact .inr (Ends.terminate tx _ _ _)

theorem enterUserPause_carries (tx : Tx) (requests : List PendingRequest) :
    Carries tx.record (enterUserPause tx requests).record := by
  have reasoned : Carries tx.record
      ({ tx with record := { tx.record with statusReason := some "user_pause" } } : Tx).record :=
    ⟨rfl, rfl, rfl, rfl, rfl, id⟩
  exact (reasoned.trans (Carries.setState _ _ rfl fun _ => rfl)).trans
    (Carries.writeCheckpoint _ _ _)

theorem pause_carries (ok : pause tx = .ok next) : Carries tx.record next.record := by
  unfold pause at ok
  split at ok
  · next lease op pauseRequested state =>
    split at ok
    · cases ok
    · cases ok
      refine Carries.setRecordState _ fun idle => ?_
      rw [state] at idle
      cases idle
  · cases ok
    exact enterUserPause_carries tx _
  · cases ok
    exact enterUserPause_carries tx _
  · cases ok
  · cases ok
  · cases ok

/-- A resume changes the reducer's hash at most, and raises budgets only. -/
theorem resume_carries {increase : Option RunBudgets} {acceptChange : Bool}
    (ok : resume tx increase acceptChange = .ok next) : Carries tx.record next.record := by
  unfold resume at ok
  split at ok
  · next requests reason state =>
    simp only [] at ok
    split at ok
    · cases ok
    · cases ok
      refine Carries.trans ?_ (Carries.setState _ none rfl fun _ => rfl)
      refine ⟨?_, rfl, rfl, rfl, ?_, id⟩
      · simp only [Tx.push]
        split
        · cases tx.record.domain with
          | none => rfl
          | some binding =>
              simp only [Option.map_some, acceptReducer]
              split <;> rfl
        · rfl
      · cases increase <;> rfl
  · cases ok

theorem steer_carries {input : Value} (ok : steer tx cmd input = .ok next) :
    Carries tx.record next.record := by
  unfold steer at ok
  split at ok
  · cases ok
  · split at ok
    · cases ok
    · simp only [] at ok
      split at ok
      · cases ok
        refine Carries.trans ?_ (Carries.setState _ none rfl fun _ => rfl)
        exact ⟨rfl, rfl, rfl, rfl, rfl, id⟩
      · cases ok
        exact ⟨rfl, rfl, rfl, rfl, rfl, id⟩

theorem controlBody_moves (ok : controlBody tx cmd = .ok next) : Moves tx.record next.record := by
  unfold controlBody at ok
  cases kind : cmd.kind with
  | stop reason => rw [kind] at ok; exact stop_moves ok
  | pause => rw [kind] at ok; exact .inl (pause_carries ok)
  | resume increase acceptChange => rw [kind] at ok; exact .inl (resume_carries ok)
  | steer input => rw [kind] at ok; exact .inl (steer_carries ok)
  | approve requestId decision digest => rw [kind] at ok; exact .inl (Carries.keeps.approve ok)
  | provideInput requestId value => rw [kind] at ok; exact .inl (Carries.keeps.provideInput ok)

theorem submitControl_moves {service : Service} {run : StoredRun} {system : Bool}
    (submitted : service.submitControl run record cmd system now = some transition) :
    Moves record transition.record := by
  unfold Service.submitControl at submitted
  split at submitted
  · split at submitted
    · cases submitted
    · cases submitted
      exact .inl ⟨rfl, rfl, rfl, rfl, rfl, id⟩
  · cases submitted
    generalize authorize service.capabilityHash record cmd.issuedBy system = authorized
    unfold applyControl
    simp only []
    split
    · next applied body =>
      split at body
      · cases body
      · split at body
        · cases body
        · rcases controlBody_moves body with carries | ends
          · exact .inl (carries.trans ⟨rfl, rfl, rfl, rfl, rfl, id⟩)
          · exact .inr ⟨ends.ended, ends.op⟩
    · exact .inl ⟨rfl, rfl, rfl, rfl, rfl, id⟩

theorem finalizeStep_carries {service : Service} {run : StoredRun} {reducer : Reducer}
    {stateRev : Nat}
    (some' : service.finalizeStep run record reducer now = some (stateRev, transition)) :
    Carries record transition.record := by
  unfold Service.finalizeStep at some'
  split at some'
  · cases some'
  · next binding bound =>
    have marked (domain : DomainBinding) (same : domain.outbox = binding.outbox) :
        Carries record { record with domain := some domain } := by
      refine ⟨?_, rfl, rfl, rfl, rfl, id⟩
      rw [bound]
      exact congrArg some same
    split at some'
    · cases some'
    · simp only [] at some'
      split at some'
      · cases some'
        exact (marked _ rfl).trans ⟨rfl, rfl, rfl, rfl, rfl, id⟩
      · split at some'
        · split at some'
          · next applied =>
            cases some'
            obtain ⟨advanced, read, fields, _, _, _, effects, ends⟩ :=
              applyDomainResponse_ok bound applied
            rcases ends with ⟨done, _⟩ | ⟨settled, _, none, _⟩
            · have carries := Carries.keeps.applyEffects effects
              have begun : Carries record advanced.record := by
                rw [fields]
                exact marked _ rfl
              rw [done]
              exact begun.trans (carries.trans (Carries.finish _))
            · cases none
          · cases some'
        · cases some'
          exact (marked _ rfl).trans ⟨rfl, rfl, rfl, rfl, rfl, id⟩

/-! ## Every commit but two -/

/-- A client begins an operation of its own. -/
def Action.isBegin : Action → Bool
  | .begin .. => true
  | _ => false

def Action.isDomainStep : Action → Bool
  | .domainStep .. => true
  | _ => false

theorem Moves.waits {record next : AgentRunRecord} (moves : Moves record next) :
    Waits record next := moves.elim .carries .ends

theorem transitionOf_waits {service : Service} {run : StoredRun} {action : Action} {fence : Fence}
    (begins : action.isBegin = false) (steps : action.isDomainStep = false)
    (computed : service.transitionOf run record now action = some (fence, transition)) :
    Waits record transition.record := by
  by_cases quiet : action.isQuiet = true
  · obtain ⟨tx, carries, rfl⟩ := Carries.keeps.commit quiet computed
    exact .carries (carries.trans (Carries.finish tx))
  cases action with
  | acquire owner =>
      exact .carries (applyAcquire_carries (toOption_some (unfenced_some computed).2))
  | renew claim => exact .carries (applyRenew_carries (toOption_some (fenced_some computed).2))
  | begin claim spec => cases begins
  | finish claim opId result => exact applyFinish_waits (toOption_some (fenced_some computed).2)
  | release claim wake =>
      exact .carries (applyRelease_carries (toOption_some (fenced_some computed).2))
  | wait claim requests =>
      exact .carries (applyWait_carries (toOption_some (fenced_some computed).2))
  | complete claim status outcome reason =>
      exact .ends (applyTerminal_ends (toOption_some (fenced_some computed).2))
  | writeCheckpoint write =>
      rw [← transitionOf_writeCheckpoint computed]
      exact .carries (structuredCheckpoint_carries write)
  | takeover owner =>
      obtain ⟨_, takeover, result, rfl⟩ := transitionOf_takeover computed
      exact applyTakeover_waits result
  | deliver key deliveryId envelope =>
      obtain ⟨digest, rfl⟩ := deliverExternal_ok (unfenced_some computed).2
      exact .carries (applyDelivery_carries key deliveryId envelope digest)
  | control cmd system => exact (submitControl_moves (unfenced_some computed).2).waits
  | domainStep claim reducer => cases steps
  | finalizeDomain reducer =>
      obtain ⟨stateRev, step⟩ := transitionOf_finalizeDomain computed
      exact .carries (finalizeStep_carries step)
  | _ => exact absurd rfl quiet

end Commits

end RaisinDB.Agents
