import RaisinDB.Agents.ExternalResults
import RaisinDB.Agents.QuietSteps

/-!
# Runs that start nothing new

A run that is paused, pausing, stopping or ended starts no operation.  It leaves that state
by a resume, or when an operation that may not be replayed is given up: the pause it had
been asked for is forgotten then.
-/

namespace RaisinDB.Agents

open List
open RaisinDB.Foundation (Value Machine)

/-- Nothing new is started in this state. -/
def RunState.halted : RunState → Bool
  | running _ (.operating _ pauseRequested) => pauseRequested
  | cancelling .. | paused .. | terminal .. => true
  | queued .. | running _ (.idle _) | waiting _ => false

theorem halted_of_noOp {state : RunState} (noOp : state.activeOp = none) :
    state.halted = (state.status == .paused || state.status.isTerminal) := by
  rcases state with _ | ⟨_, _ | _⟩ | _ | _ | _ | ⟨_ | _ | _, _⟩ <;> first | rfl | simp at noOp

/-- A halted transition stays halted, and no operation is counted. -/
structure Holds (tx later : Tx) : Prop where
  halted : tx.record.state.halted = true → later.record.state.halted = true
  op : later.record.counters.op = tx.record.counters.op

namespace Holds

variable {tx middle later : Tx}

theorem refl (tx : Tx) : Holds tx tx := ⟨id, rfl⟩

theorem trans (first : Holds tx middle) (second : Holds middle later) : Holds tx later :=
  ⟨second.halted ∘ first.halted, second.op.trans first.op⟩

/-- Only the counters and the state matter. -/
theorem same (state : later.record.state = tx.record.state)
    (op : later.record.counters.op = tx.record.counters.op) : Holds tx later :=
  ⟨fun halted => state ▸ halted, op⟩

/-- Nothing is asked of a transition that is not halted. -/
theorem moving (moves : tx.record.state.halted = false)
    (op : later.record.counters.op = tx.record.counters.op) : Holds tx later :=
  ⟨fun halted => absurd (moves.symm.trans halted) Bool.false_ne_true, op⟩

theorem push (tx : Tx) (kind : RunEventKind) : Holds tx (tx.push kind) := same rfl rfl

theorem setState_op (tx : Tx) (next : RunState) (reason : Option String) :
    (tx.setState next reason).record.counters = tx.record.counters := by
  have left : (tx.leaveLease next).record.counters = tx.record.counters := by
    unfold Tx.leaveLease
    split
    · simp [Tx.releaseLease, Tx.bumpEpoch, Tx.push, Tx.endTurn_record]
    · rfl
  obtain ⟨domain, record⟩ := (tx.leaveLease next).enter_record next
  have entered : ((tx.leaveLease next).enter next).record.counters = tx.record.counters := by
    rw [record]
    exact left
  simp only [Tx.setState]
  split <;> exact entered

theorem setState (tx : Tx) {next : RunState} (reason : Option String)
    (halted : next.halted = true) : Holds tx (tx.setState next reason) := by
  refine ⟨fun _ => ?_, congrArg Counters.op (setState_op tx next reason)⟩
  rw [Tx.setState_state]
  exact halted

theorem writeCheckpoint (tx : Tx) (reason : CheckpointReason) (summary : Option String) :
    Holds tx (tx.writeCheckpoint reason summary) := same rfl rfl

theorem terminate (tx : Tx) (status : TerminalStatus) (outcome : RunOutcome)
    (reason : Option String) : Holds tx (tx.terminate status outcome reason) := by
  unfold Tx.terminate
  refine ⟨fun _ => ?_, ?_⟩
  · simp only [Tx.push, Tx.setState_state]
    rfl
  · simp only [Tx.push, setState_op, Tx.discardSteers_record, Tx.closeRequests_record]

theorem removeRequest (tx : Tx) (requestId : RequestId) :
    Holds tx (tx.removeRequest requestId) := by
  rcases tx.removeRequest_cases requestId with
    ⟨same, _⟩ | ⟨next, moved, left⟩ | ⟨⟨_, waiting⟩, _, moved⟩
  · rw [same]
    exact refl tx
  · rw [moved]
    refine ⟨fun halted => ?_, rfl⟩
    rw [halted_of_noOp left.wasIdle, ← left.status, ← halted_of_noOp left.noOp] at halted
    exact halted
  · rw [moved]
    exact moving (by rw [waiting]; rfl) (congrArg Counters.op (setState_op _ _ _))

theorem wakeForResult (tx : Tx) : Holds tx (Agents.wakeForResult tx) := by
  unfold Agents.wakeForResult
  split
  · next requests wake state =>
    split
    · exact moving (by rw [state]; rfl) rfl
    · exact refl tx
  · exact refl tx

theorem keeps : Steady Holds where
  trans := trans
  quiet quiet := same quiet.state quiet.op
  removeRequest := removeRequest
  wakeForResult := wakeForResult
  writeCheckpoint := writeCheckpoint
  snapshot _ _ _ _ := same rfl rfl

theorem completed (tx : Tx) (op : ActiveOperation) (result : OperationResult)
    (outcome : OpOutcome) : Holds tx (Agents.completed tx op result outcome) := by
  obtain ⟨results, large, ref, stored⟩ := storeResult_shape tx op result.payload
  refine same (completed_state tx op result outcome) ?_
  simp [Agents.completed, stored, Tx.push]

/-- An operation that ends while a pause is asked for leaves the run paused. -/
theorem finishRunning (tx : Tx) (lease : Lease) (op : ActiveOperation) (result : OperationResult)
    (outcome : OpOutcome) : Holds tx (Agents.finishRunning tx lease op true result outcome) := by
  have paused (current : Tx) (requests : List PendingRequest) :
      Holds current (leaveOperation current lease true requests) := by
    rw [leaveOperation, if_pos rfl]
    exact (setState current _ rfl).trans (writeCheckpoint _ _ _)
  unfold Agents.finishRunning
  simp only []
  split
  · have opened : Holds (Agents.completed tx op result outcome)
        (openExternal (Agents.completed tx op result outcome) op (result.resumeKey.getD "")).1 :=
      same rfl rfl
    exact ((completed tx op result outcome).trans opened).trans
      ((paused _ _).trans (keeps.answerLanded _ _))
  · exact (completed tx op result outcome).trans (paused _ _)

theorem finishCancelling (tx : Tx) (op : ActiveOperation) (stop : StopInfo)
    (result : OperationResult) (outcome : OpOutcome) :
    Holds tx (Agents.finishCancelling tx op stop result outcome) := by
  have done : Holds tx
      (if outcome = .cancelled then tx else Agents.completed tx op result outcome) := by
    split
    · exact refl tx
    · exact completed tx op result outcome
  exact (done.trans (push _ _)).trans (terminate _ _ _ _)

end Holds

/-! ## One commit of a halted run -/

/-- The next record is halted too, and no operation was counted. -/
structure StaysHalted (record : AgentRunRecord) (transition : Transition) : Prop where
  halted : transition.record.state.halted = true
  op : transition.record.counters.op = record.counters.op

theorem Holds.finish {record : AgentRunRecord} {now : Nat} {tx : Tx}
    (holds : Holds (Tx.new record now) tx) (halted : record.state.halted = true) :
    StaysHalted record tx.finish := ⟨holds.halted halted, holds.op⟩

/-- The step that forgets a pause: the lease is taken over while a pause is asked for and the
operation in flight may not be replayed. -/
def DropsPause (record : AgentRunRecord) (action : Action) (now : Nat) : Prop :=
  (∃ owner, action = .takeover owner) ∧
    ∃ lease op, record.state = .running lease (.operating op true) ∧ op.replaySafe = false ∧
      lease.expiresAtMs ≤ now

/-- A control that is acknowledged as applied. -/
def Applies (command : ControlKind → Prop) (action : Action) (transition : Transition) : Prop :=
  ∃ cmd system seq digest, action = .control cmd system ∧ command cmd.kind ∧
    transition.control = some (cmd.controlId, .applied seq, digest)

def IsResume (kind : ControlKind) : Prop :=
  ∃ increase acceptChange, kind = .resume increase acceptChange

section Halted

variable {record : AgentRunRecord} {now : Nat} {transition : Transition}

theorem stop_holds {tx next : Tx} {cmd : ControlCommand} {reason : Option String}
    (ok : stop tx cmd reason = .ok next) : Holds tx next := by
  unfold stop at ok
  split at ok
  · cases ok
  · cases ok
    exact (Holds.same rfl rfl : Holds tx { tx with
      cancel := _, record := { tx.record with statusReason := some "user_stop" } }).trans
        (Holds.setState _ _ rfl)
  · cases ok
    exact Holds.terminate tx _ _ _

theorem pause_holds {tx next : Tx} (ok : pause tx = .ok next) : Holds tx next := by
  unfold pause at ok
  split at ok
  · split at ok
    · cases ok
    · cases ok
      exact ⟨fun _ => rfl, rfl⟩
  · cases ok
    exact (Holds.same rfl rfl : Holds tx { tx with
      record := { tx.record with statusReason := some "user_pause" } }).trans
        ((Holds.setState _ _ rfl).trans (Holds.writeCheckpoint _ _ _))
  · cases ok
    exact (Holds.same rfl rfl : Holds tx { tx with
      record := { tx.record with statusReason := some "user_pause" } }).trans
        ((Holds.setState _ _ rfl).trans (Holds.writeCheckpoint _ _ _))
  · cases ok
  · cases ok
  · cases ok

theorem steer_holds {tx next : Tx} {cmd : ControlCommand} {input : Value}
    (ok : steer tx cmd input = .ok next) : Holds tx next := by
  unfold steer at ok
  split at ok
  · cases ok
  · split at ok
    · cases ok
    · simp only [] at ok
      split at ok
      · next requests state =>
        cases ok
        refine Holds.moving (by rw [state]; rfl) ?_
        rw [Holds.setState_op]
      · cases ok
        exact Holds.same rfl rfl

theorem controlBody_holds {tx next : Tx} {cmd : ControlCommand} (ok : controlBody tx cmd = .ok next)
    (other : ¬ IsResume cmd.kind) : Holds tx next := by
  unfold controlBody at ok
  cases kind : cmd.kind with
  | stop reason => rw [kind] at ok; exact stop_holds ok
  | pause => rw [kind] at ok; exact pause_holds ok
  | resume increase acceptChange => exact absurd ⟨increase, acceptChange, kind⟩ other
  | steer input => rw [kind] at ok; exact steer_holds ok
  | approve requestId decision digest => rw [kind] at ok; exact Holds.keeps.approve ok
  | provideInput requestId value => rw [kind] at ok; exact Holds.keeps.provideInput ok

theorem resume_op {tx next : Tx} {increase : Option RunBudgets} {acceptChange : Bool}
    (ok : resume tx increase acceptChange = .ok next) :
    next.record.counters.op = tx.record.counters.op := by
  unfold resume at ok
  split at ok
  · simp only [] at ok
    split at ok
    · cases ok
    · cases ok
      rw [Holds.setState_op]
      rfl
  · cases ok

theorem submitControl_halted {service : Service} {run : StoredRun} {cmd : ControlCommand}
    {system : Bool} (halted : record.state.halted = true)
    (submitted : service.submitControl run record cmd system now = some transition) :
    StaysHalted record transition ∨
      Applies IsResume (.control cmd system) transition ∧
        transition.record.counters.op = record.counters.op := by
  unfold Service.submitControl at submitted
  split at submitted
  · split at submitted
    · cases submitted
    · cases submitted
      exact .inl ⟨halted, rfl⟩
  · cases submitted
    generalize authorize service.capabilityHash record cmd.issuedBy system = authorized
    unfold applyControl
    simp only []
    split
    · next applied body =>
      by_cases resumes : IsResume cmd.kind
      · refine .inr ⟨⟨cmd, system, _, _, rfl, resumes, rfl⟩, ?_⟩
        obtain ⟨increase, acceptChange, kind⟩ := resumes
        split at body
        · cases body
        · split at body
          · cases body
          · unfold controlBody at body
            rw [kind] at body
            exact resume_op body
      · refine .inl ?_
        split at body
        · cases body
        · split at body
          · cases body
          · have holds := controlBody_holds body resumes
            exact ⟨holds.halted halted, holds.op⟩
    · exact .inl ⟨halted, rfl⟩

theorem applyDelivery_halted (halted : record.state.halted = true) (key deliveryId : String)
    (envelope : Value) (digest : String) :
    StaysHalted record (applyDelivery record key deliveryId envelope digest now).1 := by
  unfold applyDelivery
  simp only []
  split
  · exact ⟨halted, rfl⟩
  · next request found =>
    have stored : Holds (Tx.new record now)
        (storeJson (Tx.new record now) (externalId deliveryId) envelope) := Holds.same rfl rfl
    have answered := stored.trans (Holds.keeps.resolveRequest _ request.requestId
      (externalResolution request deliveryId) none)
    have holds := answered.trans (Holds.wakeForResult _)
    exact ⟨holds.halted halted, holds.op⟩

theorem applyFinish_halted {opId : OperationId} {result : OperationResult}
    (halted : record.state.halted = true)
    (ok : applyFinish record opId result now = .ok transition) : StaysHalted record transition := by
  unfold applyFinish at ok
  simp only [] at ok
  split at ok
  · next lease op pauseRequested state =>
    have pausing : pauseRequested = true := by rw [state] at halted; exact halted
    subst pausing
    split at ok
    · cases ok
    · split at ok
      · cases ok
      · cases ok
        exact (Holds.finishRunning _ lease op result _).finish halted
  · next lease op stop state =>
    split at ok
    · cases ok
    · cases ok
      exact (Holds.finishCancelling _ op stop result _).finish halted
  · cases ok

theorem applyTakeover_halted {owner : String} {ttl : Nat} {takeover : Takeover}
    (halted : record.state.halted = true)
    (keeps : ∀ lease op, record.state = .running lease (.operating op true) → op.replaySafe = true)
    (ok : applyTakeover record owner now ttl = .ok takeover) :
    StaysHalted record takeover.transition := by
  unfold applyTakeover at ok
  simp only [] at ok
  split at ok
  · next old op stop state =>
    cases ok
    have taken : Holds (Tx.new record now)
        (((takenOver (Tx.new record now) old owner).setRecordState (.cancelling
          ⟨owner, (takenOver (Tx.new record now) old owner).record.leaseEpoch, now + ttl⟩ op
          stop)).push (.operationCancelled op.opId false op.effectId)) := ⟨fun _ => rfl, rfl⟩
    exact (taken.trans (Holds.terminate _ _ _ _)).finish halted
  · next old op pauseRequested state =>
    have pausing : pauseRequested = true := by rw [state] at halted; exact halted
    subst pausing
    rw [if_pos (keeps old op state)] at ok
    cases ok
    exact ⟨rfl, rfl⟩
  · next old requests state =>
    rw [state] at halted
    cases halted
  · cases ok

theorem finalizeStep_halted {service : Service} {run : StoredRun} {reducer : Reducer}
    {stateRev : Nat} (halted : record.state.halted = true)
    (some' : service.finalizeStep run record reducer now = some (stateRev, transition)) :
    StaysHalted record transition := by
  unfold Service.finalizeStep at some'
  split at some'
  · cases some'
  · next binding bound =>
    split at some'
    · cases some'
    · simp only [] at some'
      split at some'
      · cases some'
        exact ⟨halted, rfl⟩
      · split at some'
        · split at some'
          · next applied =>
            cases some'
            obtain ⟨advanced, read, fields, _, _, _, effects, ends⟩ :=
              applyDomainResponse_ok bound applied
            rcases ends with ⟨done, _⟩ | ⟨settled, _, none, _⟩
            · have holds := Holds.keeps.applyEffects effects
              have state : advanced.record.state = record.state := by rw [fields]; rfl
              have counters : advanced.record.counters = record.counters := by
                rw [fields]
                rfl
              rw [done]
              refine ⟨holds.halted ?_, holds.op.trans ?_⟩
              · exact (congrArg RunState.halted state).trans halted
              · exact congrArg Counters.op counters
            · cases none
          · cases some'
        · cases some'
          exact ⟨halted, rfl⟩

/-- A halted run stays so in every commit but a resume, unless the commit drops the pause. -/
theorem transitionOf_halted {service : Service} {run : StoredRun} {action : Action} {fence : Fence}
    (halted : record.state.halted = true) (keeps : ¬ DropsPause record action now)
    (computed : service.transitionOf run record now action = some (fence, transition)) :
    StaysHalted record transition ∨
      Applies IsResume action transition ∧
        transition.record.counters.op = record.counters.op := by
  have moving {state : RunState} (is : record.state = state) (moves : state.halted = false) :
      False := by
    rw [is, moves] at halted
    cases halted
  by_cases quiet : action.isQuiet = true
  · obtain ⟨tx, holds, rfl⟩ := Holds.keeps.commit quiet computed
    exact .inl (holds.finish halted)
  cases action with
  | acquire owner =>
    have acquired := toOption_some (unfenced_some computed).2
    unfold applyAcquire at acquired
    split at acquired
    · next state => exact (moving state rfl).elim
    · cases acquired
  | renew claim =>
    have renewed := toOption_some (fenced_some computed).2
    unfold applyRenew at renewed
    simp only [] at renewed
    split at renewed
    · next lease activity state =>
      cases renewed
      refine .inl ⟨?_, rfl⟩
      rw [state] at halted
      cases activity <;> exact halted
    · cases renewed
      exact .inl ⟨rfl, rfl⟩
    · cases renewed
  | begin claim spec =>
    have begun := (fenced_some computed).2
    have refused : applyBegin record spec now = .error .notIdle := by
      unfold applyBegin beginIn
      split
      · next lease requests state => exact (moving state rfl).elim
      · rfl
    unfold Service.beginOperation at begun
    rw [refused] at begun
    cases begun
  | finish claim opId result =>
    exact .inl (applyFinish_halted halted (toOption_some (fenced_some computed).2))
  | release claim wake =>
    have released := toOption_some (fenced_some computed).2
    unfold applyRelease at released
    split at released
    · next state => exact (moving state rfl).elim
    · cases released
  | wait claim requests =>
    have waits := toOption_some (fenced_some computed).2
    unfold applyWait at waits
    split at waits
    · next state => exact (moving state rfl).elim
    · cases waits
  | complete claim status outcome reason =>
    have ended := toOption_some (fenced_some computed).2
    unfold applyTerminal at ended
    split at ended
    · next state => exact (moving state rfl).elim
    · cases ended
  | writeCheckpoint write =>
    rw [← transitionOf_writeCheckpoint computed]
    refine .inl ?_
    unfold Service.structuredCheckpoint
    cases write.state <;> exact ⟨halted, rfl⟩
  | takeover owner =>
    obtain ⟨expired, takeover, result, rfl⟩ := transitionOf_takeover computed
    refine .inl (applyTakeover_halted halted (fun lease op state => ?_) result)
    by_contra risky
    rw [state] at expired
    exact keeps ⟨⟨owner, rfl⟩, lease, op, state, Bool.eq_false_iff.mpr risky,
      of_decide_eq_true expired⟩
  | deliver key deliveryId envelope =>
    obtain ⟨digest, rfl⟩ := deliverExternal_ok (unfenced_some computed).2
    exact .inl (applyDelivery_halted halted key deliveryId envelope digest)
  | control cmd system => exact submitControl_halted halted (unfenced_some computed).2
  | domainStep claim reducer =>
    have stepped := (fenced_some computed).2
    unfold Service.domainStep at stepped
    split at stepped
    · next state _ => exact (moving state rfl).elim
    · cases stepped
  | finalizeDomain reducer =>
    obtain ⟨stateRev, step⟩ := transitionOf_finalizeDomain computed
    exact .inl (finalizeStep_halted halted step)
  | _ => exact absurd rfl quiet

end Halted

end RaisinDB.Agents
