import RaisinDB.Agents.CommittedRuns
import RaisinDB.Agents.QuietSteps

/-!
# What a transition stores beside the record

A checkpoint that a transition stores names the event that logs it, and so does the
acknowledgement of a control or of a delivery.
-/

namespace RaisinDB.Agents

open List
open RaisinDB.Foundation (Value ok_of_bind ok_of_map)

def RunCheckpoint.mark (checkpoint : RunCheckpoint) : Option Nat × UInt32 :=
  (some checkpoint.atSeq, checkpoint.checkpointNo)

/-- No acknowledgement is stored meanwhile, and a checkpoint only with its mark on the record. -/
structure Marks (tx next : Tx) : Prop where
  control : next.control = tx.control
  checkpoint :
    next.checkpoint = tx.checkpoint ∧ next.record.lastMark = tx.record.lastMark ∨
      ∃ written, next.checkpoint = some written ∧ next.record.lastMark = written.mark

namespace Marks

variable {tx middle next : Tx}

theorem refl (tx : Tx) : Marks tx tx := ⟨rfl, .inl ⟨rfl, rfl⟩⟩

theorem trans (first : Marks tx middle) (second : Marks middle next) : Marks tx next where
  control := second.control.trans first.control
  checkpoint := by
    rcases second.checkpoint with ⟨same, still⟩ | written
    · rw [same, still]
      exact first.checkpoint
    · exact .inr written

/-- Neither the checkpoint nor its mark is touched. -/
theorem kept (control : next.control = tx.control) (checkpoint : next.checkpoint = tx.checkpoint)
    (mark : next.record.lastMark = tx.record.lastMark) : Marks tx next :=
  ⟨control, .inl ⟨checkpoint, mark⟩⟩

theorem push (tx : Tx) (kind : RunEventKind) : Marks tx (tx.push kind) := kept rfl rfl rfl

theorem setRecordState (tx : Tx) (state : RunState) : Marks tx (tx.setRecordState state) :=
  kept rfl rfl rfl

theorem endTurn (tx : Tx) : Marks tx tx.endTurn := by
  unfold Tx.endTurn
  split <;> exact kept rfl rfl rfl

theorem leaveLease (tx : Tx) (state : RunState) : Marks tx (tx.leaveLease state) := by
  unfold Tx.leaveLease
  split
  · exact (endTurn tx).trans (kept rfl rfl rfl)
  · exact refl tx

theorem wakeFor (tx : Tx) (state : RunState) : Marks tx (tx.wakeFor state) := by
  unfold Tx.wakeFor
  split
  · split <;> exact kept rfl rfl rfl
  · exact refl tx

theorem enter (tx : Tx) (state : RunState) : Marks tx (tx.enter state) := by
  have moved (current : Tx) : Marks current ((current.wakeFor state).setRecordState state) :=
    (wakeFor current state).trans (setRecordState _ state)
  unfold Tx.enter
  split
  · exact (kept rfl rfl rfl : Marks tx tx.supersedeProjection).trans (moved _)
  · exact moved tx

theorem setState (tx : Tx) (state : RunState) (reason : Option String) :
    Marks tx (tx.setState state reason) := by
  have moved := (leaveLease tx state).trans (enter _ state)
  simp only [Tx.setState]
  split
  · exact moved
  · exact moved.trans (push _ _)

theorem writeCheckpoint (tx : Tx) (reason : CheckpointReason) (summary : Option String) :
    Marks tx (tx.writeCheckpoint reason summary) := ⟨rfl, .inr ⟨_, rfl, rfl⟩⟩

theorem removeRequest (tx : Tx) (requestId : RequestId) :
    Marks tx (tx.removeRequest requestId) := by
  rcases tx.removeRequest_cases requestId with ⟨same, _⟩ | ⟨next, moved, _⟩ | ⟨_, _, moved⟩
  · rw [same]
    exact refl tx
  · rw [moved]
    exact setRecordState tx next
  · rw [moved]
    exact setState tx _ none

theorem wakeForResult (tx : Tx) : Marks tx (Agents.wakeForResult tx) := by
  unfold Agents.wakeForResult
  split
  · split <;> exact kept rfl rfl rfl
  · exact refl tx

theorem keeps : Steady Marks where
  trans := trans
  quiet quiet := kept quiet.control quiet.checkpoint quiet.mark
  removeRequest := removeRequest
  wakeForResult := wakeForResult
  writeCheckpoint := writeCheckpoint
  snapshot _ _ _ _ := ⟨rfl, .inr ⟨_, rfl, rfl⟩⟩

theorem terminate (tx : Tx) (status : TerminalStatus) (outcome : RunOutcome)
    (reason : Option String) : Marks tx (tx.terminate status outcome reason) := by
  have closed : Marks tx (tx.closeRequests "cancelled" tx.record.state.openRequests) :=
    keeps.foldl tx (fun current _ => push current _) _
  have discarded (current : Tx) : Marks current current.discardSteers :=
    (kept rfl rfl rfl : Marks current
      { current with record := { current.record with steerQueue := [] } }).trans
      (keeps.foldl _ (fun current _ => push current _) _)
  unfold Tx.terminate
  simp only []
  refine Marks.trans (Marks.trans ?_ (setState _ _ _)) (push _ _)
  exact (closed.trans (discarded _)).trans (kept rfl rfl rfl)

theorem exceed (tx : Tx) (exceeded : Exceeded) : Marks tx (Agents.exceed tx exceeded) := by
  unfold Agents.exceed
  simp only []
  split
  · refine Marks.trans (Marks.trans ?_ (setState _ _ _)) (writeCheckpoint _ _ _)
    exact (push tx _).trans (kept rfl rfl rfl)
  · exact (push tx _).trans (terminate _ _ _ _)

theorem answerCalls {kind : OperationKind} {spec : OperationSpec} {answered : Tx}
    (ok : Agents.answerCalls tx kind spec = .ok answered) : Marks tx answered := by
  unfold Agents.answerCalls at ok
  split at ok
  · split at ok <;> cases ok
    exact kept rfl rfl rfl
  · split at ok
    · split at ok <;> cases ok
      exact refl tx
    · cases ok
      exact refl tx

theorem beginIn {spec : OperationSpec} {begun : Tx} {op : ActiveOperation}
    (ok : Agents.beginIn tx spec = .ok (begun, op)) : Marks tx begun := by
  obtain ⟨lease, answered, _, answer, _, _, opened⟩ := beginIn_ok ok
  simp only [] at opened
  rw [opened.2]
  refine (answerCalls answer).trans ?_
  split
  · exact (keeps.startTurn answered spec.cause).trans (kept rfl rfl rfl)
  · exact kept rfl rfl rfl

theorem rememberLarge (tx : Tx) (result : ResultRef) :
    Marks tx (Agents.rememberLarge tx result) := by
  unfold Agents.rememberLarge
  split
  · exact kept rfl rfl rfl
  · exact refl tx

theorem completed (tx : Tx) (op : ActiveOperation) (result : OperationResult)
    (outcome : OpOutcome) : Marks tx (Agents.completed tx op result outcome) := by
  have stored : Marks tx (storeResult tx op result.payload).1 := by
    unfold storeResult
    split
    · exact refl tx
    · exact (kept rfl rfl rfl : Marks tx (storeJson tx _ _)).trans (rememberLarge _ _)
  exact stored.trans (kept rfl rfl rfl)

theorem leaveOperation (tx : Tx) (lease : Lease) (pauseRequested : Bool)
    (requests : List PendingRequest) :
    Marks tx (Agents.leaveOperation tx lease pauseRequested requests) := by
  unfold Agents.leaveOperation
  split
  · exact (setState tx _ _).trans (writeCheckpoint _ _ _)
  · split
    · exact setState tx _ _
    · exact setRecordState tx _

theorem finishRunning (tx : Tx) (lease : Lease) (op : ActiveOperation) (pauseRequested : Bool)
    (result : OperationResult) (outcome : OpOutcome) :
    Marks tx (Agents.finishRunning tx lease op pauseRequested result outcome) := by
  unfold Agents.finishRunning
  simp only []
  refine (completed tx op result outcome).trans ?_
  split
  · have opened (current : Tx) (key : String) : Marks current (openExternal current op key).1 :=
      kept rfl rfl rfl
    exact (opened _ _).trans ((leaveOperation _ _ _ _).trans (keeps.answerLanded _ _))
  · exact leaveOperation _ _ _ _

theorem finishCancelling (tx : Tx) (op : ActiveOperation) (stop : StopInfo)
    (result : OperationResult) (outcome : OpOutcome) :
    Marks tx (Agents.finishCancelling tx op stop result outcome) := by
  unfold Agents.finishCancelling
  simp only []
  split
  · exact (push tx _).trans (terminate _ _ _ _)
  · exact ((completed tx op result outcome).trans (push _ _)).trans (terminate _ _ _ _)

theorem takenOver (tx : Tx) (old : Lease) (owner : String) :
    Marks tx (Agents.takenOver tx old owner) := kept rfl rfl rfl

theorem startDenied {spec : OperationSpec} {tool : String}
    (ok : Agents.startDenied tx spec tool = .ok next) : Marks tx next := by
  unfold Agents.startDenied at ok
  split at ok
  · cases ok
  · next started op begun =>
    rw [← Except.ok.inj ok]
    refine ((beginIn begun).trans (completed started op (deniedResult tool) .blocked)).trans ?_
    unfold returnToIdle
    split
    · exact setRecordState _ _
    · exact refl _

theorem startOrPark {effect : Effect} {stateRev : Nat}
    (ok : Agents.startOrPark tx effect stateRev = .ok next) : Marks tx next := by
  unfold Agents.startOrPark at ok
  simp only [] at ok
  split at ok
  · cases ok
  · split at ok
    · next begun =>
      rw [← Except.ok.inj ok]
      exact beginIn begun
    · next exceeded _ =>
      have parked : Marks tx (parkEffect tx effect stateRev) := kept rfl rfl rfl
      rw [← Except.ok.inj ok]
      exact parked.trans (exceed _ exceeded)
    · exact startDenied ok
    all_goals cases ok

theorem settleAsked {asked : Asked} {stateRev : Nat}
    (ok : Agents.settleAsked tx asked stateRev = .ok next) : Marks tx next := by
  unfold Agents.settleAsked at ok
  split at ok
  · cases ok
    exact terminate tx _ _ _
  · split at ok
    · cases ok
    · exact startOrPark ok
  · simp only [] at ok
    have opened := keeps.openAsked tx tx.record.state.openRequests asked.requests
    split at ok
    · cases ok
      exact opened.trans (setState _ _ none)
    · cases ok
      exact opened

/-! ### Controls -/

variable {cmd : ControlCommand}

theorem stop {reason : Option String} (ok : Agents.stop tx cmd reason = .ok next) :
    Marks tx next := by
  unfold Agents.stop at ok
  split at ok
  · cases ok
  · rw [← Except.ok.inj ok]
    refine Marks.trans ?_ (setState _ _ _)
    exact kept rfl rfl rfl
  · rw [← Except.ok.inj ok]
    exact terminate tx _ _ _

theorem enterUserPause (tx : Tx) (requests : List PendingRequest) :
    Marks tx (Agents.enterUserPause tx requests) := by
  unfold Agents.enterUserPause
  refine Marks.trans (Marks.trans ?_ (setState _ _ _)) (writeCheckpoint _ _ _)
  exact kept rfl rfl rfl

theorem pause (ok : Agents.pause tx = .ok next) : Marks tx next := by
  unfold Agents.pause at ok
  split at ok
  · split at ok
    · cases ok
    · rw [← Except.ok.inj ok]
      exact setRecordState tx _
  · rw [← Except.ok.inj ok]
    exact enterUserPause tx _
  · rw [← Except.ok.inj ok]
    exact enterUserPause tx _
  all_goals cases ok

theorem resume {increase : Option RunBudgets} {acceptChange : Bool}
    (ok : Agents.resume tx increase acceptChange = .ok next) : Marks tx next := by
  unfold Agents.resume at ok
  split at ok
  · simp only [] at ok
    split at ok
    · cases ok
    · rw [← Except.ok.inj ok]
      refine Marks.trans (Marks.trans ?_ (push _ _)) (setState _ _ none)
      exact kept rfl rfl rfl
  · cases ok

theorem steer {input : Value} (ok : Agents.steer tx cmd input = .ok next) : Marks tx next := by
  unfold Agents.steer at ok
  split at ok
  · cases ok
  · split at ok
    · cases ok
    · simp only [] at ok
      split at ok
      · rw [← Except.ok.inj ok]
        refine Marks.trans ?_ (setState _ _ none)
        exact kept rfl rfl rfl
      · rw [← Except.ok.inj ok]
        exact kept rfl rfl rfl

theorem controlBody (ok : Agents.controlBody tx cmd = .ok next) : Marks tx next := by
  unfold Agents.controlBody at ok
  cases kind : cmd.kind with
  | stop reason => rw [kind] at ok; exact stop ok
  | pause => rw [kind] at ok; exact pause ok
  | resume increase acceptChange => rw [kind] at ok; exact resume ok
  | steer input => rw [kind] at ok; exact steer ok
  | approve requestId decision digest => rw [kind] at ok; exact keeps.approve ok
  | provideInput requestId value => rw [kind] at ok; exact keeps.provideInput ok

end Marks

/-! ## Events only grow -/

/-- Further events are logged after those that are logged already. -/
structure Grows (tx next : Tx) : Prop where
  based : next.baseSeq = tx.baseSeq
  events : ∃ more, next.events = tx.events ++ more

namespace Grows

variable {tx middle next : Tx}

theorem silent (based : next.baseSeq = tx.baseSeq) (events : next.events = tx.events) :
    Grows tx next := ⟨based, [], by rw [events, append_nil]⟩

theorem refl (tx : Tx) : Grows tx tx := silent rfl rfl

theorem trans (first : Grows tx middle) (second : Grows middle next) : Grows tx next := by
  obtain ⟨more, early⟩ := first.events
  obtain ⟨rest, late⟩ := second.events
  exact ⟨second.based.trans first.based, more ++ rest, by rw [late, early, append_assoc]⟩

theorem push (tx : Tx) (kind : RunEventKind) : Grows tx (tx.push kind) := ⟨rfl, _, rfl⟩

theorem endTurn (tx : Tx) : Grows tx tx.endTurn := by
  unfold Tx.endTurn
  split
  · exact refl tx
  · exact ⟨rfl, _, rfl⟩

theorem leaveLease (tx : Tx) (state : RunState) : Grows tx (tx.leaveLease state) := by
  unfold Tx.leaveLease
  split
  · have bumped : Grows tx.endTurn tx.endTurn.bumpEpoch := silent rfl rfl
    exact ((endTurn tx).trans bumped).trans (push _ _)
  · exact refl tx

theorem enter (tx : Tx) (state : RunState) : Grows tx (tx.enter state) := by
  have based : (tx.enter state).baseSeq = tx.baseSeq :=
    congrArg Origin.seq (tx.enter_origin state)
  exact silent based (tx.enter_events state)

theorem setState (tx : Tx) (state : RunState) (reason : Option String) :
    Grows tx (tx.setState state reason) := by
  have moved := (leaveLease tx state).trans (enter _ state)
  simp only [Tx.setState]
  split
  · exact moved
  · exact moved.trans (push _ _)

theorem removeRequest (tx : Tx) (requestId : RequestId) :
    Grows tx (tx.removeRequest requestId) := by
  rcases tx.removeRequest_cases requestId with ⟨same, _⟩ | ⟨next, moved, _⟩ | ⟨_, _, moved⟩
  · rw [same]
    exact refl tx
  · rw [moved]
    exact silent rfl rfl
  · rw [moved]
    exact setState tx _ none

theorem wakeForResult (tx : Tx) : Grows tx (Agents.wakeForResult tx) := by
  unfold Agents.wakeForResult
  split
  · split <;> exact silent rfl rfl
  · exact refl tx

theorem resolveRequest (tx : Tx) (requestId : RequestId) (resolution : Value)
    (byControl : Option ControlId) :
    Grows (tx.push (.requestResolved requestId resolution byControl))
      (Agents.resolveRequest tx requestId resolution byControl) := removeRequest _ requestId

end Grows

/-! ## Transitions -/

/-- The event that an acknowledgement names. -/
def ControlAck.Names (controlId : ControlId) : ControlAck → RunEventKind → Prop
  | .applied _, .controlApplied named => named = controlId
  | .applied _, .requestResolved _ resolution _ => strOf "result_key" resolution = some controlId
  | .rejected reason _, .controlRejected named told => named = controlId ∧ told = reason
  | _, _ => False

/-- After the first `base` events of a log, this one is logged under this number. -/
def LoggedAt (base : Nat) (kinds : List RunEventKind) (seq : Nat) (kind : RunEventKind) : Prop :=
  ∃ before after, kinds = before ++ kind :: after ∧ seq = base + before.length + 1

/-- A checkpoint and an acknowledgement name the event that logs them. -/
structure MarkedFrom (base : Nat) (transition : Transition) : Prop where
  checkpoint : ∀ written, transition.checkpoint = some written →
    transition.record.lastMark = written.mark
  control : ∀ controlId ack digest, transition.control = some (controlId, ack, digest) →
    ∃ kind, LoggedAt base transition.kinds ack.seq kind ∧ ack.Names controlId kind

section Commits

variable {record : AgentRunRecord} {now : Nat} {transition : Transition} {tx next : Tx}

theorem Marks.checkpoint_eq {start : Tx} (fresh : start.checkpoint = none) (marks : Marks start tx)
    (written : RunCheckpoint) (stored : tx.checkpoint = some written) :
    tx.record.lastMark = written.mark := by
  rcases marks.checkpoint with ⟨same, _⟩ | ⟨other, same, mark⟩
  · rw [stored, fresh] at same
    cases same
  · obtain rfl : written = other := Option.some.inj (stored.symm.trans same)
    exact mark

/-- A transition that acknowledges nothing. -/
theorem Marks.marked {start : Tx} (fresh : start.checkpoint = none)
    (silent : start.control = none) (marks : Marks start tx) (base : Nat) :
    MarkedFrom base tx.finish where
  checkpoint := marks.checkpoint_eq fresh
  control := by
    intro controlId ack digest stored
    have none : tx.finish.control = Option.none := marks.control.trans silent
    rw [none] at stored
    cases stored

theorem Marks.finish (marks : Marks (Tx.new record now) tx) : MarkedFrom record.lastSeq tx.finish :=
  marks.marked rfl rfl _

theorem structuredCheckpoint_marked (write : CheckpointWrite) :
    MarkedFrom record.lastSeq (Service.structuredCheckpoint record write now) := by
  have detailed (state : Option Value) : MarkedFrom record.lastSeq
      (Service.structuredCheckpoint record { write with state := state } now) := by
    cases state
    all_goals
      refine ⟨fun written stored => ?_, fun _ _ _ stored => ?_⟩
      · rw [← Option.some.inj stored]
        rfl
      · cases stored
  exact detailed write.state

/-- An event that is pushed gets the number that was next. -/
theorem Grows.at_finish {kind : RunEventKind} (grows : Grows (tx.push kind) next) :
    LoggedAt tx.baseSeq next.finish.kinds tx.nextSeq kind := by
  obtain ⟨more, events⟩ := grows.events
  refine ⟨tx.kinds, more.map NewEvent.kind, ?_, ?_⟩
  · have kinds : next.finish.kinds = next.events.map NewEvent.kind := rfl
    rw [kinds, events, map_append]
    simp [Tx.push, Tx.kinds]
  · rw [Tx.nextSeq, Tx.kinds, length_map]

/-- A transition that stores one acknowledgement, of an event it logs. -/
theorem Marks.acknowledged {start : Tx} {controlId : ControlId} {ack : ControlAck}
    {digest : String} {base : Nat} {kind : RunEventKind} (fresh : start.checkpoint = none)
    (marks : Marks start tx) (named : LoggedAt base tx.finish.kinds ack.seq kind)
    (names : ack.Names controlId kind) :
    MarkedFrom base { tx with control := some (controlId, ack, digest) }.finish where
  checkpoint := marks.checkpoint_eq fresh
  control := by
    intro storedId stored _ same
    cases same
    exact ⟨kind, named, names⟩

/-! ### Acknowledgements -/

theorem applyDelivery_marked (key deliveryId : String) (envelope : Value) (digest : String) :
    MarkedFrom record.lastSeq (applyDelivery record key deliveryId envelope digest now).1 := by
  unfold applyDelivery
  simp only []
  split
  · have pushed := Marks.push (Tx.new record now)
      (.controlRejected (externalId deliveryId) "request_not_open")
    exact pushed.acknowledged rfl (Grows.refl _).at_finish ⟨rfl, rfl⟩
  · next request found =>
    have waits := find?_some found
    have named : strOf "result_key" (externalResolution request deliveryId) =
        some (externalId deliveryId) := by
      unfold externalResolution
      unfold waitsFor at waits
      split at waits
      · simp [strOf, Value.get, Value.lookup, Value.asStr]
      · cases waits
    have stored : Marks (Tx.new record now)
        (storeJson (Tx.new record now) (externalId deliveryId) envelope) := Marks.kept rfl rfl rfl
    have answered := Marks.keeps.resolveRequest
      (storeJson (Tx.new record now) (externalId deliveryId) envelope) request.requestId
      (externalResolution request deliveryId) none
    have grows := Grows.resolveRequest
      (storeJson (Tx.new record now) (externalId deliveryId) envelope) request.requestId
      (externalResolution request deliveryId) none
    exact ((stored.trans answered).trans (Marks.wakeForResult _)).acknowledged rfl
      (grows.trans (Grows.wakeForResult _)).at_finish named

theorem receiveControl_marks (record : AgentRunRecord) (cmd : ControlCommand) (now : Nat) :
    Marks (Tx.new record now) (receiveControl record cmd now) := Marks.push _ _

theorem applyControl_marked (payloadDigest : ControlKind → String) (cmd : ControlCommand)
    (authorized : Bool) :
    MarkedFrom record.lastSeq
      (applyControl payloadDigest record cmd authorized now).transition := by
  have received := receiveControl_marks record cmd now
  unfold applyControl
  simp only []
  split
  · next applied body =>
    split at body
    · cases body
    · split at body
      · cases body
      · next live =>
        obtain ⟨seen, tracks, _, _⟩ := controlBody_handled rfl
          (receiveControl_agrees record cmd now) (Bool.eq_false_iff.mpr live) body
        have based : applied.baseSeq = record.lastSeq := congrArg Origin.seq tracks.based
        have marks := (received.trans (Marks.controlBody body)).trans
          (Marks.push applied (.controlApplied cmd.controlId))
        have named := (Grows.refl (applied.push (.controlApplied cmd.controlId))).at_finish
        rw [based] at named
        exact marks.acknowledged rfl named rfl
  · next reason body =>
    have marks := received.trans (Marks.push _ (.controlRejected cmd.controlId reason))
    exact marks.acknowledged rfl (Grows.refl _).at_finish ⟨rfl, rfl⟩

theorem submitControl_marked {service : Service} {run : StoredRun} {cmd : ControlCommand}
    {system : Bool}
    (submitted : service.submitControl run record cmd system now = some transition) :
    MarkedFrom record.lastSeq transition := by
  unfold Service.submitControl at submitted
  split at submitted
  · split at submitted
    · cases submitted
    · cases submitted
      exact ((receiveControl_marks record cmd now).trans (Marks.push _ _)).finish
  · cases submitted
    exact applyControl_marked _ cmd _

/-! ### Every action -/

theorem applyFinish_marked {opId : OperationId} {result : OperationResult}
    (ok : applyFinish record opId result now = .ok transition) :
    MarkedFrom record.lastSeq transition := by
  unfold applyFinish at ok
  simp only [] at ok
  split at ok
  · split at ok
    · cases ok
    · split at ok
      · cases ok
      · cases ok
        exact (Marks.finishRunning _ _ _ _ _ _).finish
  · split at ok
    · cases ok
    · cases ok
      exact (Marks.finishCancelling _ _ _ _ _).finish
  · cases ok

theorem applyTakeover_marked {owner : String} {ttl : Nat} {takeover : Takeover}
    (ok : applyTakeover record owner now ttl = .ok takeover) :
    MarkedFrom record.lastSeq takeover.transition := by
  unfold applyTakeover at ok
  simp only [] at ok
  split at ok
  · next old op stop state =>
    cases ok
    have taken := Marks.takenOver (Tx.new record now) old owner
    have closed (tx : Tx) (state : RunState) (kind : RunEventKind) :
        Marks tx ((tx.setRecordState state).push kind) := Marks.kept rfl rfl rfl
    exact ((taken.trans (closed _ _ _)).trans (Marks.terminate _ _ _ _)).finish
  · next old op pauseRequested state =>
    have taken := Marks.takenOver (Tx.new record now) old owner
    split at ok
    · cases ok
      exact ((taken.trans (Marks.push _ _)).trans (Marks.setRecordState _ _)).finish
    · cases ok
      have abandoned (tx : Tx) (state : RunState) (kind : RunEventKind) (usage : RunUsage) :
          Marks tx { (tx.setRecordState state).push kind with
            record := { (tx.setRecordState state).record with usage := usage } } :=
        Marks.kept rfl rfl rfl
      exact ((taken.trans (abandoned _ _ _ _)).trans (Marks.setState _ _ _)).finish
  · cases ok
    exact (Marks.setState _ _ _).finish
  · cases ok

/-! ### The domain -/

theorem applyDomainResponse_marked {seq : Nat} {resp : ReducerResponse} {finalizeLast : Option Bool}
    (ok : applyDomainResponse record seq resp finalizeLast now = .ok transition) :
    MarkedFrom record.lastSeq transition := by
  unfold applyDomainResponse at ok
  split at ok
  · cases ok
  · next binding bound =>
    simp only [bind, Except.bind] at ok
    split at ok
    · cases ok
    · next read effects =>
      have begun (tx : Tx) (state : Option (Nat × Value)) (domain : Option DomainBinding)
          (kind : RunEventKind) : Marks tx
            ({ tx with
                domainState := state
                record := { tx.record with domain := domain } }.push kind) :=
        Marks.kept rfl rfl rfl
      have advanced := (begun (Tx.new record now) _ _ _).trans (Marks.keeps.applyEffects effects)
      split at ok
      · cases ok
        exact advanced.finish
      · split at ok
        · cases ok
        · next settled settles =>
          cases ok
          exact (advanced.trans (Marks.settleAsked settles)).finish

theorem applyTerminal_marked {ended : TerminalStatus} {outcome : RunOutcome}
    {reason : Option String} (ok : applyTerminal record ended outcome reason now = .ok transition) :
    MarkedFrom record.lastSeq transition := by
  unfold applyTerminal at ok
  split at ok
  · cases ok
    exact (Marks.terminate _ _ _ _).finish
  · cases ok

theorem applyReducerPause_marked {reason : String}
    (ok : applyReducerPause record reason now = .ok transition) :
    MarkedFrom record.lastSeq transition := by
  unfold applyReducerPause at ok
  split at ok
  · cases ok
    have reasoned : Marks (Tx.new record now)
        { Tx.new record now with record := { record with statusReason := some reason } } :=
      Marks.kept rfl rfl rfl
    exact ((reasoned.trans (Marks.setState _ _ _)).trans (Marks.writeCheckpoint _ _ _)).finish
  · cases ok

theorem answerTransition_marked {seq : Nat} {answer : Except ReducerCallError ReducerResponse}
    (ok : Service.answerTransition record seq now answer = .ok transition) :
    MarkedFrom record.lastSeq transition := by
  unfold Service.answerTransition at ok
  split at ok
  · split at ok
    · next applied =>
      cases ok
      exact applyDomainResponse_marked applied
    · exact applyTerminal_marked ok
  · exact applyReducerPause_marked ok
  · next hash =>
    obtain ⟨pause, paused, ok⟩ := ok_of_bind ok
    cases ok
    have marked := applyReducerPause_marked paused
    exact ⟨marked.checkpoint, marked.control⟩
  · exact applyTerminal_marked ok
  · exact applyTerminal_marked ok

theorem domainStep_marked {service : Service} {run : StoredRun} {reducer : Reducer}
    (stepped : service.domainStep run record reducer now = some transition) :
    MarkedFrom record.lastSeq transition := by
  unfold Service.domainStep at stepped
  split at stepped
  · split at stepped
    · next parked _ =>
      have started := toOption_some stepped
      unfold Service.startOutbox at started
      simp only [] at started
      obtain ⟨next, began, started⟩ := ok_of_bind started
      cases started
      have emptied : Marks (Tx.new record now)
          { Tx.new record now with record := Service.emptyOutbox record } :=
        Marks.kept rfl rfl rfl
      exact (emptied.trans (Marks.startOrPark began)).finish
    · split at stepped
      · cases stepped
      · exact answerTransition_marked (toOption_some stepped)
  · cases stepped

theorem finalizeStep_marked {service : Service} {run : StoredRun} {reducer : Reducer}
    {stateRev : Nat}
    (finalized : service.finalizeStep run record reducer now = some (stateRev, transition)) :
    MarkedFrom record.lastSeq transition := by
  unfold Service.finalizeStep at finalized
  split at finalized
  · cases finalized
  · next binding bound =>
    have marked (domain : DomainBinding) : MarkedFrom record.lastSeq
        { Tx.new record now with record := { record with domain := some domain } }.finish := by
      have kept : Marks (Tx.new record now)
          { Tx.new record now with record := { record with domain := some domain } } :=
        Marks.kept rfl rfl rfl
      exact kept.finish
    split at finalized
    · cases finalized
    · simp only [] at finalized
      split at finalized
      · cases finalized
        exact marked _
      · split at finalized
        · split at finalized
          · next applied =>
            cases finalized
            exact applyDomainResponse_marked applied
          · cases finalized
        · cases finalized
          exact marked _

/-! ### Any action -/

/-- What an action commits names the events it logs. -/
theorem transitionOf_marked {service : Service} {run : StoredRun} {action : Action} {fence : Fence}
    (computed : service.transitionOf run record now action = some (fence, transition)) :
    MarkedFrom record.lastSeq transition := by
  by_cases quiet : action.isQuiet = true
  · obtain ⟨tx, marks, rfl⟩ := Marks.keeps.commit quiet computed
    exact marks.finish
  cases action with
  | acquire owner =>
    have ok := toOption_some (unfenced_some computed).2
    unfold applyAcquire at ok
    split at ok
    · cases ok
      have acquired (tx : Tx) (kind : RunEventKind) : Marks tx (tx.bumpEpoch.push kind) :=
        Marks.kept rfl rfl rfl
      exact ((acquired _ _).trans (Marks.setState _ _ _)).finish
    · cases ok
  | renew claim =>
    have ok := toOption_some (fenced_some computed).2
    unfold applyRenew at ok
    simp only [] at ok
    split at ok
    · cases ok
      exact (Marks.setRecordState (Tx.new record now) _).finish
    · cases ok
      exact (Marks.setRecordState (Tx.new record now) _).finish
    · cases ok
  | begin claim spec =>
    have begun := (fenced_some computed).2
    unfold Service.beginOperation at begun
    split at begun
    · next started applied =>
      cases begun
      unfold applyBegin at applied
      obtain ⟨started, began, applied⟩ := ok_of_bind applied
      cases applied
      exact (Marks.beginIn began).finish
    · cases begun
      exact (Marks.exceed _ _).finish
    · cases begun
  | finish claim opId result => exact applyFinish_marked (toOption_some (fenced_some computed).2)
  | release claim wake =>
    have ok := toOption_some (fenced_some computed).2
    unfold applyRelease at ok
    split at ok
    · cases ok
      cases wake
      · have asleep (tx : Tx) : Marks tx { tx with wake := none } := Marks.kept rfl rfl rfl
        exact ((Marks.setState _ _ none).trans (asleep _)).finish
      · exact (Marks.setState _ _ none).finish
    · cases ok
  | wait claim requests =>
    have ok := toOption_some (fenced_some computed).2
    unfold applyWait at ok
    split at ok
    · next lease opened state =>
      obtain ⟨found, all, ok⟩ := ok_of_bind ok
      split at ok
      · cases ok
        exact ((Marks.keeps.openRequests all).trans (Marks.setState _ _ none)).finish
      · cases ok
    · cases ok
  | complete claim status outcome reason =>
    exact applyTerminal_marked (toOption_some (fenced_some computed).2)
  | writeCheckpoint write =>
    rw [← transitionOf_writeCheckpoint computed]
    exact structuredCheckpoint_marked write
  | takeover owner =>
    obtain ⟨_, takeover, result, rfl⟩ := transitionOf_takeover computed
    exact applyTakeover_marked result
  | deliver key deliveryId envelope =>
    obtain ⟨digest, rfl⟩ := deliverExternal_ok (unfenced_some computed).2
    exact applyDelivery_marked key deliveryId envelope digest
  | control cmd system => exact submitControl_marked (unfenced_some computed).2
  | domainStep claim reducer => exact domainStep_marked (fenced_some computed).2
  | finalizeDomain reducer =>
    obtain ⟨stateRev, finalized⟩ := transitionOf_finalizeDomain computed
    exact finalizeStep_marked finalized
  | _ => exact absurd rfl quiet

end Commits

end RaisinDB.Agents
