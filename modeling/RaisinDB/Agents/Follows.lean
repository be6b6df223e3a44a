import RaisinDB.Agents.Tracks

/-!
# Every transition follows its log

Whatever a call commits, its events are legal one after the other, and the next record
says what they say.
-/

namespace RaisinDB.Agents

open List
open RaisinDB.Foundation (Value ok_of_bind ok_of_map)

attribute [local simp] Tx.new Tx.push Tx.bumpEpoch Tx.account Tx.between takenOver ledgerOf
  Ledger.observe Ledger.note legalChanges TerminalStatus.status

variable {record : AgentRunRecord} {now : Nat} {transition : Transition}

/-! ## Leases -/

theorem applyAcquire_follows {owner : String} {ttl : Nat}
    (ok : applyAcquire record owner now ttl = .ok transition) : Follows record transition := by
  unfold applyAcquire at ok
  split at ok
  · next requests wake state =>
    cases ok
    have begun : Tracks record (Tx.new record now).bumpEpoch (ledgerOf record) :=
      Tracks.same (Agrees.new record now) rfl rfl id
    have pushed := begun.push (.leaseAcquired owner (record.leaseEpoch + 1)) ⟨by simp [state], rfl⟩
    refine (pushed.setState ⟨rfl, rfl, rfl, rfl, rfl, rfl, rfl, rfl, rfl, rfl⟩ rfl ?_ ?_ ?_ ?_
      ?_ ?_ rfl ?_ ?_ ?_).finish
    · simp [state]
    · simp [state]
    · simp [state]
    · intro _
      rfl
    · intro _
      rfl
    · simp [state]
    · simp
    · simp
    · simp
  · cases ok

theorem applyRenew_follows {ttl : Nat} (ok : applyRenew record now ttl = .ok transition) :
    Follows record transition := by
  unfold applyRenew at ok
  simp only [] at ok
  split at ok
  · next lease activity state =>
    cases ok
    refine Agrees.finish ?_
    refine (Agrees.new record now).same rfl rfl ?_ fun _ => clean_of_live rfl
    cases activity <;> ext1 <;> simp [Tx.setRecordState, state]
  · next lease op stop state =>
    cases ok
    refine Agrees.finish ?_
    refine (Agrees.new record now).same rfl rfl ?_ fun _ => clean_of_live rfl
    ext1 <;> simp [Tx.setRecordState, state]
  · cases ok

variable {received : Option Receipt} {requests : List PendingRequest}

/-- The run goes back to the queue with what is open. -/
theorem Agrees.requeue {start : AgentRunRecord} {tx : Tx} {lease : Lease}
    (agrees : Agrees start tx received) (state : tx.record.state = .running lease (.idle requests))
    (wake : WakeReason) (reason : Option String) :
    Agrees start (tx.setState (.queued requests wake) reason) received := by
  refine agrees.setState _ ?_ ?_ rfl ?_ rfl ?_ rfl _
  · simp [state]
  · simp [state]
  · simp [state]
  · simp [state]

theorem applyRelease_follows {wake : Bool} (ok : applyRelease record now wake = .ok transition) :
    Follows record transition := by
  unfold applyRelease at ok
  split at ok
  · next lease requests state =>
    cases ok
    have released := (Agrees.new record now).requeue state .leaseReleased none
    split
    · exact released.finish
    · refine Agrees.finish ?_
      exact released.same rfl rfl rfl id
  · cases ok

/-! ## Operations -/

theorem applyBegin_follows {spec : OperationSpec} (ok : applyBegin record spec now = .ok transition) :
    Follows record transition := by
  unfold applyBegin at ok
  obtain ⟨started, begun, ok⟩ := ok_of_bind ok
  cases ok
  exact ((Agrees.new record now).beginIn begun).finish

/-- A budget refuses an operation at the idle boundary. -/
theorem beginIn_budget {tx : Tx} {spec : OperationSpec} {exceeded : Exceeded}
    (refused : beginIn tx spec = .error (.budget exceeded)) :
    ∃ lease, tx.record.state = .running lease (.idle []) := by
  unfold beginIn at refused
  split at refused
  · next lease requests state =>
    split at refused
    · cases refused
    · next nothing => exact ⟨lease, by rw [state, not_not.mp nothing]⟩
  · cases refused

theorem beginOperation_follows {spec : OperationSpec}
    (some : Service.beginOperation record spec now = some transition) :
    Follows record transition := by
  unfold Service.beginOperation at some
  split at some
  · next ok =>
    cases some
    exact applyBegin_follows ok
  · next exceeded refused =>
    cases some
    cases begun : beginIn (Tx.new record now) spec with
    | ok started => simp [applyBegin, begun, Except.map, -Tx.new] at refused
    | error refusal =>
      have named : refusal = .budget exceeded := by
        simpa [applyBegin, begun, Except.map, -Tx.new] using refused
      obtain ⟨lease, state⟩ := beginIn_budget (named ▸ begun)
      exact ((Agrees.new record now).exceed state exceeded).finish
  · cases some

theorem finishRunning_agrees {start : AgentRunRecord} {tx : Tx} (agrees : Agrees start tx received)
    {lease : Lease} {op : ActiveOperation} {pauseRequested : Bool}
    (state : tx.record.state = .running lease (.operating op pauseRequested))
    (result : OperationResult) (outcome : OpOutcome) :
    Agrees start (finishRunning tx lease op pauseRequested result outcome) received := by
  have active : tx.record.state.activeOp = some op := by simp [state]
  have done := agrees.completed active result outcome
  have still := completed_state tx op result outcome
  unfold finishRunning
  simp only []
  split
  · have running : (completed tx op result outcome).record.state.status = .running := by
      rw [still, state]
      rfl
    have opened := done.openExternal op (result.resumeKey.getD "") running
    exact (opened.leaveOperation (still.trans state)).answerLanded _
  · exact done.leaveOperation (still.trans state)

/-- The operation was told to stop; the run ends with it. -/
theorem Tracks.stopped {start : AgentRunRecord} {tx : Tx} {lease : Lease} {op : ActiveOperation}
    {stop : StopInfo} (state : tx.record.state = .cancelling lease op stop)
    (tracks : Agrees start tx received ∨ Tracks start tx (tx.between received []))
    (acknowledged : Bool) :
    Agrees start ((tx.push (.operationCancelled op.opId acknowledged op.effectId)).terminate
      .stopped (.new "stopped" stop.reason) (some "user_stop")) received := by
  have pushed : Tracks start (tx.push (.operationCancelled op.opId acknowledged op.effectId))
      ((tx.push (.operationCancelled op.opId acknowledged op.effectId)).between received []) := by
    have legal (seen : Ledger) (status : seen.status = .cancelling)
        (named : ∀ other, seen.op = some other → other.opId = op.opId) :
        seen.Legal (.operationCancelled op.opId acknowledged op.effectId) := ⟨status, named⟩
    rcases tracks with agrees | between
    · have cancelled := Tracks.push agrees _ (legal _ (by simp [state])
        (by simp [state, ActiveOperation.view]))
      have same : (tx.account received).observe
            (.operationCancelled op.opId acknowledged op.effectId) =
          (tx.push (.operationCancelled op.opId acknowledged op.effectId)).between received [] := by
        ext1 <;> simp [state, add_assoc]
      exact Eq.mp (congrArg (Tracks start _) same) cancelled
    · have cancelled := between.push _ (legal _ (by simp [state]) (by simp))
      have same : (tx.between received []).observe
            (.operationCancelled op.opId acknowledged op.effectId) =
          (tx.push (.operationCancelled op.opId acknowledged op.effectId)).between received [] := by
        ext1 <;> simp [add_assoc]
      exact Eq.mp (congrArg (Tracks start _) same) cancelled
  have none : (tx.push (.operationCancelled op.opId acknowledged op.effectId)).record.state.openRequests
      = [] := by simp [state]
  refine Tracks.terminate (none ▸ pushed) ?_ ?_
  · simp [state]
  · simp [state]

theorem finishCancelling_agrees {start : AgentRunRecord} {tx : Tx}
    (agrees : Agrees start tx received) {lease : Lease} {op : ActiveOperation} {stop : StopInfo}
    (state : tx.record.state = .cancelling lease op stop) (result : OperationResult)
    (outcome : OpOutcome) : Agrees start (finishCancelling tx op stop result outcome) received := by
  unfold finishCancelling
  simp only []
  split
  · exact Tracks.stopped state (.inl agrees) _
  · have active : tx.record.state.activeOp = some op := by simp [state]
    have done := agrees.completed active result outcome
    exact Tracks.stopped ((completed_state _ _ _ _).trans state) (.inr done) _

theorem applyFinish_follows {opId : OperationId} {result : OperationResult}
    (ok : applyFinish record opId result now = .ok transition) : Follows record transition := by
  unfold applyFinish at ok
  simp only [] at ok
  split at ok
  · next lease op pauseRequested state =>
    split at ok
    · cases ok
    · split at ok
      · cases ok
      · cases ok
        exact (finishRunning_agrees (Agrees.new record now) state _ _).finish
  · next lease op stop state =>
    split at ok
    · cases ok
    · cases ok
      exact (finishCancelling_agrees (Agrees.new record now) state _ _).finish
  · cases ok

/-! ## The idle boundary -/

theorem Tracks.consumeSteers {start : AgentRunRecord} {tx : Tx} (queue : List SteerEntry)
    (empty : tx.record.steerQueue = [])
    (tracks : Tracks start tx { tx.account received with steers := queuedSteers queue }) :
    Agrees start (queue.foldl consumeSteer tx) received := by
  induction queue generalizing tx with
  | nil =>
    have same : { tx.account received with steers := queuedSteers [] } = tx.account received := by
      ext1 <;> simp [empty, queuedSteers]
    exact Eq.mp (congrArg (Tracks start tx) same) tracks
  | cons steer rest ih =>
    -- A steer needs a turn to be consumed in.
    obtain ⟨turned, shape, number, inTurn, still, turns⟩ : ∃ turned,
        (consumeSteer tx steer = turned.push
          (.steerConsumed steer.steerId (turned.record.currentTurn.getD 0) steer.input)) ∧
        ∃ number, turned.record.currentTurn = some number ∧ turned.record.steerQueue = [] ∧
        Tracks start turned
          { turned.account received with steers := queuedSteers (steer :: rest) } := by
      cases current : tx.record.currentTurn with
      | some number =>
        exact ⟨tx, by simp [consumeSteer, current], number, current, empty, tracks⟩
      | none =>
        obtain ⟨cause, started⟩ :=
          tracks.startTurn (some (.steer steer.steerId)) current rfl
        refine ⟨Agents.startTurn tx (some (.steer steer.steerId)),
          by simp [consumeSteer, current], tx.record.counters.turn + 1, rfl, empty, ?_⟩
        have same : Ledger.observe
              { tx.account received with steers := queuedSteers (steer :: rest) }
              (.turnStarted (tx.record.counters.turn + 1) cause) =
            { (Agents.startTurn tx (some (.steer steer.steerId))).account received with
              steers := queuedSteers (steer :: rest) } := by
          ext1 <;> simp [Agents.startTurn, add_assoc]
        exact Eq.mp (congrArg (Tracks start _) same) started
    have consumed := turns.push
      (.steerConsumed steer.steerId (turned.record.currentTurn.getD 0) steer.input)
      ⟨by simp [inTurn], rfl⟩
    rw [foldl_cons, shape]
    refine ih still ?_
    have same : Ledger.observe
          { turned.account received with steers := queuedSteers (steer :: rest) }
          (.steerConsumed steer.steerId (turned.record.currentTurn.getD 0) steer.input) =
        { (turned.push (.steerConsumed steer.steerId (turned.record.currentTurn.getD 0)
            steer.input)).account received with
          steers := queuedSteers rest } := by
      ext1 <;> simp [queuedSteers, add_assoc]
    exact Eq.mp (congrArg (Tracks start _) same) consumed

theorem applyConsumeSteers_follows (some : applyConsumeSteers record now = some transition) :
    Follows record transition := by
  unfold applyConsumeSteers at some
  split at some
  · split at some
    · cases some
    · cases some
      refine Agrees.finish (Tracks.consumeSteers _ rfl ?_)
      exact Tracks.same (Agrees.new record now) rfl rfl id
  · cases some

theorem admitRequest_ok {req : NewRequest} {tx : Tx} {opened : List PendingRequest}
    (admitted : admitRequest tx.record.children req = .ok ()) (child : RunId)
    (kind : req.kind = .child child) : (tx.between received opened).Awaited child := by
  unfold admitRequest at admitted
  rw [kind] at admitted
  simp only [] at admitted
  split at admitted
  · cases admitted
  · next link found =>
    split at admitted
    · cases admitted
    · next undelivered =>
      have named : link.runId = child := by simpa using find?_some found
      refine ⟨link.reserved, ?_⟩
      have view := linkViews_find? tx.record.children child
      rw [found, Option.map_some, ChildLink.view, named, Bool.eq_false_iff.mpr undelivered] at view
      exact view

theorem openRequests_ok {children : List ChildLink} {requests : List NewRequest} {tx next : Tx}
    {opened all : List PendingRequest} {start : AgentRunRecord}
    (tracks : Tracks start tx (tx.between received opened)) (same : tx.record.children = children)
    (running : tx.record.state.status = .running)
    (ok : openRequests children tx opened requests = .ok (next, all)) :
    Tracks start next (next.between received all) ∧ next.record.state = tx.record.state := by
  induction requests generalizing tx opened with
  | nil =>
    cases ok
    exact ⟨tracks, rfl⟩
  | cons req rest ih =>
    unfold openRequests at ok
    obtain ⟨_, admitted, ok⟩ := ok_of_bind ok
    have later := ih (tracks.openRequest req running
      (admitRequest_ok (same ▸ admitted))) same running ok
    exact ⟨later.1, later.2⟩

/-- A run with something open waits for it. -/
theorem Tracks.wait {start : AgentRunRecord} {tx : Tx}
    (tracks : Tracks start tx (tx.between received requests)) {lease : Lease}
    {opened : List PendingRequest} (state : tx.record.state = .running lease (.idle opened))
    {waiting : NonEmpty PendingRequest} (all : requests = waiting.intoVec) :
    Agrees start (tx.setState (.waiting waiting) none) received := by
  refine tracks.setState ⟨rfl, rfl, rfl, rfl, rfl, rfl, rfl, rfl, rfl, rfl⟩ rfl ?_ all rfl ?_ ?_
    ?_ rfl ?_ ?_ ?_
  · rw [state]
    simp
  · simp
  · simp [state]
  · simp [state]
  · simp
  · simp
  · simp

theorem applyWait_follows {requests : List NewRequest}
    (ok : applyWait record requests now = .ok transition) : Follows record transition := by
  unfold applyWait at ok
  split at ok
  · next lease opened state =>
    obtain ⟨all', all, ok⟩ := ok_of_bind ok
    have begun : Tracks record (Tx.new record now)
        ((Tx.new record now).between none opened) := by
      have between := (Agrees.new record now).between (by simp [state])
      simpa [state] using between
    obtain ⟨tracks, still⟩ := openRequests_ok begun rfl (by simp [state]) all
    cases waiting : NonEmpty.fromVec all'.2 with
    | none => simp [waiting, refusal] at ok
    | some waits =>
      simp only [waiting, pure, Except.pure, Except.ok.injEq] at ok
      subst ok
      exact (tracks.wait (still.trans state) (NonEmpty.fromVec_eq_some.mp waiting)).finish
  · cases ok

/-- A run ends from its idle boundary. -/
theorem Agrees.terminateIdle {start : AgentRunRecord} {tx : Tx} {lease : Lease}
    (agrees : Agrees start tx received) (state : tx.record.state = .running lease (.idle requests))
    (ended : TerminalStatus) (outcome : RunOutcome) (reason : Option String) :
    Agrees start (tx.terminate ended outcome reason) received := by
  refine agrees.terminate ?_ ?_ _ _
  · simp [state]
  · cases ended <;> simp [state]

theorem applyTerminal_follows {ended : TerminalStatus} {outcome : RunOutcome}
    {reason : Option String} (ok : applyTerminal record ended outcome reason now = .ok transition) :
    Follows record transition := by
  unfold applyTerminal at ok
  split at ok
  · next lease requests state =>
    cases ok
    exact ((Agrees.new record now).terminateIdle state ended outcome reason).finish
  · cases ok

theorem applyCheckpoint_follows (reason : CheckpointReason) (summary : Option String) :
    Follows record (applyCheckpoint record reason summary now) :=
  ((Agrees.new record now).writeCheckpoint reason summary).finish

theorem structuredCheckpoint_follows (write : CheckpointWrite) :
    Follows record (Service.structuredCheckpoint record write now) := by
  have written := (Agrees.new record now).writeCheckpoint (write.reason.getD .compaction)
    write.summary
  unfold Service.structuredCheckpoint
  refine Agrees.finish ?_
  cases write.state <;> exact written.same rfl rfl rfl id

theorem applyReducerPause_follows {reason : String}
    (ok : applyReducerPause record reason now = .ok transition) : Follows record transition := by
  unfold applyReducerPause at ok
  split at ok
  · next lease requests state =>
    cases ok
    refine (Agrees.writeCheckpoint (Agrees.setState ?_ _ ?_ ?_ rfl ?_ rfl ?_ rfl _) _ _).finish
    · exact (Agrees.new record now).same rfl rfl rfl id
    · simp [state]
    · simp [state]
    · simp [state]
    · simp
  · cases ok

/-! ## Expiry and takeover -/

theorem applyExpireRequests_follows (some : applyExpireRequests record now = some transition) :
    Follows record transition := by
  unfold applyExpireRequests at some
  simp only [] at some
  split at some
  · cases some
  · cases some
    refine ((Agrees.new record now).foldRequests closeExpired ?_ filter_sublist).finish
    intro current request agrees mem
    refine ⟨agrees.closeRequest mem "expired", ?_⟩
    exact (openRequests_removeRequest _ _).symm ▸ Sublist.refl _

/-- The next owner holds the lease in the log. -/
theorem takenOver_tracks {start : AgentRunRecord} {tx : Tx} (agrees : Agrees start tx received)
    (old : Lease) (held : tx.record.state.lease.isSome = true) (owner : String) :
    Tracks start (takenOver tx old owner)
      { (takenOver tx old owner).account received with
        owner := some (owner, (takenOver tx old owner).record.leaseEpoch) } := by
  have bumped : Tracks start tx.bumpEpoch (tx.account received) :=
    Tracks.same agrees rfl rfl id
  have pushed := bumped.push (.leaseTakenOver old.owner old.epoch owner (tx.record.leaseEpoch + 1))
    ⟨by simpa using held, rfl⟩
  have same : (tx.account received).observe
        (.leaseTakenOver old.owner old.epoch owner (tx.record.leaseEpoch + 1)) =
      { (takenOver tx old owner).account received with
        owner := some (owner, (takenOver tx old owner).record.leaseEpoch) } := by
    ext1 <;> simp [add_assoc]
  exact Eq.mp (congrArg (Tracks start _) same) pushed

theorem applyTakeover_follows {owner : String} {ttl : Nat} {takeover : Takeover}
    (ok : applyTakeover record owner now ttl = .ok takeover) :
    Follows record takeover.transition := by
  have begun := Agrees.new record now
  unfold applyTakeover at ok
  simp only [] at ok
  split at ok
  · next old op stop state =>
    cases ok
    have taken := takenOver_tracks begun old (by simp [state]) owner
    have held : Agrees record ((takenOver (Tx.new record now) old owner).setRecordState
        (.cancelling ⟨owner, record.leaseEpoch + 1, now + ttl⟩ op stop)) none := by
      refine taken.setRecordState ⟨rfl, rfl, rfl, rfl, rfl, rfl, rfl, rfl, rfl, rfl⟩ ?_ rfl rfl
      exact ⟨by simp [state], by simp [state], by simp [state], by simp [state], rfl⟩
    exact (Tracks.stopped rfl (.inl held) false).finish
  · next old op pauseRequested state =>
    have taken := takenOver_tracks begun old (by simp [state]) owner
    split at ok
    · next safe =>
      cases ok
      let again : ActiveOperation :=
        { op with
          attempt := op.attempt + 1
          leaseEpoch := record.leaseEpoch + 1
          startedAtMs := now }
      have started := taken.push (startedEvent again)
        ⟨by simp [state], rfl, rfl, .inr ⟨op.view, by simp [state], safe, rfl⟩⟩
      refine (started.setRecordState ?_ ?_ rfl rfl).finish
      · exact ⟨rfl, rfl, rfl, rfl, rfl, rfl, by simp [startedEvent, state], rfl, rfl, rfl⟩
      · exact ⟨by simp [startedEvent, state], by simp [startedEvent, state], rfl,
          by simp [startedEvent, state], rfl⟩
    · next unsafely =>
      cases ok
      have abandoned := taken.push
        (.operationAbandoned op.opId "lease_expired_not_replay_safe" op.effectId op.forCallId)
        ⟨op.view, by simp [state], rfl, Bool.eq_false_iff.mpr unsafely, rfl⟩
      have same : Tracks record
          (((takenOver (Tx.new record now) old owner).setRecordState
            (.running ⟨owner, record.leaseEpoch + 1, now + ttl⟩ (.idle []))).push
            (.operationAbandoned op.opId "lease_expired_not_replay_safe" op.effectId
              op.forCallId)) _ :=
        abandoned.same rfl rfl fun _ => clean_of_live rfl
      have idle := same.agrees ⟨rfl, rfl, rfl, rfl, rfl, rfl, rfl, rfl, rfl, rfl⟩
        ⟨by simp [Tx.setRecordState, state], by simp [Tx.setRecordState, state], rfl, rfl, rfl⟩ rfl
      refine (Agrees.requeue ?_ rfl .leaseReleased (some "lease_expired")).finish
      exact idle.same rfl rfl rfl id
  · next old requests state =>
    cases ok
    exact (begun.requeue state .leaseReleased (some "lease_expired")).finish
  · cases ok

/-! ## Controls -/

/-- What a control did before it is logged as applied.  A pause of an operation in flight is in the
record first. -/
def Handled (start : AgentRunRecord) (tx : Tx) (receipt : Receipt) : Prop :=
  ∃ seen, Tracks start tx seen ∧ seen.received = some receipt ∧
    { seen with
        pausing := seen.pausing || (receipt.command == .pause && seen.op.isSome) } =
      tx.account (some receipt)

variable {receipt : Receipt}

theorem Agrees.handled {start : AgentRunRecord} {tx : Tx} (agrees : Agrees start tx (some receipt))
    (other : receipt.command = .pause → tx.record.state.activeOp = none) :
    Handled start tx receipt := by
  refine ⟨tx.account (some receipt), agrees, rfl, ?_⟩
  have noPause : (receipt.command == .pause && (tx.account (some receipt)).op.isSome) = false := by
    by_cases pause : receipt.command = .pause
    · simp [other pause]
    · simp [pause]
  ext1 <;> simp only [noPause, Bool.or_false]

variable {requestId : RequestId}

theorem findOpen_ok {tx : Tx} {request : PendingRequest} (ok : findOpen tx requestId = .ok request) :
    request ∈ tx.record.state.openRequests ∧ request.requestId = requestId := by
  unfold findOpen at ok
  split at ok
  · next found =>
    cases ok
    exact ⟨mem_of_find?_eq_some found, by simpa using find?_some found⟩
  · cases ok

section ControlBodies

variable {start : AgentRunRecord} {tx next : Tx} {cmd : ControlCommand}

theorem stop_agrees {reason : Option String} (agrees : Agrees start tx received)
    (live : tx.record.state.isTerminal = false) (ok : stop tx cmd reason = .ok next) :
    Agrees start next received := by
  unfold stop at ok
  split at ok
  · cases ok
  · next lease op pauseRequested state =>
    cases ok
    have noted : Agrees start
        { tx with
          cancel := some (tx.record.runId, op.opId)
          record := { tx.record with statusReason := some "user_stop" } } received :=
      agrees.same rfl rfl rfl id
    refine Tracks.setState noted (framed_account _ _) rfl ?_ ?_ ?_ ?_ ?_ ?_ rfl ?_ ?_ ?_
    · simp [state]
    · simp [state]
    · simp [state]
    · simp [state]
    · simp [state]
    · simp
    · simp
    · simp
    · simp
  · next notCancelling notOperating =>
    cases ok
    cases state : tx.record.state with
    | queued requests wake =>
      exact agrees.terminate (by simp [state]) (by simp [state]) _ _
    | running lease activity =>
      cases activity with
      | idle requests => exact agrees.terminateIdle state _ _ _
      | operating op pauseRequested => exact absurd state (notOperating _ _ _)
    | cancelling lease op stop => exact absurd state (notCancelling _ _ _)
    | waiting requests =>
      exact agrees.terminate (by simp [state]) (by simp [state]) _ _
    | paused requests reason =>
      exact agrees.terminate (by simp [state]) (by simp [state]) _ _
    | terminal ended outcome => simp [state] at live

theorem enterUserPause_agrees (agrees : Agrees start tx received)
    (changes : (tx.record.state.status, RunStatus.paused) ∈ legalChanges)
    (noOp : tx.record.state.activeOp = none) :
    Agrees start (enterUserPause tx tx.record.state.openRequests) received := by
  have reasoned : Agrees start
      { tx with record := { tx.record with statusReason := some "user_pause" } } received :=
    agrees.same rfl rfl rfl id
  refine (reasoned.setState (.paused tx.record.state.openRequests .user) changes noOp rfl rfl rfl ?_
    rfl _).writeCheckpoint _ _
  simp

theorem enterUserPause_handled (agrees : Agrees start tx (some receipt))
    (opened : tx.record.state.openRequests = requests)
    (changes : (tx.record.state.status, RunStatus.paused) ∈ legalChanges)
    (noOp : tx.record.state.activeOp = none) :
    Handled start (enterUserPause tx requests) receipt := by
  subst opened
  refine (enterUserPause_agrees agrees changes noOp).handled fun _ => ?_
  simp [enterUserPause, Tx.writeCheckpoint]

theorem pause_handled (command : receipt.command = .pause) (agrees : Agrees start tx (some receipt))
    (ok : pause tx = .ok next) : Handled start next receipt := by
  unfold pause at ok
  split at ok
  · next lease op pauseRequested state =>
    split at ok
    · cases ok
    · next notPausing =>
      cases ok
      refine ⟨tx.account (some receipt), Tracks.same agrees rfl rfl fun _ => clean_of_live rfl,
        rfl, ?_⟩
      ext1 <;> simp [Tx.setRecordState, state, command]
  · next lease requests state =>
    cases ok
    exact enterUserPause_handled agrees (by simp [state]) (by simp [state]) (by simp [state])
  · next requests state =>
    cases ok
    exact enterUserPause_handled agrees (by simp [state]) (by simp [state]) (by simp [state])
  · cases ok
  · cases ok
  · cases ok

/-- A resume may raise the budgets; the rest of the record is as before. -/
theorem resume_agrees {increase : Option RunBudgets} {acceptChange : Bool}
    (command : receipt.command = .resume increase acceptChange)
    (agrees : Agrees start tx (some receipt)) (ok : resume tx increase acceptChange = .ok next) :
    Agrees { start with budgets := increase.elim start.budgets (raise start.budgets) } next
      (some receipt) := by
  have before : tx.record.budgets = start.budgets := congrArg Origin.budgets agrees.based
  unfold resume at ok
  split at ok
  · next requests reason state =>
    simp only [] at ok
    split at ok
    · cases ok
    · cases ok
      generalize domained : (if decide (reason = PauseReason.reducer "reducer_changed") = true then
        Option.map acceptReducer tx.record.domain else tx.record.domain) = domain
      have inbox : domain.map DomainBinding.inbox = tx.record.domain.map DomainBinding.inbox := by
        rw [← domained]
        split
        · cases tx.record.domain with
          | none => rfl
          | some binding =>
            unfold acceptReducer
            simp only [Option.map_some]
            split <;> rfl
        · rfl
      let readied : Tx :=
        { tx with
          record :=
            { tx.record with
              domain := domain
              budgets := increase.elim tx.record.budgets (raise tx.record.budgets)
              statusReason := none } }
      have based : readied.origin = originOf
          { start with budgets := increase.elim start.budgets (raise start.budgets) } := by
        have shape : readied.origin =
            { tx.origin with
              budgets := increase.elim tx.record.budgets (raise tx.record.budgets)
              inbox := domain.map DomainBinding.inbox } := rfl
        have inboxed : { tx.origin with
            budgets := increase.elim tx.record.budgets (raise tx.record.budgets)
            inbox := domain.map DomainBinding.inbox } =
          { tx.origin with
            budgets := increase.elim start.budgets (raise start.budgets) } := by
          rw [inbox, before]
          rfl
        rw [shape, inboxed, agrees.based]
        rfl
      have ready : Tracks { start with budgets := increase.elim start.budgets (raise start.budgets) }
          readied (tx.account (some receipt)) := 
          ⟨agrees.legal, agrees.replays, based, fun _ => clean_of_live (by simp [readied, state])⟩
      refine (ready.push (.resumed _) ⟨receipt, increase, acceptChange, rfl, command⟩).setState
        ⟨rfl, rfl, rfl, rfl, rfl, rfl, rfl, rfl, rfl, rfl⟩ rfl ?_ ?_ ?_ ?_ ?_ ?_ rfl ?_ ?_ ?_
      · simp [readied, state]
      · simp [state]
      · simp [state]
      · simp [readied, state]
      · simp [state]
      · simp [state]
      · intro _ _
        rfl
      · simp
      · simp
  · cases ok

theorem steer_agrees {input : Value} (agrees : Agrees start tx received)
    (live : tx.record.state.isTerminal = false) (ok : steer tx cmd input = .ok next) :
    Agrees start next received := by
  unfold steer at ok
  split at ok
  · cases ok
  · split at ok
    · cases ok
    · simp only [] at ok
      have pushed := Tracks.push agrees
        (.steerQueued (SteerId.nth tx.record.runId (tx.record.counters.steer + 1)))
        ⟨rfl, (RunState.status_isTerminal _).trans live⟩
      have queued : Agrees start
          { tx.push (.steerQueued (SteerId.nth tx.record.runId (tx.record.counters.steer + 1))) with
            record :=
              { tx.record with
                counters := { tx.record.counters with steer := tx.record.counters.steer + 1 }
                steerQueue := tx.record.steerQueue ++
                  [⟨SteerId.nth tx.record.runId (tx.record.counters.steer + 1), cmd.controlId, input,
                    tx.nextSeq⟩] } } received := by
        refine pushed.agreesWith rfl rfl id ?_ ?_ rfl rfl
        · exact ⟨rfl, by simp [queuedSteers, Tx.nextSeq], rfl, rfl, rfl, rfl, rfl, rfl, rfl, rfl⟩
        · exact ⟨rfl, rfl, rfl, rfl, rfl⟩
      split at ok
      · next requests state =>
        cases ok
        refine queued.setState _ ?_ ?_ rfl ?_ rfl ?_ rfl _
        · simp [state]
        · simp [state]
        · simp [state]
        · simp [state]
      · cases ok
        exact queued

theorem approve_agrees {decision : ApprovalDecision} {subjectDigest : String}
    (agrees : Agrees start tx received)
    (ok : approve tx cmd requestId decision subjectDigest = .ok next) :
    Agrees start next received := by
  unfold approve at ok
  cases found : findOpen tx requestId with
  | error reason => rw [found] at ok; cases ok
  | ok request =>
    obtain ⟨mem, named⟩ := findOpen_ok found
    rw [found] at ok
    simp only [bind, Except.bind] at ok
    split at ok
    · split at ok
      · cases ok
      · cases ok
        subst named
        exact agrees.resolveRequest mem (strOf_effect_id_optional _ _ (by simp [Value.lookup])) _
    · cases ok

theorem provideInput_agrees {value : Value} (agrees : Agrees start tx received)
    (ok : provideInput tx cmd requestId value = .ok next) : Agrees start next received := by
  unfold provideInput at ok
  cases found : findOpen tx requestId with
  | error reason => rw [found] at ok; cases ok
  | ok request =>
    obtain ⟨mem, named⟩ := findOpen_ok found
    rw [found] at ok
    simp only [bind, Except.bind] at ok
    split at ok
    · cases ok
      subst named
      exact agrees.resolveRequest mem (strOf_effect_id_optional _ _ (by simp [Value.lookup])) _
    · cases ok

/-- What a control leaves of the budgets. -/
def ControlKind.budgetsAfter (budgets : RunBudgets) : ControlKind → RunBudgets
  | .resume (some increase) _ => raise budgets increase
  | _ => budgets

theorem controlBody_handled (command : receipt.command = cmd.kind)
    (agrees : Agrees start tx (some receipt)) (live : tx.record.state.isTerminal = false)
    (ok : controlBody tx cmd = .ok next) :
    Handled { start with budgets := cmd.kind.budgetsAfter start.budgets } next receipt := by
  unfold controlBody at ok
  split at ok
  · next reason kind =>
    have done := (stop_agrees agrees live ok).handled (by simp [command, kind])
    rw [kind]
    exact done
  · next kind =>
    rw [kind]
    exact pause_handled (command.trans kind) agrees ok
  · next increase acceptChange kind =>
    have done := (resume_agrees (command.trans kind) agrees ok).handled (by simp [command, kind])
    rw [kind]
    cases increase <;> exact done
  · next input kind =>
    have done := (steer_agrees agrees live ok).handled (by simp [command, kind])
    rw [kind]
    exact done
  · next requestId decision digest kind =>
    have done := (approve_agrees agrees ok).handled (by simp [command, kind])
    rw [kind]
    exact done
  · next requestId value kind =>
    have done := (provideInput_agrees agrees ok).handled (by simp [command, kind])
    rw [kind]
    exact done

end ControlBodies

theorem receiveControl_agrees (record : AgentRunRecord) (cmd : ControlCommand) (now : Nat) :
    Agrees record (receiveControl record cmd now)
      (some ⟨cmd.controlId, cmd.kind, record.lastSeq + 1⟩) := by
  have pushed := Tracks.push (Agrees.new record now)
    (.controlReceived cmd.controlId cmd.kind cmd.issuedBy.redacted) rfl
  exact pushed.agrees ⟨rfl, rfl, rfl, rfl, rfl, rfl, rfl, rfl, rfl, rfl⟩ ⟨rfl, rfl, rfl, rfl, rfl⟩
    rfl

/-- A rejected control leaves only what it logged. -/
theorem rejected_agrees (record : AgentRunRecord) (cmd : ControlCommand) (reason : String)
    (now : Nat) :
    Agrees record
      ((receiveControl record cmd now).push (.controlRejected cmd.controlId reason)) none := by
  have pushed := Tracks.push (receiveControl_agrees record cmd now)
    (.controlRejected cmd.controlId reason)
    (fun receipt received => by cases received; exact ⟨rfl, rfl⟩)
  exact pushed.agrees ⟨rfl, rfl, rfl, rfl, rfl, rfl, rfl, rfl, rfl, rfl⟩ ⟨rfl, rfl, rfl, rfl, rfl⟩
    rfl

theorem logRejection_follows (cmd : ControlCommand) (reason : String) :
    Follows record (logRejection record cmd reason now) :=
  (rejected_agrees record cmd reason now).finish

/-- Only a resume that is applied changes the budgets. -/
theorem applyControl_follows (payloadDigest : ControlKind → String) (cmd : ControlCommand)
    (authorized : Bool) :
    ∃ budgets, (budgets = record.budgets ∨ budgets = cmd.kind.budgetsAfter record.budgets) ∧
      Follows { record with budgets := budgets }
        (applyControl payloadDigest record cmd authorized now).transition := by
  unfold applyControl
  simp only []
  split
  · next applied body =>
    split at body
    · cases body
    · split at body
      · cases body
      · next live =>
        obtain ⟨seen, tracks, received, same⟩ :=
          controlBody_handled rfl (receiveControl_agrees record cmd now)
            (Bool.eq_false_iff.mpr live) body
        have pushed := tracks.push (.controlApplied cmd.controlId) ⟨_, received, rfl⟩
        have account : seen.observe (.controlApplied cmd.controlId) =
            (applied.push (.controlApplied cmd.controlId)).account none := by
          have noted : seen.note (.controlApplied cmd.controlId) =
              { applied.account (some ⟨cmd.controlId, cmd.kind, record.lastSeq + 1⟩) with
                received := none } := by
            rw [← same, Ledger.note, received]
            ext1 <;> simp
          rw [Ledger.observe, noted, tracks.seq_eq]
          ext1 <;> simp [add_assoc]
        refine ⟨cmd.kind.budgetsAfter record.budgets, .inr rfl, Agrees.finish ?_⟩
        have agrees : Agrees { record with budgets := cmd.kind.budgetsAfter record.budgets }
            (applied.push (.controlApplied cmd.controlId)) none :=
          Eq.mp (congrArg (Tracks _ _) account) pushed
        exact agrees.same rfl rfl rfl id
  · next reason body =>
    refine ⟨record.budgets, .inl rfl, Agrees.finish ?_⟩
    exact (rejected_agrees record cmd reason now).same rfl rfl rfl id

theorem applyDelivery_follows (key deliveryId : String) (envelope : Value) (digest : String) :
    Follows record (applyDelivery record key deliveryId envelope digest now).1 := by
  have begun := Agrees.new record now
  unfold applyDelivery
  simp only []
  split
  · refine Agrees.finish ?_
    exact (begun.quiet (.controlRejected (externalId deliveryId) "request_not_open")
      (fun _ none => by cases none) rfl).same rfl rfl rfl id
  · next request found =>
    have mem : request ∈ record.state.openRequests := mem_of_find?_eq_some found
    have waits := find?_some found
    have effect : strOf "effect_id" (externalResolution request deliveryId) =
        request.effectId := by
      unfold externalResolution
      unfold waitsFor at waits
      split at waits
      · exact strOf_effect_id_optional _ _ (by simp [Value.lookup])
      · cases waits
    refine Agrees.finish ?_
    have stored : Agrees record
        (storeJson (Tx.new record now) (externalId deliveryId) envelope) none :=
      begun.same rfl rfl rfl id
    exact (stored.resolveRequest mem effect none).wakeForResult.same rfl rfl rfl id

end RaisinDB.Agents
