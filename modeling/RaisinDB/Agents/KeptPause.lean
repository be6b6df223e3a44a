import RaisinDB.Agents.HaltedRuns

/-!
# Pauses

Once a pause is applied, no operation is started under a new id until a resume is applied,
in every run that never gives up an operation while a pause is asked for.
-/

namespace RaisinDB.Agents

open List
open RaisinDB.Foundation (Value Machine)

namespace Ledger

/-- The operation in flight was in flight before, or it was counted since. -/
def FlyingOrCounted (ledger later : Ledger) : Prop :=
  ∀ op, later.op = some op →
    (∃ before, ledger.op = some before ∧ before.opId = op.opId) ∨
      ledger.counters.op < later.counters.op

theorem flyingOrCounted_observe {ledger current : Ledger} {kind : RunEventKind}
    (grows : Grows ledger current) (kept : FlyingOrCounted ledger current)
    (legal : current.Legal kind) : FlyingOrCounted ledger (current.observe kind) := by
  cases kind with
  | operationStarted opId kind effectId idempotencyKey replaySafe interruptible forCallId attempt =>
      intro op flying
      have view : op = ⟨opId, kind, effectId, idempotencyKey, replaySafe, interruptible,
          forCallId, attempt, current.epoch⟩ := by
        simpa [Ledger.observe, note] using flying.symm
      obtain ⟨_, _, _, ⟨idle, _⟩ | ⟨before, flew, _, again⟩⟩ := legal
      · refine .inr ?_
        have more := grows.op
        simp only [Ledger.observe, note, idle, Option.isNone_none, if_true]
        omega
      · have named : before.opId = op.opId := by
          rw [view]
          exact (congrArg OpView.opId again).symm
        rcases kept before flew with ⟨first, flying', same⟩ | counted
        · exact .inl ⟨first, flying', same.trans named⟩
        · refine .inr ?_
          simpa [Ledger.observe, note, flew] using counted
  | operationCompleted => intro op flying; simp [Ledger.observe, note] at flying
  | operationCancelled => intro op flying; simp [Ledger.observe, note] at flying
  | operationAbandoned => intro op flying; simp [Ledger.observe, note] at flying
  | turnStarted | steerQueued | requestOpened | checkpointWritten | childSpawned | childHandback
  | mailPosted =>
      intro op flying
      exact kept op flying
  | _ => exact kept

theorem flyingOrCounted_replay {ledger : Ledger} {kinds : List RunEventKind}
    (legal : LegalRun ledger kinds) : FlyingOrCounted ledger (ledger.replay kinds) := by
  have kept := replay_invariant
    (fun current => Grows ledger current ∧ FlyingOrCounted ledger current)
    (fun current kind before here => ⟨before.1.trans (grows_observe here),
      flyingOrCounted_observe before.1 before.2 here⟩)
    ⟨⟨le_rfl, le_rfl, le_rfl, le_rfl, le_rfl⟩,
      fun op flying => .inl ⟨op, flying, rfl⟩⟩ legal
  exact kept.2

/-- An operation that is started was in flight before, or it is counted. -/
theorem started_in_flight_or_counted {ledger : Ledger} {kinds : List RunEventKind}
    {opId : OperationId} (legal : LegalRun ledger kinds)
    (starts : kinds.any (startsOp opId) = true) :
    (∃ before, ledger.op = some before ∧ before.opId = opId) ∨
      ledger.counters.op < (ledger.replay kinds).counters.op := by
  obtain ⟨kind, mem, found⟩ := any_eq_true.mp starts
  obtain ⟨early, late, rfl⟩ := append_of_mem mem
  obtain ⟨before, here, after⟩ := legal.split
  have observed := flyingOrCounted_observe (grows_replay before) (flyingOrCounted_replay before) here
  have later := (grows_replay after).op
  rw [replay_append, replay_cons]
  cases kind with
  | operationStarted started kind effectId idempotencyKey replaySafe interruptible forCallId attempt =>
      have named : started = opId := by simpa [startsOp] using found
      rcases observed _ rfl with ⟨first, flying, same⟩ | counted
      · exact .inl ⟨first, flying, same.trans named⟩
      · exact .inr (counted.trans_le later)
  | _ => cases found

/-- The operation in flight was started. -/
def FlyingStarted (kinds : List RunEventKind) (ledger : Ledger) : Prop :=
  ∀ op, ledger.op = some op → kinds.any (startsOp op.opId) = true

theorem flyingStarted_observe {kinds : List RunEventKind} {ledger : Ledger} {kind : RunEventKind}
    (started : FlyingStarted kinds ledger) :
    FlyingStarted (kinds ++ [kind]) (ledger.observe kind) := by
  have still (same : (ledger.observe kind).op = ledger.op) :
      FlyingStarted (kinds ++ [kind]) (ledger.observe kind) := by
    intro op flying
    rw [any_append, started op (same.symm.trans flying), Bool.true_or]
  cases kind with
  | operationStarted opId kind effectId idempotencyKey replaySafe interruptible forCallId attempt =>
      intro op flying
      have named : opId = op.opId := by
        simpa [Ledger.observe, note] using congrArg (Option.map OpView.opId) flying
      rw [any_append]
      simp [startsOp, named]
  | operationCompleted => intro op flying; simp [Ledger.observe, note] at flying
  | operationCancelled => intro op flying; simp [Ledger.observe, note] at flying
  | operationAbandoned => intro op flying; simp [Ledger.observe, note] at flying
  | _ => exact still rfl

end Ledger

section Runs

variable {service : Service} {history : RunHistory} {call : Call} {commit : Commit}

/-- The operation in flight is in the log. -/
theorem Recorded.flying (recorded : Recorded history) {op : OpView}
    (flying : (ledgerOf history.run.record).op = some op) :
    (history.run.log.map RunEvent.kind).any (Ledger.startsOp op.opId) = true := by
  obtain ⟨created, rest, shape, ⟨subject, principal, budgets, text, kind⟩, legal⟩ :=
    recorded.logged.legal
  have replays := recorded.logged.replays
  have owner : created.runId = history.run.record.runId :=
    recorded.logged.owned created (by simp [shape])
  simp only [shape, Ledger.ofLog, kind, Option.some.injEq] at replays
  have kept := Ledger.history_invariant Ledger.FlyingStarted
    (fun _ _ _ started _ => Ledger.flyingStarted_observe started) []
    (fun _ none => by cases none) legal
  rw [nil_append, ← owner, replays] at kept
  rw [shape, map_cons, any_cons, kept op flying, Bool.or_true]

/-- A call that is acknowledged as applied. -/
def Acknowledged (command : ControlKind → Prop) (call : Call) (output : Option Commit) : Prop :=
  ∃ commit, output = some commit ∧ Applies command call.action commit.transition

/-- A call that starts an operation whose id is not in the log. -/
def StartsNew (history : RunHistory) (output : Option Commit) : Prop :=
  ∃ commit opId, output = some commit ∧
    commit.transition.kinds.any (Ledger.startsOp opId) = true ∧
    (history.run.log.map RunEvent.kind).any (Ledger.startsOp opId) = false

theorem startsNew_counts (recorded : Recorded history)
    (starts : StartsNew history (history.step service call).2) :
    history.run.record.counters.op < (history.step service call).1.run.record.counters.op := by
  obtain ⟨commit, opId, accepted, started, new⟩ := starts
  rcases step_cases service history call with ⟨other, run, ok, step⟩ | step
  · rw [step] at accepted ⊢
    cases accepted
    obtain ⟨_, committed⟩ := recorded.committed ok
    have counted := Ledger.started_in_flight_or_counted committed.legal started
    rw [committed.replays] at counted
    rcases counted with ⟨before, flying, same⟩ | more
    · have early := recorded.flying flying
      rw [same, new] at early
      cases early
    · exact more
  · rw [step] at accepted
    cases accepted

/-- What a call does to a halted run. -/
theorem step_halted (service : Service) (recorded : Recorded history)
    (halted : history.run.record.state.halted = true)
    (keeps : ¬ (call.record = history.run.record ∧
      DropsPause history.run.record call.action call.now)) :
    (history.step service call).1.run.record.counters.op = history.run.record.counters.op ∧
      ((history.step service call).1.run.record.state.halted = true ∨
        Acknowledged IsResume call (history.step service call).2) := by
  rcases step_cases service history call with ⟨commit, run, ok, step⟩ | step
  · obtain ⟨same, committed⟩ := recorded.committed ok
    rw [step]
    simp only []
    rw [committed.record]
    rcases transitionOf_halted halted (fun drops => keeps ⟨same, drops⟩) committed.computed with
      stays | ⟨resumed, op⟩
    · exact ⟨stays.op, .inl stays.halted⟩
    · exact ⟨op, .inr ⟨commit, rfl, resumed⟩⟩
  · rw [step]
    exact ⟨rfl, .inl halted⟩

theorem pause_halts {tx next : Tx} (ok : pause tx = .ok next) :
    next.record.state.halted = true := by
  have entered (current : Tx) (requests : List PendingRequest) :
      (enterUserPause current requests).record.state.halted = true := by
    simp only [enterUserPause, Tx.writeCheckpoint, Tx.push, Tx.setState_state]
    rfl
  unfold pause at ok
  split at ok
  · split at ok
    · cases ok
    · cases ok
      rfl
  · cases ok
    exact entered _ _
  · cases ok
    exact entered _ _
  · cases ok
  · cases ok
  · cases ok

theorem step_pauses (recorded : Recorded history)
    (paused : Acknowledged (· = .pause) call (history.step service call).2) :
    (history.step service call).1.run.record.state.halted = true := by
  obtain ⟨commit, accepted, cmd, system, seq, digest, action, kind, control⟩ := paused
  rcases step_cases service history call with ⟨other, run, ok, step⟩ | step
  · rw [step] at accepted ⊢
    cases accepted
    obtain ⟨_, committed⟩ := recorded.committed ok
    simp only []
    rw [committed.record]
    have computed := committed.computed
    rw [action] at computed
    have submitted := (unfenced_some computed).2
    unfold Service.submitControl at submitted
    split at submitted
    · split at submitted
      · cases submitted
      · simp only [Option.some.injEq] at submitted
        rw [← submitted] at control
        cases control
    · simp only [Option.some.injEq] at submitted
      rw [← submitted] at control ⊢
      unfold applyControl at control ⊢
      simp only [] at control ⊢
      split at control
      · next applied body =>
        split at body
        · cases body
        · split at body
          · cases body
          · unfold controlBody at body
            rw [kind] at body
            have halts := pause_halts body
            exact halts
      · simp [acknowledge, Tx.finish] at control
  · rw [step] at accepted
    cases accepted

end Runs

/-- In a run where no lease is taken over from an operation that may not be replayed while a pause is
asked for, nothing new is started between a pause and the next resume. -/
theorem pause_lasts_until_resume (service : Service) {record : AgentRunRecord}
    (started : Started record) (input : Value) (first middle : List Call)
    (pauseCall startCall : Call)
    (keeps : ∀ transition ∈ (runMachine service).transitions (RunHistory.start record input)
        (first ++ pauseCall :: (middle ++ [startCall])),
      ¬ (transition.event.record = transition.before.run.record ∧
        DropsPause transition.before.run.record transition.event.action transition.event.now))
    (paused : Acknowledged (· = .pause) pauseCall
      (((runMachine service).final (RunHistory.start record input) first).step service
        pauseCall).2)
    (starts : StartsNew
      ((runMachine service).final (RunHistory.start record input) (first ++ pauseCall :: middle))
      (((runMachine service).final (RunHistory.start record input)
        (first ++ pauseCall :: middle)).step service startCall).2) :
    ∃ transition ∈ (runMachine service).transitions
        ((runMachine service).final (RunHistory.start record input) (first ++ [pauseCall])) middle,
      Acknowledged IsResume transition.event transition.output := by
  have recorded := started.reaches service input (first ++ [pauseCall])
  have halted : ((runMachine service).final (RunHistory.start record input)
      (first ++ [pauseCall])).run.record.state.halted = true := by
    rw [Machine.final_append]
    exact step_pauses (started.reaches service input first) paused
  have split : first ++ pauseCall :: (middle ++ [startCall]) =
      (first ++ [pauseCall]) ++ (middle ++ [startCall]) := by simp
  have split' : first ++ pauseCall :: middle = (first ++ [pauseCall]) ++ middle := by simp
  rw [split, Machine.transitions_append] at keeps
  rw [split', Machine.final_append] at starts
  generalize (runMachine service).final (RunHistory.start record input)
    (first ++ [pauseCall]) = history at *
  by_contra none
  -- Without a resume the run is still halted when the operation is started.
  have still : Recorded ((runMachine service).final history middle) ∧
      ((runMachine service).final history middle).run.record.state.halted = true := by
    refine (runMachine service).final_invariant
      (fun later => Recorded later ∧ later.run.record.state.halted = true)
      (fun later call => ¬ (call.record = later.run.record ∧
          DropsPause later.run.record call.action call.now) ∧
        ¬ Acknowledged IsResume call (later.step service call).2) ?_ ⟨recorded, halted⟩ ?_
    · rintro later call ⟨recorded', halted'⟩ ⟨keeps', notResumed⟩
      refine ⟨recorded'.step call, ?_⟩
      exact (step_halted service recorded' halted' keeps').2.resolve_right notResumed
    · intro transition mem
      refine ⟨keeps transition (mem_append_right _ ?_), fun resumed => none ⟨transition, mem, ?_⟩⟩
      · rw [Machine.transitions_append]
        exact mem_append_left _ mem
      · obtain ⟨early, event, late, _, rfl⟩ := (runMachine service).mem_transitions_iff.mp mem
        exact resumed
  have last := keeps ⟨_, startCall, _, _⟩ (mem_append_right _
    ((runMachine service).mem_transitions_iff.mpr ⟨middle, startCall, [], rfl, rfl⟩))
  have counted := startsNew_counts still.1 starts
  have same : (((runMachine service).final history middle).step service
      startCall).1.run.record.counters.op =
      ((runMachine service).final history middle).run.record.counters.op :=
    (step_halted service still.1 still.2 last).1
  exact absurd same (Nat.ne_of_gt counted)

theorem acknowledged_some {command : ControlKind → Prop} {call : Call} {output : Option Commit}
    {cmd : ControlCommand} {system : Bool} {seq : Nat} {digest : String}
    (action : call.action = .control cmd system) (kind : command cmd.kind)
    (applied : output.bind (fun commit => commit.transition.control) =
      some (cmd.controlId, .applied seq, digest)) :
    Acknowledged command call output := by
  obtain ⟨commit, accepted, control⟩ := Option.bind_eq_some_iff.mp applied
  exact ⟨commit, accepted, cmd, system, seq, digest, action, kind, control⟩

theorem startsNew_some {history : RunHistory} {output : Option Commit} {opId : String}
    (started : output.any (fun commit => commit.transition.kinds.any (Ledger.startsOp opId)) = true)
    (new : (history.run.log.map RunEvent.kind).any (Ledger.startsOp opId) = false) :
    StartsNew history output := by
  cases output with
  | none => cases started
  | some commit => exact ⟨commit, opId, rfl, started, new⟩

def Action.isTakeover : Action → Bool
  | .takeover _ => true
  | _ => false

/-- A run that is paused while idle and resumed, one call after the other. -/
def idleCalls : List Call := plainCalls [(.acquire "a", 1)]

def idleHistory : RunHistory :=
  (runMachine plainService).final (RunHistory.start plainRecord .null) idleCalls

def pauseIdle : Call :=
  ⟨idleHistory.run.record, .control ⟨"p", .pause, ⟨.user, "user", none⟩⟩ false, 2⟩

def pausedHistory : RunHistory :=
  (runMachine plainService).final (RunHistory.start plainRecord .null) (idleCalls ++ [pauseIdle])

def resumeIt : List Call :=
  freshCalls plainService pausedHistory
    [(.control ⟨"r", .resume none false, ⟨.user, "user", none⟩⟩ false, 3), (.acquire "a", 4)]

def resumedHistory : RunHistory :=
  (runMachine plainService).final (RunHistory.start plainRecord .null)
    (idleCalls ++ pauseIdle :: resumeIt)

def startAgain : Call := ⟨resumedHistory.run.record, .begin ⟨"a", 3⟩ {}, 5⟩

theorem idle_pause_lasts :
    ∃ transition ∈ (runMachine plainService).transitions pausedHistory resumeIt,
      Acknowledged IsResume transition.event transition.output := by
  refine pause_lasts_until_resume plainService (.new plainRequest "run" 0) .null idleCalls resumeIt
    pauseIdle startAgain ?_ ?_ ?_
  · rintro transition mem ⟨_, ⟨owner, takes⟩, _⟩
    have none : (idleCalls ++ pauseIdle :: (resumeIt ++ [startAgain])).any
        (fun call => call.action.isTakeover) = false := by decide +kernel
    have here := any_eq_false.mp none _ (Machine.event_mem _ mem)
    exact here (by rw [takes]; rfl)
  · exact acknowledged_some rfl rfl (by decide +kernel :
      (idleHistory.step plainService pauseIdle).2.bind (fun commit => commit.transition.control) =
        some ("p", .applied 8, ""))
  · exact startsNew_some (by decide +kernel : (resumedHistory.step plainService startAgain).2.any
      (fun commit => commit.transition.kinds.any (Ledger.startsOp "run/op/1")) = true)
      (by decide +kernel)

/-! ## A pause that is forgotten -/

/-- An operation that may not be replayed is in flight. -/
def inFlight : List Call := plainCalls [(.acquire "a", 1), (.begin ⟨"a", 1⟩ {}, 2)]

def flyingHistory : RunHistory :=
  (runMachine plainService).final (RunHistory.start plainRecord .null) inFlight

def pauseIt : Call := ⟨flyingHistory.run.record, .control ⟨"c", .pause, ⟨.user, "user", none⟩⟩ false, 3⟩

def pausingHistory : RunHistory := (flyingHistory.step plainService pauseIt).1

/-- Its driver is gone; another one takes over. -/
def takeItOver : List Call :=
  freshCalls plainService pausingHistory [(.takeover "b", 5000), (.acquire "b", 5001)]

def takenHistory : RunHistory := (runMachine plainService).final pausingHistory takeItOver

def startAnother : Call := ⟨takenHistory.run.record, .begin ⟨"b", 4⟩ {}, 5002⟩

/-- The takeover gives the operation up and queues the run, and the pause is gone. -/
theorem takeover_forgets_pause :
    ¬ ∀ (first middle : List Call) (pauseCall startCall : Call),
      Acknowledged (· = .pause) pauseCall
        (((runMachine plainService).final (RunHistory.start plainRecord .null) first).step
          plainService pauseCall).2 →
      StartsNew
        ((runMachine plainService).final (RunHistory.start plainRecord .null)
          (first ++ pauseCall :: middle))
        (((runMachine plainService).final (RunHistory.start plainRecord .null)
          (first ++ pauseCall :: middle)).step plainService startCall).2 →
      ∃ transition ∈ (runMachine plainService).transitions
          ((runMachine plainService).final (RunHistory.start plainRecord .null)
            (first ++ [pauseCall])) middle,
        Acknowledged IsResume transition.event transition.output := by
  intro lasts
  have paused : Acknowledged (· = .pause) pauseIt (flyingHistory.step plainService pauseIt).2 :=
    acknowledged_some rfl rfl (by decide +kernel :
      (flyingHistory.step plainService pauseIt).2.bind (fun commit => commit.transition.control) =
        some ("c", .applied 7, ""))
  have reached : (runMachine plainService).final (RunHistory.start plainRecord .null)
      (inFlight ++ pauseIt :: takeItOver) = takenHistory := by
    rw [Machine.final_append]
    rfl
  have starts : StartsNew takenHistory (takenHistory.step plainService startAnother).2 :=
    startsNew_some (by decide +kernel : (takenHistory.step plainService startAnother).2.any
      (fun commit => commit.transition.kinds.any (Ledger.startsOp "run/op/2")) = true)
      (by decide +kernel)
  obtain ⟨transition, mem, _, _, cmd, system, _, _, action, _⟩ :=
    lasts inFlight takeItOver pauseIt startAnother paused (by rw [reached]; exact starts)
  have none : takeItOver.any (fun call => call.action.isControl) = false := by decide +kernel
  have here := any_eq_false.mp none _ (Machine.event_mem _ mem)
  exact here (by rw [action]; rfl)

end RaisinDB.Agents
