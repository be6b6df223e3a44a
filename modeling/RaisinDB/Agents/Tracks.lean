import RaisinDB.Agents.Ledger
import RaisinDB.Foundation.Fallible

/-!
# What a transition under construction has said

Every step that builds a transition keeps its events legal and its record in line with
them.  A step that pushes an event before it changes the record, or changes the state
last, leaves the two apart for a moment; `Tracks` is what holds then.
-/

namespace RaisinDB.Agents

open List
open RaisinDB.Foundation (Value ok_of_bind)

namespace Tx

def kinds (tx : Tx) : List RunEventKind := tx.events.map NewEvent.kind

/-- What the record says while a control is handled. -/
def account (tx : Tx) (received : Option Receipt) : Ledger :=
  { ledgerOf tx.record with seq := tx.baseSeq + tx.events.length, received := received }

theorem endTurn_record (tx : Tx) : tx.endTurn.record = { tx.record with currentTurn := none } := by
  cases current : tx.record.currentTurn with
  | none =>
    have same : tx.endTurn = tx := by simp [endTurn, current]
    rw [same, ← current]
  | some turn => simp [endTurn, current]

/-- What it says once nothing is in flight and these requests are open. -/
def between (tx : Tx) (received : Option Receipt) (requests : List PendingRequest) : Ledger :=
  { tx.account received with op := none, requests := requests }

@[simp] theorem kinds_push (tx : Tx) (kind : RunEventKind) :
    (tx.push kind).kinds = tx.kinds ++ [kind] := by simp [push, kinds]

end Tx

/-- What was so before the transition and is still so. -/
def Tx.origin (tx : Tx) : Origin :=
  { originOf tx.record with seq := tx.baseSeq, version := tx.baseVersion }

/-- The events so far are legal and say this of the run. -/
structure Tracks (start : AgentRunRecord) (tx : Tx) (seen : Ledger) : Prop where
  legal : (ledgerOf start).LegalRun tx.kinds
  replays : (ledgerOf start).replay tx.kinds = seen
  based : tx.origin = originOf start
  clean : start.Clean → tx.record.Clean

/-- The account and the record agree on everything that the state does not decide. -/
structure Framed (seen : Ledger) (record : AgentRunRecord) : Prop where
  runId : seen.runId = record.runId
  steers : seen.steers = queuedSteers record.steerQueue
  turn : seen.turn = record.currentTurn
  epoch : seen.epoch = record.leaseEpoch
  mailbox : seen.mailbox = record.mailbox
  children : seen.children = linkViews record.children
  counters : seen.counters = record.counters
  lastCheckpoint : seen.lastCheckpoint = record.lastCheckpointSeq
  operations : seen.operations = record.usage.operations
  modelCalls : seen.modelCalls = record.usage.modelCalls

/-- They agree on what the state decides. -/
structure Stated (seen : Ledger) (state : RunState) : Prop where
  status : seen.status = state.status
  requests : seen.requests = state.openRequests
  op : seen.op = state.activeOp.map ActiveOperation.view
  pausing : seen.pausing = state.pausing
  owner : seen.owner = state.lease.map Lease.view

/-- What the events say is what the record says. -/
def Agrees (start : AgentRunRecord) (tx : Tx) (received : Option Receipt) : Prop :=
  Tracks start tx (tx.account received)

theorem framed_account (tx : Tx) (received : Option Receipt) :
    Framed (tx.account received) tx.record := ⟨rfl, rfl, rfl, rfl, rfl, rfl, rfl, rfl, rfl, rfl⟩

theorem framed_between (tx : Tx) (received : Option Receipt) (requests : List PendingRequest) :
    Framed (tx.between received requests) tx.record :=
  ⟨rfl, rfl, rfl, rfl, rfl, rfl, rfl, rfl, rfl, rfl⟩

/-- With nothing in flight and these requests open, only the rest of the state must fit. -/
theorem stated_between (tx : Tx) (received : Option Receipt) (requests : List PendingRequest)
    {state : RunState} (status : tx.record.state.status = state.status)
    (opened : requests = state.openRequests) (noOp : state.activeOp = none)
    (pausing : tx.record.state.pausing = state.pausing)
    (lease : tx.record.state.lease = state.lease) :
    Stated (tx.between received requests) state :=
  ⟨status, opened, by rw [noOp]; rfl, pausing, congrArg (Option.map Lease.view) lease⟩

attribute [local simp] Tx.between Tx.account ledgerOf Ledger.observe Ledger.note legalChanges

namespace Tracks

variable {start : AgentRunRecord} {seen : Ledger} {tx tx' : Tx}

theorem seq_eq (tracks : Tracks start tx seen) : seen.seq = tx.baseSeq + tx.events.length := by
  have numbered : tx.baseSeq = start.lastSeq := congrArg Origin.seq tracks.based
  rw [← tracks.replays, Ledger.replay_seq, numbered, Tx.kinds, length_map]
  rfl

/-- Only the events matter. -/
theorem same (tracks : Tracks start tx seen) (events : tx'.events = tx.events)
    (based : tx'.origin = tx.origin) (clean : tx.record.Clean → tx'.record.Clean) :
    Tracks start tx' seen := by
  have kinds : tx'.kinds = tx.kinds := by rw [Tx.kinds, Tx.kinds, events]
  exact ⟨kinds ▸ tracks.legal, kinds ▸ tracks.replays, based ▸ tracks.based, clean ∘ tracks.clean⟩

/-- A legal event may be pushed, on whatever record. -/
theorem event (tracks : Tracks start tx seen) (kind : RunEventKind)
    (legal : seen.Legal kind) (kinds : tx'.kinds = tx.kinds ++ [kind])
    (based : tx'.origin = tx.origin) (clean : tx.record.Clean → tx'.record.Clean) :
    Tracks start tx' (seen.observe kind) := by
  refine ⟨?_, ?_, based ▸ tracks.based, clean ∘ tracks.clean⟩
  · rw [kinds, Ledger.legalRun_append, tracks.replays]
    exact ⟨tracks.legal, legal, trivial⟩
  · rw [kinds, Ledger.replay_append, tracks.replays, Ledger.replay_cons, Ledger.replay_nil]

theorem push (tracks : Tracks start tx seen) (kind : RunEventKind) (legal : seen.Legal kind) :
    Tracks start (tx.push kind) (seen.observe kind) :=
  tracks.event kind legal (tx.kinds_push kind) rfl id

theorem agrees (tracks : Tracks start tx seen) (framed : Framed seen tx.record)
    (stated : Stated seen tx.record.state) (resumed : seen.resumed = false) :
    Agrees start tx seen.received := by
  have same : seen = tx.account seen.received :=
    Ledger.ext framed.runId tracks.seq_eq stated.status stated.requests framed.steers framed.turn
      stated.op stated.pausing stated.owner framed.epoch framed.mailbox framed.children
      framed.counters framed.lastCheckpoint framed.operations framed.modelCalls rfl resumed
  exact same ▸ tracks

/-- The record may be changed after the event. -/
theorem agreesWith {received : Option Receipt} (tracks : Tracks start tx seen)
    (events : tx'.events = tx.events) (based : tx'.origin = tx.origin)
    (clean : tx.record.Clean → tx'.record.Clean) (framed : Framed seen tx'.record) (stated : Stated seen tx'.record.state)
    (resumed : seen.resumed = false) (received' : seen.received = received) :
    Agrees start tx' received := received' ▸ (tracks.same events based clean).agrees framed stated resumed

/-- The open turn ends. -/
theorem endTurn (tracks : Tracks start tx seen) (turn : seen.turn = tx.record.currentTurn) :
    Tracks start tx.endTurn
      { seen with turn := none, seq := tx.baseSeq + tx.endTurn.events.length } := by
  have numbered := tracks.seq_eq
  cases current : tx.record.currentTurn with
  | none =>
    have same : { seen with turn := none, seq := tx.baseSeq + tx.endTurn.events.length } = seen := by
      ext1 <;> simp [Tx.endTurn, current, turn, numbered]
    rw [same]
    have unchanged : tx.endTurn = tx := by simp [Tx.endTurn, current]
    rw [unchanged]
    exact tracks
  | some number =>
    have ended : Tracks start tx.endTurn (seen.observe (.turnEnded number)) :=
      tracks.event (.turnEnded number) (turn.trans current) (by simp [Tx.endTurn, current, Tx.kinds])
        (by simp only [Tx.endTurn, current]; rfl) (by simp only [Tx.endTurn, current]; exact id)
    convert ended using 1
    ext1 <;> simp [Tx.endTurn, current, numbered, add_assoc]

/-- The lease is released under the next epoch. -/
theorem releaseLease (tracks : Tracks start tx seen) (held : seen.owner.isSome = true)
    (epoch : seen.epoch = tx.record.leaseEpoch) :
    Tracks start tx.releaseLease (seen.observe (.leaseReleased (seen.epoch + 1))) := by
  rw [epoch]
  exact tracks.event _ ⟨held, by rw [epoch]⟩
    (by simp [Tx.releaseLease, Tx.bumpEpoch, Tx.kinds, Tx.push]) rfl id

end Tracks

/-! ## A change of state -/

namespace Tx

variable (tx : Tx) (next : RunState)

@[simp] theorem wakeFor_events : (tx.wakeFor next).events = tx.events := by
  cases next <;> simp only [wakeFor]
  split <;> rfl

@[simp] theorem wakeFor_record : (tx.wakeFor next).record = tx.record := by
  cases next <;> simp only [wakeFor]
  split <;> rfl

@[simp] theorem enter_events : (tx.enter next).events = tx.events := by
  simp only [enter, setRecordState, wakeFor_events]
  split <;> rfl

@[simp] theorem wakeFor_origin : (tx.wakeFor next).origin = tx.origin := by
  cases next <;> simp only [wakeFor]
  split <;> rfl

/-- An ended projection moves neither the state nor the inbox. -/
theorem supersedeProjection_origin : tx.supersedeProjection.origin = tx.origin := by
  unfold origin originOf supersedeProjection
  cases tx.record.domain <;> rfl

@[simp] theorem enter_origin : (tx.enter next).origin = tx.origin := by
  have set (current : Tx) : (current.setRecordState next).origin = current.origin := rfl
  rw [enter, set, wakeFor_origin]
  split
  · exact tx.supersedeProjection_origin
  · rfl

/-- Only the binding changes with the state. -/
theorem enter_record :
    ∃ domain, (tx.enter next).record = { tx.record with domain := domain, state := next } := by
  simp only [enter, setRecordState, wakeFor_record]
  split
  · exact ⟨_, rfl⟩
  · exact ⟨tx.record.domain, rfl⟩

/-- A state that is not the last one owes nothing yet; the last one is entered with no call open. -/
theorem enter_clean (calls : next.isTerminal = true → tx.record.unansweredCalls = []) :
    (tx.enter next).record.Clean := by
  cases ends : next.isTerminal with
  | false => exact clean_of_live ends
  | true =>
    have shape : (tx.enter next).record =
        { tx.record with
          state := next
          domain := tx.record.domain.map fun binding =>
            { binding with projectionSuperseded := true, outbox := none } } := by
      simp [enter, ends, setRecordState, supersedeProjection]
    intro _
    rw [shape]
    exact ⟨calls ends, by cases tx.record.domain <;> rfl⟩

@[simp] theorem enter_state : (tx.enter next).record.state = next := rfl

@[simp] theorem setState_state (reason : Option String) :
    (tx.setState next reason).record.state = next := by
  simp only [setState]
  split <;> rfl

end Tx

theorem Framed.enter {seen : Ledger} {tx : Tx} (framed : Framed seen tx.record) (next : RunState) :
    Framed seen (tx.enter next).record := by
  obtain ⟨domain, record⟩ := tx.enter_record next
  rw [record]
  exact { framed with }

/-- The fields of the account that a release changes. -/
structure LeftLease (seen left : Ledger) (released : Bool) : Prop where
  status : left.status = seen.status
  requests : left.requests = seen.requests
  op : left.op = seen.op
  pausing : left.pausing = seen.pausing
  steers : left.steers = seen.steers
  received : left.received = seen.received
  resumed : left.resumed = seen.resumed
  owner : left.owner = if released then none else seen.owner

theorem Tx.leaveLease_calls (tx : Tx) (next : RunState) :
    (tx.leaveLease next).record.unansweredCalls = tx.record.unansweredCalls := by
  unfold Tx.leaveLease
  split
  · simp [Tx.releaseLease, Tx.bumpEpoch, Tx.push, Tx.endTurn_record]
  · rfl

/-- The turn and the lease end when the next state holds no lease. -/
theorem Tracks.leaveLease {start : AgentRunRecord} {seen : Ledger} {tx : Tx} (tracks : Tracks start tx seen)
    (framed : Framed seen tx.record) (next : RunState)
    (held : tx.record.state.lease.isSome = true → seen.owner.isSome = true) :
    ∃ left, Tracks start (tx.leaveLease next) left ∧ Framed left (tx.leaveLease next).record ∧
      LeftLease seen left (tx.record.state.lease.isSome && next.lease.isNone) := by
  cases leaving : tx.record.state.lease.isSome && next.lease.isNone with
  | false =>
    have same : tx.leaveLease next = tx := if_neg (by rw [leaving]; simp)
    rw [same]
    exact ⟨seen, tracks, framed, ⟨rfl, rfl, rfl, rfl, rfl, rfl, rfl, by simp⟩⟩
  | true =>
    have step : tx.leaveLease next = tx.endTurn.releaseLease := if_pos leaving
    have owned := held (by simp at leaving; exact leaving.1)
    have ended := tracks.endTurn framed.turn
    have epoch : seen.epoch = tx.endTurn.record.leaseEpoch := by
      rw [tx.endTurn_record]
      exact framed.epoch
    have released := ended.releaseLease owned epoch
    rw [step]
    refine ⟨_, released, ?_, ⟨rfl, rfl, rfl, rfl, rfl, rfl, rfl, rfl⟩⟩
    have after : tx.endTurn.releaseLease.record =
        { tx.record with currentTurn := none, leaseEpoch := tx.record.leaseEpoch + 1 } := by
      simp [Tx.releaseLease, Tx.bumpEpoch, Tx.push, Tx.endTurn_record]
    rw [after]
    exact { framed with turn := rfl, epoch := by simp [framed.epoch] }

theorem ne_of_legal {source target : RunStatus} (legal : (source, target) ∈ legalChanges) :
    source ≠ target := by
  rintro rfl
  cases source <;> simp at legal

/-- A change of status.  What is still open and in flight must be what the next state says. -/
theorem Tracks.setState {start : AgentRunRecord} {seen : Ledger} {tx : Tx} {next : RunState}
    {reason : Option String} (tracks : Tracks start tx seen) (framed : Framed seen tx.record)
    (status : seen.status = tx.record.state.status)
    (changes : (tx.record.state.status, next.status) ∈ legalChanges)
    (requests : seen.requests = next.openRequests)
    (op : seen.op = next.activeOp.map ActiveOperation.view)
    (held : tx.record.state.lease.isSome = true → seen.owner.isSome = true)
    (owner : next.lease.isSome = true ∨ tx.record.state.lease = none →
      seen.owner = next.lease.map Lease.view)
    (pausing : seen.pausing = true → next.status = .paused ∨ next.status = .cancelling)
    (quiet : next.pausing = false)
    (resumed : tx.record.state.status = .paused → next.status = .queued → seen.resumed = true)
    (steers : next.isTerminal = true → seen.steers = [])
    (calls : next.isTerminal = true → tx.record.unansweredCalls = []) :
    Agrees start (tx.setState next reason) seen.received := by
  obtain ⟨left, leftTracks, leftFramed, leaves⟩ := tracks.leaveLease framed next held
  have ownerAfter : left.owner = next.lease.map Lease.view := by
    rw [leaves.owner]
    cases hold : tx.record.state.lease with
    | none => simpa [hold] using owner (.inr hold)
    | some lease =>
      cases hnext : next.lease with
      | none => rfl
      | some lease' => simpa [hnext] using owner (.inl (by simp [hnext]))
  have entered : Tracks start ((tx.leaveLease next).enter next) left :=
    leftTracks.same (Tx.enter_events _ _) (Tx.enter_origin _ _)
      fun _ => Tx.enter_clean _ _ fun ends => (tx.leaveLease_calls next).trans (calls ends)
  have moves : left.MayChange tx.record.state.status next.status := by
    refine ⟨by rw [leaves.status, status], changes, ?_, ?_, ?_, ?_⟩
    · intro ends
      have last : next.isTerminal = true := by rw [← next.status_isTerminal]; exact ends
      rw [leaves.op, leaves.requests, leaves.steers, op, requests, steers last]
      cases next <;> simp at last ⊢
    · intro notRunning notCancelling
      rw [ownerAfter]
      cases next <;> simp at notRunning notCancelling ⊢
    · rw [leaves.pausing]
      exact pausing
    · rw [leaves.resumed]
      exact resumed
  have pushed := entered.push (.statusChanged tx.record.state.status next.status reason) moves
  have step : tx.setState next reason = ((tx.leaveLease next).enter next).push
      (.statusChanged tx.record.state.status next.status reason) := if_neg (ne_of_legal changes)
  have inFrame := leftFramed.enter next
  rw [step, ← leaves.received]
  refine pushed.agrees ?_ ?_ rfl
  · exact { inFrame with }
  · exact ⟨rfl, leaves.requests.trans requests, leaves.op.trans op, quiet.symm, ownerAfter⟩

/-! ## Steps that leave no gap -/

namespace Agrees

variable {start : AgentRunRecord} {tx tx' : Tx} {received : Option Receipt}

theorem new (record : AgentRunRecord) (now : Nat) :
    Agrees record (Tx.new record now) none := ⟨trivial, rfl, rfl, id⟩

/-- What the account does not mention may change. -/
theorem same (agrees : Agrees start tx received) (events : tx'.events = tx.events)
    (based : tx'.origin = tx.origin) (record : ledgerOf tx'.record = ledgerOf tx.record)
    (clean : tx.record.Clean → tx'.record.Clean) : Agrees start tx' received := by
  have account : tx'.account received = tx.account received := by
    have numbered : tx'.baseSeq = tx.baseSeq := congrArg Origin.seq based
    rw [Tx.account, Tx.account, record, events, numbered]
  unfold Agrees
  rw [account]
  exact Tracks.same agrees events based clean

/-- An event that says nothing of what the account mentions. -/
theorem quiet (agrees : Agrees start tx received) (kind : RunEventKind)
    (legal : (tx.account received).Legal kind)
    (noted : (tx.account received).note kind = tx.account received) :
    Agrees start (tx.push kind) received := by
  have pushed := Tracks.push agrees kind legal
  have account : (tx.account received).observe kind = (tx.push kind).account received := by
    rw [Ledger.observe, noted]
    ext1 <;> simp [Tx.push, add_assoc]
  exact Eq.mp (congrArg (Tracks start (tx.push kind)) account) pushed

theorem finish (agrees : Agrees start tx none) : Follows start tx.finish := by
  have numbered : tx.baseSeq = start.lastSeq := congrArg Origin.seq agrees.based
  have versioned : tx.baseVersion = start.version := congrArg Origin.version agrees.based
  refine ⟨agrees.legal, agrees.replays, versioned, ?_, agrees.clean⟩
  have shape : originOf tx.finish.record =
      { tx.origin with seq := tx.baseSeq + tx.events.length, version := tx.baseVersion + 1 } := rfl
  rw [shape, agrees.based, numbered, versioned]
  rfl

theorem writeCheckpoint (agrees : Agrees start tx received) (reason : CheckpointReason)
    (summary : Option String) : Agrees start (tx.writeCheckpoint reason summary) received := by
  have written : Tracks start (tx.writeCheckpoint reason summary) _ :=
    Tracks.event agrees
      (.checkpointWritten (tx.record.counters.checkpoint + 1) tx.nextSeq reason)
      ⟨rfl, rfl⟩ (by simp [Tx.writeCheckpoint, Tx.push, Tx.kinds]) rfl id
  exact written.agrees ⟨rfl, rfl, rfl, rfl, rfl, rfl, rfl, rfl, rfl, rfl⟩
    ⟨rfl, rfl, rfl, rfl, rfl⟩ rfl

end Agrees

/-! ## The end of a run -/

theorem Tx.closeRequests_record (tx : Tx) (reason : String) (requests : List PendingRequest) :
    (tx.closeRequests reason requests).record = tx.record := by
  induction requests generalizing tx with
  | nil => rfl
  | cons request rest ih => exact ih (tx.push (.requestClosed request.requestId reason))

theorem Tracks.closeRequests {start : AgentRunRecord} {seen : Ledger} {tx : Tx} (tracks : Tracks start tx seen)
    (reason : String) :
    Tracks start (tx.closeRequests reason seen.requests)
      { seen with requests := [], seq := seen.seq + seen.requests.length } := by
  generalize opened : seen.requests = requests
  induction requests generalizing tx seen with
  | nil =>
    have same : { seen with requests := [], seq := seen.seq } = seen := by rw [← opened]
    exact same.symm ▸ tracks
  | cons request rest ih =>
    have mem : request ∈ seen.requests := by rw [opened]; exact mem_cons_self
    have pushed := tracks.push (.requestClosed request.requestId reason) ⟨request, mem, rfl⟩
    have left : (seen.observe (.requestClosed request.requestId reason)).requests = rest := by
      simp [opened]
    have closed := ih pushed left
    have same : { seen.observe (.requestClosed request.requestId reason) with
          requests := []
          seq := (seen.observe (.requestClosed request.requestId reason)).seq + rest.length } =
        { seen with requests := [], seq := seen.seq + (request :: rest).length } := by
      ext1 <;> simp
      omega
    exact same ▸ closed

theorem Tx.discardSteers_record (tx : Tx) :
    tx.discardSteers.record = { tx.record with steerQueue := [] } := by
  have run (current : Tx) (steers : List SteerEntry) :
      (steers.foldl (fun current steer => current.push (.steerDiscarded steer.steerId))
        current).record = current.record := by
    induction steers generalizing current with
    | nil => rfl
    | cons steer rest ih => exact ih (current.push (.steerDiscarded steer.steerId))
  exact run _ _

theorem Tracks.discardSteers {start : AgentRunRecord} {seen : Ledger} {tx : Tx} (tracks : Tracks start tx seen)
    (steers : seen.steers = queuedSteers tx.record.steerQueue) :
    Tracks start tx.discardSteers
      { seen with steers := [], seq := seen.seq + tx.record.steerQueue.length } := by
  unfold Tx.discardSteers
  have cleared : Tracks start { tx with record := { tx.record with steerQueue := [] } } seen :=
    tracks.same rfl rfl id
  revert cleared
  generalize { tx with record := { tx.record with steerQueue := [] } } = current
  generalize tx.record.steerQueue = queue at steers ⊢
  intro cleared
  clear tracks
  induction queue generalizing current seen with
  | nil =>
    have none : seen.steers = [] := steers
    have same : { seen with steers := [], seq := seen.seq } = seen := by rw [← none]
    exact same.symm ▸ cleared
  | cons steer rest ih =>
    have pushed := cleared.push (.steerDiscarded steer.steerId) (by rw [Ledger.Legal, steers]; rfl)
    have left : (seen.observe (.steerDiscarded steer.steerId)).steers = queuedSteers rest := by
      simp [steers, queuedSteers]
    have discarded := ih _ left pushed
    have same : { seen.observe (.steerDiscarded steer.steerId) with
          steers := []
          seq := (seen.observe (.steerDiscarded steer.steerId)).seq + rest.length } =
        { seen with steers := [], seq := seen.seq + (steer :: rest).length } := by
      ext1 <;> simp
      omega
    exact same ▸ discarded

/-- A run that ends closes what is open and discards what is queued. -/
theorem Tracks.terminate {start : AgentRunRecord} {tx : Tx} {received : Option Receipt}
    {ended : TerminalStatus} {outcome : RunOutcome} {reason : Option String}
    (tracks : Tracks start tx (tx.between received tx.record.state.openRequests))
    (changes : (tx.record.state.status, ended.status) ∈ legalChanges)
    (quiet : tx.record.state.pausing = false) :
    Agrees start (tx.terminate ended outcome reason) received := by
  have record := tx.closeRequests_record "cancelled" tx.record.state.openRequests
  have closed : Tracks start (tx.closeRequests "cancelled" tx.record.state.openRequests) _ :=
    tracks.closeRequests "cancelled"
  have discarded := closed.discardSteers (congrArg (queuedSteers ∘ AgentRunRecord.steerQueue)
    record.symm)
  let cleared : Tx :=
    { (tx.closeRequests "cancelled" tx.record.state.openRequests).discardSteers with
      record :=
        { (tx.closeRequests "cancelled" tx.record.state.openRequests).discardSteers.record with
          unansweredCalls := [], statusReason := reason } }
  have same : Tracks start cleared _ :=
    discarded.same rfl rfl fun clean ends => ⟨rfl, (clean ends).2⟩
  have fields : cleared.record =
      { tx.record with steerQueue := [], unansweredCalls := [], statusReason := reason } := by
    simp only [cleared, Tx.discardSteers_record, record]
  have moved : Agrees start (cleared.setState (.terminal ended outcome) reason) received := by
    refine same.setState ?_ ?_ ?_ rfl rfl ?_ ?_ ?_ rfl ?_ (fun _ => rfl) ?_
    · rw [fields]
      exact ⟨rfl, rfl, rfl, rfl, rfl, rfl, rfl, rfl, rfl, rfl⟩
    · rw [fields]
      rfl
    · rw [fields]
      exact changes
    · simp [fields]
    · simp [fields]
    · simp [quiet]
    · intro _ queued
      cases ended <;> cases queued
    · simp [fields]
  exact Agrees.quiet moved _ trivial rfl

/-! ## Requests -/

/-- A state of a run between operations in which these requests are open instead. -/
structure RunState.LeftWith (requests : List PendingRequest) (state next : RunState) : Prop where
  requests : next.openRequests = requests
  status : next.status = state.status
  wasIdle : state.activeOp = none
  noOp : next.activeOp = none
  pausing : next.pausing = state.pausing
  lease : next.lease = state.lease
  live : next.isTerminal = false

/-- A request that is taken away leaves the state, or the last one of a waiting run queues it. -/
theorem Tx.removeRequest_cases (tx : Tx) (requestId : RequestId) :
    (tx.removeRequest requestId = tx ∧
      ∀ request ∈ tx.record.state.openRequests, ¬ (request.requestId == requestId) = true) ∨
    (∃ next, tx.removeRequest requestId = tx.setRecordState next ∧ tx.record.state.LeftWith
      (tx.record.state.openRequests.eraseP (·.requestId == requestId)) next) ∨
    (∃ requests, tx.record.state = .waiting requests) ∧
      tx.record.state.openRequests.eraseP (·.requestId == requestId) = [] ∧
      tx.removeRequest requestId = tx.setState (.queued [] .requestResolved) none := by
  by_cases found : tx.record.state.openRequests.any (·.requestId == requestId) = true
  · rw [removeRequest, if_pos found]
    generalize tx.record.state.openRequests.eraseP (·.requestId == requestId) = rest
    cases state : tx.record.state with
    | queued requests wake => exact .inr (.inl ⟨_, rfl, rfl, rfl, rfl, rfl, rfl, rfl, rfl⟩)
    | running lease activity =>
      cases activity with
      | idle requests => exact .inr (.inl ⟨_, rfl, rfl, rfl, rfl, rfl, rfl, rfl, rfl⟩)
      | operating op pauseRequested => simp [state] at found
    | cancelling lease op stop => simp [state] at found
    | waiting requests =>
      simp only []
      cases left : NonEmpty.fromVec rest with
      | some waiting =>
        exact .inr (.inl
          ⟨_, rfl, (NonEmpty.fromVec_eq_some.mp left).symm, rfl, rfl, rfl, rfl, rfl, rfl⟩)
      | none => exact .inr (.inr ⟨⟨_, rfl⟩, NonEmpty.fromVec_eq_none.mp left, rfl⟩)
    | paused requests reason => exact .inr (.inl ⟨_, rfl, rfl, rfl, rfl, rfl, rfl, rfl, rfl⟩)
    | terminal ended outcome => simp [state] at found
  · refine .inl ⟨if_neg found, fun request mem same => found ?_⟩
    exact any_eq_true.mpr ⟨request, mem, same⟩

/-- The state is changed last. -/
theorem Tracks.setRecordState {start : AgentRunRecord} {seen : Ledger} {tx : Tx} {state : RunState}
    (tracks : Tracks start tx seen) (framed : Framed seen tx.record) (stated : Stated seen state)
    (resumed : seen.resumed = false) (live : state.isTerminal = false) :
    Agrees start (tx.setRecordState state) seen.received := by
  have same : Tracks start (tx.setRecordState state) seen :=
    tracks.same rfl rfl fun _ => clean_of_live live
  exact same.agrees { framed with } stated resumed

section Requests

variable {start : AgentRunRecord} {tx : Tx} {received : Option Receipt}

theorem Agrees.between (agrees : Agrees start tx received)
    (noOp : tx.record.state.activeOp = none) :
    Tracks start tx (tx.between received tx.record.state.openRequests) := by
  have same : tx.account received = tx.between received tx.record.state.openRequests := by
    ext1 <;> simp [noOp]
  exact same ▸ agrees

/-- The log says first that the request is answered or closed. -/
theorem Tracks.removeRequest {request : PendingRequest}
    (tracks : Tracks start tx (tx.between received
      (tx.record.state.openRequests.eraseP (·.requestId == request.requestId))))
    (mem : request ∈ tx.record.state.openRequests) :
    Agrees start (tx.removeRequest request.requestId) received := by
  have framed := framed_between tx received
    (tx.record.state.openRequests.eraseP (·.requestId == request.requestId))
  rcases tx.removeRequest_cases request.requestId with
    ⟨_, absent⟩ | ⟨next, moved, left⟩ | ⟨⟨requests, waiting⟩, last, moved⟩
  · exact absurd (beq_self_eq_true _) (absent request mem)
  · rw [moved]
    exact tracks.setRecordState framed
      ⟨left.status.symm, left.requests.symm, by rw [left.noOp]; rfl, left.pausing.symm,
        congrArg (Option.map Lease.view) left.lease.symm⟩ rfl left.live
  · rw [moved]
    refine tracks.setState framed rfl ?_ last rfl ?_ ?_ ?_ rfl ?_ ?_ ?_
    · rw [waiting]
      simp
    · simp [waiting]
    · simp [waiting]
    · simp [waiting]
    · simp [waiting]
    · simp
    · simp

/-- What stays open when a request is taken away. -/
theorem openRequests_removeRequest (tx : Tx) (requestId : RequestId) :
    (tx.removeRequest requestId).record.state.openRequests =
      tx.record.state.openRequests.eraseP (·.requestId == requestId) := by
  rcases tx.removeRequest_cases requestId with
    ⟨same, absent⟩ | ⟨next, moved, left⟩ | ⟨_, last, moved⟩
  · rw [same, eraseP_of_forall_not absent]
  · rw [moved]
    exact left.requests
  · rw [moved, last, Tx.setState_state]
    rfl

/-- The events that end a request take it away from the account. -/
theorem Agrees.removed (agrees : Agrees start tx received) {kind : RunEventKind}
    {request : PendingRequest} (mem : request ∈ tx.record.state.openRequests)
    (legal : (tx.account received).Legal kind)
    (noted : (tx.account received).note kind =
      { tx.account received with
        requests :=
          (tx.account received).requests.eraseP (·.requestId == request.requestId) }) :
    Agrees start ((tx.push kind).removeRequest request.requestId) received := by
  have pushed := Tracks.push agrees kind legal
  have noOp : tx.record.state.activeOp = none := by
    rcases state : tx.record.state with _ | ⟨_, _ | _⟩ | _ | _ | _ | _ <;> simp [state] at mem ⊢
  have same : (tx.account received).observe kind = (tx.push kind).between received
      ((tx.push kind).record.state.openRequests.eraseP (·.requestId == request.requestId)) := by
    rw [Ledger.observe, noted]
    ext1 <;> simp [Tx.push, noOp, add_assoc]
  rw [same] at pushed
  exact pushed.removeRequest mem

theorem Agrees.resolveRequest (agrees : Agrees start tx received) {request : PendingRequest}
    (mem : request ∈ tx.record.state.openRequests) {resolution : Value}
    (effect : strOf "effect_id" resolution = request.effectId) (byControl : Option ControlId) :
    Agrees start (resolveRequest tx request.requestId resolution byControl) received :=
  agrees.removed mem ⟨request, mem, rfl, effect⟩ rfl

theorem Agrees.closeRequest (agrees : Agrees start tx received) {request : PendingRequest}
    (mem : request ∈ tx.record.state.openRequests) (reason : String) :
    Agrees start ((tx.push (.requestClosed request.requestId reason)).removeRequest
      request.requestId) received := agrees.removed mem ⟨request, mem, rfl⟩ rfl

@[simp] theorem strOf_effect_id_optional (fields : List (String × Value)) (effect : Option String)
    (found : Value.lookup "effect_id" fields = some (optional effect)) :
    strOf "effect_id" (.object fields) = effect := by
  cases effect <;> simp [strOf, Value.get, found, optional, Value.asStr]

theorem childResolution_effect {child : RunId} {key : String} {status : RunStatus}
    {request : PendingRequest} {resolution : Value}
    (answered : childResolution child key status request = some resolution) :
    strOf "effect_id" resolution = request.effectId := by
  unfold childResolution at answered
  split at answered
  · split at answered
    · cases answered
      exact strOf_effect_id_optional _ _ (by simp [Value.lookup])
    · cases answered
  · split at answered
    · cases answered
      exact strOf_effect_id_optional _ _ (by simp [Value.lookup])
    · cases answered
  · cases answered

/-- Requests end one after the other, as long as the rest of the list is still open. -/
theorem Agrees.foldRequests (visit : Tx → PendingRequest → Tx)
    (visits : ∀ (current : Tx) (request : PendingRequest), Agrees start current received →
      request ∈ current.record.state.openRequests →
      Agrees start (visit current request) received ∧
        (current.record.state.openRequests.eraseP (·.requestId == request.requestId)).Sublist
          (visit current request).record.state.openRequests)
    {requests : List PendingRequest} (agrees : Agrees start tx received)
    (within : requests.Sublist tx.record.state.openRequests) :
    Agrees start (requests.foldl visit tx) received := by
  induction requests generalizing tx with
  | nil => exact agrees
  | cons request rest ih =>
    have mem : request ∈ tx.record.state.openRequests := within.subset mem_cons_self
    obtain ⟨visited, left⟩ := visits tx request agrees mem
    have erased : ((request :: rest).eraseP (·.requestId == request.requestId)).Sublist
        (tx.record.state.openRequests.eraseP (·.requestId == request.requestId)) :=
      within.eraseP
    rw [eraseP_cons_of_pos (by simp)] at erased
    exact ih visited (erased.trans left)

theorem Agrees.wakeForResult (agrees : Agrees start tx received) :
    Agrees start (wakeForResult tx) received := by
  unfold Agents.wakeForResult
  split
  · next requests wake state =>
    split
    · refine agrees.same rfl rfl ?_ fun _ => clean_of_live rfl
      ext1 <;> simp [Tx.setRecordState, state]
    · exact agrees
  · exact agrees

theorem Agrees.resolveChildWaits (agrees : Agrees start tx received) (child : RunId)
    (key : String) (status : RunStatus) :
    Agrees start (resolveChildWaits tx child key status) received := by
  refine (agrees.foldRequests _ ?_ (Sublist.refl _)).wakeForResult
  intro current request follows mem
  cases answered : childResolution child key status request with
  | none => exact ⟨follows, eraseP_sublist⟩
  | some resolution =>
    simp only []
    refine ⟨follows.resolveRequest mem (childResolution_effect answered) none, ?_⟩
    exact (openRequests_removeRequest _ _).symm ▸ Sublist.refl _

theorem Agrees.answerLanded (agrees : Agrees start tx received) (key : String) :
    Agrees start (answerLanded tx key) received := by
  unfold Agents.answerLanded
  split
  · split
    · exact agrees.resolveChildWaits _ _ _
    · exact agrees
  · exact agrees

/-- A request is opened under the next number and remembers its event. -/
theorem Tracks.opened {opened : List PendingRequest} {request : PendingRequest}
    (tracks : Tracks start tx (tx.between received opened))
    (named : request.requestId = RequestId.nth tx.record.runId (tx.record.counters.request + 1))
    (numbered : request.createdSeq = tx.nextSeq) (running : tx.record.state.status = .running)
    (awaited : ∀ child, request.kind = .child child → (tx.between received opened).Awaited child) :
    Tracks start ((countRequest tx).push (.requestOpened request))
      (((countRequest tx).push (.requestOpened request)).between received (opened ++ [request])) := by
  have counted : Tracks start (countRequest tx) (tx.between received opened) :=
    tracks.same rfl rfl id
  have pushed := counted.push (.requestOpened request) ⟨named, numbered, rfl, running, awaited⟩
  have same : (tx.between received opened).observe (.requestOpened request) =
      ((countRequest tx).push (.requestOpened request)).between received (opened ++ [request]) := by
    ext1 <;> simp [Tx.push, countRequest, add_assoc]
  exact Eq.mp (congrArg (Tracks start _) same) pushed

theorem Tracks.openRequest {opened : List PendingRequest}
    (tracks : Tracks start tx (tx.between received opened)) (req : NewRequest)
    (running : tx.record.state.status = .running)
    (awaited : ∀ child, req.kind = .child child → (tx.between received opened).Awaited child) :
    Tracks start (openRequest tx req).1
      ((openRequest tx req).1.between received (opened ++ [(openRequest tx req).2])) :=
  tracks.opened rfl rfl running awaited

theorem Tracks.openExternal {opened : List PendingRequest}
    (tracks : Tracks start tx (tx.between received opened)) (op : ActiveOperation) (key : String)
    (running : tx.record.state.status = .running) :
    Tracks start (openExternal tx op key).1
      ((openExternal tx op key).1.between received (opened ++ [(openExternal tx op key).2])) :=
  tracks.opened rfl rfl running (fun _ external => by cases external)

end Requests

/-! ## Operations -/

section Operations

variable {start : AgentRunRecord} {tx : Tx} {received : Option Receipt}

theorem Tracks.startTurn {seen : Ledger} (tracks : Tracks start tx seen)
    (cause : Option TurnCause) (between : seen.turn = none)
    (counters : seen.counters = tx.record.counters) :
    ∃ cause', Tracks start (startTurn tx cause)
      (seen.observe (.turnStarted (tx.record.counters.turn + 1) cause')) := by
  refine ⟨cause.getD (if tx.record.counters.turn + 1 = 1 then .input else .continuation), ?_⟩
  exact tracks.event _ ⟨between, by rw [counters]⟩ (by simp [Agents.startTurn, Tx.push, Tx.kinds])
    rfl id

theorem Agrees.startTurn (agrees : Agrees start tx received) (cause : Option TurnCause)
    (between : tx.record.currentTurn = none) : Agrees start (startTurn tx cause) received := by
  obtain ⟨cause', started⟩ := Tracks.startTurn agrees cause between rfl
  exact started.agrees ⟨rfl, rfl, rfl, rfl, rfl, rfl, rfl, rfl, rfl, rfl⟩
    ⟨rfl, rfl, rfl, rfl, rfl⟩ rfl

theorem answerCalls_ok {kind : OperationKind} {spec : OperationSpec} {answered : Tx}
    (ok : answerCalls tx kind spec = .ok answered) :
    answered.events = tx.events ∧ answered.origin = tx.origin ∧ answered.nowMs = tx.nowMs ∧
      ∃ calls, answered.record = { tx.record with unansweredCalls := calls } := by
  unfold answerCalls at ok
  split at ok
  · split at ok <;> cases ok
    exact ⟨rfl, rfl, rfl, [], rfl⟩
  · split at ok
    · split at ok <;> cases ok
      exact ⟨rfl, rfl, rfl, tx.record.unansweredCalls, rfl⟩
    · cases ok
      exact ⟨rfl, rfl, rfl, tx.record.unansweredCalls, rfl⟩

/-- An operation is the next one of a run with nothing open. -/
theorem Agrees.startedNext (agrees : Agrees start tx none) {lease : Lease}
    (state : tx.record.state = .running lease (.idle [])) (kind : OperationKind)
    (spec : OperationSpec) :
    Agrees start
      (((countOperation tx).push (startedEvent (newOperation (countOperation tx) kind spec))).setRecordState
        (.running lease (.operating (newOperation (countOperation tx) kind spec) false)))
      none := by
  have counted : Tracks start (countOperation tx) (tx.account none) :=
    Tracks.same agrees rfl rfl id
  have pushed := counted.push
    (startedEvent (newOperation (countOperation tx) kind spec))
    ⟨by simp [state], by simp [state], rfl, .inl ⟨by simp [state], rfl, by simp [state],
        by simp [state], rfl⟩⟩
  refine pushed.setRecordState ?_ ?_ rfl rfl
  · exact ⟨rfl, rfl, rfl, rfl, rfl, rfl, by simp [startedEvent, state, Tx.push, countOperation],
      rfl, rfl, rfl⟩
  · exact ⟨by simp [startedEvent, state], by simp [startedEvent, state], rfl,
      by simp [startedEvent, state], by simp [startedEvent, state]⟩

/-- What a start that is not refused did. -/
theorem beginIn_ok {spec : OperationSpec} {begun : Tx} {op : ActiveOperation}
    (ok : beginIn tx spec = .ok (begun, op)) :
    ∃ lease answered, tx.record.state = .running lease (.idle []) ∧
      answerCalls tx (spec.kind.getD .toolCall) spec = .ok answered ∧
      deniedTool tx.record (spec.kind.getD .toolCall) spec.input = none ∧
      checkBeforeOp tx.record (spec.kind.getD .toolCall) tx.record.currentTurn.isNone tx.nowMs =
        none ∧
      let turned :=
        if tx.record.currentTurn.isNone then startTurn answered spec.cause else answered
      op = newOperation (countOperation turned) (spec.kind.getD .toolCall) spec ∧
        begun = ((countOperation turned).push (startedEvent op)).setRecordState
          (.running lease (.operating op false)) := by
  unfold beginIn at ok
  split at ok
  · next lease requests state =>
    split at ok
    · cases ok
    · next nothing =>
      simp only [] at ok
      split at ok
      · cases ok
      · next allowed =>
        split at ok
        · cases ok
        · next within =>
          obtain ⟨answered, answer, ok⟩ := ok_of_bind ok
          cases ok
          refine ⟨lease, answered, ?_, answer, allowed, within, rfl, rfl⟩
          rw [state, not_not.mp nothing]
  · cases ok

theorem Agrees.beginIn (agrees : Agrees start tx none) {spec : OperationSpec} {begun : Tx}
    {op : ActiveOperation} (ok : beginIn tx spec = .ok (begun, op)) :
    Agrees start begun none := by
  obtain ⟨lease, answered, state, answer, _, _, opened⟩ := beginIn_ok ok
  obtain ⟨events, based, _, calls, record⟩ := answerCalls_ok answer
  have answers : Agrees start answered none := agrees.same events based
    (by rw [record]; rfl) fun _ => clean_of_live (by rw [record]; simp [state])
  simp only [] at opened
  obtain ⟨named, shape⟩ := opened
  rw [shape, named]
  split
  · next noTurn =>
    refine (answers.startTurn spec.cause ?_).startedNext ?_ _ spec
    · rw [record]
      exact Option.isNone_iff_eq_none.mp noTurn
    · simp [Agents.startTurn, Tx.push, record, state]
  · exact answers.startedNext (by rw [record]; exact state) _ spec

theorem rememberLarge_shape (tx : Tx) (result : ResultRef) :
    ∃ large, rememberLarge tx result =
      { tx with record := { tx.record with largeResults := large } } := by
  unfold rememberLarge
  split
  · exact ⟨_, rfl⟩
  · exact ⟨tx.record.largeResults, rfl⟩

theorem storeResult_shape (tx : Tx) (op : ActiveOperation) (payload : Option Value) :
    ∃ results large ref, storeResult tx op payload =
      ({ tx with results := results, record := { tx.record with largeResults := large } }, ref) := by
  cases payload with
  | none => exact ⟨tx.results, tx.record.largeResults, none, rfl⟩
  | some payload =>
    let key := "op:" ++ op.opId ++ ":" ++ op.attempt.repr
    obtain ⟨large, remembered⟩ :=
      rememberLarge_shape (storeJson tx key payload) (jsonResult key payload)
    exact ⟨_, large, some (jsonResult key payload), Prod.ext remembered rfl⟩

theorem completed_state (tx : Tx) (op : ActiveOperation) (result : OperationResult)
    (outcome : OpOutcome) : (completed tx op result outcome).record.state = tx.record.state := by
  obtain ⟨results, large, ref, stored⟩ := storeResult_shape tx op result.payload
  simp [completed, stored, Tx.push]

theorem live_of_active {state : RunState} {op : ActiveOperation}
    (active : state.activeOp = some op) : state.isTerminal = false := by
  cases state <;> simp at active ⊢

/-- The log says that the operation is done; the record still holds it. -/
theorem Agrees.completed (agrees : Agrees start tx received) {op : ActiveOperation}
    (active : tx.record.state.activeOp = some op) (result : OperationResult)
    (outcome : OpOutcome) :
    Tracks start (completed tx op result outcome)
      ((completed tx op result outcome).between received []) := by
  have none : tx.record.state.openRequests = [] := by
    rcases state : tx.record.state with _ | ⟨_, _ | _⟩ | _ | _ | _ | _ <;> simp [state] at active ⊢
  obtain ⟨results, large, ref, stored⟩ := storeResult_shape tx op result.payload
  let kind : RunEventKind := .operationCompleted op.opId (some op.kind) op.effectId op.forCallId
    op.tool outcome result.usage ref result.toolCalls
  have pushed : Tracks start (Agents.completed tx op result outcome)
      ((tx.account received).observe kind) :=
    Tracks.event agrees kind
      ⟨op.view, by simp [active], rfl, rfl, rfl⟩
      (by simp [Agents.completed, stored, Tx.push, Tx.kinds, kind])
      (by simp only [Agents.completed, stored, Tx.push]; rfl)
      fun _ => clean_of_live (by rw [completed_state]; exact live_of_active active)
  have same : (tx.account received).observe kind =
      (Agents.completed tx op result outcome).between received [] := by
    ext1 <;> simp [kind, Agents.completed, stored, Tx.push, none, accumulate, add_assoc]
  exact Eq.mp (congrArg (Tracks start _) same) pushed

/-- From an operation that is done to where it leaves the run. -/
theorem Tracks.leaveOperation {requests : List PendingRequest}
    (tracks : Tracks start tx (tx.between received requests)) {lease : Lease}
    {op : ActiveOperation} {pauseRequested : Bool}
    (state : tx.record.state = .running lease (.operating op pauseRequested)) :
    Agrees start (leaveOperation tx lease pauseRequested requests) received := by
  have framed := framed_between tx received requests
  unfold Agents.leaveOperation
  split
  · have moved : Agrees start (tx.setState (.paused requests .user) (some "user_pause"))
        received := by
      refine tracks.setState framed rfl ?_ rfl rfl ?_ ?_ ?_ rfl ?_ ?_ ?_
      · rw [state]
        simp
      · simp
      · simp [state]
      · simp
      · simp
      · simp
      · simp
    exact moved.writeCheckpoint _ _
  · next notPausing =>
    split
    · next waiting left =>
      refine tracks.setState framed rfl ?_ (NonEmpty.fromVec_eq_some.mp left) rfl ?_ ?_ ?_ rfl
        ?_ ?_ ?_
      · rw [state]
        simp
      · simp
      · simp [state]
      · simp [state, notPausing]
      · simp
      · simp
      · simp
    · next left =>
      refine tracks.setRecordState framed ?_ rfl rfl
      have noPause : pauseRequested = false := by simpa using notPausing
      exact ⟨by simp [state], NonEmpty.fromVec_eq_none.mp left, rfl, by simp [state, noPause],
        by simp [state]⟩

/-- A run between operations is left in another state with the same requests open. -/
theorem Agrees.setState (agrees : Agrees start tx received) (next : RunState)
    (changes : (tx.record.state.status, next.status) ∈ legalChanges)
    (noOp : tx.record.state.activeOp = none) (noNextOp : next.activeOp = none)
    (requests : tx.record.state.openRequests = next.openRequests)
    (unheld : next.lease = none)
    (notResumed : tx.record.state.status = .paused → next.status ≠ .queued)
    (ends : next.isTerminal = false) (reason : Option String) :
    Agrees start (tx.setState next reason) received := by
  refine Tracks.setState agrees (framed_account tx received) rfl changes requests ?_ ?_ ?_ ?_
    (RunState.pausing_eq_false noNextOp) ?_ ?_ ?_
  · simp [noOp, noNextOp]
  · simp
  · rintro (held | none)
    · simp [unheld] at held
    · simp [none, unheld]
  · simp [RunState.pausing_eq_false noOp]
  · intro paused queued
    exact absurd queued (notResumed paused)
  · simp [ends]
  · simp [ends]

theorem Agrees.terminate (agrees : Agrees start tx received) {ended : TerminalStatus}
    (noOp : tx.record.state.activeOp = none)
    (changes : (tx.record.state.status, ended.status) ∈ legalChanges) (outcome : RunOutcome)
    (reason : Option String) : Agrees start (tx.terminate ended outcome reason) received :=
  Tracks.terminate (agrees.between noOp) changes (RunState.pausing_eq_false noOp)

theorem Agrees.exceed (agrees : Agrees start tx received) {lease : Lease}
    {requests : List PendingRequest} (state : tx.record.state = .running lease (.idle requests))
    (exceeded : Exceeded) : Agrees start (exceed tx exceeded) received := by
  have logged := agrees.quiet
    (.budgetExceeded exceeded.which exceeded.limit exceeded.used) trivial rfl
  have unchanged : (tx.push (.budgetExceeded exceeded.which exceeded.limit exceeded.used)).record =
      tx.record := rfl
  unfold Agents.exceed
  simp only [unchanged]
  split
  · refine Agrees.writeCheckpoint ?_ _ _
    refine Agrees.setState ?_ _ ?_ ?_ rfl ?_ rfl ?_ rfl _
    · exact logged.same rfl rfl rfl id
    · simp [state]
    · simp [state]
    · simp
    · simp [state]
  · refine logged.terminate ?_ ?_ _ _
    · simp [unchanged, state]
    · simp [unchanged, state, TerminalStatus.status]

end Operations

end RaisinDB.Agents
