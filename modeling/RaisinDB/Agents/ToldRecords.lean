import RaisinDB.Agents.LegalRuns
import RaisinDB.Agents.MarkedTransitions

/-!
# What the log of a run tells

Read from its first event, the log gives back the record: the status and every change of
it, what is open and queued, what is in flight, the epoch and the mailbox.  Every number
of an event that the record or the store keeps is the number of the event it is kept for.
-/

namespace RaisinDB.Agents

open List
open RaisinDB.Foundation (Value)

/-! ## Numbers of events -/

/-- The event that put an item into the mailbox. -/
def MailboxItem.Names (item : MailboxItem) : RunEventKind → Prop
  | .childHandback child _ status _ key number _ =>
      item = ⟨number, .completion, child, item.seq, key, some status⟩
  | .mailPosted number sender key => item = ⟨number, .message, sender, item.seq, key, none⟩
  | _ => False

/-- Every number that an account keeps is the number of the event it is kept for. -/
structure Ledger.NamesEvents (log : Nat → RunEventKind → Prop) (ledger : Ledger) : Prop where
  steers : ∀ steer ∈ ledger.steers, log steer.2 (.steerQueued steer.1)
  requests : ∀ request ∈ ledger.requests, log request.createdSeq (.requestOpened request)
  mailbox : ∀ item ∈ ledger.mailbox, ∃ kind, log item.seq kind ∧ item.Names kind
  lastCheckpoint : ∀ seq, ledger.lastCheckpoint = some seq →
    ∃ reason, log seq (.checkpointWritten ledger.counters.checkpoint seq reason)

theorem LoggedAt.mono {base seq : Nat} {early : List RunEventKind} {kind : RunEventKind}
    (logged : LoggedAt base early seq kind) (late : List RunEventKind) :
    LoggedAt base (early ++ late) seq kind := by
  obtain ⟨before, after, shape, number⟩ := logged
  exact ⟨before, after ++ late, by rw [shape, append_assoc, cons_append], number⟩

theorem LoggedAt.last (base : Nat) (early : List RunEventKind) (kind : RunEventKind) :
    LoggedAt base (early ++ [kind]) (base + early.length + 1) kind := ⟨early, [], rfl, rfl⟩

theorem Ledger.NamesEvents.mono {log log' : Nat → RunEventKind → Prop} {ledger : Ledger}
    (names : ledger.NamesEvents log) (more : ∀ seq kind, log seq kind → log' seq kind) :
    ledger.NamesEvents log' where
  steers := fun steer mem => more _ _ (names.steers steer mem)
  requests := fun request mem => more _ _ (names.requests request mem)
  mailbox := fun item mem =>
    (names.mailbox item mem).imp fun _ logged => ⟨more _ _ logged.1, logged.2⟩
  lastCheckpoint := fun seq last => (names.lastCheckpoint seq last).imp fun _ => more _ _

/-- The log so far, after the first event. -/
structure Ledger.Numbers (early : List RunEventKind) (ledger : Ledger) : Prop where
  read : ledger.seq = 1 + early.length
  names : ledger.NamesEvents (LoggedAt 1 early)

theorem mem_makeRoom {item : MailboxItem} {mailbox : List MailboxItem}
    (mem : item ∈ makeRoom mailbox) : item ∈ mailbox := by
  unfold makeRoom at mem
  split at mem
  · exact mem_of_mem_eraseP mem
  · exact mem

theorem Ledger.Numbers.observe {early : List RunEventKind} {ledger : Ledger} {kind : RunEventKind}
    (numbers : ledger.Numbers early) (legal : ledger.Legal kind) :
    (ledger.observe kind).Numbers (early ++ [kind]) := by
  refine ⟨by rw [observe_seq, numbers.read, length_append, length_singleton]; omega, ?_⟩
  have kept : ledger.NamesEvents (LoggedAt 1 (early ++ [kind])) :=
    numbers.names.mono fun _ _ logged => logged.mono [kind]
  have last : LoggedAt 1 (early ++ [kind]) (ledger.seq + 1) kind := by
    rw [numbers.read]
    exact .last 1 early kind
  cases kind with
  | steerQueued steerId =>
    refine ⟨fun steer mem => ?_, kept.requests, kept.mailbox, kept.lastCheckpoint⟩
    rcases mem_append.mp mem with old | new
    · exact kept.steers steer old
    · rw [mem_singleton.mp new]
      exact last
  | steerConsumed _ _ _ | steerDiscarded _ =>
    exact ⟨fun steer mem => kept.steers steer (mem_of_mem_eraseP mem), kept.requests,
      kept.mailbox, kept.lastCheckpoint⟩
  | requestOpened request =>
    refine ⟨kept.steers, fun other mem => ?_, kept.mailbox, kept.lastCheckpoint⟩
    rcases mem_append.mp mem with old | new
    · exact kept.requests other old
    · rw [mem_singleton.mp new, legal.2.1]
      exact last
  | requestResolved _ _ _ | requestClosed _ _ =>
    exact ⟨kept.steers, fun request mem => kept.requests request (mem_of_mem_eraseP mem),
      kept.mailbox, kept.lastCheckpoint⟩
  | checkpointWritten number atSeq reason =>
    refine ⟨kept.steers, kept.requests, kept.mailbox, fun seq here => ⟨reason, ?_⟩⟩
    cases here
    rw [legal.2]
    rw [legal.2] at last
    exact last
  | childHandback child number status detail key mailNo satisfied =>
    refine ⟨kept.steers, kept.requests, fun item mem => ?_, kept.lastCheckpoint⟩
    rcases mem_append.mp mem with old | new
    · exact kept.mailbox item (mem_makeRoom old)
    · rw [mem_singleton.mp new]
      exact ⟨_, last, rfl⟩
  | mailPosted number sender key =>
    refine ⟨kept.steers, kept.requests, fun item mem => ?_, kept.lastCheckpoint⟩
    rcases mem_append.mp mem with old | new
    · exact kept.mailbox item old
    · rw [mem_singleton.mp new]
      exact ⟨_, last, rfl⟩
  | mailboxAcked upTo =>
    exact ⟨kept.steers, kept.requests, fun item mem => kept.mailbox item (mem_of_mem_filter mem),
      kept.lastCheckpoint⟩
  | operationStarted _ _ _ _ _ _ _ _ =>
    refine ⟨kept.steers, kept.requests, kept.mailbox, fun seq here => ?_⟩
    have told := kept.lastCheckpoint seq here
    simp only [Ledger.observe, Ledger.note]
    split <;> exact told
  | _ => exact ⟨kept.steers, kept.requests, kept.mailbox, kept.lastCheckpoint⟩

theorem numbers_created (runId : RunId) : (Ledger.created runId).Numbers [] where
  read := rfl
  names := by
    refine ⟨?_, ?_, ?_, ?_⟩
    · intro steer mem
      cases mem
    · intro request mem
      cases mem
    · intro item mem
      cases mem
    · intro seq last
      cases last

/-! ## Changes of status -/

/-- Every change starts at the status that the one before it left, and is one of the table. -/
def StatusesChain : RunStatus → List RunEventKind → Prop
  | _, [] => True
  | status, .statusChanged source target _ :: rest =>
      source = status ∧ (source, target) ∈ legalChanges ∧ StatusesChain target rest
  | status, _ :: rest => StatusesChain status rest

theorem Ledger.LegalRun.chains {ledger : Ledger} {kinds : List RunEventKind}
    (legal : ledger.LegalRun kinds) : StatusesChain ledger.status kinds := by
  induction kinds generalizing ledger with
  | nil => trivial
  | cons kind rest ih =>
    have later := ih legal.2
    cases kind with
    | statusChanged source target reason =>
      obtain ⟨from_, changes, _⟩ := legal.1
      exact ⟨from_, changes, later⟩
    | _ => exact later

/-! ## The log of a stored run -/

namespace StoredRun

/-- The log holds this event under this number. -/
def Logs (run : StoredRun) (seq : Nat) (kind : RunEventKind) : Prop :=
  ∃ event ∈ run.log, event.seq = seq ∧ event.kind = kind

/-- Checkpoints and acknowledgements that are stored name events. -/
structure Filed (run : StoredRun) : Prop where
  checkpoints : ∀ checkpoint ∈ run.checkpoints, ∃ reason, run.Logs checkpoint.atSeq
    (.checkpointWritten checkpoint.checkpointNo checkpoint.atSeq reason)
  acks : ∀ filed ∈ run.acks, ∃ kind, run.Logs filed.2.1.seq kind ∧ filed.2.1.Names filed.1 kind

end StoredRun

/-- The number of an event is its place in the log. -/
theorem Logged.logs {run : StoredRun} (logged : Logged run) {index : Nat} {kind : RunEventKind}
    (found : (run.log.map RunEvent.kind)[index]? = some kind) : run.Logs (index + 1) kind := by
  rw [getElem?_map, Option.map_eq_some_iff] at found
  obtain ⟨event, here, same⟩ := found
  refine ⟨event, mem_of_getElem? here, ?_, same⟩
  have placed : (run.log.map RunEvent.seq)[index]? = some event.seq := by
    rw [getElem?_map, here]
    rfl
  have inside : index < (range' 1 run.record.lastSeq).length := by
    rw [← logged.numbered, length_map]
    exact (List.getElem?_eq_some_iff.mp here).1
  rw [logged.numbered, getElem?_eq_getElem inside, getElem_range', Option.some.injEq] at placed
  omega

/-- What the record says of numbers is so in the log. -/
theorem Logged.names {run : StoredRun} (logged : Logged run) :
    (ledgerOf run.record).NamesEvents run.Logs := by
  obtain ⟨created, rest, shape, ⟨_, _, _, _, kind⟩, legal⟩ := logged.legal
  have numbers := Ledger.history_invariant Ledger.Numbers
    (fun _ _ _ numbers legal => numbers.observe legal) [] (numbers_created run.record.runId) legal
  have replays := logged.replays
  have owner : created.runId = run.record.runId := logged.owned created (by simp [shape])
  simp only [shape, Ledger.ofLog, kind, Option.some.injEq, owner] at replays
  rw [replays] at numbers
  refine numbers.names.mono fun seq event here => ?_
  obtain ⟨before, after, told, number⟩ := here
  have found : (run.log.map RunEvent.kind)[before.length + 1]? = some event := by
    rw [nil_append] at told
    rw [shape, map_cons, getElem?_cons_succ, told, getElem?_append_right le_rfl, Nat.sub_self]
    rfl
  rw [number, Nat.add_comm 1]
  exact logged.logs found

theorem Logged.length {run : StoredRun} (logged : Logged run) :
    run.log.length = run.record.lastSeq := by
  rw [← length_map (f := RunEvent.seq), logged.numbered, length_range']

section Step

variable {service : Service} {run next : StoredRun} {call : Call} {commit : Commit}

theorem Committed.log (committed : Committed service run call commit next) :
    next.log.map RunEvent.kind = run.log.map RunEvent.kind ++ commit.transition.kinds := by
  rw [committed.written]
  simp only [StoredRun.write, map_append, numberEvents_kind]
  rfl

theorem Committed.logs (committed : Committed service run call commit next) {seq : Nat}
    {kind : RunEventKind} (before : run.Logs seq kind) : next.Logs seq kind := by
  obtain ⟨event, mem, named⟩ := before
  refine ⟨event, ?_, named⟩
  rw [committed.written]
  exact mem_append_left _ mem

/-- What a commit logs is in the log under its number. -/
theorem Committed.logged_at (committed : Committed service run call commit next)
    (logged : Logged run) {seq : Nat} {kind : RunEventKind}
    (here : LoggedAt run.record.lastSeq commit.transition.kinds seq kind) : next.Logs seq kind := by
  obtain ⟨before, after, told, number⟩ := here
  have found : (next.log.map RunEvent.kind)[run.record.lastSeq + before.length]? = some kind := by
    rw [committed.log, told, getElem?_append_right (by rw [length_map, logged.length]; omega),
      length_map, logged.length, Nat.add_sub_cancel_left, getElem?_append_right le_rfl,
      Nat.sub_self]
    rfl
  rw [number]
  exact (committed.logged logged).logs found

theorem Committed.filed (committed : Committed service run call commit next)
    (logged : Logged run) (filed : run.Filed) : next.Filed := by
  have marked := transitionOf_marked committed.computed
  have after := (committed.logged logged).names
  rw [committed.record] at after
  have stored : next.checkpoints = commit.transition.checkpoint.toList ++ run.checkpoints ∧
      next.acks = commit.transition.control.toList ++ run.acks := by
    rw [committed.written]
    exact ⟨rfl, rfl⟩
  constructor
  · intro checkpoint mem
    rw [stored.1] at mem
    rcases mem_append.mp mem with new | old
    · have mark := marked.checkpoint checkpoint (Option.mem_toList.mp new)
      obtain ⟨reason, here⟩ := after.lastCheckpoint checkpoint.atSeq (congrArg Prod.fst mark)
      have number : commit.transition.record.counters.checkpoint = checkpoint.checkpointNo :=
        congrArg Prod.snd mark
      rw [← number]
      exact ⟨reason, here⟩
    · exact (filed.checkpoints checkpoint old).imp fun _ => committed.logs
  · intro ack mem
    rw [stored.2] at mem
    rcases mem_append.mp mem with new | old
    · obtain ⟨kind, here, names⟩ := marked.control ack.1 ack.2.1 ack.2.2 (Option.mem_toList.mp new)
      exact ⟨kind, committed.logged_at logged here, names⟩
    · exact (filed.acks ack old).imp fun _ logs => ⟨committed.logs logs.1, logs.2⟩

/-- What one call stores names events. -/
theorem Recorded.files {history : RunHistory} (recorded : Recorded history)
    (filed : history.run.Filed) (call : Call) : (history.step service call).1.run.Filed := by
  rcases step_cases service history call with ⟨commit, run, ok, step⟩ | step
  · have committed := (recorded.committed ok).2
    rw [step]
    exact committed.filed recorded.logged filed
  · rw [step]
    exact filed

end Step

/-- In every reachable state what was stored names events. -/
theorem Started.files {record : AgentRunRecord} (started : Started record) (service : Service)
    (input : Value) (calls : List Call) : (finalRun service record input calls).Filed := by
  have fresh : (StoredRun.create record input).Filed := by
    constructor <;> intro _ mem <;> cases mem
  have all : Recorded ((runMachine service).final (RunHistory.start record input) calls) ∧
      (finalRun service record input calls).Filed :=
    (runMachine service).final_invariant (fun history => Recorded history ∧ history.run.Filed)
      (fun _ _ => True) (fun _ call holds _ => ⟨holds.1.step call, holds.1.files holds.2 call⟩)
      ⟨started.recorded input, fresh⟩ (fun _ _ => trivial)
  exact all.2

/-! ## What the log tells -/

/-- The parts of the record that the log tells. -/
structure Told (told : Ledger) (record : AgentRunRecord) : Prop where
  status : told.status = record.state.status
  requests : told.requests = record.state.openRequests
  steers : told.steers = record.steerQueue.map fun steer => (steer.steerId, steer.queuedSeq)
  turn : told.turn = record.currentTurn
  op : told.op.map (fun op => (op.opId, op.attempt)) =
    record.state.activeOp.map fun op => (op.opId, op.attempt)
  epoch : told.epoch = record.leaseEpoch
  mailbox : told.mailbox = record.mailbox

theorem told_ledgerOf (record : AgentRunRecord) : Told (ledgerOf record) record where
  status := rfl
  requests := rfl
  steers := rfl
  turn := rfl
  op := by cases h : record.state.activeOp <;> simp [ledgerOf, h, ActiveOperation.view]
  epoch := rfl
  mailbox := rfl

/-- The whole account of a stored run. -/
structure StoredRun.Accounted (run : StoredRun) : Prop where
  tells : ∃ told, Ledger.ofLog run.log = some told ∧ Told told run.record
  created : ∃ first rest, run.log = first :: rest ∧
    (∃ subject principal budgets input,
      first.kind = .runCreated subject principal budgets input) ∧
    StatusesChain .queued (rest.map RunEvent.kind)
  numbered : run.log.map RunEvent.seq = range' 1 run.record.lastSeq
  steers : ∀ steer ∈ run.record.steerQueue, run.Logs steer.queuedSeq (.steerQueued steer.steerId)
  requests : ∀ request ∈ run.record.state.openRequests,
    run.Logs request.createdSeq (.requestOpened request)
  mailbox : ∀ item ∈ run.record.mailbox, ∃ kind, run.Logs item.seq kind ∧ item.Names kind
  lastCheckpoint : ∀ seq, run.record.lastCheckpointSeq = some seq →
    ∃ reason, run.Logs seq (.checkpointWritten run.record.counters.checkpoint seq reason)
  filed : run.Filed

/-- In every run the log tells the record, whatever was called in whatever order. -/
theorem log_accounts_for_run (service : Service) {record : AgentRunRecord}
    (started : Started record) (input : Value) (calls : List Call) :
    (finalRun service record input calls).Accounted := by
  have logged : Logged (finalRun service record input calls) :=
    (started.reaches service input calls).logged
  have names := logged.names
  obtain ⟨first, rest, shape, kind, legal⟩ := logged.legal
  exact {
    tells := ⟨_, logged.replays, told_ledgerOf _⟩
    created := ⟨first, rest, shape, kind, legal.chains⟩
    numbered := logged.numbered
    steers := fun steer mem =>
      names.steers (steer.steerId, steer.queuedSeq) (mem_map_of_mem mem)
    requests := names.requests
    mailbox := names.mailbox
    lastCheckpoint := names.lastCheckpoint
    filed := started.files service input calls }

def plainChild : SpawnChild where
  objective := ⟨"job", .none, [], none, [], [], []⟩
  budgets := {}
  onExceeded := none
  spawnKey := none
  subject := none
  asAgent := none
  agentRef := none
  input := .null
  executorConfig := none
  reducer := none

def spawnChildAction : Action := .spawn plainChild "child" ⟨.user, "user", none⟩ false

/-- An operation that ends by asking for the result of a job, while a child posts a message. -/
def busyActions : List (Action × Nat) :=
  [(spawnChildAction, 1), (.acquire "a", 2), (.begin ⟨"a", 1⟩ {}, 3), (.post "child" .null "m", 4),
    (.finish ⟨"a", 1⟩ "run/op/1" { outcome := some .waiting, resumeKey := some "job" }, 5)]

theorem busy_log_accounts :
    let run := finalRun plainService plainRecord .null (plainCalls busyActions)
    run.Accounted ∧ run.record.counters.op = 1 ∧ run.record.state.openRequests.length = 1 ∧
      run.record.mailbox.length = 1 :=
  ⟨log_accounts_for_run plainService (.new plainRequest "run" 0) .null _, by decide +kernel⟩

/-! ## A full mailbox -/

def endedChild : AgentRunRecord :=
  { plainRecord with
    runId := "child"
    parentRunId := some "run"
    rootRunId := some "run"
    depth := 1
    delegation := some ⟨plainChild.objective, 1, none, false⟩
    state := .terminal .completed (.new "done" none) }

def crowdedMail (n : Nat) : MailboxItem :=
  ⟨n + 1, .message, "child", n + 3, mailKey "child" n.repr, none⟩

/-- A run whose only child has posted that many messages. -/
def crowdedRecord (n : Nat) : AgentRunRecord :=
  { plainRecord with
    version := 2 + n
    lastSeq := 2 + n
    counters := { child := 1, mail := n }
    children := [⟨1, "child", "job", none, .queued, {}, false, none, none⟩]
    mailbox := (range n).map crowdedMail }

theorem mailKey_fresh (n : Nat) :
    ((crowdedRecord n).mailbox.any (·.resultKey == mailKey "child" n.repr)) = false := by
  rw [Bool.eq_false_iff, ne_eq, any_eq_true]
  rintro ⟨item, mem, same⟩
  obtain ⟨m, older, rfl⟩ := mem_map.mp mem
  have equal : mailKey "child" m.repr = mailKey "child" n.repr := eq_of_beq same
  have repr : m.repr = n.repr := (String.append_right_inj _).mp equal
  exact absurd (Nat.repr_injective repr) (mem_range.mp older).ne

def postedValue (n : Nat) : Value :=
  .object [("from_run", .string "child"), ("message_id", .string n.repr), ("message", .null)]

/-- What the next message commits. -/
def postTransition (n : Nat) : Transition :=
  { record := crowdedRecord (n + 1)
    expectedVersion := 2 + n
    events := [⟨none, none, .mailPosted (n + 1) "child" (mailKey "child" n.repr)⟩]
    results := [(jsonResult (mailKey "child" n.repr) (postedValue n), postedValue n)] }

theorem post_transition {n : Nat} (room : n < mailboxLimit) (run : StoredRun) :
    plainService.transitionOf run (crowdedRecord n) 0 (.post "child" .null n.repr) =
      some (.none, postTransition n) := by
  have length : (crowdedRecord n).mailbox.length = n := by simp [crowdedRecord]
  have posted : postToParent (crowdedRecord n) "child" .null n.repr 0 =
      .ok (some (postTransition n)) := by
    unfold postToParent
    rw [if_neg (by rw [mailKey_fresh]; exact Bool.false_ne_true)]
    unfold applyPostToParent
    rw [if_neg (by simp [crowdedRecord, ChildLink.isLive]), if_neg (by decide),
      if_neg (by rw [length]; exact Nat.not_le.mpr room)]
    simp only [Except.map, Except.ok.injEq, Option.some.injEq]
    simp [pushMail, storeJson, Tx.new, Tx.push, Tx.finish, Tx.nextSeq, crowdedRecord,
      postTransition, postedValue, range_succ, crowdedMail, opIdOf, plainRecord, newRecord]
    omega
  simp only [Service.transitionOf, posted]
  rfl

theorem post_commit {n : Nat} (room : n < mailboxLimit) {run : StoredRun}
    (record : run.record = crowdedRecord n) :
    run.commit .none (postTransition n) 0 = .ok (run.write (postTransition n)
      (numberEvents "run" 0 (2 + n + 1) (postTransition n).events)) := by
  have kept : checkInvariants (some (crowdedRecord n)) (crowdedRecord (n + 1)) = .ok () := by
    have lease : checkLease (crowdedRecord (n + 1)) = .ok () := rfl
    have monotone : checkMonotone (crowdedRecord n) (crowdedRecord (n + 1)) = .ok () := by
      simp [checkMonotone, crowdedRecord, plainRecord, newRecord, plainRequest]
    have ended : checkEnded (crowdedRecord (n + 1)) = .ok () := rfl
    have requests : checkRequests (crowdedRecord (n + 1)) = .ok () := rfl
    have lineage : checkLineage (some (crowdedRecord n)) (crowdedRecord (n + 1)) = .ok () := rfl
    have bounds : checkBounds (crowdedRecord (n + 1)) = .ok () := by
      have length : (crowdedRecord (n + 1)).mailbox.length = n + 1 := by simp [crowdedRecord]
      unfold checkBounds
      have one : (crowdedRecord (n + 1)).children.length = 1 := rfl
      rw [if_neg (by rw [one]; decide), if_neg (by rw [length]; exact Nat.not_lt.mpr room)]
    unfold checkInvariants
    rw [lease, ended, requests, lineage, bounds]
    simp only [Option.elim, monotone]
    rfl
  have verified : verifyCommit run.record .none (postTransition n) 0 =
      .ok (numberEvents "run" 0 (2 + n + 1) (postTransition n).events) := by
    unfold verifyCommit
    rw [record]
    simp only [checkFence]
    rw [if_neg (by simp [crowdedRecord, postTransition]),
      if_neg (by simp [crowdedRecord, postTransition]; omega),
      if_neg (by simp [crowdedRecord, postTransition])]
    rw [show (postTransition n).record = crowdedRecord (n + 1) from rfl, kept]
    rfl
  unfold StoredRun.commit
  rw [verified]
  rfl

theorem final_freshCalls (service : Service) (history : RunHistory)
    (first second : List (Action × Nat)) :
    (runMachine service).final history (freshCalls service history (first ++ second)) =
      (runMachine service).final
        ((runMachine service).final history (freshCalls service history first))
        (freshCalls service
          ((runMachine service).final history (freshCalls service history first)) second) := by
  induction first generalizing history with
  | nil => rfl
  | cons action rest ih => exact ih _

/-- The history of a plain run. -/
def plainAfter (actions : List (Action × Nat)) : RunHistory :=
  (runMachine plainService).final (RunHistory.start plainRecord .null) (plainCalls actions)

theorem plainFinal_eq (actions : List (Action × Nat)) :
    plainFinal actions = (plainAfter actions).run := rfl

theorem plainAfter_snoc (actions : List (Action × Nat)) (action : Action) (now : Nat) :
    plainAfter (actions ++ [(action, now)]) =
      ((plainAfter actions).step plainService
        ⟨(plainAfter actions).run.record, action, now⟩).1 := final_freshCalls _ _ _ _

/-- A call on the stored record is committed when the store accepts what it computes. -/
theorem step_accepted {service : Service} {history : RunHistory} (recorded : Recorded history)
    {action : Action} {now : Nat} {fence : Fence} {transition : Transition} {next : StoredRun}
    (computed : service.transitionOf history.run history.run.record now action =
      some (fence, transition))
    (accepted : history.run.commit fence transition now = .ok next) :
    (history.step service ⟨history.run.record, action, now⟩).1.run = next := by
  unfold RunHistory.step RunHistory.attempt
  rw [if_pos recorded.current]
  simp only [computed, accepted]

/-- The mail that a log posts and hands back, without what it acknowledges. -/
def leaveMail (left : List Nat) : RunEventKind → List Nat
  | .mailPosted number _ _ | .childHandback _ _ _ _ _ number _ => left ++ [number]
  | .mailboxAcked upTo => left.filter (upTo < ·)
  | _ => left

def unacknowledged (log : List RunEvent) : List Nat := (log.map RunEvent.kind).foldl leaveMail []

def crowdingActions (n : Nat) : List (Action × Nat) :=
  (spawnChildAction, 0) :: (range n).map fun number => (.post "child" .null number.repr, 0)

theorem crowdingActions_succ (n : Nat) :
    crowdingActions (n + 1) = crowdingActions n ++ [(.post "child" .null n.repr, 0)] := by
  simp [crowdingActions, range_succ]

theorem crowded {n : Nat} (room : n ≤ mailboxLimit) :
    (plainAfter (crowdingActions n)).run.record = crowdedRecord n ∧
      unacknowledged (plainAfter (crowdingActions n)).run.log = range' 1 n := by
  induction n with
  | zero => decide +kernel
  | succ n ih =>
    obtain ⟨record, left⟩ := ih (Nat.le_of_lt room)
    have recorded : Recorded (plainAfter (crowdingActions n)) :=
      (Started.new plainRequest "run" 0).reaches _ _ _
    have computed : plainService.transitionOf (plainAfter (crowdingActions n)).run
        (plainAfter (crowdingActions n)).run.record 0 (.post "child" .null n.repr) =
          some (.none, postTransition n) := by
      rw [record]
      exact post_transition room _
    have step := step_accepted recorded computed (post_commit room record)
    have shape : (plainAfter (crowdingActions (n + 1))).run =
        (plainAfter (crowdingActions n)).run.write (postTransition n)
          (numberEvents "run" 0 (2 + n + 1) (postTransition n).events) := by
      rw [← step, crowdingActions_succ, plainAfter_snoc]
    rw [shape]
    refine ⟨rfl, ?_⟩
    unfold unacknowledged at left ⊢
    simp only [StoredRun.write, map_append, foldl_append, left, numberEvents_kind]
    simp [postTransition, leaveMail, range'_concat, Nat.add_comm]

def crowdedActions : List (Action × Nat) :=
  crowdingActions mailboxLimit ++ [(.handback endedChild, 0)]

/-- What the hand-back commits when it finds the mailbox full. -/
theorem crowded_handback :
    (Service.landHandback (crowdedRecord mailboxLimit) endedChild 0).any
    (fun transition =>
      (verifyCommit (crowdedRecord mailboxLimit) .none transition 0).toOption.isSome &&
        transition.control.isNone && transition.domainState.isNone &&
        transition.record.mailbox.map MailboxItem.mailNo == range' 2 mailboxLimit &&
        transition.kinds.foldl leaveMail (range' 1 mailboxLimit) == range' 1 (mailboxLimit + 1)) =
      true := by
  decide +kernel

/-- The oldest message is gone, and nobody acknowledged it. -/
theorem handback_drops_message :
    (plainFinal crowdedActions).record.mailbox.map MailboxItem.mailNo ≠
      unacknowledged (plainFinal crowdedActions).log := by
  obtain ⟨record, left⟩ := crowded (Nat.le_refl mailboxLimit)
  cases lands : Service.landHandback (crowdedRecord mailboxLimit) endedChild 0 with
  | none =>
      have facts := crowded_handback
      rw [lands] at facts
      cases facts
  | some transition =>
      have facts := crowded_handback
      rw [lands] at facts
      simp only [Option.any_some, Bool.and_eq_true, beq_iff_eq, Option.isNone_iff_eq_none] at facts
      obtain ⟨⟨⟨⟨verified, noControl⟩, noState⟩, numbers⟩, mail⟩ := facts
      have recorded : Recorded (plainAfter (crowdingActions mailboxLimit)) :=
        (Started.new plainRequest "run" 0).reaches _ _ _
      have computed : plainService.transitionOf (plainAfter (crowdingActions mailboxLimit)).run
          (plainAfter (crowdingActions mailboxLimit)).run.record 0 (.handback endedChild) =
            some (.none, transition) := by
        rw [record]
        have unfenced : plainService.transitionOf (plainAfter (crowdingActions mailboxLimit)).run
            (crowdedRecord mailboxLimit) 0 (.handback endedChild) =
              Service.unfenced (Service.landHandback (crowdedRecord mailboxLimit) endedChild 0) :=
          rfl
        rw [unfenced, lands]
        rfl
      obtain ⟨next, accepted⟩ : ∃ next, (plainAfter (crowdingActions mailboxLimit)).run.commit
          .none transition 0 = .ok next := by
        unfold StoredRun.commit
        rw [record, noControl, noState]
        cases written : verifyCommit (crowdedRecord mailboxLimit) .none transition 0 with
        | error refused =>
            rw [written] at verified
            cases verified
        | ok events => exact ⟨_, rfl⟩
      have step := step_accepted recorded computed accepted
      have shape : plainFinal crowdedActions = next := by
        rw [plainFinal_eq, crowdedActions, plainAfter_snoc]
        exact step
      have written := (commit_ok accepted).2.2.2.2.2
      unfold unacknowledged at left ⊢
      rw [shape, written]
      simp only [StoredRun.write, map_append, foldl_append, left, numberEvents_kind]
      rw [numbers, show transition.events.map NewEvent.kind = transition.kinds from rfl, mail]
      intro same
      have lengths := congrArg List.length same
      rw [length_range', length_range'] at lengths
      omega

end RaisinDB.Agents
