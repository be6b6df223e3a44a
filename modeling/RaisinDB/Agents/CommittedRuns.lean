import RaisinDB.Agents.CommitsFollow

/-!
# Runs of commits

A commit that is accepted was computed from the record that is stored: any older record
has an older version.  So in every run the log tells all of the record that it can tell,
and every event in it was legal when it was written.
-/

namespace RaisinDB.Agents

open List
open RaisinDB.Foundation (Value Machine ok_of_bind ok_of_map)

/-! ## The first event -/

namespace Ledger

/-- What the first event says. -/
def created (runId : RunId) : Ledger where
  runId := runId
  seq := 1
  status := .queued
  requests := []
  steers := []
  turn := none
  op := none
  pausing := false
  owner := none
  epoch := 0
  mailbox := []
  children := []
  counters := {}
  lastCheckpoint := none
  operations := 0
  modelCalls := 0
  received := none
  resumed := false

/-- Read a whole log. -/
def ofLog : List RunEvent → Option Ledger
  | [] => none
  | first :: rest =>
      match first.kind with
      | .runCreated .. => some ((created first.runId).replay (rest.map RunEvent.kind))
      | _ => none

end Ledger

/-- Runs start as new ones or as children that a parent admitted. -/
inductive Started : AgentRunRecord → Prop where
  | new (req : CreateRun) (runId : RunId) (now : Nat) : Started (newRecord req runId now)
  | child {parent : AgentRunRecord} {req : SpawnChild} {childId : RunId} {admittedAt : Nat}
      {transition : Transition} {plan : ChildPlan}
      (spawned : applySpawn parent req childId admittedAt = .ok (transition, plan))
      (scope : RunScope) (now : Nat) : Started (materialize plan scope now)

theorem Started.ledgerOf {record : AgentRunRecord} (started : Started record) :
    Agents.ledgerOf record = Ledger.created record.runId := by
  cases started <;> rfl

/-! ## What was committed -/

/-- A commit that the store accepts. -/
structure Committed (service : Service) (run : StoredRun) (call : Call) (commit : Commit)
    (next : StoredRun) : Prop where
  computed : service.transitionOf run run.record call.now call.action =
    some (commit.fence, commit.transition)
  fenced : checkFence run.record commit.fence call.now = .ok ()
  invariants : checkInvariants (some run.record) commit.transition.record = .ok ()
  dedup : checkControlDedup (commit.transition.control.bind fun control => run.controlAck control.1)
    commit.transition.control = .ok ()
  once : run.checkWriteOnce commit.transition.domainState = .ok ()
  written : next = run.write commit.transition
    (numberEvents run.record.runId call.now (run.record.lastSeq + 1) commit.transition.events)

theorem commit_ok {run next : StoredRun} {fence : Fence} {transition : Transition} {now : Nat}
    (ok : run.commit fence transition now = .ok next) :
    checkFence run.record fence now = .ok () ∧ run.record.version = transition.expectedVersion ∧
      checkInvariants (some run.record) transition.record = .ok () ∧
      checkControlDedup (transition.control.bind fun control => run.controlAck control.1)
        transition.control = .ok () ∧
      run.checkWriteOnce transition.domainState = .ok () ∧
      next = run.write transition
        (numberEvents run.record.runId now (run.record.lastSeq + 1) transition.events) := by
  unfold StoredRun.commit at ok
  obtain ⟨events, verified, ok⟩ := ok_of_bind ok
  obtain ⟨_, dedup, ok⟩ := ok_of_bind ok
  obtain ⟨_, once, ok⟩ := ok_of_bind ok
  cases ok
  unfold verifyCommit at verified
  cases fenced : checkFence run.record fence now with
  | error code =>
      rw [fenced] at verified
      simp only [] at verified
      split at verified <;> cases verified
  | ok _ =>
      rw [fenced] at verified
      simp only [] at verified
      split at verified
      · cases verified
      · next version =>
        split at verified
        · cases verified
        · split at verified
          · cases verified
          · split at verified
            · cases verified
            · next kept =>
              cases verified
              exact ⟨rfl, not_not.mp version, kept, dedup, once, rfl⟩

theorem attempt_ok {service : Service} {history : RunHistory} {call : Call} {commit : Commit}
    {next : StoredRun} (ok : history.attempt service call = some (commit, next)) :
    call.record ∈ history.loaded ∧
      service.transitionOf history.run call.record call.now call.action =
        some (commit.fence, commit.transition) ∧
      history.run.commit commit.fence commit.transition call.now = .ok next := by
  unfold RunHistory.attempt at ok
  split at ok
  · next mem =>
    split at ok
    · next fence transition computed =>
      split at ok
      · next run committed =>
        cases ok
        exact ⟨mem, computed, committed⟩
      · cases ok
    · cases ok
  · cases ok

theorem numberEvents_seq (runId : RunId) (now seq : Nat) (events : List NewEvent) :
    (numberEvents runId now seq events).map RunEvent.seq = range' seq events.length := by
  induction events generalizing seq with
  | nil => rfl
  | cons event rest ih => simp [numberEvents, ih, range'_succ]

theorem numberEvents_kind (runId : RunId) (now seq : Nat) (events : List NewEvent) :
    (numberEvents runId now seq events).map RunEvent.kind = events.map NewEvent.kind := by
  induction events generalizing seq with
  | nil => rfl
  | cons event rest ih => simp [numberEvents, ih]

theorem numberEvents_runId (runId : RunId) (now seq : Nat) (events : List NewEvent) :
    ∀ event ∈ numberEvents runId now seq events, event.runId = runId := by
  induction events generalizing seq with
  | nil => intro event mem; cases mem
  | cons event rest ih => exact forall_mem_cons.mpr ⟨rfl, ih (seq + 1)⟩

/-! ## The log of a run -/

/-- The log of a stored run tells its record. -/
structure Logged (run : StoredRun) : Prop where
  /-- The first event created the run, and every later one was legal. -/
  legal : ∃ created rest, run.log = created :: rest ∧
    (∃ subject principal budgets input,
      created.kind = .runCreated subject principal budgets input) ∧
    (Ledger.created run.record.runId).LegalRun (rest.map RunEvent.kind)
  replays : Ledger.ofLog run.log = some (ledgerOf run.record)
  numbered : run.log.map RunEvent.seq = range' 1 run.record.lastSeq
  owned : ∀ event ∈ run.log, event.runId = run.record.runId

structure Recorded (history : RunHistory) : Prop where
  current : history.run.record ∈ history.loaded
  latest : ∀ record ∈ history.loaded, record.version ≤ history.run.record.version ∧
    (record.version = history.run.record.version → record = history.run.record)
  logged : Logged history.run

theorem Started.recorded {record : AgentRunRecord} (started : Started record) (input : Value) :
    Recorded (RunHistory.start record input) := by
  have one : record.lastSeq = 1 := by cases started <;> rfl
  have same := started.ledgerOf
  refine ⟨mem_singleton_self _, ?_, ?_⟩
  · intro other mem
    rw [mem_singleton.mp mem]
    exact ⟨le_rfl, fun _ => rfl⟩
  · refine ⟨⟨_, [], rfl, ⟨_, _, _, _, rfl⟩, trivial⟩, ?_, ?_, ?_⟩
    · simp [RunHistory.start, StoredRun.create, Ledger.ofLog, same]
    · simp [RunHistory.start, StoredRun.create, one]
    · intro event mem
      rw [mem_singleton.mp mem]
      rfl

section Step

variable {service : Service} {history : RunHistory} {call : Call} {commit : Commit}
  {next : StoredRun}

/-- An accepted commit was computed from the stored record. -/
theorem Recorded.committed (recorded : Recorded history)
    (ok : history.attempt service call = some (commit, next)) :
    call.record = history.run.record ∧ Committed service history.run call commit next := by
  obtain ⟨mem, computed, committed⟩ := attempt_ok ok
  obtain ⟨fenced, version, kept, dedup, once, written⟩ := commit_ok committed
  obtain ⟨start, adjusted, follows⟩ := transitionOf_follows computed
  have same : call.record = history.run.record := by
    apply (recorded.latest call.record mem).2
    rw [version, follows.expected, adjusted.ledgerOf.2.1]
  exact ⟨same, same ▸ computed, fenced, kept, dedup, once, written⟩

/-- What a commit says follows from the stored record. -/
theorem Committed.follows {run : StoredRun} (committed : Committed service run call commit next) :
    ∃ start, Adjusted service run run.record call.action start ∧
      Follows start commit.transition := transitionOf_follows committed.computed

theorem Committed.record {run : StoredRun} (committed : Committed service run call commit next) :
    next.record = commit.transition.record := by rw [committed.written]; rfl

theorem Committed.legal {run : StoredRun} (committed : Committed service run call commit next) :
    (ledgerOf run.record).LegalRun commit.transition.kinds := by
  obtain ⟨start, adjusted, follows⟩ := committed.follows
  exact adjusted.ledgerOf.1 ▸ follows.legal

theorem Committed.replays {run : StoredRun} (committed : Committed service run call commit next) :
    (ledgerOf run.record).replay commit.transition.kinds = ledgerOf next.record := by
  obtain ⟨start, adjusted, follows⟩ := committed.follows
  rw [committed.record, ← follows.replays, adjusted.ledgerOf.1]

theorem Committed.version {run : StoredRun} (committed : Committed service run call commit next) :
    next.record.version = run.record.version + 1 := by
  obtain ⟨start, adjusted, follows⟩ := committed.follows
  have version := congrArg Origin.version follows.origin
  rw [committed.record]
  exact version.trans (congrArg (· + 1) adjusted.ledgerOf.2.1)

theorem Committed.logged {run : StoredRun} (committed : Committed service run call commit next)
    (logged : Logged run) : Logged next := by
  obtain ⟨start, adjusted, follows⟩ := committed.follows
  have runId : next.record.runId = run.record.runId := by
    have replayed := congrArg Ledger.runId committed.replays
    have still (ledger : Ledger) (kinds : List RunEventKind) :
        (ledger.replay kinds).runId = ledger.runId := by
      induction kinds generalizing ledger with
      | nil => rfl
      | cons kind rest ih => rw [Ledger.replay_cons, ih]; cases kind <;> rfl
    exact replayed.symm.trans (still _ _)
  have lastSeq : next.record.lastSeq =
      run.record.lastSeq + commit.transition.events.length := by
    have replayed := congrArg Ledger.seq committed.replays
    rw [Ledger.replay_seq, Transition.kinds, length_map] at replayed
    exact replayed.symm
  have log : next.log = run.log ++ numberEvents run.record.runId call.now (run.record.lastSeq + 1)
      commit.transition.events := by rw [committed.written]; rfl
  obtain ⟨created, rest, shape, first, legal⟩ := logged.legal
  have replays := logged.replays
  obtain ⟨subject, principal, budgets, input, kind⟩ := first
  simp only [shape, Ledger.ofLog, kind, Option.some.injEq] at replays
  refine ⟨⟨created, rest ++ numberEvents run.record.runId call.now (run.record.lastSeq + 1)
    commit.transition.events, by rw [log, shape, cons_append], ⟨_, _, _, _, kind⟩, ?_⟩, ?_, ?_, ?_⟩
  · rw [runId, map_append, numberEvents_kind, Ledger.legalRun_append]
    have owner : created.runId = run.record.runId := logged.owned created (by simp [shape])
    rw [← owner] at legal ⊢
    exact ⟨legal, by rw [replays]; exact committed.legal⟩
  · rw [log, shape, cons_append]
    simp only [Ledger.ofLog, kind, map_append, numberEvents_kind]
    rw [Ledger.replay_append, replays]
    exact congrArg some committed.replays
  · rw [log, map_append, logged.numbered, numberEvents_seq, lastSeq]
    rw [Nat.add_comm run.record.lastSeq 1, range'_append_1]
  · intro event mem
    rw [log] at mem
    rw [runId]
    rcases mem_append.mp mem with before | new
    · exact logged.owned event before
    · exact numberEvents_runId _ _ _ _ event new

theorem step_cases (service : Service) (history : RunHistory) (call : Call) :
    (∃ commit run, history.attempt service call = some (commit, run) ∧
        history.step service call = (⟨run, run.record :: history.loaded⟩, some commit)) ∨
      history.step service call = (history, none) := by
  unfold RunHistory.step
  cases attempted : history.attempt service call with
  | none => exact .inr rfl
  | some result => exact .inl ⟨result.1, result.2, rfl, rfl⟩

theorem Recorded.step (recorded : Recorded history) (call : Call) :
    Recorded (history.step service call).1 := by
  rcases step_cases service history call with ⟨commit, run, ok, step⟩ | step
  · obtain ⟨_, committed⟩ := recorded.committed ok
    have newer := committed.version
    rw [step]
    refine ⟨mem_cons_self, ?_, committed.logged recorded.logged⟩
    intro record mem
    rcases mem_cons.mp mem with new | old
    · rw [new]
      exact ⟨le_rfl, fun _ => rfl⟩
    · have before := (recorded.latest record old).1
      refine ⟨by simp only []; omega, fun same => ?_⟩
      simp only [] at same
      omega
  · rw [step]
    exact recorded

end Step

/-- In every reachable state the log tells the record. -/
theorem Started.reaches {record : AgentRunRecord} (started : Started record) (service : Service)
    (input : Value) (calls : List Call) :
    Recorded ((runMachine service).final (RunHistory.start record input) calls) :=
  (runMachine service).final_invariant Recorded (fun _ _ => True)
    (fun _ call recorded _ => recorded.step call) (started.recorded input) (fun _ _ => trivial)

/-- The commits a run accepts, in order. -/
def acceptedCommits (service : Service) (record : AgentRunRecord) (input : Value)
    (calls : List Call) : List Commit :=
  ((runMachine service).outputs (RunHistory.start record input) calls).filterMap id

def finalRun (service : Service) (record : AgentRunRecord) (input : Value) (calls : List Call) :
    StoredRun := ((runMachine service).final (RunHistory.start record input) calls).run

/-! ## Plain runs -/

/-- The calls of one caller that loads the record before each action. -/
def freshCalls (service : Service) : RunHistory → List (Action × Nat) → List Call
  | _, [] => []
  | history, (action, now) :: rest =>
      ⟨history.run.record, action, now⟩ ::
        freshCalls service (history.step service ⟨history.run.record, action, now⟩).1 rest

def plainService : Service where
  leaseTtlMs := 1000
  capabilityHash := id
  payloadDigest := fun _ => ""
  envelopeDigest := fun _ => ""
  checks := ⟨fun _ => 0, fun _ => none⟩

/-- A run without budgets, reducer and waiter. -/
def plainRequest : CreateRun where
  scope := ⟨"tenant", "repo", "main"⟩
  subject := ⟨"workspace", "/task", none⟩
  principal := ⟨.user, "user", none⟩
  controlCapabilityHash := none
  agentRef := none
  createKey := none
  budgets := {}
  input := .null
  reducer := none
  executorConfig := none
  waiter := none

def plainRecord : AgentRunRecord := newRecord plainRequest "run" 0

def plainCalls (actions : List (Action × Nat)) : List Call :=
  freshCalls plainService (RunHistory.start plainRecord .null) actions

def plainFinal (actions : List (Action × Nat)) : StoredRun :=
  finalRun plainService plainRecord .null (plainCalls actions)

end RaisinDB.Agents
