import RaisinDB.Agents.SoundRecords

/-!
# Results from outside

A delivery that is taken answers the first open request under its key.  Its
acknowledgement is stored whether the request was there or not, and later deliveries under
the same id are answered from it.
-/

namespace RaisinDB.Agents

open List
open RaisinDB.Foundation (Value Machine)

namespace Ledger

/-! ## Each request is answered once -/

/-- Whether an event answers the request. -/
def resolves (requestId : RequestId) : RunEventKind → Bool
  | .requestResolved resolved .. => resolved == requestId
  | _ => false

/-- Requests that are open were not answered yet, and no request was answered twice. -/
structure Answered (kinds : List RunEventKind) (ledger : Ledger) : Prop where
  numbered : Numbered ledger
  given : ∀ kind ∈ kinds, ∀ requestId, resolves requestId kind = true →
    ∃ n, n ≤ ledger.counters.request ∧ requestId = RequestId.nth ledger.runId n
  waiting : ∀ request ∈ ledger.requests, kinds.countP (resolves request.requestId) = 0
  once : ∀ requestId, kinds.countP (resolves requestId) ≤ 1

section Answered

variable {kinds : List RunEventKind} {ledger : Ledger} {kind : RunEventKind}

theorem Answered.other (answered : Answered kinds ledger) (legal : ledger.Legal kind)
    (silent : ∀ requestId, resolves requestId kind = false)
    (fewer : (ledger.observe kind).requests.Sublist ledger.requests)
    (count : ledger.counters.request ≤ (ledger.observe kind).counters.request) :
    Answered (kinds ++ [kind]) (ledger.observe kind) := by
  have same (requestId : RequestId) :
      (kinds ++ [kind]).countP (resolves requestId) = kinds.countP (resolves requestId) := by
    simp [countP_append, silent]
  refine ⟨answered.numbered.observe legal, ?_, ?_, ?_⟩
  · intro event mem requestId found
    rcases mem_append.mp mem with early | here
    · obtain ⟨n, below, named⟩ := answered.given event early requestId found
      exact ⟨n, below.trans count, (ledger.observe_runId kind).symm ▸ named⟩
    · rw [mem_singleton.mp here, silent] at found
      cases found
  · intro request mem
    rw [same]
    exact answered.waiting request (fewer.subset mem)
  · intro requestId
    rw [same]
    exact answered.once requestId

theorem Answered.observe (answered : Answered kinds ledger) (legal : ledger.Legal kind) :
    Answered (kinds ++ [kind]) (ledger.observe kind) := by
  cases kind with
  | requestOpened request =>
    have named := legal.1
    have same (requestId : RequestId) :
        (kinds ++ [RunEventKind.requestOpened request]).countP (resolves requestId) =
          kinds.countP (resolves requestId) := by
      simp [countP_append, resolves]
    refine ⟨answered.numbered.observe legal, ?_, ?_, ?_⟩
    · intro event mem requestId found
      rcases mem_append.mp mem with early | here
      · obtain ⟨n, below, named'⟩ := answered.given event early requestId found
        exact ⟨n, Nat.le_succ_of_le below, named'⟩
      · rw [mem_singleton.mp here] at found
        cases found
    · intro other mem
      rw [same]
      rcases mem_append.mp mem with before | new
      · exact answered.waiting other before
      · -- The number is new, so nothing under it was answered.
        rw [mem_singleton.mp new, countP_eq_zero]
        intro event early found
        obtain ⟨n, below, named'⟩ := answered.given event early request.requestId found
        have equal := RequestId.nth_inj (named'.symm.trans named)
        omega
    · intro requestId
      rw [same]
      exact answered.once requestId
  | requestResolved requestId resolution byControl =>
    have numbered := answered.numbered.observe legal
    obtain ⟨request, mem, same, _⟩ := legal
    have unanswered := answered.waiting request mem
    rw [same] at unanswered
    obtain ⟨n, _, below, named⟩ := answered.numbered.given request mem
    refine ⟨numbered, ?_, ?_, ?_⟩
    · intro event mem' other found
      rcases mem_append.mp mem' with early | here
      · exact answered.given event early other found
      · rw [mem_singleton.mp here] at found
        have equal : requestId = other := by simpa [resolves] using found
        exact ⟨n, below, equal ▸ same ▸ named⟩
    · intro other left
      have before : other ∈ ledger.requests := eraseP_sublist.subset left
      have different : other.requestId ≠ requestId := by
        intro equal
        have distinct := answered.numbered.distinct
        have erased : (ledger.requests.eraseP
            (·.requestId == requestId)).map PendingRequest.requestId =
              (ledger.requests.map PendingRequest.requestId).erase requestId := by
          rw [erase_eq_eraseP, eraseP_map]
          congr 1
          congr 1
          funext other
          exact Bool.beq_comm
        have mem' := mem_map_of_mem (f := PendingRequest.requestId) left
        simp only [Ledger.observe, note] at mem'
        rw [erased, equal] at mem'
        exact (distinct.not_mem_erase) mem'
      rw [countP_append, answered.waiting other before]
      simp [resolves, different.symm]
    · intro other
      by_cases equal : requestId = other
      · subst equal
        rw [countP_append, unanswered]
        simp [resolves]
      · simpa [countP_append, resolves, equal] using answered.once other
  | requestClosed requestId reason =>
    exact answered.other legal (fun _ => rfl) eraseP_sublist le_rfl
  | operationStarted =>
    refine answered.other legal (fun _ => rfl) (Sublist.refl _) ?_
    simp only [Ledger.observe, note]
    split <;> exact le_rfl
  | _ => exact answered.other legal (fun _ => rfl) (Sublist.refl _) le_rfl

theorem answered_of_legal {runId : RunId} (legal : LegalRun (created runId) kinds) :
    Answered kinds ((created runId).replay kinds) := by
  have start : Answered [] (created runId) :=
    ⟨(sound_created runId).numbered, fun _ mem => absurd mem not_mem_nil,
      fun _ mem => absurd mem not_mem_nil, fun _ => Nat.zero_le _⟩
  have kept := history_invariant Answered (fun _ _ _ answered here => answered.observe here) []
    start legal
  rwa [nil_append] at kept

end Answered

end Ledger

theorem Recorded.answered {history : RunHistory} (recorded : Recorded history)
    (requestId : RequestId) :
    (history.run.log.map RunEvent.kind).countP (Ledger.resolves requestId) ≤ 1 := by
  obtain ⟨created, rest, shape, ⟨subject, principal, budgets, text, kind⟩, legal⟩ :=
    recorded.logged.legal
  rw [shape, map_cons, kind, countP_cons_of_neg (by simp [Ledger.resolves])]
  exact (Ledger.answered_of_legal legal).once requestId

/-! ## A commit without a claim -/

theorem verifyCommit_fresh {service : Service} {history : RunHistory} {action : Action}
    {now : Nat} {fence : Fence} {transition : Transition} (healthy : Healthy history)
    (computed : service.transitionOf history.run history.run.record now action =
      some (fence, transition)) (fenced : checkFence history.run.record fence now = .ok ())
    (last : CountersLast history.run.record transition) :
    verifyCommit history.run.record fence transition now =
      .ok (numberEvents history.run.record.runId now (history.run.record.lastSeq + 1)
        transition.events) := by
  obtain ⟨start, adjusted, follows⟩ := transitionOf_follows computed
  obtain ⟨_, version, lastSeq⟩ := adjusted.ledgerOf
  have runId : start.runId = history.run.record.runId := by cases adjusted <;> rfl
  have scope : start.scope = history.run.record.scope := by cases adjusted <;> rfl
  have origin := follows.origin
  have version' : transition.record.version = start.version + 1 := congrArg Origin.version origin
  have lastSeq' : transition.record.lastSeq = start.lastSeq + transition.events.length :=
    congrArg Origin.seq origin
  have runId' : transition.record.runId = start.runId := congrArg Origin.runId origin
  have scope' : transition.record.scope = start.scope := congrArg Origin.scope origin
  have kept := (healthy.checkInvariants_ok computed).1 last
  have expected : history.run.record.version = transition.expectedVersion := by
    rw [follows.expected, version]
  unfold verifyCommit
  rw [fenced]
  simp only []
  rw [if_neg (not_not.mpr expected), if_neg, if_neg, kept]
  · rw [runId', scope', runId, scope]
    simp
  · rw [version', lastSeq', version, lastSeq]
    simp

/-! ## One delivery -/

section Delivery

variable {service : Service} {history : RunHistory} {key : String} {request : PendingRequest}

/-- The delivery answers the request, and what was delivered is stored for it. -/
def Delivered (request : PendingRequest) (deliveryId : String) (envelope : Value)
    (after : RunHistory × Option Commit) : Prop :=
  ∃ commit, after.2 = some commit ∧
    .requestResolved request.requestId (externalResolution request deliveryId) none ∈
      commit.transition.kinds ∧
    after.1.run.result (externalId deliveryId) = some envelope

/-- A transition may have changed the status last. -/
def AtMostMoved (tx later : Tx) : Prop :=
  (later.kinds = tx.kinds ∨
      ∃ source target reason, later.kinds = tx.kinds ++ [.statusChanged source target reason]) ∧
    later.results = tx.results ∧ later.domainState = tx.domainState

theorem removeRequest_moves (tx : Tx) (requestId : RequestId) :
    AtMostMoved tx (tx.removeRequest requestId) := by
  rcases tx.removeRequest_cases requestId with
    ⟨same, _⟩ | ⟨next, moved, _⟩ | ⟨⟨_, state⟩, _, moved⟩
  · rw [same]
    exact ⟨.inl rfl, rfl, rfl⟩
  · rw [moved]
    exact ⟨.inl rfl, rfl, rfl⟩
  · have queued : tx.setState (.queued [] .requestResolved) none =
        ({ tx.setRecordState (.queued [] .requestResolved) with
          wake := some .requestResolved }).push (.statusChanged .waiting .queued none) := by
      simp [Tx.setState, Tx.leaveLease, Tx.enter, Tx.wakeFor, Tx.setRecordState, Tx.push, state]
    rw [moved, queued]
    refine ⟨.inr ⟨.waiting, .queued, none, ?_⟩, rfl, rfl⟩
    simp [Tx.push, Tx.kinds, Tx.setRecordState]

theorem wakeForResult_moves {tx later : Tx} (moves : AtMostMoved tx later) :
    AtMostMoved tx (wakeForResult later) := by
  unfold wakeForResult
  split
  · split <;> exact moves
  · exact moves

/-- What a delivery that finds its request commits. -/
theorem applyDelivery_found {record : AgentRunRecord} (deliveryId : String) (envelope : Value)
    (digest : String) (now : Nat)
    (found : record.state.openRequests.find? (waitsFor key) = some request) :
    ∃ extra, (applyDelivery record key deliveryId envelope digest now).1.kinds =
        .requestResolved request.requestId (externalResolution request deliveryId) none :: extra ∧
      (∀ kind ∈ extra, ∃ source target reason, kind = .statusChanged source target reason) ∧
      (applyDelivery record key deliveryId envelope digest now).1.results =
        [(jsonResult (externalId deliveryId) envelope, envelope)] ∧
      (applyDelivery record key deliveryId envelope digest now).1.domainState = none ∧
      (applyDelivery record key deliveryId envelope digest now).1.control =
        some (externalId deliveryId, .applied (record.lastSeq + 1), digest) := by
  let stored := storeJson (Tx.new record now) (externalId deliveryId) envelope
  let pushed := stored.push
    (.requestResolved request.requestId (externalResolution request deliveryId) none)
  obtain ⟨kinds, results, domainState⟩ :=
    wakeForResult_moves (removeRequest_moves pushed request.requestId)
  unfold applyDelivery
  simp only [found]
  rcases kinds with same | ⟨source, target, reason, more⟩
  · exact ⟨[], same, fun _ mem => absurd mem not_mem_nil, results, domainState, rfl⟩
  · exact ⟨[.statusChanged source target reason], more,
      fun kind mem => ⟨source, target, reason, mem_singleton.mp mem⟩, results, domainState, rfl⟩

/-- A delivery begins no turn and writes no checkpoint. -/
theorem counters_last {transition : Transition} {resolution : Value} {extra : List RunEventKind}
    (kinds : transition.kinds = .requestResolved request.requestId resolution none :: extra)
    (moves : ∀ kind ∈ extra, ∃ source target reason, kind = .statusChanged source target reason)
    (record : AgentRunRecord) : CountersLast record transition := by
  have turns : transition.kinds.countP Ledger.startsTurn = 0 := by
    rw [kinds, countP_cons_of_neg Bool.false_ne_true, countP_eq_zero]
    intro kind mem
    obtain ⟨_, _, _, rfl⟩ := moves kind mem
    exact Bool.false_ne_true
  have checkpoints : transition.kinds.countP Ledger.writesCheckpoint = 0 := by
    rw [kinds, countP_cons_of_neg Bool.false_ne_true, countP_eq_zero]
    intro kind mem
    obtain ⟨_, _, _, rfl⟩ := moves kind mem
    exact Bool.false_ne_true
  constructor
  · rw [turns]
    exact record.counters.turn.toNat_lt
  · rw [checkpoints]
    exact record.counters.checkpoint.toNat_lt

theorem deliver_computed (service : Service) (key : String) {deliveryId : String}
    (envelope : Value) (now : Nat)
    (fresh : history.run.controlAck (externalId deliveryId) = none) :
    service.transitionOf history.run history.run.record now (.deliver key deliveryId envelope) =
      some (.none, (applyDelivery history.run.record key deliveryId envelope
        (service.envelopeDigest envelope) now).1) := by
  simp only [Service.transitionOf, Service.deliverExternal, fresh, Service.unfenced, Option.map_some]

/-- A delivery under a fresh id answers the first request under its key. -/
theorem deliver_step (healthy : Healthy history) {deliveryId : String} (envelope : Value) (now : Nat)
    (fresh : history.run.controlAck (externalId deliveryId) = none)
    (found : history.run.record.state.openRequests.find? (waitsFor key) = some request) :
    Delivered request deliveryId envelope
      (history.step service ⟨history.run.record, .deliver key deliveryId envelope, now⟩) := by
  obtain ⟨extra, kinds, moves, results, domainState, control⟩ :=
    applyDelivery_found deliveryId envelope (service.envelopeDigest envelope) now found
  have computed := deliver_computed service key envelope now fresh
  have last := counters_last kinds moves history.run.record
  have verified := verifyCommit_fresh healthy computed rfl last
  generalize (applyDelivery history.run.record key deliveryId envelope
    (service.envelopeDigest envelope) now).1 = transition at *
  have committed : history.run.commit .none transition now =
      .ok (history.run.write transition (numberEvents history.run.record.runId now
        (history.run.record.lastSeq + 1) transition.events)) := by
    unfold StoredRun.commit
    rw [verified, control, domainState]
    simp [fresh, checkControlDedup, StoredRun.checkWriteOnce, bind, Except.bind, pure, Except.pure]
  have step : history.step service ⟨history.run.record, .deliver key deliveryId envelope, now⟩ =
      (⟨history.run.write transition (numberEvents history.run.record.runId now
          (history.run.record.lastSeq + 1) transition.events),
        transition.record :: history.loaded⟩, some ⟨.none, transition⟩) := by
    simp only [RunHistory.step, RunHistory.attempt, if_pos healthy.recorded.current, computed,
      committed]
    rfl
  rw [step]
  refine ⟨_, rfl, ?_, ?_⟩
  · rw [kinds]
    exact mem_cons_self
  · simp [StoredRun.result, StoredRun.write, results, jsonResult]

/-- A delivery answers an open request exactly when its id is fresh and no other open request comes
first under its key. -/
theorem delivered_iff (service : Service) (healthy : Healthy history) (deliveryId : String)
    (envelope : Value) (now : Nat)
    (waits : request ∈ history.run.record.state.openRequests) (same : waitsFor key request = true) :
    Delivered request deliveryId envelope
        (history.step service ⟨history.run.record, .deliver key deliveryId envelope, now⟩) ↔
      history.run.controlAck (externalId deliveryId) = none ∧
        history.run.record.state.openRequests.find? (waitsFor key) = some request := by
  refine ⟨?_, fun condition => deliver_step healthy envelope now condition.1 condition.2⟩
  rintro ⟨commit, accepted, answers, _⟩
  have fresh : history.run.controlAck (externalId deliveryId) = none := by
    by_contra used
    obtain ⟨ack, stored⟩ := Option.ne_none_iff_exists'.mp used
    have silent : history.step service
        ⟨history.run.record, .deliver key deliveryId envelope, now⟩ = (history, none) := by
      simp [RunHistory.step, RunHistory.attempt, Service.transitionOf, Service.deliverExternal,
        stored, Service.unfenced]
    rw [silent] at accepted
    cases accepted
  refine ⟨fresh, ?_⟩
  obtain ⟨first, found⟩ := Option.isSome_iff_exists.mp (find?_isSome.mpr ⟨request, waits, same⟩)
  have mem := mem_of_find?_eq_some found
  obtain ⟨extra, kinds, moves, _⟩ :=
    applyDelivery_found deliveryId envelope (service.envelopeDigest envelope) now found
  have made : commit.transition = (applyDelivery history.run.record key deliveryId envelope
      (service.envelopeDigest envelope) now).1 := by
    rcases step_cases service history ⟨history.run.record, .deliver key deliveryId envelope, now⟩
      with ⟨other, run, ok, step⟩ | step
    · rw [step] at accepted
      cases accepted
      have computed := (healthy.recorded.committed ok).2.computed
      rw [deliver_computed service key envelope now fresh] at computed
      simp only [Option.some.injEq, Prod.mk.injEq] at computed
      exact computed.2.symm
    · rw [step] at accepted
      cases accepted
  rw [made, kinds] at answers
  rcases mem_cons.mp answers with head | later
  · have named : request.requestId = first.requestId := (RunEventKind.requestResolved.inj head).1
    have distinct : (history.run.record.state.openRequests.map PendingRequest.requestId).Nodup :=
      healthy.kept.sound.numbered.distinct
    rw [found, inj_on_of_nodup_map distinct waits mem named]
  · obtain ⟨_, _, _, moved⟩ := moves _ later
    cases moved

end Delivery

/-- A delivery that is tried while a request under its key is open answers that request exactly when
no acknowledgement is stored under its id and no other open request comes first; and no request is
ever answered twice. -/
theorem external_results_answer_iff (service : Service) {record : AgentRunRecord}
    (started : Started record) (input : Value) (calls : List Call) :
    let history := (runMachine service).final (RunHistory.start record input) calls
    (∀ (key deliveryId : String) (envelope : Value) (now : Nat) (request : PendingRequest),
      request ∈ history.run.record.state.openRequests → waitsFor key request = true →
        (Delivered request deliveryId envelope
            (history.step service ⟨history.run.record, .deliver key deliveryId envelope, now⟩) ↔
          history.run.controlAck (externalId deliveryId) = none ∧
            history.run.record.state.openRequests.find? (waitsFor key) = some request)) ∧
    ∀ requestId, (history.run.log.map RunEvent.kind).countP (Ledger.resolves requestId) ≤ 1 := by
  have healthy := started.healthy service input calls
  exact ⟨fun _ deliveryId envelope now _ waits same =>
    delivered_iff service healthy deliveryId envelope now waits same, healthy.recorded.answered⟩

/-- A run that waits for a job. -/
def waitingActions : List (Action × Nat) :=
  [(.acquire "a", 1), (.begin ⟨"a", 1⟩ {}, 2),
    (.finish ⟨"a", 1⟩ "run/op/1" { outcome := some .waiting, resumeKey := some "job" }, 3)]

theorem waiting_job_is_answered :
    ∃ request, Delivered request "d" (.string "done")
      ((runMachine plainService).step
        ((runMachine plainService).final (RunHistory.start plainRecord .null)
          (plainCalls waitingActions))
        ⟨(plainFinal waitingActions).record, .deliver "job" "d" (.string "done"), 4⟩) := by
  obtain ⟨request, found⟩ := Option.isSome_iff_exists.mp
    (by decide +kernel : ((plainFinal waitingActions).record.state.openRequests.find?
      (waitsFor "job")).isSome = true)
  exact ⟨request, ((external_results_answer_iff plainService (.new plainRequest "run" 0) .null
    (plainCalls waitingActions)).1 "job" "d" (.string "done") 4 request
      (mem_of_find?_eq_some found) (find?_some found)).mpr ⟨by decide +kernel, found⟩⟩

/-- The result arrives before the run has recorded that it waits for it. -/
def earlyDelivery : List (Action × Nat) :=
  [(.acquire "a", 1), (.begin ⟨"a", 1⟩ {}, 2), (.deliver "job" "d" (.string "done"), 3),
    (.finish ⟨"a", 1⟩ "run/op/1" { outcome := some .waiting, resumeKey := some "job" }, 4)]

/-- The retry of an early delivery is taken for a duplicate, and the request stays open. -/
theorem early_delivery_is_lost :
    ¬ ∀ (calls : List Call) (key deliveryId : String) (envelope : Value) (now : Nat)
        (request : PendingRequest),
      request ∈ (finalRun plainService plainRecord .null calls).record.state.openRequests →
        waitsFor key request = true →
          Delivered request deliveryId envelope
            ((runMachine plainService).step
              ((runMachine plainService).final (RunHistory.start plainRecord .null) calls)
              ⟨(finalRun plainService plainRecord .null calls).record,
                .deliver key deliveryId envelope, now⟩) := by
  intro kept
  obtain ⟨request, found⟩ := Option.isSome_iff_exists.mp
    (by decide +kernel : ((plainFinal earlyDelivery).record.state.openRequests.find?
      (waitsFor "job")).isSome = true)
  have waits := mem_of_find?_eq_some found
  have healthy := (Started.new plainRequest "run" 0).healthy plainService .null
    (plainCalls earlyDelivery)
  have fresh := ((delivered_iff plainService healthy "d" (.string "done") 5 waits (find?_some found)).mp
    (kept (plainCalls earlyDelivery) "job" "d" (.string "done") 5 request waits
      (find?_some found))).1
  have used : ((plainFinal earlyDelivery).controlAck (externalId "d")).isSome = true := by
    decide +kernel
  have none : (plainFinal earlyDelivery).controlAck (externalId "d") = none := fresh
  rw [none] at used
  cases used

end RaisinDB.Agents
