import RaisinDB.Agents.KeptPause
import RaisinDB.Agents.OwedEffects

/-!
# Budget refusals

When a budget refuses the operation of an effect, the run pauses and the effect is put in the
outbox.  A tool that the objective of a child does not allow is begun a second time, as an
operation that is denied; a budget that refuses this one is not handled.
-/

namespace RaisinDB.Agents

open List
open RaisinDB.Foundation (Value Machine)

/-! ## Starting an effect -/

def Effect.kind (effect : Effect) : OperationKind :=
  match effect.body with
  | .requestModelTurn .. => .modelTurn
  | _ => .toolCall

/-- The objective of a child allows the tool that the effect calls. -/
def ObjectiveAllows (record : AgentRunRecord) (effect : Effect) : Prop :=
  match effect.body with
  | .callTool tool .. => ∀ allowed, record.allowedTools = some allowed → toolAllowed allowed tool
  | _ => True

/-- The effect answers the calls that it must answer, and none that is not open. -/
def AnswersOpen (unanswered : List CallId) (effect : Effect) : Prop :=
  match effect.body with
  | .callTool _ _ _ _ _ _ forCallId => ∀ call, forCallId = some call → call ∈ unanswered
  | .requestModelTurn _ _ _ toolResults _ =>
      ∀ call ∈ unanswered, call ∈ toolResults.map ToolResultEntry.callId
  | _ => False

/-- One of the two attempts to begin the operation of an effect is refused by a budget. -/
def RefusedByBudget (tx : Tx) (effect : Effect) : Prop :=
  ∃ spec exceeded,
    specFor effect (OperationId.nth tx.record.runId (tx.record.counters.op + 1)) tx.record.runId
      tx.nowMs = some spec ∧
    (beginIn tx spec = .error (.budget exceeded) ∨
      ∃ tool, beginIn tx spec = .error (.toolNotAllowed tool) ∧
        beginIn tx { spec with kind := some (.custom "tool_denied") } = .error (.budget exceeded))

variable {tx : Tx} {record : AgentRunRecord} {effect : Effect} {spec : OperationSpec}
  {opId : OperationId} {run : RunId} {now stateRev : Nat}

/-- An effect that becomes an operation is a tool call or a model turn. -/
theorem specFor_body (asked : specFor effect opId run now = some spec) :
    (∃ tool args mutating replaySafe interruptible timeoutMs forCallId, effect.body =
      .callTool tool args mutating replaySafe interruptible timeoutMs forCallId) ∨
    ∃ toolsOffered instructions context toolResults outputSchema, effect.body =
      .requestModelTurn toolsOffered instructions context toolResults outputSchema := by
  unfold specFor at asked
  cases body : effect.body with
  | callTool => exact .inl ⟨_, _, _, _, _, _, _, rfl⟩
  | requestModelTurn => exact .inr ⟨_, _, _, _, _, rfl⟩
  | _ =>
    rw [body] at asked
    cases asked

theorem specFor_kind (asked : specFor effect opId run now = some spec) :
    spec.kind.getD .toolCall = effect.kind ∧ spec.effectId = some effect.effectId := by
  unfold specFor at asked
  unfold Effect.kind
  split at asked
  · next body => cases asked; rw [body]; exact ⟨rfl, rfl⟩
  · next body => cases asked; rw [body]; exact ⟨rfl, rfl⟩
  · cases asked

theorem deniedTool_iff (asked : specFor effect opId run now = some spec) :
    deniedTool record (spec.kind.getD .toolCall) spec.input = none ↔
      ObjectiveAllows record effect := by
  unfold specFor at asked
  unfold ObjectiveAllows AgentRunRecord.allowedTools
  split at asked
  · next tool args mutating replaySafe interruptible timeoutMs forCallId body =>
    cases asked
    have named : toolOf (some (.object [("tool", .string tool), ("args", addContext args opId run),
        ("mutating", .bool mutating)])) = some tool := rfl
    rw [body]
    cases delegated : record.delegation with
    | none => simp [deniedTool, delegated]
    | some delegation =>
      simp only [deniedTool, delegated, named, Option.map_some, Option.getD_some]
      by_cases none : delegation.objective.allowedTools = []
      · simp [none, toolAllowed]
      · simp [none]
  · next body =>
    cases asked
    rw [body]
    cases delegated : record.delegation <;> simp [deniedTool, delegated]
  · cases asked

/-- What an attempt at the idle boundary decides. -/
theorem beginIn_idle {lease : Lease} (state : tx.record.state = .running lease (.idle []))
    (spec : OperationSpec) :
    (∃ tool, deniedTool tx.record (spec.kind.getD .toolCall) spec.input = some tool ∧
      beginIn tx spec = .error (.toolNotAllowed tool)) ∨
    deniedTool tx.record (spec.kind.getD .toolCall) spec.input = none ∧
      ((∃ exceeded, checkBeforeOp tx.record (spec.kind.getD .toolCall)
          tx.record.currentTurn.isNone tx.nowMs = some exceeded ∧
        beginIn tx spec = .error (.budget exceeded)) ∨
      checkBeforeOp tx.record (spec.kind.getD .toolCall) tx.record.currentTurn.isNone tx.nowMs =
          none ∧
        beginIn tx spec = (answerCalls tx (spec.kind.getD .toolCall) spec).map fun answered =>
          let turned :=
            if tx.record.currentTurn.isNone then startTurn answered spec.cause else answered
          let op := newOperation (countOperation turned) (spec.kind.getD .toolCall) spec
          (((countOperation turned).push (startedEvent op)).setRecordState
            (.running lease (.operating op false)), op)) := by
  unfold beginIn
  rw [state]
  simp only [ne_eq, not_true_eq_false, if_false]
  cases deniedTool tx.record (spec.kind.getD .toolCall) spec.input with
  | some tool => exact .inl ⟨tool, rfl, rfl⟩
  | none =>
    refine .inr ⟨rfl, ?_⟩
    simp only []
    cases checkBeforeOp tx.record (spec.kind.getD .toolCall) tx.record.currentTurn.isNone
        tx.nowMs with
    | some exceeded => exact .inl ⟨exceeded, rfl, rfl⟩
    | none =>
      refine .inr ⟨rfl, ?_⟩
      cases answerCalls tx (spec.kind.getD .toolCall) spec <;> rfl

/-- Only a run between two operations is refused by a budget. -/
theorem RefusedByBudget.idle (refused : RefusedByBudget tx effect) :
    ∃ lease, tx.record.state = .running lease (.idle []) := by
  obtain ⟨spec, exceeded, _, first | ⟨tool, _, second⟩⟩ := refused
  · exact beginIn_budget first
  · exact beginIn_budget second

/-- The effect is parked when the first attempt was refused. -/
theorem RefusedByBudget.parked (refused : RefusedByBudget tx effect)
    (allowed : ObjectiveAllows tx.record effect) (stateRev : Nat) :
    ∃ exceeded, startOrPark tx effect stateRev =
      .ok (exceed (parkEffect tx effect stateRev) exceeded) := by
  obtain ⟨lease, state⟩ := refused.idle
  obtain ⟨spec, exceeded, asked, first | ⟨tool, denied, _⟩⟩ := refused
  · refine ⟨exceeded, ?_⟩
    unfold startOrPark
    simp only [asked, first]
  · rcases beginIn_idle state spec with ⟨other, named, _⟩ | ⟨_, ⟨exceeded, _, begun⟩ | ⟨_, begun⟩⟩
    · rw [(deniedTool_iff asked).mpr allowed] at named
      cases named
    · rw [begun] at denied
      cases denied
    · rw [begun] at denied
      cases answered : answerCalls tx (spec.kind.getD .toolCall) spec with
      | ok calls => rw [answered] at denied; cases denied
      | error refusal =>
        rw [answered] at denied
        have same : refusal = .toolNotAllowed tool := Except.error.inj denied
        unfold answerCalls at answered
        rw [same] at answered
        split at answered
        · split at answered <;> cases answered
        · split at answered
          · split at answered <;> cases answered
          · cases answered

/-- A second attempt that is refused is an error. -/
theorem RefusedByBudget.error (refused : RefusedByBudget tx effect)
    (denied : ¬ObjectiveAllows tx.record effect) (stateRev : Nat) :
    ∃ refusal, startOrPark tx effect stateRev = .error refusal := by
  obtain ⟨lease, state⟩ := refused.idle
  obtain ⟨spec, exceeded, asked, first | ⟨tool, first, second⟩⟩ := refused
  · rcases beginIn_idle state spec with ⟨tool, _, begun⟩ | ⟨none, _⟩
    · rw [begun] at first
      cases first
    · exact absurd ((deniedTool_iff asked).mp none) denied
  · refine ⟨⟨"begin_refused", (BeginRefusal.budget exceeded).text⟩, ?_⟩
    unfold startOrPark
    simp only [asked, first, startDenied, second]
    rfl

/-! ## Parked effects -/

/-- The run is paused for a budget and owes the effect. -/
structure Parks (transition : Transition) (effect : Effect) (stateRev : Nat) : Prop where
  paused : ∃ which, transition.record.state = .paused [] (.budget which)
  parked : transition.record.outbox = some ⟨effect, stateRev⟩

theorem parkEffect_outbox (bound : tx.record.domain ≠ none) :
    (parkEffect tx effect stateRev).record.outbox = some ⟨effect, stateRev⟩ := by
  unfold parkEffect AgentRunRecord.outbox
  cases binding : tx.record.domain with
  | none => exact absurd binding bound
  | some binding => rfl

/-- Pausing for a budget leaves all that is owed. -/
theorem exceed_pauses (tx : Tx) (exceeded : Exceeded) (policy : tx.record.budgets.onExceeded = .pause) :
    (exceed tx exceeded).record.state =
        .paused tx.record.state.openRequests (.budget exceeded.which) ∧
      Carries tx.record (exceed tx exceeded).record := by
  have logged : (tx.push (.budgetExceeded exceeded.which exceeded.limit
      exceeded.used)).record.budgets.onExceeded = .pause := policy
  unfold exceed
  simp only [logged]
  refine ⟨?_, ?_⟩
  · simp only [Tx.writeCheckpoint, Tx.push, Tx.setState_state]
  · have reasoned : Carries tx.record
        ({ tx.push (.budgetExceeded exceeded.which exceeded.limit exceeded.used) with
          record := { tx.record with
            statusReason := some ("budget_exceeded:" ++ exceeded.which) } } : Tx).record :=
      ⟨rfl, rfl, rfl, rfl, rfl, id⟩
    exact (reasoned.trans (Carries.setState _ _ rfl fun _ => rfl)).trans
      (Carries.writeCheckpoint _ _ _)

theorem parks_of_refused (refused : RefusedByBudget tx effect) (bound : tx.record.domain ≠ none)
    (policy : tx.record.budgets.onExceeded = .pause) (exceeded : Exceeded) :
    Parks (exceed (parkEffect tx effect stateRev) exceeded).finish effect stateRev := by
  obtain ⟨lease, state⟩ := refused.idle
  obtain ⟨paused, carries⟩ := exceed_pauses (parkEffect tx effect stateRev) exceeded policy
  have none : (parkEffect tx effect stateRev).record.state.openRequests = [] :=
    congrArg RunState.openRequests state
  refine ⟨⟨exceeded.which, ?_⟩, ?_⟩
  · rw [none] at paused
    exact paused
  · exact carries.outbox.trans (parkEffect_outbox bound)

/-! ## The attempts of a step -/

/-- The transition in which a response is applied, with the response stored. -/
def answeredTx (record : AgentRunRecord) (binding : DomainBinding) (seq : Nat)
    (resp : ReducerResponse) (now : Nat) : Tx :=
  { Tx.new record now with
    domainState :=
      if resp.stateRev ≠ binding.stateRev then
        some (resp.stateRev,
          .object [("state", resp.state), ("projection", resp.projection.getD .null)])
      else none
    record := answeredWith record binding seq resp none }.push
      (.domainApplied resp.stateRev seq resp.effects)

/-- The transition in which the effect of the outbox is started, with the outbox empty. -/
def outboxTx (record : AgentRunRecord) (now : Nat) : Tx :=
  { Tx.new record now with record := Service.emptyOutbox record }

theorem startOutbox_eq (record : AgentRunRecord) (parked : PendingEffect) (now : Nat) :
    Service.startOutbox record parked now =
      (startOrPark (outboxTx record now) parked.effect parked.stateRev).map Tx.finish := rfl

/-- A step of the reducer starts an effect: the one in the outbox, or the one that the response to
the next event asks for. -/
inductive Attempts (service : Service) (run : StoredRun) (record : AgentRunRecord)
    (reducer : Reducer) (now : Nat) : Tx → Effect → Nat → Prop where
  | outbox {lease : Lease} {requests : List PendingRequest} {binding : DomainBinding}
      {parked : PendingEffect} (state : record.state = .running lease (.idle requests))
      (bound : record.domain = some binding) (owed : binding.outbox = some parked) :
      Attempts service run record reducer now (outboxTx record now) parked.effect parked.stateRev
  | response {lease : Lease} {requests : List PendingRequest} {binding : DomainBinding}
      {seq : Nat} {event : ReducerEvent} {resp : ReducerResponse} {tx : Tx} {asked : Asked}
      {effect : Effect} (state : record.state = .running lease (.idle requests))
      (bound : record.domain = some binding) (nothing : binding.outbox = none)
      (found : scanDeliverable run.log binding.deliveredSeq run.result = some (seq, event))
      (reply : service.callReducer run record binding reducer event = .ok resp)
      (read : applyEffects resp.state now (answeredTx record binding seq resp now) {}
        resp.effects = .ok (tx, asked))
      (lasts : asked.terminal = none) (operation : asked.operation = some effect)
      (closed : tx.record.state.openRequests = []) :
      Attempts service run record reducer now tx effect resp.stateRev

theorem applyDomainResponse_eq {binding : DomainBinding} (bound : record.domain = some binding)
    (seq : Nat) (resp : ReducerResponse) :
    applyDomainResponse record seq resp none now =
      (applyEffects resp.state now (answeredTx record binding seq resp now) {}
        resp.effects).bind fun read =>
        if read.1.record.state.isTerminal then .ok read.1.finish
        else (settleAsked read.1 read.2 resp.stateRev).map Tx.finish := by
  unfold applyDomainResponse
  rw [bound]
  simp only [Option.isSome_none, Bool.false_or]
  change (applyEffects resp.state now (answeredTx record binding seq resp now) {}
    resp.effects).bind _ = _
  refine congrArg _ (funext fun read => ?_)
  cases settleAsked read.1 read.2 resp.stateRev <;> rfl

namespace Attempts

variable {service : Service} {stored : StoredRun} {reducer : Reducer}

/-- The transition carries what the record owes, but for the effect it starts. -/
theorem tx_spec (attempts : Attempts service stored record reducer now tx effect stateRev) :
    tx.record.domain ≠ none ∧ tx.record.allowedTools = record.allowedTools ∧
      tx.record.budgets.onExceeded = record.budgets.onExceeded := by
  cases attempts with
  | outbox state bound owed =>
    refine ⟨?_, rfl, rfl⟩
    simp [outboxTx, Service.emptyOutbox, bound]
  | @response _ _ binding _ _ _ _ _ _ state bound nothing found reply read lasts operation closed =>
    have carries := Carries.keeps.applyEffects read
    refine ⟨fun none => ?_, carries.allowed, carries.policy⟩
    have same := carries.domain
    rw [none] at same
    cases same

end Attempts

theorem objectiveAllows_congr {other : AgentRunRecord} (same : other.allowedTools = record.allowedTools) :
    ObjectiveAllows other effect ↔ ObjectiveAllows record effect := by
  unfold ObjectiveAllows
  rw [same]

/-- A refusal by a budget is answered by parking the effect exactly when its tool is allowed. -/
theorem refused_parks_iff {service : Service} {stored : StoredRun} {reducer : Reducer}
    (attempts : Attempts service stored record reducer now tx effect stateRev)
    (pauses : record.budgets.onExceeded = .pause) (refused : RefusedByBudget tx effect) :
    (∃ transition, service.domainStep stored record reducer now = some transition ∧
      Parks transition effect stateRev) ↔ ObjectiveAllows record effect := by
  obtain ⟨bound, same, policy⟩ := attempts.tx_spec
  rw [← policy] at pauses
  rw [← objectiveAllows_congr same]
  obtain ⟨lease, idle⟩ := refused.idle
  constructor
  · rintro ⟨transition, stepped, parks⟩
    by_contra denied
    obtain ⟨refusal, error⟩ := refused.error denied stateRev
    cases attempts with
    | @outbox _ _ binding parked state bound' owed =>
      have none : Service.startOutbox record parked now = .error refusal := by
        rw [startOutbox_eq, error]
        rfl
      unfold Service.domainStep at stepped
      simp only [state, bound', owed, none] at stepped
      cases stepped
    | @response _ requests binding seq event resp _ asked _ state bound' nothing found reply read
        lasts operation closed =>
        have fails : Service.answerTransition record seq now (.ok resp) =
            Service.failTransition record ("reducer_refused:" ++ refusal.code) now := by
          unfold Service.answerTransition
          have applied : applyDomainResponse record seq resp none now = .error refusal := by
            rw [applyDomainResponse_eq bound', read]
            simp only [Except.bind, idle]
            unfold settleAsked
            simp only [lasts, operation, closed, error]
            rfl
          simp only [applied]
        unfold Service.domainStep at stepped
        simp only [state, bound', nothing, found, reply, fails] at stepped
        unfold Service.failTransition applyTerminal at stepped
        rw [state] at stepped
        cases stepped
        obtain ⟨which, paused⟩ := parks.paused
        have ended := (Ends.terminate (Tx.new record now) .failed
          ⟨"failed", some ("reducer_refused:" ++ refusal.code), none, none⟩
          (some ("reducer_refused:" ++ refusal.code))).ended
        rw [show ((Tx.new record now).terminate .failed
          ⟨"failed", some ("reducer_refused:" ++ refusal.code), none, none⟩
          (some ("reducer_refused:" ++ refusal.code))).record.state = _ from paused] at ended
        cases ended
  · intro allowed
    obtain ⟨exceeded, parked⟩ := refused.parked allowed stateRev
    refine ⟨(exceed (parkEffect tx effect stateRev) exceeded).finish, ?_,
      parks_of_refused refused bound pauses exceeded⟩
    cases attempts with
    | @outbox _ _ binding pending state bound' owed =>
      unfold Service.domainStep
      simp only [state, bound', owed]
      rw [startOutbox_eq, parked]
      rfl
    | @response _ requests binding seq event resp _ asked _ state bound' nothing found reply read
        lasts operation closed =>
        have applied : applyDomainResponse record seq resp none now =
            .ok (exceed (parkEffect tx effect resp.stateRev) exceeded).finish := by
          rw [applyDomainResponse_eq bound', read]
          simp only [Except.bind, idle]
          unfold settleAsked
          simp only [lasts, operation, closed, parked]
          rfl
        unfold Service.domainStep
        simp only [state, bound', nothing, found, reply]
        unfold Service.answerTransition
        simp only [applied]
        rfl

end RaisinDB.Agents
