import RaisinDB.Agents.BudgetRefusals

/-!
# Parked effects

An effect that a budget parked waits in the outbox until it is the next operation of the run.  It
was checked before it was parked, and nothing that the run does meanwhile makes it invalid, so that
nothing but a budget refuses it again.
-/

namespace RaisinDB.Agents

open List
open RaisinDB.Foundation (Value Machine ok_of_bind ok_of_map)

variable {tx : Tx} {record : AgentRunRecord} {effect : Effect} {spec : OperationSpec}
  {opId : OperationId} {run : RunId} {now stateRev : Nat}

/-! ## Effects that can be started -/

/-- What starting the effect needs, apart from the budgets. -/
structure Startable (record : AgentRunRecord) (effect : Effect) : Prop where
  allowed : ObjectiveAllows record effect
  answers : AnswersOpen record.unansweredCalls effect

/-- The run owes the effect, and nothing but a budget can refuse it. -/
structure Owes (record : AgentRunRecord) (parked : PendingEffect) : Prop where
  outbox : record.outbox = some parked
  idle : record.state.activeOp = none
  startable : Startable record parked.effect

theorem Owes.carries {next : AgentRunRecord} {parked : PendingEffect} (owes : Owes record parked)
    (carries : Carries record next) : Owes next parked where
  outbox := carries.outbox.trans owes.outbox
  idle := carries.idle owes.idle
  startable :=
    ⟨(objectiveAllows_congr carries.allowed).mpr owes.startable.allowed,
      carries.calls ▸ owes.startable.answers⟩

/-- The effect of an operation that is dispatched for the first time. -/
def firstDispatch : RunEventKind → Option (Option String)
  | .operationStarted _ _ effectId _ _ _ _ attempt => if attempt = 1 then some effectId else none
  | _ => none

/-- The effects whose operations a transition starts. -/
def startedEffects (transition : Transition) : List (Option String) :=
  transition.events.filterMap fun event => firstDispatch event.kind

theorem answerCalls_open (asked : specFor effect opId run now = some spec)
    (answers : AnswersOpen tx.record.unansweredCalls effect) :
    ∃ answered, answerCalls tx (spec.kind.getD .toolCall) spec = .ok answered := by
  unfold specFor at asked
  unfold AnswersOpen at answers
  split at asked
  · next tool args mutating replaySafe interruptible timeoutMs forCallId body =>
    cases asked
    rw [body] at answers
    unfold answerCalls
    simp only [Option.getD_some, reduceCtorEq, if_false]
    cases forCallId with
    | none => exact ⟨tx, rfl⟩
    | some call =>
      have member : tx.record.unansweredCalls.contains call = true :=
        contains_iff_mem.mpr (answers call rfl)
      simp only [member, if_true]
      exact ⟨tx, rfl⟩
  · next toolsOffered instructions context toolResults outputSchema body =>
    cases asked
    rw [body] at answers
    unfold answerCalls
    simp only [Option.getD_some, if_true]
    have all : tx.record.unansweredCalls.find?
        (!(toolResults.map ToolResultEntry.callId).contains ·) = none := by
      rw [find?_eq_none]
      intro call member
      simp only [Bool.not_eq_true', Bool.not_eq_false]
      exact contains_iff_mem.mpr (answers call member)
    rw [all]
    exact ⟨_, rfl⟩
  · cases asked

theorem specFor_asked (answers : AnswersOpen tx.record.unansweredCalls effect) (opId : OperationId)
    (run : RunId) (now : Nat) : ∃ spec, specFor effect opId run now = some spec := by
  unfold AnswersOpen at answers
  unfold specFor
  cases body : effect.body with
  | callTool => exact ⟨_, rfl⟩
  | requestModelTurn => exact ⟨_, rfl⟩
  | _ =>
    rw [body] at answers
    exact answers.elim

/-- An operation that begins is the only one that a transition starts. -/
theorem begun_startedEffects {begun : Tx} {op : ActiveOperation} (fresh : tx.events = [])
    (ok : beginIn tx spec = .ok (begun, op)) :
    startedEffects begun.finish = [spec.effectId] ∧
      begun.record.domain = tx.record.domain := by
  obtain ⟨lease, answered, state, answer, _, _, opened⟩ := beginIn_ok ok
  obtain ⟨events, _, _, calls, recorded⟩ := answerCalls_ok answer
  simp only [] at opened
  obtain ⟨named, shape⟩ := opened
  have started : firstDispatch (startedEvent op) = some spec.effectId := by
    rw [named]
    rfl
  have turned (turn : UInt32) (cause : TurnCause) : firstDispatch (.turnStarted turn cause) = none :=
    rfl
  have domain : answered.record.domain = tx.record.domain := by rw [recorded]
  rw [shape]
  split
  · refine ⟨?_, domain⟩
    simp only [startedEffects, Tx.finish, Tx.setRecordState, Tx.push, countOperation,
      Agents.startTurn, events, fresh, nil_append, cons_append, filterMap_cons, filterMap_nil,
      turned, started]
  · refine ⟨?_, domain⟩
    simp only [startedEffects, Tx.finish, Tx.setRecordState, Tx.push, countOperation, events,
      fresh, nil_append, filterMap_cons, filterMap_nil, started]

/-- The effect that is owed is started, or a budget parks it again. -/
theorem Owes.outbox_cases {parked : PendingEffect} {lease : Lease} (owes : Owes record parked)
    (state : record.state = .running lease (.idle [])) (now : Nat) :
    (checkBeforeOp record parked.effect.kind record.currentTurn.isNone now = none ∧
      ∃ transition, Service.startOutbox record parked now = .ok transition ∧
        startedEffects transition = [some parked.effect.effectId] ∧
        transition.record.outbox = none) ∨
    ∃ exceeded, checkBeforeOp record parked.effect.kind record.currentTurn.isNone now =
        some exceeded ∧
      RefusedByBudget (outboxTx record now) parked.effect ∧
      Service.startOutbox record parked now =
        .ok (exceed (parkEffect (outboxTx record now) parked.effect parked.stateRev)
          exceeded).finish := by
  have answers : AnswersOpen (outboxTx record now).record.unansweredCalls parked.effect :=
    owes.startable.answers
  obtain ⟨spec, asked⟩ := specFor_asked answers
    (OperationId.nth (outboxTx record now).record.runId ((outboxTx record now).record.counters.op + 1))
    (outboxTx record now).record.runId (outboxTx record now).nowMs
  have idle : (outboxTx record now).record.state = .running lease (.idle []) := state
  have kind := (specFor_kind asked).1
  have checked : checkBeforeOp (outboxTx record now).record (spec.kind.getD .toolCall)
      (outboxTx record now).record.currentTurn.isNone (outboxTx record now).nowMs =
      checkBeforeOp record parked.effect.kind record.currentTurn.isNone now := by
    rw [kind]
    rfl
  rcases beginIn_idle idle spec with ⟨tool, denied, _⟩ | ⟨_, ⟨exceeded, check, begun⟩ | ⟨check, begun⟩⟩
  · have allowed : deniedTool (outboxTx record now).record (spec.kind.getD .toolCall) spec.input =
        none := (deniedTool_iff asked).mpr owes.startable.allowed
    rw [allowed] at denied
    cases denied
  · refine .inr ⟨exceeded, checked.symm.trans check, ⟨spec, exceeded, asked, .inl begun⟩, ?_⟩
    rw [startOutbox_eq]
    unfold startOrPark
    simp only [asked, begun]
    rfl
  · obtain ⟨answered, answer⟩ := answerCalls_open asked answers
    rw [answer] at begun
    have fresh : (outboxTx record now).events = [] := rfl
    obtain ⟨started, domain⟩ := begun_startedEffects fresh begun
    refine .inl ⟨checked.symm.trans check, _, ?_, started.trans ?_, ?_⟩
    · rw [startOutbox_eq]
      unfold startOrPark
      simp only [asked, begun]
      rfl
    · rw [(specFor_kind asked).2]
    · have empty : (outboxTx record now).record.outbox = none := by
        unfold outboxTx Service.emptyOutbox AgentRunRecord.outbox
        cases record.domain <;> rfl
      unfold AgentRunRecord.outbox at empty ⊢
      exact (congrArg (Option.bind · DomainBinding.outbox) domain).trans empty

/-! ## What a response parks -/

theorem completed_domain (tx : Tx) (op : ActiveOperation) (result : OperationResult)
    (outcome : OpOutcome) : (completed tx op result outcome).record.domain = tx.record.domain := by
  obtain ⟨results, large, ref, stored⟩ := storeResult_shape tx op result.payload
  simp only [completed, stored, Tx.push]

theorem beginIn_domain {begun : Tx} {op : ActiveOperation}
    (ok : beginIn tx spec = .ok (begun, op)) : begun.record.domain = tx.record.domain := by
  obtain ⟨lease, answered, _, answer, _, _, opened⟩ := beginIn_ok ok
  obtain ⟨_, _, _, calls, recorded⟩ := answerCalls_ok answer
  simp only [] at opened
  have domain : answered.record.domain = tx.record.domain := by rw [recorded]
  rw [opened.2]
  split <;> exact domain

theorem returnToIdle_domain (tx : Tx) : (returnToIdle tx).record.domain = tx.record.domain := by
  unfold returnToIdle
  split <;> rfl

/-- An effect that is started leaves the binding as it was; only a budget parks it. -/
theorem startOrPark_cases {next : Tx} (ok : startOrPark tx effect stateRev = .ok next) :
    next.record.domain = tx.record.domain ∨
      ∃ exceeded, RefusedByBudget tx effect ∧ ObjectiveAllows tx.record effect ∧
        next = exceed (parkEffect tx effect stateRev) exceeded := by
  unfold startOrPark at ok
  simp only [] at ok
  split at ok
  · cases ok
  · next spec asked =>
    split at ok
    · next begun =>
      cases ok
      exact .inl (beginIn_domain begun)
    · next exceeded begun =>
      cases ok
      refine .inr ⟨exceeded, ⟨spec, exceeded, asked, .inl begun⟩, ?_, rfl⟩
      obtain ⟨lease, state⟩ := beginIn_budget begun
      rcases beginIn_idle state spec with ⟨tool, _, refused⟩ | ⟨allowed, _⟩
      · rw [refused] at begun
        cases begun
      · exact (deniedTool_iff asked).mp allowed
    · next tool begun =>
      unfold startDenied at ok
      cases again : beginIn tx { spec with kind := some (.custom "tool_denied") } with
      | error refused => rw [again] at ok; cases ok
      | ok opened =>
        obtain ⟨started, op⟩ := opened
        rw [again] at ok
        simp only [Except.ok.injEq] at ok
        refine .inl ?_
        rw [← ok]
        exact (returnToIdle_domain _).trans
          ((completed_domain started op (deniedResult tool) .blocked).trans (beginIn_domain again))
    · cases ok
    · cases ok
    · cases ok

/-- The operation that the effects ask for is one of them. -/
theorem applyEffects_operation {value : Value} {effects : List Effect} {asked : Asked}
    {read : Tx × Asked} (ok : applyEffects value now tx asked effects = .ok read)
    (operation : read.2.operation = some effect) :
    asked.operation = some effect ∨ effect ∈ effects := by
  induction effects generalizing tx asked with
  | nil =>
    cases ok
    exact .inl operation
  | cons first rest ih =>
    unfold applyEffects at ok
    obtain ⟨next, one, ok⟩ := ok_of_bind ok
    rcases ih ok with before | later
    · unfold applyEffect at one
      split at one <;> cases one
      case h_1 =>
        cases before
        exact .inr mem_cons_self
      case h_2 =>
        cases before
        exact .inr mem_cons_self
      all_goals exact .inl before
    · exact .inr (mem_cons_of_mem _ later)

/-- Two effects that ask for operations are too many. -/
theorem eq_of_operations {effects : List Effect} {other : Effect}
    (few : (effects.filter Effect.isOperation).length ≤ 1) (first : effect ∈ effects)
    (second : other ∈ effects) (asks : effect.isOperation = true)
    (asks' : other.isOperation = true) : effect = other := by
  have member := mem_filter.mpr ⟨first, asks⟩
  have member' := mem_filter.mpr ⟨second, asks'⟩
  generalize effects.filter Effect.isOperation = operations at few member member'
  match operations, few with
  | [only], _ => exact (mem_singleton.mp member).trans (mem_singleton.mp member').symm

theorem refuse_passed {broken : Prop} [Decidable broken] {code message : String}
    {rest : Except Refusal Unit} (ok : (if broken then refuse code message else rest) = .ok ()) :
    ¬broken ∧ rest = .ok () := by
  by_cases holds : broken
  · rw [if_pos holds] at ok
    cases ok
  · rw [if_neg holds] at ok
    exact ⟨holds, ok⟩

theorem mem_answeredCalls {effects : List Effect} {call : String}
    (member : call ∈ effects.filterMap Effect.answeredCall) :
    ∃ other ∈ effects, other.isOperation = true ∧ other.turnResults = none := by
  obtain ⟨other, here, answers⟩ := mem_filterMap.mp member
  refine ⟨other, here, ?_⟩
  unfold Effect.answeredCall at answers
  unfold Effect.isOperation Effect.turnResults
  split at answers
  · next body => rw [body]; exact ⟨rfl, rfl⟩
  · cases answers

/-- A response that follows the rules answers the open calls. -/
theorem validated_answers {checks : ResponseChecks} {req : ReducerRequest} {resp : ReducerResponse}
    (valid : validateResponse checks req resp = .ok ()) (given : resp.refused = none)
    (member : effect ∈ resp.effects) (asked : specFor effect opId run now = some spec) :
    AnswersOpen req.run.unansweredCalls effect := by
  unfold validateResponse at valid
  simp only [] at valid
  obtain ⟨_, valid⟩ := refuse_passed valid
  rw [if_neg (by rw [given]; exact Bool.false_ne_true)] at valid
  obtain ⟨_, valid⟩ := refuse_passed valid
  obtain ⟨_, valid⟩ := refuse_passed valid
  obtain ⟨_, valid⟩ := refuse_passed valid
  obtain ⟨_, valid⟩ := refuse_passed valid
  obtain ⟨few, valid⟩ := refuse_passed valid
  obtain ⟨_, valid⟩ := refuse_passed valid
  obtain ⟨_, valid⟩ := refuse_passed valid
  obtain ⟨_, valid⟩ := refuse_passed valid
  obtain ⟨_, valid⟩ := refuse_passed valid
  obtain ⟨called, valid⟩ := refuse_passed valid
  obtain ⟨turns, _⟩ := refuse_passed valid
  unfold AnswersOpen
  obtain ⟨tool, args, mutating, replaySafe, interruptible, timeoutMs, forCallId, body⟩ |
    ⟨toolsOffered, instructions, context, toolResults, outputSchema, body⟩ := specFor_body asked
  · rw [body]
    rintro call rfl
    have byCall : call ∈ resp.effects.filterMap Effect.answeredCall := by
      refine mem_filterMap.mpr ⟨effect, member, ?_⟩
      unfold Effect.answeredCall
      rw [body]
    have all : (resp.effects.filterMap Effect.answeredCall).all
        req.run.unansweredCalls.contains = true := by simpa using called
    exact contains_iff_mem.mp (all_eq_true.mp all call byCall)
  · rw [body]
    intro call «open»
    have results : effect.turnResults = some toolResults := by
      unfold Effect.turnResults
      rw [body]
    have asks : effect.isOperation = true := by
      unfold Effect.isOperation
      rw [body]
    by_contra missing
    -- The call is answered by a tool of the response, which is a second operation then.
    have left : call ∈ resp.effects.filterMap Effect.answeredCall := by
      by_contra unanswered
      refine turns (any_eq_true.mpr ⟨effect, member, ?_⟩)
      have kept : call ∈ leftUnanswered req.run.unansweredCalls
          (resp.effects.filterMap Effect.answeredCall) effect := by
        unfold leftUnanswered
        rw [results]
        refine mem_filter.mpr ⟨«open», ?_⟩
        simp [unanswered, missing]
      exact decide_eq_true (ne_nil_of_mem kept)
    obtain ⟨other, here, asks', none⟩ := mem_answeredCalls left
    have same := eq_of_operations (not_lt.mp few) member here asks asks'
    rw [← same, results] at none
    cases none

theorem callReducer_valid {service : Service} {stored : StoredRun} {binding : DomainBinding}
    {reducer : Reducer} {event : ReducerEvent} {resp : ReducerResponse}
    (reply : service.callReducer stored record binding reducer event = .ok resp) :
    resp.refused = none ∧ ∃ req, req.run.unansweredCalls = record.unansweredCalls ∧
      validateResponse service.checks req resp = .ok () := by
  unfold Service.callReducer at reply
  split at reply
  · cases reply
  · simp only [] at reply
    split at reply
    · cases reply
    · next answer answered =>
      split at reply
      · cases reply
      · next accepted =>
        split at reply
        · cases reply
        · next valid =>
          cases reply
          exact ⟨accepted, _, rfl, valid⟩

/-- Every effect of a run that goes on is owed. -/
def Owing (record : AgentRunRecord) : Prop :=
  record.state.isTerminal = false → ∀ parked, record.outbox = some parked → Owes record parked

theorem owing_of_none (none : record.outbox = none) : Owing record := by
  intro _ parked some
  rw [none] at some
  cases some

theorem Ends.owing {next : AgentRunRecord} (ends : Ends record next) : Owing next := by
  intro live
  rw [ends.ended] at live
  cases live

theorem Owing.waits {next : AgentRunRecord} (owing : Owing record)
    (stays : record.state.isTerminal = true → next.state.isTerminal = true)
    (waits : Waits record next) : Owing next := by
  cases waits with
  | carries carries =>
    intro live parked some
    have before : record.state.isTerminal = false := by
      by_contra ended
      rw [stays (Bool.eq_true_of_not_eq_false ended)] at live
      cases live
    exact (owing before parked (carries.outbox.symm.trans some)).carries carries
  | ends ends => exact ends.owing
  | finishes finishes =>
    have before : record.state.isTerminal = false := by
      obtain ⟨op, active⟩ := Option.ne_none_iff_exists'.mp finishes.active
      exact live_of_active active
    refine owing_of_none (finishes.outbox ?_)
    by_contra some
    obtain ⟨parked, found⟩ := Option.ne_none_iff_exists'.mp some
    exact finishes.active (owing before parked found).idle

theorem Owes.owing {parked : PendingEffect} (owes : Owes record parked) : Owing record := by
  intro _ other some
  rw [owes.outbox] at some
  cases some
  exact owes

/-- An effect that a budget parks can be started, or the run is over. -/
theorem exceed_owes (refused : RefusedByBudget tx effect) (allowed : ObjectiveAllows tx.record effect)
    (answers : AnswersOpen tx.record.unansweredCalls effect) (bound : tx.record.domain ≠ none)
    (exceeded : Exceeded) :
    (exceed (parkEffect tx effect stateRev) exceeded).record.counters.op = tx.record.counters.op ∧
      (Owes (exceed (parkEffect tx effect stateRev) exceeded).finish.record ⟨effect, stateRev⟩ ∨
        (exceed (parkEffect tx effect stateRev) exceeded).record.state.isTerminal = true) := by
  cases policy : tx.record.budgets.onExceeded with
  | pause =>
    obtain ⟨lease, state⟩ := refused.idle
    obtain ⟨_, carries⟩ := exceed_pauses (parkEffect tx effect stateRev) exceeded policy
    have owes : Owes (parkEffect tx effect stateRev).record ⟨effect, stateRev⟩ := by
      refine ⟨parkEffect_outbox bound, ?_, allowed, answers⟩
      exact congrArg RunState.activeOp state
    exact ⟨carries.op, .inl (owes.carries (carries.trans (Carries.finish _)))⟩
  | fail =>
    have logged : ((parkEffect tx effect stateRev).push (.budgetExceeded exceeded.which
        exceeded.limit exceeded.used)).record.budgets.onExceeded = .fail := policy
    unfold exceed
    simp only [logged]
    exact ⟨(Ends.terminate _ _ _ _).op, .inr (Ends.terminate _ _ _ _).ended⟩

theorem settleAsked_owing {asked : Asked} {settled : Tx} (bound : tx.record.domain ≠ none)
    (nothing : tx.record.outbox = none)
    (answers : ∀ effect spec opId run now, asked.operation = some effect →
      specFor effect opId run now = some spec → AnswersOpen tx.record.unansweredCalls effect)
    (ok : settleAsked tx asked stateRev = .ok settled) : Owing settled.finish.record := by
  unfold settleAsked at ok
  split at ok
  · next status outcome reason _ =>
    cases ok
    have ends := Ends.terminate tx status outcome reason
    have finished : Ends tx.record (tx.terminate status outcome reason).finish.record :=
      ⟨ends.ended, ends.op⟩
    exact finished.owing
  · next effect lasts operation =>
    split at ok
    · cases ok
    · rcases startOrPark_cases ok with same | ⟨exceeded, refused, allowed, shape⟩
      · refine owing_of_none ?_
        unfold AgentRunRecord.outbox at nothing ⊢
        exact (congrArg (Option.bind · DomainBinding.outbox) same).trans nothing
      · rw [shape]
        have refused' := refused
        obtain ⟨spec, _, asked, _⟩ := refused'
        rcases (exceed_owes refused allowed (answers _ _ _ _ _ operation asked) bound
          exceeded).2 with owes | ended
        · exact owes.owing
        · intro live
          rw [show (exceed (parkEffect tx effect stateRev) exceeded).finish.record.state.isTerminal =
            _ from ended] at live
          cases live
  · have opened := Carries.keeps.openAsked tx tx.record.state.openRequests asked.requests
    simp only [] at ok
    split at ok
    · next waiting _ =>
      cases ok
      have entered := Carries.setState (openAsked tx tx.record.state.openRequests asked.requests).1
        (none : Option String) (show (RunState.waiting waiting).isTerminal = false from rfl)
        fun _ => rfl
      have waits := opened.trans entered
      exact owing_of_none (waits.outbox.trans nothing)
    · cases ok
      exact owing_of_none (opened.outbox.trans nothing)

/-! ## Steps of the reducer -/

variable {service : Service} {stored : StoredRun} {reducer : Reducer} {transition : Transition}

/-- A step with an effect in the outbox starts it, or a budget parks it again. -/
theorem Owes.domainStep {parked : PendingEffect} (owes : Owes record parked)
    (stepped : service.domainStep stored record reducer now = some transition) :
    startedEffects transition = [some parked.effect.effectId] ∧ transition.record.outbox = none ∨
      transition.record.counters.op = record.counters.op ∧
        (Owes transition.record parked ∨ transition.record.state.isTerminal = true) := by
  unfold Service.domainStep at stepped
  split at stepped
  · next lease requests binding state bound =>
    have owed : binding.outbox = some parked := by
      have some := owes.outbox
      unfold AgentRunRecord.outbox at some
      rw [bound] at some
      exact some
    simp only [owed] at stepped
    have begun := toOption_some stepped
    have closed : requests = [] := by
      by_contra opened
      rw [startOutbox_eq] at begun
      obtain ⟨spec, asked⟩ := specFor_asked
        (show AnswersOpen (outboxTx record now).record.unansweredCalls parked.effect from
          owes.startable.answers)
        (OperationId.nth (outboxTx record now).record.runId
          ((outboxTx record now).record.counters.op + 1))
        (outboxTx record now).record.runId (outboxTx record now).nowMs
      have refused : beginIn (outboxTx record now) spec = .error .openRequests := by
        unfold beginIn
        rw [show (outboxTx record now).record.state = _ from state]
        simp only [ne_eq, opened, not_false_eq_true, if_true]
      unfold startOrPark at begun
      simp only [asked, refused] at begun
      cases begun
    rw [closed] at state
    rcases owes.outbox_cases state now with
      ⟨_, transition, ok, starts, emptied⟩ | ⟨exceeded, _, refused, ok⟩
    · rw [ok] at begun
      cases begun
      exact .inl ⟨starts, emptied⟩
    · rw [ok] at begun
      cases begun
      have bound' : (outboxTx record now).record.domain ≠ none := by
        simp [outboxTx, Service.emptyOutbox, bound]
      exact .inr (exceed_owes refused owes.startable.allowed owes.startable.answers bound' exceeded)
  · cases stepped

/-- A step with nothing in the outbox leaves an effect there only if it can be started. -/
theorem domainStep_owing (nothing : record.outbox = none)
    (stepped : service.domainStep stored record reducer now = some transition) :
    Owing transition.record := by
  unfold Service.domainStep at stepped
  split at stepped
  · next lease requests binding state bound =>
    have empty : binding.outbox = none := by
      unfold AgentRunRecord.outbox at nothing
      rw [bound] at nothing
      exact nothing
    simp only [empty] at stepped
    split at stepped
    · cases stepped
    · next seq event found =>
      have answered := toOption_some stepped
      unfold Service.answerTransition at answered
      split at answered
      · next resp reply =>
        split at answered
        · next applied =>
          cases answered
          rw [applyDomainResponse_eq bound] at applied
          obtain ⟨done, read, applied⟩ := ok_of_bind applied
          have carries := Carries.keeps.applyEffects read
          have bare : (answeredTx record binding seq resp now).record.outbox = none :=
            empty
          split at applied
          · next ended =>
            cases applied
            exact owing_of_none (carries.outbox.trans bare)
          · obtain ⟨settled, settles, applied⟩ := ok_of_bind applied
            cases applied
            obtain ⟨accepted, req, unanswered, valid⟩ := callReducer_valid reply
            refine settleAsked_owing ?_ (carries.outbox.trans bare) ?_ settles
            · intro none
              have same := carries.domain
              rw [none] at same
              cases same
            · intro effect spec opId run now operation asked
              rw [carries.calls]
              rcases applyEffects_operation read operation with none | member
              · cases none
              · have answers := validated_answers valid accepted member asked
                rw [unanswered] at answers
                exact answers
        · exact (applyTerminal_ends answered).owing
      · exact owing_of_none ((applyReducerPause_carries answered).outbox.trans nothing)
      · next hash _ =>
        obtain ⟨pause, paused, answered⟩ := ok_of_bind answered
        cases answered
        have carries := (applyReducerPause_carries paused).outbox.trans nothing
        refine owing_of_none ?_
        unfold AgentRunRecord.outbox at carries ⊢
        unfold Service.withPendingHash
        cases domain : pause.record.domain with
        | none => rfl
        | some binding =>
          rw [domain] at carries
          exact carries
      · exact (applyTerminal_ends answered).owing
      · exact (applyTerminal_ends answered).owing
  · cases stepped

/-! ## Runs -/

section Runs

variable {history : RunHistory} {call : Call}

theorem computed_step {fence : LeaseFence} {proof : Fence}
    (computed : service.transitionOf stored record now (.domainStep fence reducer) =
      some (proof, transition)) : service.domainStep stored record reducer now = some transition :=
  (fenced_some computed).2

theorem domainStep_live (stepped : service.domainStep stored record reducer now = some transition) :
    record.state.isTerminal = false := by
  unfold Service.domainStep at stepped
  split at stepped
  · next state _ => rw [state]; rfl
  · cases stepped

/-- Every run that no client drives owes its effects. -/
theorem Owing.step (healthy : Healthy history) (owing : Owing history.run.record)
    (driven : call.action.isBegin = false) : Owing (history.step service call).1.run.record := by
  rcases step_cases service history call with ⟨commit, next, ok, step⟩ | step
  · obtain ⟨_, committed⟩ := healthy.recorded.committed ok
    have stays : history.run.record.state.isTerminal = true →
        (history.step service call).1.run.record.state.isTerminal = true := by
      intro ended
      rw [← RunState.status_isTerminal, healthy.status call ended, RunState.status_isTerminal]
      exact ended
    rw [step] at stays ⊢
    rw [committed.record] at stays ⊢
    have computed := committed.computed
    cases steps : call.action.isDomainStep with
    | false => exact owing.waits stays (transitionOf_waits driven steps computed)
    | true =>
      cases action : call.action with
      | domainStep fence reducer =>
        rw [action] at computed
        have stepped := computed_step computed
        cases owed : history.run.record.outbox with
        | none => exact domainStep_owing owed stepped
        | some parked =>
          have owes := owing (domainStep_live stepped) parked owed
          rcases owes.domainStep stepped with ⟨_, none⟩ | ⟨_, still | ended⟩
          · exact owing_of_none none
          · exact still.owing
          · intro live
            rw [ended] at live
            cases live
      | _ => rw [action] at steps; cases steps
  · rw [step]
    exact owing

theorem Started.owing {record : AgentRunRecord} (started : Started record) : Owing record := by
  have unowed (reducer : Option ReducerRef) :
      (reducer.map DomainBinding.new).bind DomainBinding.outbox = none := by
    cases reducer <;> rfl
  cases started with
  | new req runId now => exact owing_of_none (unowed req.reducer)
  | child spawned scope now => exact owing_of_none (unowed _)

theorem Started.driven (started : Started record) (service : Service) (input : Value)
    {calls : List Call} (driven : ∀ call ∈ calls, call.action.isBegin = false) :
    Healthy ((runMachine service).final (RunHistory.start record input) calls) ∧
      Owing ((runMachine service).final (RunHistory.start record input) calls).run.record := by
  refine (runMachine service).final_invariant
    (fun history => Healthy history ∧ Owing history.run.record)
    (fun _ call => call.action.isBegin = false) ?_ ⟨⟨started.recorded input, started.kept⟩,
      started.owing⟩ ?_
  · rintro history call ⟨healthy, owing⟩ driven
    exact ⟨healthy.step call, owing.step healthy driven⟩
  · intro transition member
    exact driven _ ((runMachine service).event_mem member)

/-- A commit that starts an operation between two others counts it. -/
theorem started_counts {commit : Commit} {next : StoredRun}
    (committed : Committed service history.run call commit next)
    (idle : history.run.record.state.activeOp = none)
    (starts : startedEffects commit.transition ≠ []) :
    history.run.record.counters.op < commit.transition.record.counters.op := by
  obtain ⟨effectId, member⟩ := exists_mem_of_ne_nil _ starts
  obtain ⟨event, here, dispatched⟩ := mem_filterMap.mp member
  unfold firstDispatch at dispatched
  split at dispatched
  · next opId kind effect key safe interruptible forCall attempt shape =>
    have started : commit.transition.kinds.any (Ledger.startsOp opId) = true := by
      refine any_eq_true.mpr ⟨event.kind, mem_map_of_mem here, ?_⟩
      rw [shape]
      exact beq_self_eq_true opId
    have counted := Ledger.started_in_flight_or_counted committed.legal started
    rw [committed.replays] at counted
    rcases counted with ⟨before, flying, _⟩ | more
    · simp [ledgerOf, idle] at flying
    · rw [committed.record] at more
      exact more
  · cases dispatched

/-- A run that owes the effect, or is over. -/
def OwesOrEnded (record : AgentRunRecord) (parked : PendingEffect) : Prop :=
  Owes record parked ∨ record.state.isTerminal = true

theorem idle_of_ended (ended : record.state.isTerminal = true) : record.state.activeOp = none := by
  cases state : record.state with
  | terminal => rfl
  | _ => rw [state] at ended; cases ended

/-- What the next commit does with the effect that is owed. -/
theorem OwesOrEnded.commit {parked : PendingEffect} {commit : Commit} {next : StoredRun}
    (owes : OwesOrEnded history.run.record parked)
    (driven : call.action.isBegin = false)
    (committed : Committed service history.run call commit next) :
    startedEffects commit.transition = [some parked.effect.effectId] ∨
      commit.transition.record.counters.op = history.run.record.counters.op ∧
        OwesOrEnded commit.transition.record parked := by
  have computed := committed.computed
  rcases owes with owes | ended
  · cases steps : call.action.isDomainStep with
    | false =>
      cases transitionOf_waits driven steps computed with
      | carries carries => exact .inr ⟨carries.op, .inl (owes.carries carries)⟩
      | ends ends => exact .inr ⟨ends.op, .inr ends.ended⟩
      | finishes finishes => exact absurd owes.idle finishes.active
    | true =>
      cases action : call.action with
      | domainStep fence reducer =>
        rw [action] at computed
        rcases owes.domainStep (computed_step computed) with ⟨starts, _⟩ | waits
        · exact .inl starts
        · exact .inr waits
      | _ => rw [action] at steps; cases steps
  · have halted : history.run.record.state.halted = true := by
      cases state : history.run.record.state with
      | terminal => rfl
      | _ => rw [state] at ended; cases ended
    have keeps : ¬DropsPause history.run.record call.action call.now := by
      rintro ⟨_, lease, op, state, _⟩
      rw [state] at ended
      cases ended
    have still := Ledger.status_replay committed.legal ((RunState.status_isTerminal _).trans ended)
    rw [committed.replays, committed.record] at still
    have ends : commit.transition.record.state.isTerminal = true := by
      rw [← RunState.status_isTerminal]
      exact (congrArg RunStatus.isTerminal still).trans ((RunState.status_isTerminal _).trans ended)
    rcases transitionOf_halted halted keeps computed with stays | ⟨_, op⟩
    · exact .inr ⟨stays.op, .inr ends⟩
    · exact .inr ⟨op, .inr ends⟩

/-- The effect is what the run starts next, and a step of the reducer starts it as soon as no budget
refuses it. -/
structure StartsNext (service : Service) (history : RunHistory) (parked : PendingEffect) : Prop where
  next : ∀ (call : Call) (commit : Commit) (later : StoredRun), call.action.isBegin = false →
    history.attempt service call = some (commit, later) → startedEffects commit.transition ≠ [] →
    startedEffects commit.transition = [some parked.effect.effectId]
  served : ∀ (lease : Lease) (reducer : Reducer) (now : Nat),
    history.run.record.state = .running lease (.idle []) →
    checkBeforeOp history.run.record parked.effect.kind history.run.record.currentTurn.isNone now =
      none →
    ∃ transition, service.domainStep history.run history.run.record reducer now = some transition ∧
      startedEffects transition = [some parked.effect.effectId]

theorem OwesOrEnded.startsNext {parked : PendingEffect} (healthy : Healthy history)
    (owes : OwesOrEnded history.run.record parked) : StartsNext service history parked where
  next := by
    intro call commit later driven attempted starts
    obtain ⟨_, committed⟩ := healthy.recorded.committed attempted
    rcases owes.commit driven committed with started | ⟨same, _⟩
    · exact started
    · have idle : history.run.record.state.activeOp = none :=
        owes.elim Owes.idle idle_of_ended
      have counted := started_counts committed idle starts
      omega
  served := by
    intro lease reducer now state check
    rcases owes with owes | ended
    · have outbox := owes.outbox
      rcases owes.outbox_cases state now with ⟨_, transition, ok, starts, _⟩ | ⟨exceeded, refused, _⟩
      · refine ⟨transition, ?_, starts⟩
        unfold AgentRunRecord.outbox at outbox
        unfold Service.domainStep
        cases bound : history.run.record.domain with
        | none => rw [bound] at outbox; cases outbox
        | some binding =>
          rw [bound] at outbox
          have owed : binding.outbox = some parked := outbox
          simp only [state, owed, ok]
          rfl
      · rw [check] at refused
        cases refused
    · rw [state] at ended
      cases ended

end Runs

/-- When a budget refuses the operation of an effect, the step leaves the run paused for the budget
with the effect parked exactly when the objective allows the tool of the effect.  In a run in which no
client begins operations of its own, a parked effect is the next that is started. -/
theorem budget_refusals_park (service : Service) :
    (∀ (stored : StoredRun) (record : AgentRunRecord) (reducer : Reducer) (now : Nat) (tx : Tx)
      (effect : Effect) (stateRev : Nat),
      Attempts service stored record reducer now tx effect stateRev →
      record.budgets.onExceeded = .pause → RefusedByBudget tx effect →
      ((∃ transition, service.domainStep stored record reducer now = some transition ∧
        Parks transition effect stateRev) ↔ ObjectiveAllows record effect)) ∧
    ∀ (record : AgentRunRecord), Started record → ∀ (input : Value) (first middle : List Call)
      (parked : PendingEffect), (∀ call ∈ first ++ middle, call.action.isBegin = false) →
      ((runMachine service).final (RunHistory.start record input) first).run.record.outbox =
        some parked →
      (∀ transition ∈ (runMachine service).transitions
          ((runMachine service).final (RunHistory.start record input) first) middle,
        ∀ commit, transition.output = some commit → startedEffects commit.transition = []) →
      StartsNext service
        ((runMachine service).final (RunHistory.start record input) (first ++ middle)) parked := by
  refine ⟨fun stored record reducer now tx effect stateRev attempts policy refused =>
    refused_parks_iff attempts policy refused, ?_⟩
  intro record started input first middle parked driven owed quiet
  obtain ⟨healthy, owing⟩ := started.driven service input
    fun call member => driven call (mem_append_left _ member)
  have owes : OwesOrEnded
      ((runMachine service).final (RunHistory.start record input) first).run.record parked := by
    cases ended : ((runMachine service).final (RunHistory.start record input)
        first).run.record.state.isTerminal with
    | true => exact .inr ended
    | false => exact .inl (owing ended parked owed)
  rw [Machine.final_append]
  have kept : Healthy ((runMachine service).final
      ((runMachine service).final (RunHistory.start record input) first) middle) ∧
      OwesOrEnded ((runMachine service).final
        ((runMachine service).final (RunHistory.start record input) first) middle).run.record
        parked := by
    refine (runMachine service).final_invariant
      (fun history => Healthy history ∧ OwesOrEnded history.run.record parked)
      (fun history call => call.action.isBegin = false ∧
        ∀ commit, (history.step service call).2 = some commit →
          startedEffects commit.transition = []) ?_ ⟨healthy, owes⟩ ?_
    · rintro history call ⟨healthy, owes⟩ ⟨driven, quiet⟩
      refine ⟨healthy.step call, ?_⟩
      rcases step_cases service history call with ⟨commit, next, ok, step⟩ | step
      · obtain ⟨_, committed⟩ := healthy.recorded.committed ok
        have none := quiet commit (by rw [step])
        rcases owes.commit driven committed with starts | ⟨_, later⟩
        · rw [none] at starts
          cases starts
        · change OwesOrEnded (history.step service call).1.run.record parked
          rw [step]
          change OwesOrEnded next.record parked
          rw [committed.record]
          exact later
      · change OwesOrEnded (history.step service call).1.run.record parked
        rw [step]
        exact owes
    · intro transition member
      refine ⟨driven _ (mem_append_right _ ((runMachine service).event_mem member)), ?_⟩
      intro commit output
      obtain ⟨early, event, late, _, rfl⟩ := (runMachine service).mem_transitions_iff.mp member
      exact quiet _ member commit output
  exact kept.2.startsNext kept.1

/-! ## A run without operations -/

def askingRef : ReducerRef := ⟨"/fn", "reduce", "hash"⟩

def writeFile : Effect := ⟨effectId 1 0, .callTool "write" (.object []) true false true none none⟩

def askingAnswer : ReducerResponse where
  contract := contractV1
  state := .null
  stateRev := 1
  effects := [writeFile]
  projection := none
  refused := none

/-- It answers every event with a call of the tool. -/
def askingReducer : Reducer := ⟨askingRef, fun _ => .ok askingAnswer⟩

def noOperations : RunBudgets := { maxOperations := some 0 }

def askingRecord : AgentRunRecord :=
  newRecord { plainRequest with budgets := noOperations, reducer := some askingRef } "run" 0

def acquired (record : AgentRunRecord) : RunHistory :=
  ((RunHistory.start record .null).step plainService ⟨record, .acquire "a", 1⟩).1

def acquiredTx (record : AgentRunRecord) : Tx :=
  answeredTx (acquired record).run.record (.new askingRef) 1 askingAnswer 2

theorem asking_attempts : Attempts plainService (acquired askingRecord).run
    (acquired askingRecord).run.record askingReducer 2 (acquiredTx askingRecord) writeFile
    askingAnswer.stateRev := by
  have found : scanDeliverable (acquired askingRecord).run.log 0
      (acquired askingRecord).run.result =
        some (1, ⟨1, .runStarted, none, none, .object [("input", .null)]⟩) := rfl
  have read : applyEffects .null 2 (acquiredTx askingRecord) {} askingAnswer.effects =
      .ok (acquiredTx askingRecord, { operation := some writeFile }) := rfl
  exact .response rfl rfl rfl found rfl read rfl rfl rfl

/-- A resume raises the budget, and another driver takes the lease. -/
def resumedCalls : List Call :=
  freshCalls plainService (RunHistory.start askingRecord .null)
    [(.acquire "a", 1), (.domainStep ⟨"a", 1⟩ askingReducer, 2),
      (.control ⟨"c", .resume (some { maxOperations := some 5 }) false, ⟨.user, "user", none⟩⟩ false,
        3),
      (.acquire "b", 4)]

theorem resumed_run_starts_next :
    (∃ transition, plainService.domainStep (acquired askingRecord).run
        (acquired askingRecord).run.record askingReducer 2 = some transition ∧
      Parks transition writeFile 1) ∧
    StartsNext plainService
      ((runMachine plainService).final (RunHistory.start askingRecord .null) (resumedCalls ++ []))
      ⟨writeFile, 1⟩ := by
  obtain ⟨parks, starts⟩ := budget_refusals_park plainService
  refine ⟨(parks _ _ _ _ _ _ _ asking_attempts rfl ⟨_, _, rfl, .inl rfl⟩).mpr ?_, ?_⟩
  · intro allowed none
    cases none
  · refine starts askingRecord (.new _ "run" 0) .null resumedCalls [] _ (by decide) rfl ?_
    intro transition member
    cases member

/-- A child that may only read, and may start no operation. -/
def readingChild : SpawnChild where
  objective :=
    { title := "read"
      context := .none
      allowedTools := ["read"]
      allowedWrites := none
      expectedArtifacts := []
      acceptanceChecks := []
      requiredFields := [] }
  budgets := noOperations
  onExceeded := some .pause
  spawnKey := none
  subject := none
  asAgent := none
  agentRef := none
  input := .null
  executorConfig := none
  reducer := some askingRef

def readingRecord : AgentRunRecord :=
  match applySpawn plainRecord readingChild "child" 0 with
  | .ok (_, plan) => materialize plan plainRequest.scope 0
  | .error _ => plainRecord

theorem reading_attempts : Attempts plainService (acquired readingRecord).run
    (acquired readingRecord).run.record askingReducer 2 (acquiredTx readingRecord) writeFile
    askingAnswer.stateRev := by
  have found : scanDeliverable (acquired readingRecord).run.log 0
      (acquired readingRecord).run.result =
        some (1, ⟨1, .runStarted, none, none, .object [("input", .null)]⟩) := rfl
  have read : applyEffects .null 2 (acquiredTx readingRecord) {} askingAnswer.effects =
      .ok (acquiredTx readingRecord, { operation := some writeFile }) := rfl
  exact .response rfl rfl rfl found rfl read rfl rfl rfl

/-- The child calls a tool that it may not call.  The run fails instead of pausing. -/
theorem denied_tool_fails : ¬∀ (service : Service) (stored : StoredRun) (record : AgentRunRecord)
    (reducer : Reducer) (now : Nat) (tx : Tx) (effect : Effect) (stateRev : Nat),
    Attempts service stored record reducer now tx effect stateRev →
    record.budgets.onExceeded = .pause → RefusedByBudget tx effect →
    ∃ transition, service.domainStep stored record reducer now = some transition ∧
      Parks transition effect stateRev := by
  intro always
  obtain ⟨transition, stepped, parks⟩ := always plainService _ _ _ _ _ _ _ reading_attempts rfl
    ⟨_, _, rfl, .inr ⟨"write", rfl, rfl⟩⟩
  obtain ⟨which, paused⟩ := parks.paused
  have failed : (plainService.domainStep (acquired readingRecord).run
      (acquired readingRecord).run.record askingReducer 2).map
        (fun transition => transition.record.state.status) = some .failed := by decide +kernel
  rw [stepped] at failed
  have status : transition.record.state.status = .failed := Option.some.inj failed
  rw [paused] at status
  cases status

end RaisinDB.Agents
