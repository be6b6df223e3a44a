import RaisinDB.Agents.CommitsFollow

/-!
# Steps that most commits are made of

Most steps of a transition push events, answer requests and note on the record what no later
step depends on.  A relation that such steps keep is kept by every commit made of them alone.
-/

namespace RaisinDB.Agents

open List
open RaisinDB.Foundation (Value ok_of_bind ok_of_map)

/-- What the record says of its last checkpoint: the event that logged it, and its number. -/
def AgentRunRecord.lastMark (record : AgentRunRecord) : Option Nat × UInt32 :=
  (record.lastCheckpointSeq, record.counters.checkpoint)

/-- The tools that the objective names, if the run has one. -/
def AgentRunRecord.allowedTools (record : AgentRunRecord) : Option (List String) :=
  record.delegation.map (·.objective.allowedTools)

/-- Nothing is started, ended or owed, and nothing is stored that a later step reads. -/
structure Quiet (tx next : Tx) : Prop where
  control : next.control = tx.control
  checkpoint : next.checkpoint = tx.checkpoint
  mark : next.record.lastMark = tx.record.lastMark
  state : next.record.state = tx.record.state
  op : next.record.counters.op = tx.record.counters.op
  domain : next.record.domain = tx.record.domain
  allowed : next.record.allowedTools = tx.record.allowedTools
  calls : next.record.unansweredCalls = tx.record.unansweredCalls
  policy : next.record.budgets.onExceeded = tx.record.budgets.onExceeded

/-- A relation between the stages of a transition that small steps keep. -/
structure Steady (related : Tx → Tx → Prop) : Prop where
  trans : ∀ {tx middle next}, related tx middle → related middle next → related tx next
  quiet : ∀ {tx next}, Quiet tx next → related tx next
  removeRequest : ∀ tx requestId, related tx (tx.removeRequest requestId)
  wakeForResult : ∀ tx, related tx (wakeForResult tx)
  writeCheckpoint : ∀ tx reason summary, related tx (tx.writeCheckpoint reason summary)
  snapshot : ∀ tx reason summary state,
    related tx (snapshotDomainState (tx.writeCheckpoint reason summary) state)

namespace Steady

variable {related : Tx → Tx → Prop} {tx next : Tx} (kept : Steady related)

include kept

theorem refl (tx : Tx) : related tx tx :=
  kept.quiet ⟨rfl, rfl, rfl, rfl, rfl, rfl, rfl, rfl, rfl⟩

theorem push (tx : Tx) (kind : RunEventKind) : related tx (tx.push kind) :=
  kept.quiet ⟨rfl, rfl, rfl, rfl, rfl, rfl, rfl, rfl, rfl⟩

theorem foldl {α : Type} (tx : Tx) {visit : Tx → α → Tx}
    (visits : ∀ current item, related current (visit current item)) (items : List α) :
    related tx (items.foldl visit tx) := by
  induction items generalizing tx with
  | nil => exact kept.refl tx
  | cons item rest ih => exact kept.trans (visits tx item) (ih _)

theorem resolveRequest (tx : Tx) (requestId : RequestId) (resolution : Value)
    (byControl : Option ControlId) :
    related tx (Agents.resolveRequest tx requestId resolution byControl) :=
  kept.trans (kept.push tx _) (kept.removeRequest _ requestId)

theorem resolveChildWaits (tx : Tx) (child : RunId) (key : String) (status : RunStatus) :
    related tx (Agents.resolveChildWaits tx child key status) := by
  refine kept.trans (kept.foldl tx (fun current request => ?_) _) (kept.wakeForResult _)
  split
  · exact kept.resolveRequest _ _ _ _
  · exact kept.refl _

theorem answerLanded (tx : Tx) (key : String) : related tx (Agents.answerLanded tx key) := by
  unfold Agents.answerLanded
  split
  · split
    · exact kept.resolveChildWaits _ _ _ _
    · exact kept.refl tx
  · exact kept.refl tx

theorem closeExpired (tx : Tx) (request : PendingRequest) :
    related tx (Agents.closeExpired tx request) :=
  kept.trans (kept.push tx _) (kept.removeRequest _ request.requestId)

theorem startTurn (tx : Tx) (cause : Option TurnCause) : related tx (Agents.startTurn tx cause) :=
  kept.quiet ⟨rfl, rfl, rfl, rfl, rfl, rfl, rfl, rfl, rfl⟩

theorem consumeSteer (tx : Tx) (steer : SteerEntry) :
    related tx (Agents.consumeSteer tx steer) := by
  unfold Agents.consumeSteer
  simp only []
  split
  · exact kept.trans (kept.startTurn tx (some (.steer steer.steerId))) (kept.push _ _)
  · exact kept.push tx _

theorem openRequest (tx : Tx) (req : NewRequest) : related tx (Agents.openRequest tx req).1 :=
  kept.quiet ⟨rfl, rfl, rfl, rfl, rfl, rfl, rfl, rfl, rfl⟩

theorem openRequests {children : List ChildLink} {requests : List NewRequest}
    {opened : List PendingRequest} {all : Tx × List PendingRequest}
    (ok : Agents.openRequests children tx opened requests = .ok all) : related tx all.1 := by
  induction requests generalizing tx opened with
  | nil =>
    cases ok
    exact kept.refl tx
  | cons req rest ih =>
    unfold Agents.openRequests at ok
    obtain ⟨_, admitted, ok⟩ := ok_of_bind ok
    exact kept.trans (kept.openRequest tx req) (ih ok)

theorem openAsked (tx : Tx) (opened : List PendingRequest) (requests : List NewRequest) :
    related tx (Agents.openAsked tx opened requests).1 := by
  unfold Agents.openAsked
  induction requests generalizing tx opened with
  | nil => exact kept.refl tx
  | cons req rest ih => exact kept.trans (kept.openRequest tx req) (ih _ _)

theorem applyEffect {value : Value} {now : Nat} {asked : Asked} {effect : Effect}
    {read : Tx × Asked} (ok : Agents.applyEffect value now tx asked effect = .ok read) :
    related tx read.1 := by
  unfold Agents.applyEffect at ok
  cases body : effect.body with
  | withdrawRequest requestId =>
    rw [body] at ok
    cases ok
    unfold withdrawOpen
    split
    · exact kept.trans (kept.push tx _) (kept.removeRequest _ requestId)
    · exact kept.refl tx
  | checkpoint =>
    rw [body] at ok
    cases ok
    exact kept.snapshot tx _ _ value
  | unknown => rw [body] at ok; cases ok
  | _ =>
    rw [body] at ok
    cases ok
    exact kept.refl tx

theorem applyEffects {value : Value} {now : Nat} {effects : List Effect} {asked : Asked}
    {read : Tx × Asked} (ok : Agents.applyEffects value now tx asked effects = .ok read) :
    related tx read.1 := by
  induction effects generalizing tx asked with
  | nil =>
    cases ok
    exact kept.refl tx
  | cons effect rest ih =>
    unfold Agents.applyEffects at ok
    obtain ⟨first, one, ok⟩ := ok_of_bind ok
    exact kept.trans (kept.applyEffect one) (ih ok)

/-! ## Controls -/

theorem approve {cmd : ControlCommand} {requestId : RequestId} {decision : ApprovalDecision}
    {digest : String} (ok : Agents.approve tx cmd requestId decision digest = .ok next) :
    related tx next := by
  unfold Agents.approve at ok
  obtain ⟨request, found, ok⟩ := ok_of_bind ok
  split at ok
  · split at ok
    · cases ok
    · rw [← Except.ok.inj ok]
      exact kept.resolveRequest _ _ _ _
  · cases ok

theorem provideInput {cmd : ControlCommand} {requestId : RequestId} {value : Value}
    (ok : Agents.provideInput tx cmd requestId value = .ok next) : related tx next := by
  unfold Agents.provideInput at ok
  obtain ⟨request, found, ok⟩ := ok_of_bind ok
  split at ok
  · rw [← Except.ok.inj ok]
    exact kept.resolveRequest _ _ _ _
  · cases ok

/-! ## Commits -/

variable {record : AgentRunRecord} {now : Nat} {transition : Transition}

/-- Most commits only note something. -/
theorem noted (made : next.finish = transition) (quiet : Quiet (Tx.new record now) next) :
    ∃ tx, related (Tx.new record now) tx ∧ transition = tx.finish :=
  ⟨next, kept.quiet quiet, made.symm⟩

theorem applySpawn {req : SpawnChild} {childId : RunId} {plan : ChildPlan}
    (ok : Agents.applySpawn record req childId now = .ok (transition, plan)) :
    ∃ tx, related (Tx.new record now) tx ∧ transition = tx.finish := by
  obtain ⟨budgets, config, selected, _, _, _, selects, made, _⟩ := applySpawn_ok ok
  have linked (tx : Tx) : related tx (linkChild (countChild tx) record req childId budgets) :=
    kept.quiet ⟨rfl, rfl, rfl, rfl, rfl, rfl, rfl, rfl, rfl⟩
  refine ⟨_, ?_, made⟩
  rcases selectContext_ok selects with same | written
  · rw [same]
    exact linked _
  · rw [written]
    exact kept.trans (kept.writeCheckpoint _ _ _) (linked _)

theorem applyHandback {child : AgentRunRecord} {handback : Handback}
    (lands : Agents.applyHandback record child handback now = some transition) :
    ∃ tx, related (Tx.new record now) tx ∧ transition = tx.finish := by
  unfold Agents.applyHandback at lands
  split at lands
  · cases lands
  · next link found =>
    split at lands
    · cases lands
    · refine ⟨_, ?_, (Option.some.inj lands).symm⟩
      have charged : related (Tx.new record now) (landed record child link handback now) :=
        kept.quiet ⟨rfl, rfl, rfl, rfl, rfl, rfl, rfl, rfl, rfl⟩
      split
      · exact charged
      · exact kept.trans charged (kept.resolveChildWaits _ _ _ _)

theorem applyHandbackDelivered (delivered : Agents.applyHandbackDelivered record now =
      some transition) : ∃ tx, related (Tx.new record now) tx ∧ transition = tx.finish := by
  unfold Agents.applyHandbackDelivered at delivered
  split at delivered
  · next delegation parent delegated _ =>
    split at delivered
    · cases delivered
    · refine ⟨_, ?_, (Option.some.inj delivered).symm⟩
      refine kept.quiet ⟨rfl, rfl, rfl, rfl, rfl, rfl, ?_, rfl, rfl⟩
      simp only [AgentRunRecord.allowedTools, Tx.push, Tx.new, delegated]
      rfl
  · cases delivered

theorem postToParent {sender : RunId} {message : Value} {messageId : String}
    (posted : (Agents.postToParent record sender message messageId now).toOption.join =
      some transition) : ∃ tx, related (Tx.new record now) tx ∧ transition = tx.finish := by
  have result := postToParent_ok posted
  unfold applyPostToParent at result
  split at result
  · cases result
  · split at result
    · cases result
    · split at result
      · cases result
      · exact kept.noted (Except.ok.inj result) ⟨rfl, rfl, rfl, rfl, rfl, rfl, rfl, rfl, rfl⟩

theorem applyChildStatus {child : RunId} {status : RunStatus}
    (noted : Agents.applyChildStatus record child status now = some transition) :
    ∃ tx, related (Tx.new record now) tx ∧ transition = tx.finish := by
  unfold Agents.applyChildStatus at noted
  split at noted
  · cases noted
  · split at noted
    · cases noted
    · exact kept.noted (Option.some.inj noted) ⟨rfl, rfl, rfl, rfl, rfl, rfl, rfl, rfl, rfl⟩

theorem applyWaiterNotified (noted : Agents.applyWaiterNotified record now = some transition) :
    ∃ tx, related (Tx.new record now) tx ∧ transition = tx.finish := by
  unfold Agents.applyWaiterNotified at noted
  split at noted
  · cases noted
  · split at noted
    · cases noted
    · exact kept.noted (Option.some.inj noted) ⟨rfl, rfl, rfl, rfl, rfl, rfl, rfl, rfl, rfl⟩

end Steady

/-- The commits of these actions are made of such steps alone. -/
def Action.isQuiet : Action → Bool
  | .consumeSteers .. | .checkpoint .. | .expireRequests | .logRejection .. | .spawn ..
  | .handback .. | .handbackDelivered | .post .. | .ack .. | .childControlled .. | .childStatus ..
  | .waiterNotified => true
  | _ => false

theorem Steady.commit {related : Tx → Tx → Prop} (kept : Steady related) {service : Service}
    {run : StoredRun} {record : AgentRunRecord} {now : Nat} {action : Action} {fence : Fence}
    {transition : Transition} (quiet : action.isQuiet = true)
    (computed : service.transitionOf run record now action = some (fence, transition)) :
    ∃ tx, related (Tx.new record now) tx ∧ transition = tx.finish := by
  cases action with
  | consumeSteers claim =>
    have consumed := (fenced_some computed).2
    unfold applyConsumeSteers at consumed
    split at consumed
    · split at consumed
      · cases consumed
      · refine ⟨_, ?_, (Option.some.inj consumed).symm⟩
        have emptied : related (Tx.new record now)
            { Tx.new record now with record := { record with steerQueue := [] } } :=
          kept.quiet ⟨rfl, rfl, rfl, rfl, rfl, rfl, rfl, rfl, rfl⟩
        exact kept.trans emptied (kept.foldl _ kept.consumeSteer _)
    · cases consumed
  | checkpoint claim reason summary =>
    exact ⟨_, kept.writeCheckpoint _ reason summary,
      (Option.some.inj (fenced_some computed).2).symm⟩
  | expireRequests =>
    have expired := (unfenced_some computed).2
    unfold applyExpireRequests at expired
    simp only [] at expired
    split at expired
    · cases expired
    · exact ⟨_, kept.foldl _ kept.closeExpired _, (Option.some.inj expired).symm⟩
  | logRejection cmd =>
    exact ⟨_, kept.trans (kept.push _ _) (kept.push _ _),
      (Option.some.inj (unfenced_some computed).2).symm⟩
  | spawn req childId actor system =>
    obtain ⟨plan, spawned⟩ := spawnChild_ok (unfenced_some computed).2
    exact kept.applySpawn spawned
  | handback child =>
    obtain ⟨handback, _, lands⟩ := landHandback_ok (unfenced_some computed).2
    exact kept.applyHandback lands
  | handbackDelivered => exact kept.applyHandbackDelivered (unfenced_some computed).2
  | post sender message messageId => exact kept.postToParent (unfenced_some computed).2
  | ack upTo actor system =>
    simp only [Service.transitionOf] at computed
    split at computed
    · have acked := (unfenced_some computed).2
      unfold applyAck at acked
      split at acked
      · exact kept.noted (Option.some.inj acked) ⟨rfl, rfl, rfl, rfl, rfl, rfl, rfl, rfl, rfl⟩
      · cases acked
    · cases computed
  | childControlled child action controlId ack =>
    exact kept.noted (Option.some.inj (unfenced_some computed).2)
      ⟨rfl, rfl, rfl, rfl, rfl, rfl, rfl, rfl, rfl⟩
  | childStatus child status => exact kept.applyChildStatus (unfenced_some computed).2
  | waiterNotified => exact kept.applyWaiterNotified (unfenced_some computed).2
  | _ => cases quiet

end RaisinDB.Agents
