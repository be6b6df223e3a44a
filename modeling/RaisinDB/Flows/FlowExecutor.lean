import RaisinDB.Flows.FlowDefinition

/-!
# The executor of flows

Where a step goes on to, by its type and the answers of what it calls, and the rounds of the
workers that execute one stored instance.
-/

namespace RaisinDB.Flows

open List RaisinDB.Foundation

/-! ## Steps -/

inductive StepResult where
  | goesOn (next : String)
  | waits
  | sameStep
  | complete
  | error (error : FlowError)
  deriving DecidableEq

/-- What the work of a step comes to. -/
inductive Outcome where
  | done
  | waits
  | again
  | reports (error : FlowError)
  | fails (error : FlowError)
  deriving DecidableEq

/-- What a step learns from outside when it runs. -/
structure Answer where
  /-- The lifetime or the steps of one execution are used up. -/
  exhausted : Option FlowError
  /-- A branch of its own could not be made for the step, or not be merged. -/
  isolation : Option FlowError
  /-- A test run replaces the handler. -/
  mocked : Bool
  outcome : Outcome
  /-- The condition of a decision holds, or a loop has another iteration. -/
  holds : Bool
  /-- The branch that an agent names. -/
  chosen : Option String
  confident : Bool
  /-- The step asked for itself too often. -/
  overran : Bool

namespace FlowNode

variable (step : FlowNode)

def isDisabled : Bool := (step.getBool "disabled").getD false

/-- The steps that a test run can replace. -/
def isMockable : Bool :=
  step.stepType = .functionStep ∨ step.stepType = .agentStep ∨ step.stepType = .aiContainer ∨
    step.stepType = .chat

/-- The successor of a handler that has only the step. -/
def handlerNext : String := step.nextNode.getD "end"

/-- The successor of a handler that also looks for a property of that name. -/
def propertyNext : String := (step.nextNode.or (step.getString "next_node")).getD "end"

def bodyStep : String :=
  ((step.getString "body_step").or (step.children.head?.map FlowNode.id)).getD step.id

/-- The ids of the branches that a router may choose. -/
def branchIds : List String :=
  (((step.getProperty "branches").bind Value.asArray).getD []).filterMap fun branch =>
    (branch.get "id").bind Value.asStr

/-- The branch that the agent named, if there is such a branch and the agent is sure enough. -/
def routed (answer : Answer) : Option String :=
  if answer.confident then answer.chosen.filter fun branch => step.branchIds.contains branch
  else none

def getNextNode (holds : Bool) : Except FlowError StepResult :=
  let key := if holds then "yes_branch" else "no_branch"
  match step.getString key with
  | some target => .ok (.goesOn target)
  | none => .error (.missingProperty
      s!"Decision node '{step.id}' missing required property: {key}")

def decisionStep (answer : Answer) : Except FlowError StepResult :=
  match step.getString "condition", answer.outcome with
  | none, _ => .error (.missingProperty
      s!"Decision node '{step.id}' missing required property: condition")
  | some _, .fails error => .error error
  | some _, _ => step.getNextNode answer.holds

def agentDecisionStep (answer : Answer) : Except FlowError StepResult :=
  match step.getString "agent_ref", answer.outcome with
  | none, _ => .error (.missingProperty
      s!"Agent decision step '{step.id}' missing required property: agent_ref")
  | some _, outcome =>
      if step.branchIds.isEmpty then .error (.invalidDefinition
        s!"Agent decision step '{step.id}' has no branches to route to")
      else match outcome with
        | .fails error => .error error
        | _ => .ok (.goesOn ((step.routed answer).getD
            ((step.getString "default_branch").getD step.propertyNext)))

def loopStep (answer : Answer) : Except FlowError StepResult :=
  match answer.outcome with
  | .fails error => .error error
  | _ => .ok (.goesOn (if answer.holds then step.bodyStep else step.handlerNext))

/-- A handler that goes on to its successor when its work is done. -/
def workStep (next : String) (answer : Answer) : Except FlowError StepResult :=
  match answer.outcome with
  | .done => .ok (.goesOn next)
  | .waits => .ok .waits
  | .again => .ok .sameStep
  | .reports error => .ok (.error error)
  | .fails error => .error error

/-- The retries of a named strategy. -/
def strategyRetries : Option Nat :=
  (step.getString "retry_strategy").bind fun name =>
    if name = "none" then some 0
    else if name = "quick" then some 3
    else if name = "standard" then some 5
    else if name = "aggressive" then some 10
    else if name = "llm" then some 5
    else none

/-- Steps that would repeat their work are not retried unless they say so. -/
def defaultMaxRetries : Nat :=
  if step.stepType = .parallel ∨ step.stepType = .subFlow ∨ step.stepType = .loop then 0 else 3

def getMaxRetries : Nat :=
  ((step.getU32 "max_retries").or step.strategyRetries).getD step.defaultMaxRetries

def continuesAfterError : Bool :=
  (step.getBool "continue_on_fail").getD false ||
    (step.getString "on_error" = some "continue" ∨ step.getString "on_error" = some "skip")

end FlowNode

namespace FlowDefinition

variable (flow : FlowDefinition)

/-- The successor by the edges alone. -/
def edgeNext (step : FlowNode) : String := (flow.nextNodeId step.id).getD "end"

/-- The successor of a step whose handler is not run. -/
def dispatchNext (step : FlowNode) : String :=
  (step.nextNode.or (flow.nextNodeId step.id)).getD "end"

def startNode (step : FlowNode) : Except FlowError StepResult :=
  match step.nextNode.or (flow.nextNodeId step.id) with
  | some next => .ok (.goesOn next)
  | none => .error (.invalidDefinition "Start node has no next node")

def executeStepInner (step : FlowNode) (answer : Answer) : Except FlowError StepResult :=
  if step.isDisabled then .ok (.goesOn (flow.dispatchNext step))
  else if answer.mocked && step.isMockable then .ok (.goesOn (flow.dispatchNext step))
  else match step.stepType with
    | .startStep => flow.startNode step
    | .endStep => .ok .complete
    | .decision => step.decisionStep answer
    | .agentDecision => step.agentDecisionStep answer
    | .loop => step.loopStep answer
    | .agentStep | .aiContainer | .competition => FlowNode.workStep step.propertyNext answer
    | .functionStep | .humanTask | .chat | .subFlow | .wait | .parallel =>
        FlowNode.workStep step.handlerNext answer
    | .join | .container | .custom _ => .ok (.goesOn (flow.edgeNext step))

def executeStep (step : FlowNode) (answer : Answer) : Except FlowError StepResult :=
  match answer.isolation with
  | some error =>
      if (step.getBool "isolated_branch").getD false then .error error
      else flow.executeStepInner step answer
  | none => flow.executeStepInner step answer

end FlowDefinition

/-! ## Rounds -/

inductive FlowStatus where
  | pending
  | running
  | waiting
  | completed
  | failed
  | cancelled
  | rolledBack
  deriving DecidableEq

structure FlowInstance where
  currentNodeId : String
  status : FlowStatus
  retryCount : Nat
  stepCount : Nat
  deriving DecidableEq

def FlowInstance.isTerminated (held : FlowInstance) : Bool :=
  held.status = .completed ∨ held.status = .failed ∨ held.status = .cancelled ∨
    held.status = .rolledBack

/-- How a round ends: with the next round, with an instance to be stored, or with an error that
leaves the stored instance as it is. -/
inductive Round where
  | moved (next : FlowInstance)
  | saved (next : FlowInstance)
  | dropped (error : FlowError)
  deriving DecidableEq

namespace FlowDefinition

variable (flow : FlowDefinition)

/-- Retry first, then the edge for errors, then the next step if the step lets the flow go on. -/
def handleErrorResult (held : FlowInstance) (step : FlowNode) : Round :=
  if held.retryCount < step.getMaxRetries then
    .saved { held with retryCount := held.retryCount + 1, status := .waiting }
  else match step.getString "error_edge" with
    | some target => .moved { held with currentNodeId := target, retryCount := 0 }
    | none =>
        if step.continuesAfterError then
          .moved { held with currentNodeId := flow.edgeNext step, retryCount := 0 }
        else .saved { held with status := .failed }

def round (held : FlowInstance) (answer : Answer) : Round :=
  match flow.findNode held.currentNodeId with
  | none => .dropped (.stepNotFound held.currentNodeId)
  | some step =>
      match answer.exhausted with
      | some _ => .saved { held with status := .failed }
      | none =>
          match flow.executeStep step answer with
          | .error error =>
              if error.isInfrastructural then .dropped error else flow.handleErrorResult held step
          | .ok result =>
              let counted := { held with stepCount := held.stepCount + 1 }
              match result with
              | .goesOn next => .moved { counted with currentNodeId := next, retryCount := 0 }
              | .waits => .saved { counted with status := .waiting }
              | .complete => .saved { counted with status := .completed }
              | .error _ => flow.handleErrorResult counted step
              | .sameStep =>
                  if answer.overran then flow.handleErrorResult counted step else .moved counted

end FlowDefinition

/-! ## The stored instance and its workers -/

structure System where
  stored : FlowInstance
  /-- The instances that executions hold. -/
  workers : List FlowInstance
  /-- The instances that deliveries and timeout checks have loaded. -/
  loaded : List FlowInstance

inductive Event where
  /-- `execute_flow` loads the instance. -/
  | execute
  | round (worker : Nat) (answer : Answer) (accepted : Bool)
  /-- An execution is lost. -/
  | lost (worker : Nat)
  /-- `resume_flow` or a timeout check loads the instance. -/
  | load
  | resume (copy : Nat) (accepted : Bool)
  | expire (copy : Nat) (accepted : Bool)

namespace FlowDefinition

variable (flow : FlowDefinition)

/-- An instance that has not made a step is checked before its first one. -/
def begin (system : System) : System :=
  if system.stored.isTerminated then system
  else if system.stored.stepCount = 0 ∧ flow.validate ≠ .ok () then
    { system with stored := { system.stored with status := .failed } }
  else { system with workers := system.workers ++
    [if system.stored.status = .pending then { system.stored with status := .running }
      else system.stored] }

def endRound (system : System) (worker : Nat) (accepted : Bool) : Round → System
  | .moved next => { system with workers := system.workers.set worker next }
  | .saved next =>
      { system with
        stored := if accepted then next else system.stored
        workers := system.workers.eraseIdx worker }
  | .dropped _ => { system with workers := system.workers.eraseIdx worker }

/-- Follow the edge for timeouts of the step that waits, or fail. -/
def handleTimeoutExpiry (held : FlowInstance) : FlowInstance :=
  match (flow.findNode held.currentNodeId).bind (FlowNode.getString · "timeout_edge") with
  | some target => { held with currentNodeId := target, status := .running, retryCount := 0 }
  | none => { held with status := .failed }

def deliver (system : System) (copy : Nat) (accepted : Bool) (act : FlowInstance → FlowInstance) :
    System :=
  match system.loaded[copy]? with
  | none => system
  | some held =>
      { system with
        stored := if held.status = .waiting ∧ accepted then act held else system.stored
        loaded := system.loaded.eraseIdx copy }

def step (system : System) : Event → System
  | .execute => flow.begin system
  | .round worker answer accepted =>
      match system.workers[worker]? with
      | none => system
      | some held => endRound system worker accepted (flow.round held answer)
  | .lost worker => { system with workers := system.workers.eraseIdx worker }
  | .load => { system with loaded := system.loaded ++ [system.stored] }
  | .resume copy accepted =>
      deliver system copy accepted fun held => { held with status := .running }
  | .expire copy accepted => deliver system copy accepted flow.handleTimeoutExpiry

def run (system : System) (events : List Event) : System := events.foldl flow.step system

end FlowDefinition

end RaisinDB.Flows
