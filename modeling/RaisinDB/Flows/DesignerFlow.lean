import RaisinDB.Flows.FlowExecutor

/-!
# Designed flows

A flow as the designer draws it, a tree of steps and containers, and the graph that it is lowered
to: siblings route to each other, containers become nodes that route, and the branches of a
parallel container become flows of their own, which are kept as JSON in the properties of its node.
-/

namespace RaisinDB.Flows

open List RaisinDB.Foundation

/-! ## The designer's tree -/

structure RaisinReference where
  raisinRef : String
  raisinWorkspace : String
  raisinPath : Option String

def RaisinReference.path (ref : RaisinReference) : String := ref.raisinPath.getD ref.raisinRef

inductive DesignerStepType where
  | defaultStep
  | aiAgent
  | chat
  | humanTask
  | wait
  | subFlow
  | decision
  deriving DecidableEq

inductive StepErrorBehavior where
  | stop
  | skip
  | goOn
  deriving DecidableEq

structure RetryConfig where
  maxRetries : Nat
  baseDelayMs : Nat
  maxDelayMs : Nat

/-- The properties by which a failure is handled. -/
def errorKeys : List String :=
  ["continue_on_fail", "error_edge", "on_error", "max_retries", "retry_strategy"]

/-- The properties of a step.  Those that only their handlers read are copied under their names. -/
structure DesignerStepProperties where
  action : Option String
  functionRef : Option RaisinReference
  agentRef : Option RaisinReference
  condition : Option String
  yesBranch : Option String
  noBranch : Option String
  disabled : Bool
  stepType : Option DesignerStepType
  taskType : Option String
  retry : Option RetryConfig
  retryStrategy : Option String
  errorEdge : Option String
  continueOnFail : Bool
  isolatedBranch : Bool
  prompt : Option String
  copied : List (String × Value)
  apart : ∀ entry ∈ copied, entry.1 ∉ errorKeys

structure DesignerStep where
  id : String
  properties : DesignerStepProperties
  onError : Option StepErrorBehavior
  errorEdge : Option String

structure DesignerContainerRule where
  condition : String
  nextStep : String

structure DesignerRouterConfig where
  agentRef : RaisinReference
  prompt : Option String
  minConfidence : Option Value
  defaultBranch : Option String
  includeContext : Option Value

structure DesignerRefereeConfig where
  agentRef : RaisinReference
  prompt : Option String
  minConfidence : Option Value
  maxRounds : Option Nat
  includeContext : Option Value

structure DesignerLoopConfig where
  iterated : Option String
  whileCondition : Option String
  times : Option Nat
  item : String
  index : Option String
  maxIterations : Option Nat
  unbounded : Bool
  untilCondition : Option String

structure DesignerFanOutConfig where
  iterated : String
  maxBranches : Option Nat

/-- The kinds of containers, each with what its node is made from. -/
inductive DesignerContainer where
  | and
  | or (rules : List DesignerContainerRule) (router : Option DesignerRouterConfig)
  | parallel (fanOut : Option DesignerFanOutConfig) (mergeStrategy : Option String)
  | aiSequence (config : List (String × Value)) (prompt : Option String)
      (includeContext : Option Value) (apart : ∀ entry ∈ config, entry.1 ∉ errorKeys)
  | competition (prompt : Option String) (referee : Option DesignerRefereeConfig)
  | loop (config : Option DesignerLoopConfig)

inductive DesignerNode where
  | step (step : DesignerStep)
  | container (id : String) (container : DesignerContainer) (timeoutMs : Option Nat)
      (children : List DesignerNode)

def DesignerNode.id : DesignerNode → String
  | step drawn => drawn.id
  | container id _ _ _ => id

inductive DesignerErrorStrategy where
  | failFast
  | goOn
  deriving DecidableEq

structure DesignerFlowDefinition where
  errorStrategy : DesignerErrorStrategy
  nodes : List DesignerNode

/-! ## Properties of the nodes -/

def textValue (text : String) : Value := .string text

def numberValue (number : Nat) : Value := .number (toString number)

/-- The fields that are set. -/
def fieldsOf (fields : List (String × Option Value)) : List (String × Value) :=
  fields.filterMap fun field => field.2.map fun value => (field.1, value)

/-- Every field in its turn, a later one over an earlier one of its name. -/
def insertAll (fields : List (String × Value)) (properties : List (String × Value)) :
    List (String × Value) :=
  fields.foldl (fun properties field => Value.insertField field.1 field.2 properties) properties

def refFields (name : String) (workspace : String) (ref : Option RaisinReference) :
    List (String × Option Value) :=
  [(name, ref.map fun ref => textValue ref.path),
    (workspace, ref.map fun ref => textValue ref.raisinWorkspace)]

def StepErrorBehavior.text : StepErrorBehavior → String
  | stop => "stop"
  | skip => "skip"
  | goOn => "continue"

def determineStepType (props : DesignerStepProperties) : StepType :=
  if props.stepType = some .humanTask ∨ props.taskType.isSome then .humanTask
  else if props.stepType = some .wait then .wait
  else if props.stepType = some .subFlow then .subFlow
  else if props.stepType = some .decision then .decision
  else if props.functionRef.isSome then .functionStep
  else if props.stepType = some .aiAgent then .agentStep
  else if props.agentRef.isSome then .aiContainer
  else if props.stepType = some .chat then .chat
  else if props.condition.isSome then .decision
  else .functionStep

def DesignerStep.fields (step : DesignerStep) : List (String × Option Value) :=
  let props := step.properties
  [("action", props.action.map textValue)] ++
    refFields "function_ref" "function_workspace" props.functionRef ++
    refFields "agent_ref" "agent_workspace" props.agentRef ++
    [("prompt", props.prompt.map textValue),
      ("condition", props.condition.map textValue),
      ("yes_branch", props.yesBranch.map textValue),
      ("no_branch", props.noBranch.map textValue),
      ("disabled", if props.disabled then some (.bool true) else none),
      ("retry_strategy", props.retryStrategy.map textValue),
      ("max_retries", if props.retryStrategy = some "none" then some (numberValue 0) else none),
      ("max_retries", props.retry.map fun retry => numberValue retry.maxRetries),
      ("retry_base_delay_ms", props.retry.map fun retry => numberValue retry.baseDelayMs),
      ("retry_max_delay_ms", props.retry.map fun retry => numberValue retry.maxDelayMs),
      ("error_edge", (step.errorEdge.or props.errorEdge).map textValue),
      ("on_error", step.onError.map fun behavior => textValue behavior.text),
      ("continue_on_fail", if props.continueOnFail then some (.bool true) else none),
      ("isolated_branch", if props.isolatedBranch then some (.bool true) else none),
      ("task_type", props.taskType.map textValue),
      ("title", props.taskType.map fun _ => textValue (props.action.getD "Task"))]

def convertStepNode (step : DesignerStep) : FlowNode where
  id := step.id
  stepType := determineStepType step.properties
  properties := insertAll (fieldsOf step.fields ++ step.properties.copied) []
  children := []
  nextNode := none

/-- An arm of a decision that is not named goes on to the next sibling. -/
def fillDecisionBranches (node : FlowNode) (successor : String) : FlowNode :=
  if node.stepType = .decision then
    { node with
      properties := ["yes_branch", "no_branch"].foldl (fun properties arm =>
        if (Value.lookup arm properties).isSome then properties
        else Value.insertField arm (textValue successor) properties) node.properties }
  else node

/-! ## Nodes as JSON -/

def StepType.json : StepType → Value
  | .startStep => textValue "start"
  | .endStep => textValue "end"
  | .decision => textValue "decision"
  | .functionStep => textValue "function_step"
  | .agentStep => textValue "agent_step"
  | .aiContainer => textValue "a_i_container"
  | .humanTask => textValue "human_task"
  | .parallel => textValue "parallel"
  | .join => textValue "join"
  | .wait => textValue "wait"
  | .subFlow => textValue "sub_flow"
  | .chat => textValue "chat"
  | .agentDecision => textValue "agent_decision"
  | .competition => textValue "competition"
  | .container => textValue "container"
  | .loop => textValue "loop"
  | .custom name => .object [("custom", textValue name)]

/-- The names of the step types, with other names that are read for some. -/
def stepTypeNames : List (String × StepType) :=
  [("start", .startStep), ("end", .endStep), ("decision", .decision),
    ("function_step", .functionStep), ("agent_step", .agentStep), ("ai_agent", .agentStep),
    ("a_i_container", .aiContainer), ("ai_container", .aiContainer), ("ai_sequence", .aiContainer),
    ("human_task", .humanTask), ("parallel", .parallel), ("join", .join), ("wait", .wait),
    ("sub_flow", .subFlow), ("chat", .chat), ("chat_step", .chat), ("chat_session", .chat),
    ("agent_decision", .agentDecision), ("ai_decision", .agentDecision),
    ("agent_router", .agentDecision), ("competition", .competition),
    ("ai_competition", .competition), ("container", .container), ("loop", .loop)]

def StepType.ofJson : Value → Option StepType
  | .string name => (stepTypeNames.find? fun entry => entry.1 == name).map Prod.snd
  | .object [("custom", .string name)] => some (.custom name)
  | _ => none

mutual

def nodeJson : FlowNode → Value
  | ⟨id, stepType, properties, children, nextNode⟩ =>
      .object (fieldsOf [("id", some (textValue id)), ("step_type", some stepType.json),
        ("properties", some (.object properties)),
        ("children", if children.isEmpty then none else some (.array (nodesJson children))),
        ("next_node", nextNode.map textValue)])

def nodesJson : List FlowNode → List Value
  | [] => []
  | node :: rest => nodeJson node :: nodesJson rest

end

/-- What the fields of a node have said so far. -/
structure NodeDraft where
  id : Option String
  stepType : Option StepType
  properties : List (String × Value)
  children : List FlowNode
  nextNode : Option String

def NodeDraft.finish (draft : NodeDraft) : Option FlowNode :=
  match draft.id, draft.stepType with
  | some id, some stepType =>
      some ⟨id, stepType, draft.properties, draft.children, draft.nextNode⟩
  | _, _ => none

/-- A field other than the children.  Unknown fields are passed over. -/
def NodeDraft.read (draft : NodeDraft) (key : String) (value : Value) : Option NodeDraft :=
  if key = "id" then value.asStr.map fun id => { draft with id := some id }
  else if key = "step_type" then
    (StepType.ofJson value).map fun stepType => { draft with stepType := some stepType }
  else if key = "properties" then
    match value with
    | .object properties => some { draft with properties := properties }
    | _ => none
  else if key = "next_node" then
    match value with
    | .null => some { draft with nextNode := none }
    | .string next => some { draft with nextNode := some next }
    | _ => none
  else some draft

mutual

def nodeOfJson : Value → Option FlowNode
  | .object fields => (draftOf fields).bind NodeDraft.finish
  | _ => none

def draftOf : List (String × Value) → Option NodeDraft
  | [] => some ⟨none, none, [], [], none⟩
  | (key, value) :: rest =>
      match draftOf rest with
      | none => none
      | some draft =>
          if key = "children" then
            (childrenOf value).map fun children => { draft with children := children }
          else draft.read key value

def childrenOf : Value → Option (List FlowNode)
  | .array items => nodesOfJson items
  | _ => none

def nodesOfJson : List Value → Option (List FlowNode)
  | [] => some []
  | item :: rest =>
      match nodeOfJson item, nodesOfJson rest with
      | some node, some nodes => some (node :: nodes)
      | _, _ => none

end

theorem StepType.ofJson_json (stepType : StepType) : ofJson stepType.json = some stepType := by
  cases stepType <;> rfl

mutual

theorem nodeOfJson_nodeJson (node : FlowNode) : nodeOfJson (nodeJson node) = some node := by
  obtain ⟨id, stepType, properties, children, nextNode⟩ := node
  have below := nodesOfJson_nodesJson children
  have read := StepType.ofJson_json stepType
  cases children <;> cases nextNode <;>
    simp_all [nodeJson, fieldsOf, nodeOfJson, draftOf, NodeDraft.read, NodeDraft.finish, childrenOf,
      textValue, Value.asStr]

theorem nodesOfJson_nodesJson (nodes : List FlowNode) :
    nodesOfJson (nodesJson nodes) = some nodes := by
  cases nodes with
  | nil => rfl
  | cons node rest =>
      rw [nodesJson, nodesOfJson, nodeOfJson_nodeJson node, nodesOfJson_nodesJson rest]

end

/-! ## Flows from JSON -/

mutual

/-- The edges of the nodes below a node. -/
def edgesBelow : FlowNode → List FlowEdge
  | ⟨_, _, _, children, _⟩ => nextEdges children ++ edgesBelowAll children

def edgesBelowAll : List FlowNode → List FlowEdge
  | [] => []
  | node :: rest => edgesBelow node ++ edgesBelowAll rest

/-- The edges that the successors of the nodes stand for. -/
def nextEdges : List FlowNode → List FlowEdge
  | [] => []
  | ⟨id, _, _, _, nextNode⟩ :: rest => (nextNode.map (FlowEdge.mk id)).toList ++ nextEdges rest

end

def withGeneratedEdges (flow : FlowDefinition) : FlowDefinition :=
  if flow.edges.isEmpty then
    { flow with edges := nextEdges flow.nodes ++ edgesBelowAll flow.nodes }
  else flow

/-- The flow of a branch: nodes in the format of the runtime, without edges and metadata. -/
def flowOfNodes (value : Value) : Option FlowDefinition :=
  match value with
  | .object [("nodes", .array items)] =>
      if (items.head?.bind fun node => node.get "node_type").isSome ∨ items.isEmpty then none
      else (nodesOfJson items).map fun nodes => withGeneratedEdges ⟨nodes, [], none⟩
  | _ => none

def inlineFlow (entry : String) (nodes : List FlowNode) : Value :=
  .object [("nodes", .array (
    [.object [("id", textValue "start"), ("step_type", textValue "start"),
      ("next_node", textValue entry)]] ++ nodesJson nodes ++
    [.object [("id", textValue "end"), ("step_type", textValue "end")]]))]

/-- The nodes of a branch with those that begin and end it. -/
def cappedNodes (entry : String) (nodes : List FlowNode) : List FlowNode :=
  [⟨"start", .startStep, [], [], some entry⟩] ++ nodes ++ [⟨"end", .endStep, [], [], none⟩]

/-! ## Lowering -/

structure Lowered where
  nodes : List FlowNode
  edges : List FlowEdge

def Lowered.append (first second : Lowered) : Lowered :=
  ⟨first.nodes ++ second.nodes, first.edges ++ second.edges⟩

/-- The first of the siblings, or what follows them. -/
def entryOf (children : List DesignerNode) (successor : String) : String :=
  (children.head?.map DesignerNode.id).getD successor

def lowerStep (step : DesignerStep) (successor : String) : FlowNode :=
  { fillDecisionBranches (convertStepNode step) successor with nextNode := some successor }

def DesignerNode.description : DesignerNode → String
  | .step drawn => (drawn.properties.action.or drawn.properties.condition).getD drawn.id
  | .container id _ _ _ => id

/-- The rules of an OR container, or else the conditions of its steps. -/
def effectiveRules (rules : List DesignerContainerRule) (children : List DesignerNode) :
    List (String × String) :=
  match rules with
  | [] => children.filterMap fun child =>
      match child with
      | .step step => step.properties.condition.map fun condition => (condition, step.id)
      | .container .. => none
  | _ => rules.map fun rule => (rule.condition, rule.nextStep)

def routerNode (id : String) (router : DesignerRouterConfig) (children : List DesignerNode)
    (successor : String) : Lowered where
  nodes := [⟨id, .agentDecision, insertAll (fieldsOf [
    ("agent_ref", some (textValue router.agentRef.path)),
    ("agent_workspace", some (textValue router.agentRef.raisinWorkspace)),
    ("branches", some (.array (children.map fun child =>
      .object [("id", textValue child.id), ("description", textValue child.description)]))),
    ("prompt", router.prompt.map textValue),
    ("min_confidence", router.minConfidence),
    ("default_branch", router.defaultBranch.map textValue),
    ("include_context", router.includeContext)]) [], [], some successor⟩]
  edges := children.map (fun child => ⟨id, child.id⟩) ++ [⟨id, successor⟩]

/-- Each decision falls through to the next one, and the last one to `fallthrough`.  The id of the
first one comes along. -/
def cascade (id : String) : List ((String × String) × Nat) → String → Lowered × String
  | [], fallthrough => (⟨[], []⟩, fallthrough)
  | ((condition, target), place) :: rest, fallthrough =>
      let later := cascade id rest fallthrough
      let nodeId := if place = 0 then id else s!"{id}__rule{place}"
      (later.1.append {
        nodes := [⟨nodeId, .decision, [("condition", textValue condition),
          ("yes_branch", textValue target), ("no_branch", textValue later.2)], [], none⟩]
        edges := [⟨nodeId, target⟩, ⟨nodeId, later.2⟩] }, nodeId)

/-- The nodes that choose among the children of an OR container. -/
def lowerRouting (id : String) (rules : List DesignerContainerRule)
    (router : Option DesignerRouterConfig) (children : List DesignerNode) (successor : String) :
    Lowered :=
  match effectiveRules rules children, router with
  | [], some router => routerNode id router children successor
  | [], none =>
      let target := entryOf children successor
      ⟨[⟨id, .startStep, [], [], some target⟩], [⟨id, target⟩]⟩
  | effective, some router =>
      (routerNode s!"{id}__router" router children successor).append
        (cascade id effective.zipIdx s!"{id}__router").1
  | effective, none => (cascade id effective.zipIdx successor).1

def loopFields (config : Option DesignerLoopConfig) : List (String × Option Value) :=
  match config with
  | none => [("loop_type", some (textValue "for_each"))]
  | some config =>
      [("loop_type", some (textValue (if config.whileCondition.isSome then "while"
          else if config.times.isSome then "times" else "for_each"))),
        ("collection", config.iterated.map textValue),
        ("condition", config.whileCondition.map textValue),
        ("unbounded", if config.unbounded then some (.bool true) else none),
        ("times", config.times.map numberValue),
        ("item_var", some (textValue config.item)),
        ("index_var", config.index.map textValue),
        ("max_iterations", config.maxIterations.map numberValue),
        ("until", config.untilCondition.map textValue)]

def competitorJson : DesignerNode → Option Value
  | .step step => step.properties.agentRef.map fun ref =>
      .object (fieldsOf [("id", some (textValue step.id)), ("agent_ref", some (textValue ref.path)),
        ("agent_workspace", some (textValue ref.raisinWorkspace)),
        ("prompt", step.properties.prompt.map textValue),
        ("description", step.properties.action.map textValue)])
  | .container .. => none

def refereeFields : Option DesignerRefereeConfig → List (String × Option Value)
  | none => []
  | some referee =>
      refFields "referee_agent_ref" "referee_agent_workspace" (some referee.agentRef) ++
        [("referee_prompt", referee.prompt.map textValue),
          ("min_confidence", referee.minConfidence),
          ("max_rounds", referee.maxRounds.map numberValue),
          ("include_context", referee.includeContext)]

/-- One branch that is run for each item of the collection. -/
def fanOutFields (id : String) (config : DesignerFanOutConfig) (branch : Value) :
    List (String × Option Value) :=
  [("for_each", some (textValue config.iterated)),
    ("max_branches", config.maxBranches.map numberValue),
    ("branch", some (.object [("id", textValue (id ++ "-$\x7bindex\x7d")),
      ("flow_definition", branch),
      ("input_mapping", .object [("item", textValue "$\x7bitem\x7d"),
        ("index", textValue "$\x7bindex\x7d")])]))]

def branchJson (id : String) (branch : Value) : Value :=
  .object [("id", textValue id), ("flow_definition", branch)]

def parallelFields (mergeStrategy : Option String) (timeoutMs : Option Nat) :
    List (String × Option Value) :=
  [("merge_strategy", some (textValue (mergeStrategy.getD "merge_all"))),
    ("timeout_ms", timeoutMs.map numberValue)]

mutual

/-- The entry of what a node is lowered to always has the id of the node. -/
def lowerNode : DesignerNode → String → Lowered
  | .step step, successor => ⟨[lowerStep step successor], [⟨step.id, successor⟩]⟩
  | .container id .and _ children, successor =>
      let entry := entryOf children successor
      (lowerNodes children successor).append
        ⟨[⟨id, .startStep, [("container_type", textValue "and")], [], some entry⟩], [⟨id, entry⟩]⟩
  | .container id (.or rules router) _ children, successor =>
      (lowerEach children successor).append (lowerRouting id rules router children successor)
  | .container id (.parallel (some fanOut) mergeStrategy) timeoutMs children, successor =>
      let branch := inlineFlow (entryOf children "end") (lowerNodes children "end").nodes
      ⟨[⟨id, .parallel, fieldsOf (fanOutFields id fanOut branch ++
        parallelFields mergeStrategy timeoutMs), [], some successor⟩], [⟨id, successor⟩]⟩
  | .container id (.parallel none mergeStrategy) timeoutMs children, successor =>
      ⟨[⟨id, .parallel, fieldsOf ([("branches", some (.array (lowerBranches children)))] ++
        parallelFields mergeStrategy timeoutMs), [], some successor⟩], [⟨id, successor⟩]⟩
  | .container id (.aiSequence config prompt includeContext _) timeoutMs children, successor =>
      let inner := lowerNodes children "end"
      ⟨[⟨id, .aiContainer, insertAll (fieldsOf
          [("container_type", some (textValue "aisequence"))] ++ config ++ fieldsOf
          [("timeout_ms", timeoutMs.map numberValue), ("prompt", prompt.map textValue),
            ("include_context", includeContext)]) [], inner.nodes, some successor⟩],
        ⟨id, successor⟩ :: inner.edges⟩
  | .container id (.competition prompt referee) timeoutMs children, successor =>
      ⟨[⟨id, .competition, insertAll (fieldsOf
          ([("competitors", some (.array (children.filterMap competitorJson))),
            ("prompt", prompt.map textValue)] ++ refereeFields referee ++
            [("timeout_ms", timeoutMs.map numberValue)])) [], [], some successor⟩],
        [⟨id, successor⟩]⟩
  | .container id (.loop config) timeoutMs children, successor =>
      let entry := entryOf children id
      (lowerNodes children id).append
        ⟨[⟨id, .loop, fieldsOf (loopFields config ++ [("body_step", some (textValue entry)),
          ("timeout_ms", timeoutMs.map numberValue)]), [], some successor⟩],
          [⟨id, entry⟩, ⟨id, successor⟩]⟩

/-- Siblings, of which each routes to the next one and the last one to the successor.  The last one
is lowered first. -/
def lowerNodes : List DesignerNode → String → Lowered
  | [], _ => ⟨[], []⟩
  | node :: rest, successor =>
      (lowerNodes rest successor).append (lowerNode node (entryOf rest successor))

/-- Alternatives, which all route to the successor. -/
def lowerEach : List DesignerNode → String → Lowered
  | [], _ => ⟨[], []⟩
  | node :: rest, successor => (lowerNode node successor).append (lowerEach rest successor)

/-- Each child as a branch of its own. -/
def lowerBranches : List DesignerNode → List Value
  | [] => []
  | node :: rest =>
      branchJson node.id (inlineFlow node.id (lowerNode node "end").nodes) :: lowerBranches rest

end

/-- The steps that do work which may fail. -/
def StepType.isWork (stepType : StepType) : Bool :=
  stepType = .functionStep ∨ stepType = .agentStep ∨ stepType = .aiContainer

/-- The flow's strategy is written onto a step that says nothing about failures. -/
def continueOnFail (node : FlowNode) : FlowNode :=
  if node.stepType.isWork ∧ (node.getProperty "continue_on_fail").isNone ∧
      (node.getProperty "error_edge").isNone then
    { node with properties := Value.insertField "continue_on_fail" (.bool true) node.properties }
  else node

def containsId (nodes : List FlowNode) (id : String) : Bool :=
  (allNodes nodes).any fun node => node.id == id

namespace DesignerFlowDefinition

variable (self : DesignerFlowDefinition)

/-- The lowered nodes, and the nodes that begin and end the flow unless their ids are taken. -/
def toRuntimeFormat : FlowDefinition :=
  let lowered := lowerNodes self.nodes "end"
  let entry := entryOf self.nodes "end"
  let startTaken := containsId lowered.nodes "start"
  let endTaken := containsId lowered.nodes "end"
  { nodes :=
      (if startTaken then [] else [⟨"start", .startStep, [], [], some entry⟩]) ++
        (if self.errorStrategy = .goOn then lowered.nodes.map continueOnFail else lowered.nodes) ++
        (if endTaken then [] else [⟨"end", .endStep, [], [], none⟩])
    edges := (if startTaken then [] else [⟨"start", entry⟩]) ++ lowered.edges
    executionLimits := none }

end DesignerFlowDefinition

end RaisinDB.Flows
