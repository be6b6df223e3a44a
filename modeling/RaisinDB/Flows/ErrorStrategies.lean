import RaisinDB.Flows.DesignerFlow

/-!
# Failures of designed steps

What a flow does when a step has failed for the last time, and what its designer asked for: the
edge for errors, to go on, or to fail.  The strategy of the flow reaches the nodes of the flow
itself, also those that ask to stop, and no node of a branch.
-/

namespace RaisinDB.Flows

open List RaisinDB.Foundation

/-! ## What the designer asks for -/

namespace DesignerStep

variable (step : DesignerStep)

def isWork : Bool := (determineStepType step.properties).isWork

def edge : Option String := step.errorEdge.or step.properties.errorEdge

/-- The step itself asks to go on. -/
def goesOn : Prop :=
  step.properties.continueOnFail = true ∨ step.onError = some .goOn ∨ step.onError = some .skip

/-- The strategy asks to go on, and the step does not ask to stop. -/
def followsStrategy (strategy : DesignerErrorStrategy) : Prop :=
  strategy = .goOn ∧ step.onError ≠ some .stop

end DesignerStep

/-- The edge of the step, or the next step if the step or else the strategy asks for it. -/
def AskedFor (strategy : DesignerErrorStrategy) (step : DesignerStep) (flow : FlowDefinition)
    (node : FlowNode) (held : FlowInstance) (result : Round) : Prop :=
  match step.edge with
  | some target => result = .moved { held with currentNodeId := target, retryCount := 0 }
  | none =>
      (step.goesOn ∨ step.followsStrategy strategy →
        result = .moved { held with currentNodeId := flow.edgeNext node, retryCount := 0 }) ∧
      (¬ (step.goesOn ∨ step.followsStrategy strategy) →
        result = .saved { held with status := .failed })

/-- The strategy does what it should to a step of the flow itself, or to one inside a branch. -/
def StrategyFits (strategy : DesignerErrorStrategy) (inside : Bool) (step : DesignerStep) : Prop :=
  strategy = .failFast ∨ step.edge.isSome ∨ step.goesOn ∨
    (inside = true ↔ step.onError = some .stop)

/-! ## The steps of a tree -/

mutual

/-- The steps that become nodes, with whether they are inside a branch or an AI container. -/
def stepsOf : DesignerNode → List (Bool × DesignerStep)
  | .step step => [(false, step)]
  | .container _ (.parallel ..) _ children => (stepsOfAll children).map fun entry => (true, entry.2)
  | .container _ (.aiSequence ..) _ children =>
      (stepsOfAll children).map fun entry => (true, entry.2)
  | .container _ (.competition ..) _ _ => []
  | .container _ .and _ children => stepsOfAll children
  | .container _ (.or ..) _ children => stepsOfAll children
  | .container _ (.loop ..) _ children => stepsOfAll children

def stepsOfAll : List DesignerNode → List (Bool × DesignerStep)
  | [] => []
  | node :: rest => stepsOf node ++ stepsOfAll rest

end

/-! ## The flows of the branches -/

/-- The flows that a parallel step starts, as they stand in its properties. -/
def FlowNode.branchFlows (node : FlowNode) : List Value :=
  match node.getProperty "for_each" with
  | some _ => ((node.getProperty "branch").bind (Value.get "flow_definition")).toList
  | none => (((node.getProperty "branches").bind Value.asArray).getD []).filterMap
      (Value.get "flow_definition")

/-- A node of the flow, or of a flow that a parallel step of it starts. -/
inductive Runs : FlowDefinition → FlowDefinition → FlowNode → Prop where
  | here {flow : FlowDefinition} {node : FlowNode} (mem : node ∈ allNodes flow.nodes) :
      Runs flow flow node
  | branch {flow inner home : FlowDefinition} {parent node : FlowNode} {value : Value}
      (mem : parent ∈ allNodes flow.nodes) (parallel : parent.stepType = .parallel)
      (listed : value ∈ parent.branchFlows) (read : flowOfNodes value = some inner)
      (runs : Runs inner home node) : Runs flow home node

/-- A flow without parallel steps runs by itself. -/
theorem Runs.here_of_plain {flow home : FlowDefinition} {node : FlowNode}
    (plain : ∀ parent ∈ allNodes flow.nodes, parent.stepType ≠ .parallel)
    (runs : Runs flow home node) : home = flow ∧ node ∈ allNodes flow.nodes := by
  cases runs with
  | here mem => exact ⟨rfl, mem⟩
  | branch mem parallel => exact absurd parallel (plain _ mem)

theorem nodesOfJson_append {first second : List Value} {nodes nodes' : List FlowNode}
    (read : nodesOfJson first = some nodes) (read' : nodesOfJson second = some nodes') :
    nodesOfJson (first ++ second) = some (nodes ++ nodes') := by
  induction first generalizing nodes with
  | nil =>
    cases read
    exact read'
  | cons item rest ih =>
    rw [nodesOfJson] at read
    rw [cons_append, nodesOfJson]
    cases here : nodeOfJson item with
    | none =>
      rw [here] at read
      cases read
    | some node =>
      cases later : nodesOfJson rest with
      | none =>
        rw [here, later] at read
        cases read
      | some others =>
        rw [here, later] at read
        cases read
        rw [ih later]
        rfl

/-- The flow of a branch is read from its JSON as it was lowered. -/
def branchFlow (entry : String) (nodes : List FlowNode) : FlowDefinition :=
  withGeneratedEdges ⟨cappedNodes entry nodes, [], none⟩

theorem flowOfNodes_inlineFlow (entry : String) (nodes : List FlowNode) :
    flowOfNodes (inlineFlow entry nodes) = some (branchFlow entry nodes) := by
  have begins : nodesOfJson [.object [("id", textValue "start"), ("step_type", textValue "start"),
      ("next_node", textValue entry)]] = some [⟨"start", .startStep, [], [], some entry⟩] := by
    simp [nodesOfJson, nodeOfJson, draftOf, NodeDraft.read, NodeDraft.finish, textValue,
      Value.asStr, StepType.ofJson, stepTypeNames]
  have ends : nodesOfJson [.object [("id", textValue "end"), ("step_type", textValue "end")]] =
      some [⟨"end", .endStep, [], [], none⟩] := by
    simp [nodesOfJson, nodeOfJson, draftOf, NodeDraft.read, NodeDraft.finish, textValue,
      Value.asStr, StepType.ofJson, stepTypeNames]
  have whole := nodesOfJson_append (nodesOfJson_append begins (nodesOfJson_nodesJson nodes)) ends
  have listed : flowOfNodes (inlineFlow entry nodes) =
      (nodesOfJson ([.object [("id", textValue "start"), ("step_type", textValue "start"),
        ("next_node", textValue entry)]] ++ nodesJson nodes ++
        [.object [("id", textValue "end"), ("step_type", textValue "end")]])).map fun nodes =>
          withGeneratedEdges ⟨nodes, [], none⟩ := rfl
  rw [listed, whole]
  rfl

/-! ## Where the steps are -/

/-- What is done to a lowered node afterwards leaves its children alone, and parallel nodes. -/
structure Marks (mark : FlowNode → FlowNode) : Prop where
  children : ∀ node, (mark node).children = node.children
  parallel : ∀ node, node.stepType = .parallel → mark node = node

theorem Marks.id : Marks fun node => node := ⟨fun _ => rfl, fun _ _ => rfl⟩

/-- The step is a marked node of the flow, or a node of a branch or an AI container. -/
def Placed (flow : FlowDefinition) (mark : FlowNode → FlowNode) (entry : Bool × DesignerStep) :
    Prop :=
  if entry.1 then ∃ home successor, Runs flow home (lowerStep entry.2 successor)
  else ∃ successor, mark (lowerStep entry.2 successor) ∈ allNodes flow.nodes

variable {flow : FlowDefinition} {mark : FlowNode → FlowNode}

theorem Placed.runs {entry : Bool × DesignerStep} (placed : Placed flow (fun node => node) entry) :
    ∃ home successor, Runs flow home (lowerStep entry.2 successor) := by
  unfold Placed at placed
  split at placed
  · exact placed
  · obtain ⟨successor, mem⟩ := placed
    exact ⟨flow, successor, .here mem⟩

theorem Placed.inside {entry : Bool × DesignerStep} {home : FlowDefinition} {successor : String}
    (runs : Runs flow home (lowerStep entry.2 successor)) : Placed flow mark (true, entry.2) :=
  ⟨home, successor, runs⟩

/-- The flow of a branch has the nodes of the branch. -/
theorem mem_branchFlow {entry : String} {nodes : List FlowNode} {node : FlowNode}
    (mem : node ∈ nodes) : node ∈ allNodes (branchFlow entry nodes).nodes :=
  mem_allNodes_of_mem (mem_append_left _ (mem_append_right _ mem))

theorem get_branchJson (id : String) (branch : Value) :
    (branchJson id branch).get "flow_definition" = some branch := by
  simp [branchJson, Value.get, Value.lookup]

theorem flows_lowerBranches (children : List DesignerNode) :
    (lowerBranches children).filterMap (Value.get "flow_definition") =
      children.map fun child => inlineFlow child.id (lowerNode child "end").nodes := by
  induction children with
  | nil => rfl
  | cons child rest ih =>
    rw [lowerBranches, filterMap_cons, get_branchJson, map_cons]
    exact congrArg _ ih

/-- A fan-out starts the flow of its body. -/
theorem branchFlows_fanOut (id : String) (fanOut : DesignerFanOutConfig) (branch : Value)
    (mergeStrategy : Option String) (timeoutMs : Option Nat) (next : Option String) :
    FlowNode.branchFlows ⟨id, .parallel, fieldsOf (fanOutFields id fanOut branch ++
      parallelFields mergeStrategy timeoutMs), [], next⟩ = [branch] := by
  cases limit : fanOut.maxBranches <;>
    simp [FlowNode.branchFlows, FlowNode.getProperty, fieldsOf, fanOutFields, limit, Value.lookup,
      Value.get]

/-- A parallel step starts the flow of each child. -/
theorem branchFlows_branches (id : String) (children : List DesignerNode)
    (mergeStrategy : Option String) (timeoutMs : Option Nat) (next : Option String) :
    FlowNode.branchFlows ⟨id, .parallel, fieldsOf ([("branches",
      some (.array (lowerBranches children)))] ++ parallelFields mergeStrategy timeoutMs), [],
        next⟩ =
      children.map fun child => inlineFlow child.id (lowerNode child "end").nodes := by
  rw [← flows_lowerBranches]
  cases timeoutMs <;>
    simp [FlowNode.branchFlows, FlowNode.getProperty, fieldsOf, parallelFields, Value.lookup,
      Value.asArray]

mutual

/-- A node is lowered to nodes that hold its steps.  The tree is read as the lowering reads it. -/
theorem placed {flow : FlowDefinition} {mark : FlowNode → FlowNode} (marks : Marks mark) :
    ∀ (node : DesignerNode) (successor : String),
    (∀ lowered ∈ (lowerNode node successor).nodes, mark lowered ∈ allNodes flow.nodes) →
      ∀ entry ∈ stepsOf node, Placed flow mark entry
  | .step step, successor, held, entry, mem => by
    rw [stepsOf, mem_singleton] at mem
    subst mem
    exact ⟨successor, held _ (mem_singleton.mpr rfl)⟩
  | .container id .and _ children, successor, held, entry, mem =>
    placedAll marks children successor
      (fun lowered mem => held lowered (mem_append_left _ mem)) entry mem
  | .container id (.or rules router) _ children, successor, held, entry, mem =>
    placedEach marks children successor
      (fun lowered mem => held lowered (mem_append_left _ mem)) entry mem
  | .container id (.loop config) _ children, successor, held, entry, mem =>
    placedAll marks children id (fun lowered mem => held lowered (mem_append_left _ mem)) entry mem
  | .container id (.competition ..) _ children, successor, held, entry, mem => by
    rw [stepsOf] at mem
    cases mem
  | .container id (.parallel (some fanOut) mergeStrategy) timeoutMs children, successor, held,
      entry, mem => by
      obtain ⟨inner, listed, rfl⟩ := mem_map.mp mem
      have found := held _ (mem_singleton.mpr rfl)
      rw [marks.parallel _ rfl] at found
      obtain ⟨home, next, runs⟩ := (placedAll Marks.id children "end"
        (fun lowered mem => mem_branchFlow mem) inner listed).runs
      exact .inside (.branch found rfl
        (by rw [branchFlows_fanOut]; exact mem_singleton.mpr rfl)
        (flowOfNodes_inlineFlow (entryOf children "end") _) runs)
  | .container id (.parallel none mergeStrategy) timeoutMs children, successor, held, entry,
      mem => by
      obtain ⟨inner, listed, rfl⟩ := mem_map.mp mem
      have found := held _ (mem_singleton.mpr rfl)
      rw [marks.parallel _ rfl] at found
      obtain ⟨child, below, home, next, runs⟩ := branched children inner listed
      exact .inside (.branch found rfl
        (by rw [branchFlows_branches]; exact mem_map.mpr ⟨child, below, rfl⟩)
        (flowOfNodes_inlineFlow child.id _) runs)
  | .container id (.aiSequence config prompt includeContext apart) timeoutMs children, successor,
      held, entry, mem => by
      obtain ⟨inner, listed, rfl⟩ := mem_map.mp mem
      have found := held _ (mem_singleton.mpr rfl)
      have below (lowered : FlowNode) (mem : lowered ∈ (lowerNodes children "end").nodes) :
          lowered ∈ allNodes flow.nodes :=
        allNodes_trans _ found (by
          rw [marks.children]
          exact mem_allNodes_of_mem mem)
      obtain ⟨home, next, runs⟩ := (placedAll Marks.id children "end" below inner listed).runs
      exact .inside runs

theorem placedAll {flow : FlowDefinition} {mark : FlowNode → FlowNode} (marks : Marks mark) :
    ∀ (nodes : List DesignerNode) (successor : String),
    (∀ lowered ∈ (lowerNodes nodes successor).nodes, mark lowered ∈ allNodes flow.nodes) →
      ∀ entry ∈ stepsOfAll nodes, Placed flow mark entry
  | [], _, _, _, mem => by cases mem
  | node :: rest, successor, held, entry, mem =>
    (mem_append.mp mem).elim
      (placed marks node (entryOf rest successor)
        (fun lowered mem => held lowered (mem_append_right _ mem)) entry)
      (placedAll marks rest successor
        (fun lowered mem => held lowered (mem_append_left _ mem)) entry)

theorem placedEach {flow : FlowDefinition} {mark : FlowNode → FlowNode} (marks : Marks mark) :
    ∀ (nodes : List DesignerNode) (successor : String),
    (∀ lowered ∈ (lowerEach nodes successor).nodes, mark lowered ∈ allNodes flow.nodes) →
      ∀ entry ∈ stepsOfAll nodes, Placed flow mark entry
  | [], _, _, _, mem => by cases mem
  | node :: rest, successor, held, entry, mem =>
    (mem_append.mp mem).elim
      (placed marks node successor (fun lowered mem => held lowered (mem_append_left _ mem)) entry)
      (placedEach marks rest successor
        (fun lowered mem => held lowered (mem_append_right _ mem)) entry)

/-- Each step of the branches is in the flow of one of them. -/
theorem branched : ∀ (nodes : List DesignerNode), ∀ entry ∈ stepsOfAll nodes,
    ∃ child ∈ nodes, ∃ home successor,
      Runs (branchFlow child.id (lowerNode child "end").nodes) home (lowerStep entry.2 successor)
  | [], _, mem => by cases mem
  | node :: rest, entry, mem => by
    rcases mem_append.mp mem with mem | mem
    · exact ⟨node, mem_cons_self, (placed Marks.id node "end"
        (fun lowered mem => mem_branchFlow mem) entry mem).runs⟩
    · obtain ⟨child, below, runs⟩ := branched rest entry mem
      exact ⟨child, mem_cons_of_mem _ below, runs⟩

end

/-! ## What the nodes say about failures -/

theorem lookup_append (key : String) (first second : List (String × Value)) :
    Value.lookup key (first ++ second) = (Value.lookup key first).or (Value.lookup key second) := by
  induction first with
  | nil => rfl
  | cons field rest ih =>
    obtain ⟨name, value⟩ := field
    rw [cons_append, Value.lookup, Value.lookup, ih]
    split <;> rfl

/-- The last field of a name is the one that is kept. -/
theorem lookup_insertAll (key : String) (fields properties : List (String × Value)) :
    Value.lookup key (insertAll fields properties) =
      (Value.lookup key fields.reverse).or (Value.lookup key properties) := by
  induction fields generalizing properties with
  | nil => rfl
  | cons field rest ih =>
    obtain ⟨name, value⟩ := field
    have later : insertAll ((name, value) :: rest) properties =
        insertAll rest (Value.insertField name value properties) := rfl
    rw [later, ih, reverse_cons, lookup_append, Option.or_assoc]
    congr 1
    by_cases same : name = key
    · subst same
      simp [Value.lookup, Value.lookup_insertField_self]
    · rw [Value.lookup_insertField_of_ne same]
      simp [Value.lookup, same]

theorem lookup_none {key : String} {fields : List (String × Value)}
    (apart : ∀ field ∈ fields, field.1 ≠ key) : Value.lookup key fields = none := by
  induction fields with
  | nil => rfl
  | cons field rest ih =>
    rw [Value.lookup, if_neg (apart field mem_cons_self)]
    exact ih fun other mem => apart other (mem_cons_of_mem _ mem)

theorem lookup_fieldsOf (key name : String) (value : Option Value)
    (rest : List (String × Option Value)) :
    Value.lookup key (fieldsOf ((name, value) :: rest)) =
      if name = key then value.or (Value.lookup key (fieldsOf rest))
      else Value.lookup key (fieldsOf rest) := by
  cases value with
  | none => simp [fieldsOf]
  | some value => simp [fieldsOf, Value.lookup]

theorem lookup_fieldsOf_nil (key : String) : Value.lookup key (fieldsOf []) = none := rfl

theorem getProperty_convertStepNode (step : DesignerStep) {key : String}
    (handled : key ∈ errorKeys) : (convertStepNode step).getProperty key =
      Value.lookup key (fieldsOf step.fields.reverse) := by
  have apart : Value.lookup key step.properties.copied.reverse = none :=
    lookup_none fun field mem same =>
      step.properties.apart field (mem_reverse.mp mem) (by rw [same]; exact handled)
  unfold FlowNode.getProperty convertStepNode
  rw [lookup_insertAll, reverse_append, lookup_append, apart, Option.none_or, fieldsOf, fieldsOf,
    filterMap_reverse]
  exact Option.or_none

theorem edge_convertStepNode (step : DesignerStep) :
    (convertStepNode step).getProperty "error_edge" = step.edge.map textValue := by
  rw [getProperty_convertStepNode step (by decide)]
  simp [DesignerStep.fields, DesignerStep.edge, refFields, lookup_fieldsOf, lookup_fieldsOf_nil]

theorem behavior_convertStepNode (step : DesignerStep) :
    (convertStepNode step).getProperty "on_error" =
      step.onError.map fun behavior => textValue behavior.text := by
  rw [getProperty_convertStepNode step (by decide)]
  simp [DesignerStep.fields, refFields, lookup_fieldsOf, lookup_fieldsOf_nil]

theorem continues_convertStepNode (step : DesignerStep) :
    (convertStepNode step).getProperty "continue_on_fail" =
      if step.properties.continueOnFail then some (.bool true) else none := by
  rw [getProperty_convertStepNode step (by decide)]
  simp [DesignerStep.fields, refFields, lookup_fieldsOf, lookup_fieldsOf_nil]

theorem lowerStep_of_work {step : DesignerStep} (work : step.isWork = true) (successor : String) :
    lowerStep step successor = { convertStepNode step with nextNode := some successor } := by
  have kind : ¬ (convertStepNode step).stepType = .decision := by
    intro decision
    have other : (convertStepNode step).stepType = determineStepType step.properties := rfl
    rw [DesignerStep.isWork, ← other, decision] at work
    cases work
  rw [lowerStep, fillDecisionBranches, if_neg kind]

theorem edge_lowerStep {step : DesignerStep} (work : step.isWork = true) (successor : String) :
    (lowerStep step successor).getString "error_edge" = step.edge := by
  have kept : (lowerStep step successor).getProperty "error_edge" =
      (convertStepNode step).getProperty "error_edge" := by rw [lowerStep_of_work work]; rfl
  rw [FlowNode.getString, kept, edge_convertStepNode]
  cases step.edge <;> rfl

/-- Without the strategy of the flow, a step goes on if it asks for it. -/
theorem continues_lowerStep {step : DesignerStep} (work : step.isWork = true)
    (successor : String) :
    (lowerStep step successor).continuesAfterError = true ↔ step.goesOn := by
  have kept (key : String) : (lowerStep step successor).getProperty key =
      (convertStepNode step).getProperty key := by rw [lowerStep_of_work work]; rfl
  rw [FlowNode.continuesAfterError, FlowNode.getString, FlowNode.getBool, kept, kept,
    behavior_convertStepNode, continues_convertStepNode, DesignerStep.goesOn]
  cases step.properties.continueOnFail <;> rcases step.onError with _ | _ | _ | _ <;> decide

/-- With the strategy of the flow written onto it, a step goes on unless it has an edge. -/
theorem continues_continueOnFail {step : DesignerStep} (work : step.isWork = true)
    (successor : String) (loose : step.edge = none) :
    (continueOnFail (lowerStep step successor)).continuesAfterError = true := by
  have kind : (lowerStep step successor).stepType.isWork = true := by
    rw [lowerStep_of_work work]
    exact work
  have edge : (lowerStep step successor).getProperty "error_edge" = none := by
    rw [lowerStep_of_work work]
    exact (edge_convertStepNode step).trans (by rw [loose, Option.map_none])
  have written : (lowerStep step successor).getProperty "continue_on_fail" =
      if step.properties.continueOnFail then some (.bool true) else none := by
    rw [lowerStep_of_work work]
    exact continues_convertStepNode step
  by_cases own : step.properties.continueOnFail = true
  · have unmarked : continueOnFail (lowerStep step successor) = lowerStep step successor := by
      rw [continueOnFail, if_neg]
      rw [written, if_pos own]
      exact fun both => nomatch both.2.1
    rw [unmarked]
    exact (continues_lowerStep work successor).mpr (.inl own)
  · rw [continueOnFail, if_pos ⟨kind, by rw [written, if_neg own]; rfl, by rw [edge]; rfl⟩]
    simp [FlowNode.continuesAfterError, FlowNode.getBool, FlowNode.getProperty,
      Value.lookup_insertField_self, asBool]

theorem edge_continueOnFail (node : FlowNode) :
    (continueOnFail node).getString "error_edge" = node.getString "error_edge" := by
  unfold continueOnFail
  split
  · rw [FlowNode.getString, FlowNode.getProperty, Value.lookup_insertField_of_ne (by decide)]
    rfl
  · rfl

theorem marks_continueOnFail : Marks continueOnFail where
  children node := by
    unfold continueOnFail
    split <;> rfl
  parallel node parallel := by
    rw [continueOnFail, if_neg]
    rw [parallel]
    exact fun written => nomatch written.1

/-! ## Whether the strategy reaches them -/

/-- What was asked for is done when the node goes on as its step, with the strategy, should. -/
theorem askedFor_iff (strategy : DesignerErrorStrategy) {step : DesignerStep} {node : FlowNode}
    {held : FlowInstance} (flow : FlowDefinition) (spent : node.getMaxRetries ≤ held.retryCount)
    (edge : node.getString "error_edge" = step.edge) :
    AskedFor strategy step flow node held (flow.handleErrorResult held node) ↔
      step.edge.isSome ∨
        (node.continuesAfterError = true ↔ step.goesOn ∨ step.followsStrategy strategy) := by
  unfold AskedFor FlowDefinition.handleErrorResult
  rw [if_neg (Nat.not_lt.mpr spent), edge]
  cases step.edge with
  | some target => simp
  | none =>
    by_cases goes : node.continuesAfterError = true
    · simp [goes]
      tauto
    · simp [goes]

/-- A node that the strategy of the flow is not written onto. -/
theorem fits_lowerStep {strategy : DesignerErrorStrategy} {step : DesignerStep}
    (work : step.isWork = true) (successor : String) :
    step.edge.isSome ∨ ((lowerStep step successor).continuesAfterError = true ↔
        step.goesOn ∨ step.followsStrategy strategy) ↔
      strategy = .failFast ∨ step.edge.isSome ∨ step.goesOn ∨ step.onError = some .stop := by
  rw [continues_lowerStep work]
  unfold DesignerStep.followsStrategy
  cases strategy with
  | failFast => simp
  | goOn => by_cases stops : step.onError = some .stop <;> simp [stops]

/-- A node that it is written onto. -/
theorem fits_continueOnFail {step : DesignerStep} (work : step.isWork = true)
    (successor : String) :
    step.edge.isSome ∨ ((continueOnFail (lowerStep step successor)).continuesAfterError = true ↔
        step.goesOn ∨ step.followsStrategy .goOn) ↔
      step.edge.isSome ∨ step.goesOn ∨ ¬ step.onError = some .stop := by
  cases edge : step.edge with
  | some target => simp
  | none =>
    rw [continues_continueOnFail work successor edge]
    simp [DesignerStep.followsStrategy]

namespace DesignerFlowDefinition

variable (self : DesignerFlowDefinition)

/-- What is done to the nodes of the flow itself. -/
def afterwards (node : FlowNode) : FlowNode :=
  if self.errorStrategy = .goOn then continueOnFail node else node

theorem marks_afterwards : Marks self.afterwards := by
  unfold afterwards
  split
  · exact marks_continueOnFail
  · exact .id

theorem mem_toRuntimeFormat {node : FlowNode} (mem : node ∈ (lowerNodes self.nodes "end").nodes) :
    self.afterwards node ∈ allNodes self.toRuntimeFormat.nodes := by
  apply mem_allNodes_of_mem
  refine mem_append_left _ (mem_append_right _ ?_)
  unfold afterwards
  split
  · exact mem_map_of_mem mem
  · exact mem

/-- The flow treats the last failure of a step as its designer asked for in the stated cases only. -/
theorem strategy_reaches_iff : ∀ entry ∈ stepsOfAll self.nodes, entry.2.isWork = true →
    ∃ home node, Runs self.toRuntimeFormat home node ∧ node.id = entry.2.id ∧
      node.stepType = determineStepType entry.2.properties ∧
      ∀ held : FlowInstance, node.getMaxRetries ≤ held.retryCount →
        (AskedFor self.errorStrategy entry.2 home node held (home.handleErrorResult held node) ↔
          StrategyFits self.errorStrategy entry.1 entry.2) := by
  rintro ⟨inside, step⟩ mem work
  have found := placedAll self.marks_afterwards self.nodes "end"
    (fun lowered mem => self.mem_toRuntimeFormat mem) (inside, step) mem
  have named (successor : String) : (lowerStep step successor).id = step.id ∧
      (lowerStep step successor).stepType = determineStepType step.properties := by
    rw [lowerStep_of_work work]
    exact ⟨rfl, rfl⟩
  cases inside with
  | true =>
      obtain ⟨home, successor, runs⟩ := found
      refine ⟨home, _, runs, (named successor).1, (named successor).2, fun held spent => ?_⟩
      rw [askedFor_iff _ home spent (edge_lowerStep work successor), fits_lowerStep work]
      simp [StrategyFits]
  | false =>
      obtain ⟨successor, (listed : self.afterwards (lowerStep step successor) ∈ _)⟩ := found
      by_cases goes : self.errorStrategy = .goOn
      · have marked : self.afterwards (lowerStep step successor) =
            continueOnFail (lowerStep step successor) := if_pos goes
        rw [marked] at listed
        have same : (continueOnFail (lowerStep step successor)).id = step.id ∧
            (continueOnFail (lowerStep step successor)).stepType =
              determineStepType step.properties := by
          unfold continueOnFail
          split
          · exact named successor
          · exact named successor
        refine ⟨_, _, .here listed, same.1, same.2, fun held spent => ?_⟩
        rw [askedFor_iff _ _ spent ((edge_continueOnFail _).trans (edge_lowerStep work successor)),
          goes, fits_continueOnFail work]
        simp [StrategyFits]
      · have unmarked : self.afterwards (lowerStep step successor) = lowerStep step successor :=
          if_neg goes
        rw [unmarked] at listed
        have failFast : self.errorStrategy = .failFast := by
          cases strategy : self.errorStrategy with
          | failFast => rfl
          | goOn => exact absurd strategy goes
        refine ⟨_, _, .here listed, (named successor).1, (named successor).2, fun held spent => ?_⟩
        rw [askedFor_iff _ _ spent (edge_lowerStep work successor), fits_lowerStep work]
        simp [StrategyFits, failFast]

/-- A step that calls a function. -/
def demoStep (onError : Option StepErrorBehavior) : DesignerStep where
  id := "greet"
  properties := {
    action := none
    functionRef := some ⟨"greet", "functions", none⟩
    agentRef := none
    condition := none
    yesBranch := none
    noBranch := none
    disabled := false
    stepType := none
    taskType := none
    retry := none
    retryStrategy := none
    errorEdge := none
    continueOnFail := false
    isolatedBranch := false
    prompt := none
    copied := []
    apart := nofun }
  onError := onError
  errorEdge := none

/-- A flow of that step alone, which goes on after failures. -/
def demoFlow (onError : Option StepErrorBehavior) : DesignerFlowDefinition :=
  ⟨.goOn, [.step (demoStep onError)]⟩

/-- A step that says nothing lets the flow go on. -/
theorem quiet_step_goes_on : ∃ home node, Runs (demoFlow none).toRuntimeFormat home node ∧
    node.id = "greet" ∧ node.stepType = .functionStep ∧
      ∀ held : FlowInstance, node.getMaxRetries ≤ held.retryCount →
        (AskedFor .goOn (demoStep none) home node held (home.handleErrorResult held node) ↔
          StrategyFits .goOn false (demoStep none)) :=
  (demoFlow none).strategy_reaches_iff (false, demoStep none) mem_cons_self (by decide)

/-- A step that asks to stop lets the flow go on all the same. -/
theorem stopping_step_goes_on : ¬ ∀ entry ∈ stepsOfAll (demoFlow (some .stop)).nodes,
    entry.2.isWork = true →
      ∃ home node, Runs (demoFlow (some .stop)).toRuntimeFormat home node ∧
        node.id = entry.2.id ∧ node.stepType = determineStepType entry.2.properties ∧
        ∀ held : FlowInstance, node.getMaxRetries ≤ held.retryCount →
          AskedFor (demoFlow (some .stop)).errorStrategy entry.2 home node held
            (home.handleErrorResult held node) := by
  intro asked
  obtain ⟨home, node, runs, named, -, done⟩ :=
    asked (false, demoStep (some .stop)) mem_cons_self (by decide)
  have nodes : allNodes (demoFlow (some .stop)).toRuntimeFormat.nodes =
      [⟨"start", .startStep, [], [], some "greet"⟩,
        continueOnFail (lowerStep (demoStep (some .stop)) "end"),
        ⟨"end", .endStep, [], [], none⟩] := rfl
  obtain ⟨rfl, mem⟩ := runs.here_of_plain (by rw [nodes]; decide)
  have greets : node = continueOnFail (lowerStep (demoStep (some .stop)) "end") := by
    rw [nodes] at mem
    rcases mem_cons.mp mem with rfl | mem
    · exact absurd named (by decide)
    rcases mem_cons.mp mem with rfl | mem
    · rfl
    · rw [mem_singleton.mp mem] at named
      exact absurd named (by decide)
  have failed := done ⟨"greet", .running, 100, 0⟩ (by rw [greets]; decide)
  rw [greets] at failed
  refine absurd (failed.2 ?_) (by decide)
  rintro ((own | own | own) | ⟨-, quiet⟩)
  · exact absurd own (by decide)
  · exact absurd own (by decide)
  · exact absurd own (by decide)
  · exact quiet rfl

end DesignerFlowDefinition

end RaisinDB.Flows
