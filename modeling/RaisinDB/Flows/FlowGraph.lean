import Mathlib.Data.List.Induction
import RaisinDB.Flows.FlowExecutor

/-!
# Staying on the graph

A valid flow walks off its graph exactly where a step goes on to a successor that validation does
not look at and that is no node: the node called `end` of a step without a successor, the first step
of a loop's body, a branch of a router, an edge, or a successor that is named by a property.
-/

namespace RaisinDB.Flows

open List RaisinDB.Foundation

/-! ## Successors that are not looked at -/

namespace FlowNode

variable (step : FlowNode)

/-- Without the successor that is looked at, another one. -/
def looseNext (other : Option String) : Option String :=
  if step.nextNode.isSome then none else some (other.getD "end")

/-- Of a router: the branch, or the default, or a successor. -/
def looseBranch (answer : Answer) : Option String :=
  ((step.routed answer).or (step.getString "default_branch")).or
    (step.looseNext (step.getString "next_node"))

end FlowNode

namespace FlowDefinition

variable (flow : FlowDefinition)

/-- The successor of a step that goes on, where validation does not look at it. -/
def looseSuccessor (step : FlowNode) (answer : Answer) : Option String :=
  if step.isDisabled || answer.mocked && step.isMockable then
    step.looseNext (flow.nextNodeId step.id)
  else match step.stepType with
    | .startStep => if step.nextNode.isSome then none else flow.nextNodeId step.id
    | .endStep | .decision => none
    | .agentDecision => step.looseBranch answer
    | .loop => if answer.holds then step.getString "body_step" else step.looseNext none
    | .agentStep | .aiContainer | .competition => step.looseNext (step.getString "next_node")
    | .functionStep | .humanTask | .chat | .subFlow | .wait | .parallel => step.looseNext none
    | .join | .container | .custom _ => some (flow.edgeNext step)

/-- The successor of a failed step, where validation does not look at it. -/
def looseAfterError (held : FlowInstance) (step : FlowNode) : Option String :=
  if held.retryCount < step.getMaxRetries ∨ (step.getString "error_edge").isSome then none
  else if step.continuesAfterError then some (flow.edgeNext step) else none

/-- The id that a round goes on to without a look at it before the first step. -/
def looseTarget (held : FlowInstance) (answer : Answer) : Option String :=
  match flow.findNode held.currentNodeId, answer.exhausted with
  | some step, none =>
      match flow.executeStep step answer with
      | .ok (.goesOn _) => flow.looseSuccessor step answer
      | .ok (.error _) => flow.looseAfterError held step
      | .ok .sameStep => if answer.overran then flow.looseAfterError held step else none
      | .error error => if error.isInfrastructural then none else flow.looseAfterError held step
      | _ => none
  | _, _ => none

/-- What a round goes on to without a look is a node of the flow. -/
def Wired (system : System) : Event → Prop
  | .round worker answer _ => ∀ held, system.workers[worker]? = some held →
      ∀ target, flow.looseTarget held answer = some target → (flow.findNode target).isSome
  | _ => True

/-- Every instance stands at a node of the flow. -/
structure OnGraph (system : System) : Prop where
  stored : (flow.findNode system.stored.currentNodeId).isSome
  workers : ∀ held ∈ system.workers, (flow.findNode held.currentNodeId).isSome
  loaded : ∀ held ∈ system.loaded, (flow.findNode held.currentNodeId).isSome

variable {flow}

/-! ## One step -/

/-- A successor is either one that was looked at, or it is found just when the loose one is. -/
def Settled (flow : FlowDefinition) (loose : Option String) (next : String) : Prop :=
  loose = some next ∨ loose = none ∧ (flow.findNode next).isSome

theorem settled_looseNext (valid : flow.validate = .ok ()) {step : FlowNode}
    (mem : step ∈ allNodes flow.nodes) (other : Option String) :
    Settled flow (step.looseNext other) ((step.nextNode.or other).getD "end") := by
  unfold FlowNode.looseNext
  cases next : step.nextNode with
  | some target => exact .inr ⟨rfl, found_of_nextNode valid mem next⟩
  | none => exact .inl rfl

theorem settled_getString (valid : flow.validate = .ok ()) {step : FlowNode}
    (mem : step ∈ allNodes flow.nodes) {holds : Bool} {next : String}
    (named : step.getString (if holds then "yes_branch" else "no_branch") = some next) :
    Settled flow none next := by
  refine .inr ⟨rfl, found_of_getString valid mem ?_ named⟩
  cases holds <;> simp

theorem settled_bodyStep {step : FlowNode} (mem : step ∈ allNodes flow.nodes) :
    Settled flow (step.getString "body_step") step.bodyStep := by
  unfold FlowNode.bodyStep
  cases body : step.getString "body_step" with
  | some target => exact .inl rfl
  | none =>
    refine .inr ⟨rfl, ?_⟩
    cases first : step.children with
    | nil => exact findNode_of_mem mem
    | cons child rest =>
      refine findNode_of_mem (allNodes_trans flow.nodes mem ?_)
      rw [first]
      exact mem_allNodes_of_mem mem_cons_self

theorem settled_edgeNext (step : FlowNode) :
    Settled flow (some (flow.edgeNext step)) (flow.edgeNext step) := .inl rfl

theorem settled_routed (valid : flow.validate = .ok ()) {step : FlowNode}
    (mem : step ∈ allNodes flow.nodes) (answer : Answer) :
    Settled flow (step.looseBranch answer) ((step.routed answer).getD
      ((step.getString "default_branch").getD step.propertyNext)) := by
  unfold FlowNode.looseBranch
  cases step.routed answer with
  | some branch => exact .inl rfl
  | none =>
    cases step.getString "default_branch" with
    | some branch => exact .inl rfl
    | none => exact settled_looseNext valid mem (step.getString "next_node")

theorem goesOn_of_workStep {next target : String} {answer : Answer}
    (went : FlowNode.workStep next answer = .ok (.goesOn target)) : target = next := by
  unfold FlowNode.workStep at went
  cases outcome : answer.outcome <;> rw [outcome] at went <;> cases went
  rfl

theorem named_of_decisionStep {step : FlowNode} {answer : Answer} {target : String}
    (went : step.decisionStep answer = .ok (.goesOn target)) :
    step.getString (if answer.holds then "yes_branch" else "no_branch") = some target := by
  unfold FlowNode.decisionStep at went
  split at went
  · cases went
  · cases went
  · unfold FlowNode.getNextNode at went
    cases named : step.getString (if answer.holds then "yes_branch" else "no_branch") with
    | some next =>
      simp only [named] at went
      cases went
      rfl
    | none =>
      simp only [named] at went
      cases went

theorem goesOn_of_agentDecisionStep {step : FlowNode} {answer : Answer} {target : String}
    (went : step.agentDecisionStep answer = .ok (.goesOn target)) :
    target = (step.routed answer).getD
      ((step.getString "default_branch").getD step.propertyNext) := by
  unfold FlowNode.agentDecisionStep at went
  split at went
  · cases went
  · split at went
    · cases went
    · split at went
      · cases went
      · cases went
        rfl

theorem goesOn_of_loopStep {step : FlowNode} {answer : Answer} {target : String}
    (went : step.loopStep answer = .ok (.goesOn target)) :
    target = if answer.holds then step.bodyStep else step.handlerNext := by
  unfold FlowNode.loopStep at went
  split at went
  · cases went
  · cases went
    rfl

theorem settled_startNode (valid : flow.validate = .ok ()) {step : FlowNode}
    (mem : step ∈ allNodes flow.nodes) {next : String}
    (went : flow.startNode step = .ok (.goesOn next)) :
    Settled flow (if step.nextNode.isSome then none else flow.nextNodeId step.id) next := by
  unfold startNode at went
  cases named : step.nextNode with
  | some target =>
    rw [named] at went
    cases went
    exact .inr ⟨rfl, found_of_nextNode valid mem named⟩
  | none =>
    rw [named, Option.none_or] at went
    cases edge : flow.nextNodeId step.id with
    | some target =>
      rw [edge] at went
      cases went
      exact .inl rfl
    | none =>
      rw [edge] at went
      cases went

theorem settled_handlerNext (valid : flow.validate = .ok ()) {step : FlowNode}
    (mem : step ∈ allNodes flow.nodes) : Settled flow (step.looseNext none) step.handlerNext := by
  have settled := settled_looseNext valid mem none
  rwa [Option.or_none] at settled

theorem settled_workStep {next target : String} {answer : Answer} {loose : Option String}
    (went : FlowNode.workStep next answer = .ok (.goesOn target))
    (settled : Settled flow loose next) : Settled flow loose target :=
  goesOn_of_workStep went ▸ settled

theorem settled_loopStep (valid : flow.validate = .ok ()) {step : FlowNode}
    (mem : step ∈ allNodes flow.nodes) {answer : Answer} {next : String}
    (went : step.loopStep answer = .ok (.goesOn next)) :
    Settled flow (if answer.holds then step.getString "body_step" else step.looseNext none)
      next := by
  rw [goesOn_of_loopStep went]
  cases answer.holds with
  | true => exact settled_bodyStep mem
  | false => exact settled_handlerNext valid mem

/-- A step goes on to what was looked at or to its loose successor. -/
theorem settled_executeStepInner (valid : flow.validate = .ok ()) {step : FlowNode}
    (mem : step ∈ allNodes flow.nodes) {answer : Answer} {next : String}
    (went : flow.executeStepInner step answer = .ok (.goesOn next)) :
    Settled flow (flow.looseSuccessor step answer) next := by
  unfold executeStepInner at went
  unfold looseSuccessor
  by_cases disabled : step.isDisabled = true
  · rw [if_pos disabled] at went
    cases went
    rw [if_pos (by simp [disabled])]
    exact settled_looseNext valid mem (flow.nextNodeId step.id)
  rw [if_neg disabled] at went
  by_cases mocked : (answer.mocked && step.isMockable) = true
  · rw [if_pos mocked] at went
    cases went
    rw [if_pos (by simp [mocked])]
    exact settled_looseNext valid mem (flow.nextNodeId step.id)
  rw [if_neg mocked] at went
  rw [if_neg (by simpa [disabled] using mocked)]
  have byProperty := settled_looseNext valid mem (step.getString "next_node")
  cases kind : step.stepType <;> simp only [kind] at went
  case startStep => exact settled_startNode valid mem went
  case endStep => cases went
  case decision => exact settled_getString valid mem (named_of_decisionStep went)
  case agentDecision =>
      rw [goesOn_of_agentDecisionStep went]
      exact settled_routed valid mem answer
  case loop => exact settled_loopStep valid mem went
  case agentStep => exact settled_workStep went byProperty
  case aiContainer => exact settled_workStep went byProperty
  case competition => exact settled_workStep went byProperty
  case functionStep => exact settled_workStep went (settled_handlerNext valid mem)
  case humanTask => exact settled_workStep went (settled_handlerNext valid mem)
  case chat => exact settled_workStep went (settled_handlerNext valid mem)
  case subFlow => exact settled_workStep went (settled_handlerNext valid mem)
  case wait => exact settled_workStep went (settled_handlerNext valid mem)
  case parallel => exact settled_workStep went (settled_handlerNext valid mem)
  case join =>
      cases went
      exact settled_edgeNext step
  case container =>
      cases went
      exact settled_edgeNext step
  case custom =>
      cases went
      exact settled_edgeNext step

theorem settled_executeStep (valid : flow.validate = .ok ()) {step : FlowNode}
    (mem : step ∈ allNodes flow.nodes) {answer : Answer} {next : String}
    (went : flow.executeStep step answer = .ok (.goesOn next)) :
    Settled flow (flow.looseSuccessor step answer) next := by
  unfold executeStep at went
  split at went
  · split at went
    · cases went
    · exact settled_executeStepInner valid mem went
  · exact settled_executeStepInner valid mem went

/-! ## One round -/

/-- What a round leaves stands at a node just when its loose successor is one. -/
def RoundSettled (flow : FlowDefinition) (loose : Option String) : Round → Prop
  | .moved next => (∀ target, loose = some target → (flow.findNode target).isSome) ↔
      (flow.findNode next.currentNodeId).isSome
  | .saved next => loose = none ∧ (flow.findNode next.currentNodeId).isSome
  | .dropped _ => loose = none

theorem Settled.iff {loose : Option String} {next : String} (settled : Settled flow loose next) :
    (∀ target, loose = some target → (flow.findNode target).isSome) ↔
      (flow.findNode next).isSome := by
  rcases settled with rfl | ⟨rfl, found⟩
  · exact ⟨fun all => all next rfl, fun found target same => Option.some.inj same ▸ found⟩
  · exact ⟨fun _ => found, fun _ target same => nomatch same⟩

theorem settled_handleErrorResult (valid : flow.validate = .ok ()) {step : FlowNode}
    (mem : step ∈ allNodes flow.nodes) {held : FlowInstance}
    (here : (flow.findNode held.currentNodeId).isSome) :
    RoundSettled flow (flow.looseAfterError held step) (flow.handleErrorResult held step) := by
  unfold looseAfterError handleErrorResult
  by_cases retries : held.retryCount < step.getMaxRetries
  · rw [if_pos retries, if_pos (.inl retries)]
    exact ⟨rfl, here⟩
  · rw [if_neg retries]
    cases edge : step.getString "error_edge" with
    | some target =>
      rw [if_pos (.inr rfl)]
      exact Settled.iff (.inr ⟨rfl, found_of_getString valid mem (by simp) edge⟩)
    | none =>
      rw [if_neg (by simp [retries])]
      by_cases continues : step.continuesAfterError = true
      · rw [if_pos continues, if_pos continues]
        exact Settled.iff (settled_edgeNext step)
      · rw [if_neg continues, if_neg continues]
        exact ⟨rfl, here⟩

theorem settled_round (valid : flow.validate = .ok ()) {held : FlowInstance}
    (here : (flow.findNode held.currentNodeId).isSome) (answer : Answer) :
    RoundSettled flow (flow.looseTarget held answer) (flow.round held answer) := by
  obtain ⟨step, found⟩ := Option.isSome_iff_exists.mp here
  have mem := mem_of_findNode found
  unfold looseTarget round
  rw [found]
  cases answer.exhausted with
  | some error => exact ⟨rfl, here⟩
  | none =>
    dsimp only
    cases went : flow.executeStep step answer with
    | error error =>
      dsimp only
      split
      · rfl
      · exact settled_handleErrorResult valid mem here
    | ok result =>
      cases result with
      | goesOn next => exact (settled_executeStep valid mem went).iff
      | waits => exact ⟨rfl, here⟩
      | complete => exact ⟨rfl, here⟩
      | error error => exact settled_handleErrorResult valid mem here
      | sameStep =>
        dsimp only
        split
        · exact settled_handleErrorResult valid mem here
        · exact ⟨fun _ => here, fun _ target same => nomatch same⟩

/-! ## Runs -/

theorem OnGraph.endRound {system : System} (on : OnGraph flow system) {worker : Nat}
    {held : FlowInstance} (busy : system.workers[worker]? = some held) {accepted : Bool}
    {loose : Option String} {round : Round} (settled : RoundSettled flow loose round) :
    (∀ target, loose = some target → (flow.findNode target).isSome) ↔
      OnGraph flow (endRound system worker accepted round) := by
  cases round with
  | moved next =>
    refine settled.trans ⟨fun found => ⟨on.stored, ?_, on.loaded⟩, fun after => ?_⟩
    · intro other mem
      rcases mem_or_eq_of_mem_set mem with mem | rfl
      · exact on.workers other mem
      · exact found
    · have inside : worker < system.workers.length := (List.getElem?_eq_some_iff.mp busy).1
      exact after.workers next (mem_set inside next)
  | saved next =>
    refine iff_of_true (fun target same => ?_) ⟨?_, ?_, on.loaded⟩
    · rw [settled.1] at same
      cases same
    · cases accepted with
      | true => exact settled.2
      | false => exact on.stored
    · exact fun other mem => on.workers other (mem_of_mem_eraseIdx mem)
  | dropped error =>
    refine iff_of_true (fun target same => ?_) ⟨on.stored, ?_, on.loaded⟩
    · rw [show loose = none from settled] at same
      cases same
    · exact fun other mem => on.workers other (mem_of_mem_eraseIdx mem)

theorem found_handleTimeoutExpiry (valid : flow.validate = .ok ()) {held : FlowInstance}
    (here : (flow.findNode held.currentNodeId).isSome) :
    (flow.findNode (flow.handleTimeoutExpiry held).currentNodeId).isSome := by
  unfold handleTimeoutExpiry
  split
  · next target named =>
    obtain ⟨step, found, edge⟩ := Option.bind_eq_some_iff.mp named
    exact found_of_getString valid (mem_of_findNode found) (by simp) edge
  · exact here

theorem OnGraph.deliver {system : System} (on : OnGraph flow system) (copy : Nat) (accepted : Bool)
    {act : FlowInstance → FlowInstance} (keeps : ∀ held, (flow.findNode held.currentNodeId).isSome →
      (flow.findNode (act held).currentNodeId).isSome) :
    OnGraph flow (deliver system copy accepted act) := by
  unfold FlowDefinition.deliver
  split
  · exact on
  · next held there =>
    refine ⟨?_, on.workers, fun other mem => on.loaded other (mem_of_mem_eraseIdx mem)⟩
    dsimp only
    split
    · exact keeps held (on.loaded held (mem_of_getElem? there))
    · exact on.stored

theorem OnGraph.begin {system : System} (on : OnGraph flow system) :
    OnGraph flow (flow.begin system) := by
  unfold FlowDefinition.begin
  split
  · exact on
  · split
    · exact ⟨on.stored, on.workers, on.loaded⟩
    · refine ⟨on.stored, fun held mem => ?_, on.loaded⟩
      rcases mem_append.mp mem with mem | mem
      · exact on.workers held mem
      · rw [mem_singleton.mp mem]
        split
        · exact on.stored
        · exact on.stored

/-- A step from the graph stays on it just when what it goes on to without a look is a node. -/
theorem OnGraph.step (valid : flow.validate = .ok ()) {system : System}
    (on : OnGraph flow system) (event : Event) :
    flow.Wired system event ↔ OnGraph flow (flow.step system event) := by
  cases event with
  | execute => exact iff_of_true trivial on.begin
  | round worker answer accepted =>
    cases busy : system.workers[worker]? with
    | none =>
      have still : flow.step system (.round worker answer accepted) = system := by
        simp only [FlowDefinition.step, busy]
      rw [still]
      exact iff_of_true (fun held same => by rw [busy] at same; cases same) on
    | some held =>
      have next : flow.step system (.round worker answer accepted) =
          FlowDefinition.endRound system worker accepted (flow.round held answer) := by
        simp only [FlowDefinition.step, busy]
      have here := on.workers held (mem_of_getElem? busy)
      rw [next, ← on.endRound busy (settled_round valid here answer)]
      refine ⟨fun wired => wired held busy, fun all other same => ?_⟩
      rw [busy] at same
      exact Option.some.inj same ▸ all
  | lost worker =>
    exact iff_of_true trivial ⟨on.stored,
      fun held mem => on.workers held (mem_of_mem_eraseIdx mem), on.loaded⟩
  | load =>
    refine iff_of_true trivial ⟨on.stored, on.workers, fun held mem => ?_⟩
    rcases mem_append.mp mem with mem | mem
    · exact on.loaded held mem
    · rw [mem_singleton.mp mem]
      exact on.stored
  | resume copy accepted => exact iff_of_true trivial (on.deliver copy accepted fun _ here => here)
  | expire copy accepted =>
    exact iff_of_true trivial (on.deliver copy accepted fun _ here =>
      found_handleTimeoutExpiry valid here)

theorem run_append (system : System) (front rest : List Event) :
    flow.run system (front ++ rest) = flow.run (flow.run system front) rest :=
  foldl_append

/-- A run of a valid flow stays on the graph exactly when every step of it that goes on to a
successor without a look goes on to a node. -/
theorem on_graph_iff (flow : FlowDefinition) (valid : flow.validate = .ok ()) (start : FlowInstance)
    (here : (flow.findNode start.currentNodeId).isSome) (events : List Event) :
    (∀ front, front <+: events → OnGraph flow (flow.run ⟨start, [], []⟩ front)) ↔
      ∀ front event, front ++ [event] <+: events →
        flow.Wired (flow.run ⟨start, [], []⟩ front) event := by
  constructor
  · intro on front event early
    have before := on front ((prefix_append front [event]).trans early)
    refine (before.step valid event).mpr ?_
    have after := on (front ++ [event]) early
    rwa [run_append] at after
  · intro wired front
    induction front using List.reverseRecOn with
    | nil => exact fun _ => ⟨here, fun _ mem => (nomatch mem), fun _ mem => (nomatch mem)⟩
    | append_singleton front event ih =>
        intro early
        have before := ih ((prefix_append front [event]).trans early)
        rw [run_append]
        exact (before.step valid event).mp (wired front event early)

end FlowDefinition

/-! ## A loop without a body -/

/-- A loop between a start and an end, whose body is said to begin at the given step. -/
def loopFlow (body : String) : FlowDefinition where
  nodes := [⟨"start", .startStep, [], [], some "each"⟩,
    ⟨"each", .loop, [("collection", .string "input.items"), ("body_step", .string body)], [],
      some "end"⟩,
    ⟨"greet", .functionStep, [], [], some "each"⟩,
    ⟨"end", .endStep, [], [], none⟩]
  edges := []
  executionLimits := none

/-- A handler's work is done, and a loop has another item. -/
def goingOn : Answer where
  exhausted := none
  isolation := none
  mocked := false
  outcome := .done
  holds := true
  chosen := none
  confident := false
  overran := false

def freshInstance : FlowInstance := ⟨"start", .pending, 0, 0⟩

/-- The first two steps of a fresh instance. -/
def twoRounds : List Event := [.execute, .round 0 goingOn true, .round 0 goingOn true]

/-- The first steps go on to steps that are there. -/
theorem body_step_on_graph : (loopFlow "greet").validate = .ok () ∧
    ∀ front, front <+: twoRounds → FlowDefinition.OnGraph (loopFlow "greet")
      ((loopFlow "greet").run ⟨freshInstance, [], []⟩ front) := by
  refine ⟨by decide,
    ((loopFlow "greet").on_graph_iff (by decide) freshInstance (by decide) twoRounds).mpr ?_⟩
  rintro front event ⟨rest, parts⟩
  rcases front with _ | ⟨first, _ | ⟨second, _ | ⟨third, front⟩⟩⟩ <;>
    simp only [twoRounds, nil_append, cons_append, cons.injEq] at parts
  · rw [parts.1]
    trivial
  · obtain ⟨rfl, rfl, -⟩ := parts
    intro held busy target loose
    rw [← Option.some.inj (show some ⟨"start", .running, 0, 0⟩ = some held from busy)] at loose
    cases show none = some target from loose
  · obtain ⟨rfl, rfl, rfl, -⟩ := parts
    intro held busy target loose
    rw [← Option.some.inj (show some ⟨"each", .running, 0, 1⟩ = some held from busy)] at loose
    rw [← Option.some.inj (show some "greet" = some target from loose)]
    decide
  · exact absurd parts.2.2.2 (by simp)

/-- The body is said to begin at a step that is not there. -/
theorem body_step_not_found :
    (loopFlow "gone").validate = .ok () ∧
      ((loopFlow "gone").findNode freshInstance.currentNodeId).isSome ∧
      ¬ FlowDefinition.OnGraph (loopFlow "gone")
        ((loopFlow "gone").run ⟨freshInstance, [], []⟩ twoRounds) ∧
      ((loopFlow "gone").run ⟨freshInstance, [], []⟩ twoRounds).workers.map
        ((loopFlow "gone").round · goingOn) = [.dropped (.stepNotFound "gone")] := by
  have lost : ((loopFlow "gone").run ⟨freshInstance, [], []⟩ twoRounds).workers =
      [⟨"gone", .running, 0, 2⟩] := by decide
  refine ⟨by decide, by decide, fun on => ?_, ?_⟩
  · have found := on.workers ⟨"gone", .running, 0, 2⟩ (by rw [lost]; exact mem_cons_self)
    exact absurd found (by decide)
  · rw [lost]
    decide

end RaisinDB.Flows
