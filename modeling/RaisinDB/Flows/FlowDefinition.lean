import Mathlib.Algebra.Order.Group.Nat
import RaisinDB.Foundation.IndexMap
import RaisinDB.Foundation.Json

/-!
# Flow definitions

The nodes of a flow with the steps that they name as their successors, the index by which a node is
found, and the check of a definition before its first step.
-/

namespace RaisinDB.Flows

open List RaisinDB.Foundation

inductive FlowError where
  | invalidDefinition (text : String)
  | stepNotFound (id : String)
  | missingProperty (text : String)
  | maxIterationsExceeded (limit : Nat)
  | versionConflict
  | other (text : String)
  deriving DecidableEq

/-- Conflicts of writers are left to the job system. -/
def FlowError.isInfrastructural (error : FlowError) : Bool := decide (error = .versionConflict)

inductive StepType where
  | startStep
  | endStep
  | decision
  | functionStep
  | agentStep
  | aiContainer
  | humanTask
  | parallel
  | join
  | wait
  | subFlow
  | chat
  | agentDecision
  | competition
  | container
  | loop
  | custom (name : String)
  deriving DecidableEq

structure FlowNode where
  id : String
  stepType : StepType
  properties : List (String × Value)
  children : List FlowNode
  nextNode : Option String

structure FlowEdge where
  fromNode : String
  toNode : String

/-- A definition as it was parsed.  Of the custom metadata only the execution limits are kept. -/
structure FlowDefinition where
  nodes : List FlowNode
  edges : List FlowEdge
  executionLimits : Option Value

/-! ## Properties -/

def asBool : Value → Option Bool
  | .bool flag => some flag
  | _ => none

def asU64 : Value → Option Nat
  | .number text => text.toNat?.filter (· < 2 ^ 64)
  | _ => none

namespace FlowNode

def getProperty (node : FlowNode) (key : String) : Option Value := Value.lookup key node.properties

def getString (node : FlowNode) (key : String) : Option String :=
  (node.getProperty key).bind Value.asStr

def getBool (node : FlowNode) (key : String) : Option Bool := (node.getProperty key).bind asBool

def getU32 (node : FlowNode) (key : String) : Option Nat :=
  ((node.getProperty key).bind asU64).filter (· < 2 ^ 32)

end FlowNode

/-! ## Nodes at any depth -/

mutual

/-- A node and the nodes below it. -/
def nodesOf : FlowNode → List FlowNode
  | ⟨id, stepType, properties, children, nextNode⟩ =>
      ⟨id, stepType, properties, children, nextNode⟩ :: allNodes children

def allNodes : List FlowNode → List FlowNode
  | [] => []
  | node :: rest => nodesOf node ++ allNodes rest

end

theorem nodesOf_eq (node : FlowNode) : nodesOf node = node :: allNodes node.children := by
  cases node
  rfl

theorem mem_allNodes {node : FlowNode} {nodes : List FlowNode} :
    node ∈ allNodes nodes ↔
      node ∈ nodes ∨ ∃ parent ∈ nodes, node ∈ allNodes parent.children := by
  induction nodes with
  | nil => simp [allNodes]
  | cons first rest ih =>
    rw [allNodes, nodesOf_eq, cons_append, mem_cons, mem_append, ih]
    simp only [mem_cons, exists_eq_or_imp]
    tauto

theorem mem_allNodes_of_mem {node : FlowNode} {nodes : List FlowNode} (mem : node ∈ nodes) :
    node ∈ allNodes nodes := mem_allNodes.mpr (.inl mem)

mutual

theorem nodesOf_trans (node : FlowNode) {step child : FlowNode} (mem : step ∈ nodesOf node)
    (below : child ∈ allNodes step.children) : child ∈ nodesOf node := by
  obtain ⟨id, stepType, properties, children, nextNode⟩ := node
  rcases mem_cons.mp mem with rfl | mem
  · exact mem_cons_of_mem _ below
  · exact mem_cons_of_mem _ (allNodes_trans children mem below)

/-- What is below a node of the flow is in the flow. -/
theorem allNodes_trans (nodes : List FlowNode) {step child : FlowNode}
    (mem : step ∈ allNodes nodes) (below : child ∈ allNodes step.children) :
    child ∈ allNodes nodes := by
  cases nodes with
  | nil => cases mem
  | cons node rest =>
    rcases mem_append.mp mem with mem | mem
    · exact mem_append_left _ (nodesOf_trans node mem below)
    · exact mem_append_right _ (allNodes_trans rest mem below)

end

/-! ## The index -/

mutual

/-- Enter the ids of the children, unless there is an entry already. -/
def indexBelow : FlowNode → List (String × Option Nat) → List (String × Option Nat)
  | ⟨_, _, _, children, _⟩, index => indexChildren children (children.foldl (fun index child =>
      if (IndexMap.find child.id index).isSome then index
      else IndexMap.put child.id none index) index)

def indexChildren : List FlowNode → List (String × Option Nat) → List (String × Option Nat)
  | [], index => index
  | node :: rest, index => indexChildren rest (indexBelow node index)

end

def topIndex (entries : List (FlowNode × Nat)) (index : List (String × Option Nat)) :
    List (String × Option Nat) :=
  entries.foldl (fun index entry => IndexMap.put entry.1.id (some entry.2) index) index

/-- The places of the top nodes, and no place for the nodes below them. -/
def buildIndex (nodes : List FlowNode) : List (String × Option Nat) :=
  indexChildren nodes (topIndex nodes.zipIdx [])

mutual

def findBelow (id : String) : FlowNode → Option FlowNode
  | ⟨_, _, _, children, _⟩ =>
      match children.find? (fun child => child.id == id) with
      | some child => some child
      | none => findInChildren id children

/-- The first node below the nodes that has the id. -/
def findInChildren (id : String) : List FlowNode → Option FlowNode
  | [] => none
  | node :: rest =>
      match findBelow id node with
      | some found => some found
      | none => findInChildren id rest

end

namespace FlowDefinition

variable (flow : FlowDefinition)

def findNode (id : String) : Option FlowNode :=
  match IndexMap.find id (buildIndex flow.nodes) with
  | some (some place) => flow.nodes[place]?
  | some none => findInChildren id flow.nodes
  | none => none

def nextNodeId (id : String) : Option String :=
  (flow.edges.find? fun edge => edge.fromNode == id).map FlowEdge.toNode

end FlowDefinition

/-! ## Validation -/

/-- A limit is a whole number from one to its maximum. -/
def limitOf (fields : List (String × Value)) (key : String) (fallback maximum : Nat) :
    Except FlowError Nat :=
  match Value.lookup key fields with
  | none => .ok fallback
  | some value =>
      match (asU64 value).filter fun limit => 0 < limit ∧ limit ≤ maximum with
      | some limit => .ok limit
      | none => .error (.invalidDefinition
          s!"execution_limits.{key} must be an integer from 1 to {maximum}")

structure FlowExecutionLimits where
  maxStepAttempts : Nat
  maxElapsedMs : Nat

def FlowExecutionLimits.parse : Option Value → Except FlowError FlowExecutionLimits
  | none => .ok ⟨10000, 30 * 24 * 60 * 60 * 1000⟩
  | some (.object fields) =>
      match fields.find? fun field =>
        field.1 ≠ "max_step_attempts" ∧ field.1 ≠ "max_elapsed_ms" with
      | some field => .error (.invalidDefinition s!"unknown execution limit {field.1}")
      | none => do
          let attempts ← limitOf fields "max_step_attempts" 10000 1000000
          let elapsed ← limitOf fields "max_elapsed_ms" (30 * 24 * 60 * 60 * 1000)
            (365 * 24 * 60 * 60 * 1000)
          .ok ⟨attempts, elapsed⟩
  | some _ => .error (.invalidDefinition "execution_limits must be an object")

/-- The successors that are looked up before the first step, with the names of their fields. -/
def FlowNode.targets (node : FlowNode) : List (String × String) :=
  (node.nextNode.map fun next => ("next_node", next)).toList ++
    ["yes_branch", "no_branch", "error_edge", "timeout_edge", "next_step"].filterMap fun key =>
      (node.getString key).map fun target => (key, target)

def FlowDefinition.danglingTargets (flow : FlowDefinition) (node : FlowNode) : List String :=
  node.targets.filterMap fun named =>
    if (flow.findNode named.2).isNone then
      some s!"step '{node.id}' has {named.1} -> '{named.2}', which is not a node in this flow"
    else none

/-- A loop is of exactly one kind, and only one with a condition may be without a bound. -/
def FlowNode.loopProblems (node : FlowNode) : List String :=
  if node.stepType = .loop then
    let named := ["collection", "condition", "times"].filter fun key =>
      (node.getProperty key).isSome
    let names := ", ".intercalate named
    let shapes := match named.length with
      | 0 => [s!"loop '{node.id}' names none of 'over' / 'while' / 'times'"]
      | 1 => []
      | _ => [s!"loop '{node.id}' names {named.length} shapes at once ({names}); " ++
          "exactly one decides how it iterates"]
    let bounds :=
      if (node.getBool "unbounded").getD false then
        (if (node.getProperty "condition").isNone then
          [s!"loop '{node.id}' is 'unbounded' but is not a 'while' loop; " ++
            "'over' is bounded by its collection and 'times' by its count"] else []) ++
        (if (node.getProperty "max_iterations").isSome then
          [s!"loop '{node.id}' is both 'unbounded' and capped by 'max_iterations'; pick one"]
          else [])
      else []
    shapes ++ bounds
  else []

def FlowDefinition.nodeProblems (flow : FlowDefinition) (node : FlowNode) : List String :=
  flow.danglingTargets node ++ node.loopProblems

mutual

def FlowDefinition.check (flow : FlowDefinition) : FlowNode → List String
  | ⟨id, stepType, properties, children, nextNode⟩ =>
      flow.nodeProblems ⟨id, stepType, properties, children, nextNode⟩ ++ flow.checkAll children

def FlowDefinition.checkAll (flow : FlowDefinition) : List FlowNode → List String
  | [] => []
  | node :: rest => flow.check node ++ flow.checkAll rest

end

mutual

/-- The ids that were seen and what is said about those that were seen again. -/
def checkId : FlowNode → List String × List String → List String × List String
  | ⟨id, _, _, children, _⟩, (seen, problems) =>
      checkIds children (if id ∈ seen then (seen, problems ++ [s!"duplicate step id '{id}'"])
        else (id :: seen, problems))

def checkIds : List FlowNode → List String × List String → List String × List String
  | [], state => state
  | node :: rest, state => checkIds rest (checkId node state)

end

/-- Every successor that a node names in a field that is looked at is a node, every loop has one
kind, and no id is used twice. -/
def FlowDefinition.validate (flow : FlowDefinition) : Except FlowError Unit :=
  match FlowExecutionLimits.parse flow.executionLimits with
  | .error error => .error error
  | .ok _ =>
      if flow.nodes.isEmpty then .error (.invalidDefinition "flow has no nodes")
      else
        let problems := (checkIds flow.nodes ([], flow.checkAll flow.nodes)).2
        if problems.isEmpty then .ok ()
        else .error (.invalidDefinition ("; ".intercalate problems))

/-! ## What the index holds -/

theorem find_put {key : String} {value : Option Nat} (name : String)
    (index : List (String × Option Nat)) : IndexMap.find name (IndexMap.put key value index) =
      if key = name then some value else IndexMap.find name index := by
  induction index with
  | nil => simp [IndexMap.put, IndexMap.find]
  | cons entry rest ih =>
    obtain ⟨other, held⟩ := entry
    by_cases here : other = key
    · simp only [IndexMap.put, here, if_true, IndexMap.find]
      split <;> rfl
    · simp only [IndexMap.put, if_neg here, IndexMap.find, ih]
      by_cases same : other = name
      · have apart : key ≠ name := fun eq => here (same.trans eq.symm)
        simp [same, apart]
      · simp [same]

/-- An index with entries for these ids more, none of which is a place. -/
structure Enters (ids : List String) (index index' : List (String × Option Nat)) : Prop where
  places : ∀ id place, IndexMap.find id index' = some (some place) →
    IndexMap.find id index = some (some place)
  below : ∀ id, IndexMap.find id index' = some none → IndexMap.find id index = some none ∨ id ∈ ids
  kept : ∀ id, (IndexMap.find id index).isSome → (IndexMap.find id index').isSome
  entered : ∀ id ∈ ids, (IndexMap.find id index').isSome

namespace Enters

variable {ids ids' : List String} {index index' index'' : List (String × Option Nat)}

theorem refl (index : List (String × Option Nat)) : Enters [] index index :=
  ⟨fun _ _ found => found, fun _ found => .inl found, fun _ found => found,
    fun _ mem => nomatch mem⟩

theorem trans (first : Enters ids index index') (second : Enters ids' index' index'') :
    Enters (ids ++ ids') index index'' where
  places id place found := first.places id place (second.places id place found)
  below id found := by
    rcases second.below id found with found | mem
    · exact (first.below id found).imp_right (mem_append_left ids')
    · exact .inr (mem_append_right ids mem)
  kept id found := second.kept id (first.kept id found)
  entered id mem := by
    rcases mem_append.mp mem with mem | mem
    · exact second.kept id (first.entered id mem)
    · exact second.entered id mem

theorem child (id : String) (index : List (String × Option Nat)) :
    Enters [id] index (if (IndexMap.find id index).isSome then index
      else IndexMap.put id none index) := by
  split
  · next held => exact ⟨fun _ _ found => found, fun _ found => .inl found, fun _ found => found,
      fun other mem => mem_singleton.mp mem ▸ held⟩
  · next fresh =>
    refine ⟨fun other place found => ?_, fun other found => ?_, fun other held => ?_, ?_⟩
    · rw [find_put] at found
      split at found
      · cases found
      · exact found
    · rw [find_put] at found
      split at found
      · next same => exact .inr (mem_singleton.mpr same.symm)
      · exact .inl found
    · rw [find_put]
      split
      · rfl
      · exact held
    · intro other mem
      rw [find_put, if_pos (mem_singleton.mp mem).symm]
      rfl

theorem children (nodes : List FlowNode) (index : List (String × Option Nat)) :
    Enters (nodes.map FlowNode.id) index (nodes.foldl (fun index child =>
      if (IndexMap.find child.id index).isSome then index
      else IndexMap.put child.id none index) index) := by
  induction nodes generalizing index with
  | nil => exact refl index
  | cons node rest ih => exact (child node.id index).trans (ih _)

end Enters

/-- The ids of the nodes below the given ones. -/
def idsBelow (nodes : List FlowNode) : List String :=
  nodes.flatMap fun node => (allNodes node.children).map FlowNode.id

theorem mem_ids_allNodes {id : String} {nodes : List FlowNode} :
    id ∈ (allNodes nodes).map FlowNode.id ↔ id ∈ nodes.map FlowNode.id ++ idsBelow nodes := by
  rw [mem_append, idsBelow, mem_flatMap]
  constructor
  · intro mem
    obtain ⟨node, inside, rfl⟩ := mem_map.mp mem
    rcases mem_allNodes.mp inside with top | ⟨parent, top, below⟩
    · exact .inl (mem_map_of_mem top)
    · exact .inr ⟨parent, top, mem_map_of_mem below⟩
  · rintro (mem | ⟨parent, top, below⟩)
    · obtain ⟨node, inside, rfl⟩ := mem_map.mp mem
      exact mem_map_of_mem (mem_allNodes_of_mem inside)
    · obtain ⟨node, inside, rfl⟩ := mem_map.mp below
      exact mem_map_of_mem (mem_allNodes.mpr (.inr ⟨parent, top, inside⟩))

theorem Enters.congr {ids ids' : List String} {index index' : List (String × Option Nat)}
    (enters : Enters ids index index') (same : ∀ id, id ∈ ids ↔ id ∈ ids') :
    Enters ids' index index' where
  places := enters.places
  below id found := (enters.below id found).imp_right (same id).mp
  kept := enters.kept
  entered id mem := enters.entered id ((same id).mpr mem)

mutual

theorem enters_indexBelow (node : FlowNode) (index : List (String × Option Nat)) :
    Enters ((allNodes node.children).map FlowNode.id) index (indexBelow node index) := by
  obtain ⟨id, stepType, properties, children, nextNode⟩ := node
  exact ((Enters.children children index).trans (enters_indexChildren children _)).congr
    fun id => mem_ids_allNodes.symm

theorem enters_indexChildren (nodes : List FlowNode) (index : List (String × Option Nat)) :
    Enters (idsBelow nodes) index (indexChildren nodes index) := by
  cases nodes with
  | nil => exact Enters.refl index
  | cons node rest =>
    exact (enters_indexBelow node index).trans (enters_indexChildren rest _)

end

/-- The index of the top nodes, entered one after the other. -/
theorem find_topIndex (entries : List (FlowNode × Nat)) (index : List (String × Option Nat))
    (id : String) :
    (∀ place, IndexMap.find id (topIndex entries index) = some (some place) →
      place ∈ entries.map Prod.snd ∨ IndexMap.find id index = some (some place)) ∧
    (IndexMap.find id (topIndex entries index) = some none → IndexMap.find id index = some none) ∧
    (id ∈ (entries.map Prod.fst).map FlowNode.id ∨ (IndexMap.find id index).isSome →
      (IndexMap.find id (topIndex entries index)).isSome) := by
  induction entries generalizing index with
  | nil => exact ⟨fun _ found => .inr found, fun found => found,
      fun held => held.resolve_left not_mem_nil⟩
  | cons entry rest ih =>
    obtain ⟨places, below, held⟩ := ih (IndexMap.put entry.1.id (some entry.2) index)
    refine ⟨fun place found => ?_, fun found => ?_, fun mem => ?_⟩
    · rcases places place found with mem | found
      · exact .inl (mem_cons_of_mem _ mem)
      · rw [find_put] at found
        split at found
        · exact .inl (Option.some.inj (Option.some.inj found) ▸ mem_cons_self)
        · exact .inr found
    · have found := below found
      rw [find_put] at found
      split at found
      · cases found
      · exact found
    · refine held ?_
      rw [find_put]
      by_cases same : entry.1.id = id
      · exact .inr (by rw [if_pos same]; rfl)
      · rw [if_neg same]
        simpa [Ne.symm same] using mem

/-! ## What a node is found by -/

mutual

theorem mem_of_findBelow {id : String} {node found : FlowNode}
    (held : findBelow id node = some found) : found ∈ allNodes node.children := by
  obtain ⟨name, stepType, properties, children, nextNode⟩ := node
  rw [findBelow] at held
  cases direct : children.find? (fun child => child.id == id) with
  | some child =>
    rw [direct] at held
    cases held
    exact mem_allNodes_of_mem (mem_of_find?_eq_some direct)
  | none =>
    rw [direct] at held
    obtain ⟨parent, top, mem⟩ := mem_of_findInChildren held
    exact mem_allNodes.mpr (.inr ⟨parent, top, mem⟩)

theorem mem_of_findInChildren {id : String} {nodes : List FlowNode} {found : FlowNode}
    (held : findInChildren id nodes = some found) :
    ∃ parent ∈ nodes, found ∈ allNodes parent.children := by
  cases nodes with
  | nil => cases held
  | cons node rest =>
    rw [findInChildren] at held
    cases below : findBelow id node with
    | some child =>
      rw [below] at held
      cases held
      exact ⟨node, mem_cons_self, mem_of_findBelow below⟩
    | none =>
      rw [below] at held
      obtain ⟨parent, top, mem⟩ := mem_of_findInChildren held
      exact ⟨parent, mem_cons_of_mem node top, mem⟩

end

mutual

theorem findBelow_of_mem {id : String} (node : FlowNode)
    (mem : id ∈ (allNodes node.children).map FlowNode.id) : (findBelow id node).isSome := by
  obtain ⟨name, stepType, properties, children, nextNode⟩ := node
  rw [findBelow]
  cases direct : children.find? (fun child => child.id == id) with
  | some child => rfl
  | none =>
    refine findInChildren_of_mem children ?_
    rcases mem_append.mp (mem_ids_allNodes.mp mem) with top | below
    · obtain ⟨child, inside, same⟩ := mem_map.mp top
      exact absurd (beq_iff_eq.mpr same) (find?_eq_none.mp direct child inside)
    · exact below

theorem findInChildren_of_mem {id : String} (nodes : List FlowNode) (mem : id ∈ idsBelow nodes) :
    (findInChildren id nodes).isSome := by
  cases nodes with
  | nil => cases mem
  | cons node rest =>
    rw [findInChildren]
    cases below : findBelow id node with
    | some child => rfl
    | none =>
      refine findInChildren_of_mem rest ?_
      rcases mem_append.mp mem with here | later
      · exact absurd (findBelow_of_mem node here) (by simp [below])
      · exact later

end

namespace FlowDefinition

variable {flow : FlowDefinition}

theorem mem_of_findNode {id : String} {node : FlowNode} (found : flow.findNode id = some node) :
    node ∈ allNodes flow.nodes := by
  unfold findNode at found
  split at found
  · exact mem_allNodes_of_mem (mem_of_getElem? found)
  · obtain ⟨parent, top, mem⟩ := mem_of_findInChildren found
    exact mem_allNodes.mpr (.inr ⟨parent, top, mem⟩)
  · cases found

/-- A node at any depth is found by its id. -/
theorem findNode_of_mem {node : FlowNode} (mem : node ∈ allNodes flow.nodes) :
    (flow.findNode node.id).isSome := by
  obtain ⟨places, below, held⟩ := find_topIndex flow.nodes.zipIdx [] node.id
  have enters := enters_indexChildren flow.nodes (topIndex flow.nodes.zipIdx [])
  have entered : (IndexMap.find node.id (buildIndex flow.nodes)).isSome := by
    rcases mem_append.mp (mem_ids_allNodes.mp (mem_map_of_mem mem)) with top | lower
    · refine enters.kept _ (held (.inl ?_))
      rw [zipIdx_map_fst]
      exact top
    · exact enters.entered _ lower
  unfold findNode
  split
  · next place found =>
    rcases places place (enters.places _ _ found) with inside | old
    · obtain ⟨entry, listed, rfl⟩ := mem_map.mp inside
      have short := snd_lt_of_mem_zipIdx listed
      rw [getElem?_eq_getElem (by omega)]
      rfl
    · cases old
  · next found =>
    rcases enters.below _ found with early | lower
    · cases below early
    · exact findInChildren_of_mem flow.nodes lower
  · next absent =>
    rw [absent] at entered
    cases entered

/-! ## What a valid definition promises -/

end FlowDefinition

mutual

theorem le_checkId (node : FlowNode) (state : List String × List String) :
    state.2 <+: (checkId node state).2 := by
  obtain ⟨id, stepType, properties, children, nextNode⟩ := node
  refine IsPrefix.trans ?_ (le_checkIds children _)
  split
  · exact prefix_append _ _
  · exact prefix_rfl

theorem le_checkIds (nodes : List FlowNode) (state : List String × List String) :
    state.2 <+: (checkIds nodes state).2 := by
  cases nodes with
  | nil => exact prefix_rfl
  | cons node rest => exact (le_checkId node state).trans (le_checkIds rest _)

end

mutual

theorem checked_of_check {flow : FlowDefinition} (node : FlowNode) (none : flow.check node = []) :
    ∀ inner ∈ nodesOf node, flow.nodeProblems inner = [] := by
  obtain ⟨id, stepType, properties, children, nextNode⟩ := node
  obtain ⟨here, below⟩ := append_eq_nil_iff.mp none
  intro inner mem
  rcases mem_cons.mp mem with rfl | mem
  · exact here
  · exact checked_of_checkAll children below inner mem

theorem checked_of_checkAll {flow : FlowDefinition} (nodes : List FlowNode)
    (none : flow.checkAll nodes = []) : ∀ inner ∈ allNodes nodes, flow.nodeProblems inner = [] := by
  cases nodes with
  | nil => exact fun _ mem => nomatch mem
  | cons node rest =>
    obtain ⟨here, later⟩ := append_eq_nil_iff.mp none
    intro inner mem
    rcases mem_append.mp mem with mem | mem
    · exact checked_of_check node here inner mem
    · exact checked_of_checkAll rest later inner mem

end

namespace FlowDefinition

variable {flow : FlowDefinition}

theorem nodeProblems_of_valid (valid : flow.validate = .ok ()) {node : FlowNode}
    (mem : node ∈ allNodes flow.nodes) : flow.nodeProblems node = [] := by
  have problems : (checkIds flow.nodes ([], flow.checkAll flow.nodes)).2 = [] := by
    unfold validate at valid
    split at valid
    · cases valid
    · split at valid
      · cases valid
      · dsimp only at valid
        split at valid
        · next none => exact isEmpty_iff.mp none
        · cases valid
  have fewer := le_checkIds flow.nodes ([], flow.checkAll flow.nodes)
  rw [problems] at fewer
  exact checked_of_checkAll flow.nodes (prefix_nil.mp fewer) node mem

/-- A successor that is looked at is a node of the flow. -/
theorem found_of_target (valid : flow.validate = .ok ()) {node : FlowNode}
    (mem : node ∈ allNodes flow.nodes) {key target : String}
    (named : (key, target) ∈ node.targets) : (flow.findNode target).isSome := by
  have none : flow.danglingTargets node = [] :=
    (append_eq_nil_iff.mp (nodeProblems_of_valid valid mem)).1
  by_contra dangling
  have absent : (flow.findNode target).isNone = true := by simpa using dangling
  have problem := filterMap_eq_nil_iff.mp none (key, target) named
  rw [if_pos (show (flow.findNode (key, target).2).isNone = true from absent)] at problem
  cases problem

theorem found_of_nextNode (valid : flow.validate = .ok ()) {node : FlowNode}
    (mem : node ∈ allNodes flow.nodes) {target : String} (next : node.nextNode = some target) :
    (flow.findNode target).isSome := by
  have named : ("next_node", target) ∈ node.targets := by
    refine mem_append_left _ ?_
    rw [next]
    exact mem_cons_self
  exact found_of_target valid mem named

theorem found_of_getString (valid : flow.validate = .ok ()) {node : FlowNode}
    (mem : node ∈ allNodes flow.nodes) {key target : String}
    (looked : key ∈ ["yes_branch", "no_branch", "error_edge", "timeout_edge", "next_step"])
    (named : node.getString key = some target) : (flow.findNode target).isSome := by
  have listed : (key, target) ∈ node.targets :=
    mem_append_right _ (mem_filterMap.mpr ⟨key, looked, by rw [named]; rfl⟩)
  exact found_of_target valid mem listed

end FlowDefinition

end RaisinDB.Flows
