import RaisinDB.Agents.Controls
import RaisinDB.Foundation.SeparatedPaths

/-!
# Parents and children

A parent admits a child with a part of its budgets and of its rights.  When the child has
ended, its hand-back lands in the parent's mailbox; until then a child may post messages
there.  The parent acknowledges what it has read.
-/

namespace RaisinDB.Agents

open List
open RaisinDB.Foundation (Value trimEnd)

/-! ## Admission -/

structure SpawnChild where
  objective : ChildObjective
  budgets : RunBudgets
  onExceeded : Option BudgetPolicy
  spawnKey : Option String
  subject : Option SubjectRef
  asAgent : Option String
  agentRef : Option String
  input : Value
  executorConfig : Option Value
  reducer : Option ReducerRef

/-- Everything the child is created from. -/
structure ChildPlan where
  runId : RunId
  parentRunId : RunId
  rootRunId : RunId
  depth : Nat
  subject : SubjectRef
  principal : Principal
  agentRef : Option String
  budgets : RunBudgets
  context : Value
  input : Value
  reducer : Option ReducerRef
  executorConfig : Option Value
  delegation : Delegation
  createKey : String

/-- The part of a budget that is lent: what was asked for, as far as it is spare. -/
def carve (which : String) (requested spare : Option Nat) (halve : Bool) :
    Except TransitionRefusal (Option Nat) :=
  match spare with
  | none => .ok requested
  | some 0 =>
      refusal ("child_budget_exceeded:" ++ which) ("the parent has no " ++ which ++ " left to lend")
  | some spare =>
      .ok (some
        (match requested with
        | some requested => min requested spare
        | none => if halve then (spare + 1) / 2 else spare))

def childBudgets (parent : AgentRunRecord) (req : SpawnChild) (spare : Spare) :
    Except TransitionRefusal RunBudgets := do
  let operations ← carve "max_operations" req.budgets.maxOperations spare.operations true
  let modelCalls ← carve "max_model_calls" req.budgets.maxModelCalls spare.modelCalls true
  let tokens ← carve "max_total_tokens" req.budgets.maxTotalTokens spare.tokens true
  let wallMs ← carve "max_wall_ms" req.budgets.maxWallMs spare.wallMs false
  return {
    maxTurns := req.budgets.maxTurns
    maxOperations := operations
    maxModelCalls := modelCalls
    maxTotalTokens := tokens
    maxWallMs := wallMs
    maxConsecutiveOpFailures :=
      req.budgets.maxConsecutiveOpFailures <|> parent.budgets.maxConsecutiveOpFailures
    maxChildren := req.budgets.maxChildren
    maxLiveChildren := req.budgets.maxLiveChildren
    maxDepth := parent.budgets.maxDepth
    onExceeded := req.onExceeded.getD .fail }

/-- What the parent is not limited on is not reserved. -/
def reservation (parent : AgentRunRecord) (child : RunBudgets) : RunBudgets where
  maxOperations := parent.budgets.maxOperations.bind fun _ => child.maxOperations
  maxModelCalls := parent.budgets.maxModelCalls.bind fun _ => child.maxModelCalls
  maxTotalTokens := parent.budgets.maxTotalTokens.bind fun _ => child.maxTotalTokens

def strOf (key : String) (value : Value) : Option String := (value.get key).bind Value.asStr

/-- Whether a write root lies in another, as the two are written. -/
def within (child parent : Value) : Bool :=
  if strOf "workspace" child ≠ strOf "workspace" parent then false
  else
    let childPath := ((strOf "path" child).getD "/").toList
    let parentPath := trimEnd '/' ((strOf "path" parent).getD "/").toList
    let pathOk :=
      parentPath.isEmpty || childPath == parentPath ||
        List.isPrefixOf (parentPath ++ ['/']) childPath
    let opsOk :=
      match child.get "ops", parent.get "ops" with
      | _, none => true
      | none, some _ => true
      | some (.array childOps), some (.array parentOps) => childOps.all (parentOps.contains ·)
      | _, _ => false
    pathOk && opsOk

/-- A root that names no operations takes those of the parent's root. -/
def inheritOps (root parent : Value) : Value :=
  if (root.get "ops").isNone then
    match root, parent.get "ops" with
    | .object fields, some ops => .object (Value.insertField "ops" ops fields)
    | _, _ => root
  else root

def narrowRoot (parentRoots : Option (List Value)) (root : Value) :
    Except TransitionRefusal Value :=
  if (strOf "workspace" root).getD "" = "" then
    refusal "invalid_write_scope" "every write root needs a workspace"
  else
    match parentRoots with
    | none => .ok root
    | some parents =>
        match parents.find? (within root ·) with
        | none =>
            refusal "write_scope_not_within_parent"
              ("write root " ++ String.ofList root.chars ++ " is outside the parent's grant")
        | some parent => .ok (inheritOps root parent)

def narrowRoots (parentRoots : Option (List Value)) (requested : List Value) :
    Except TransitionRefusal (List Value) :=
  requested.mapM (narrowRoot parentRoots)

/-- The write roots that a configuration grants. -/
def grantedRoots (config : Option Value) : Option (List Value) :=
  ((config.bind (Value.get "node_dev")).bind (Value.get "roots")).bind Value.asArray

def objectFields : Option Value → List (String × Value)
  | some (.object fields) => fields
  | _ => []

/-- The request may set every key but `node_dev`. -/
def overlay (fields extra : List (String × Value)) : List (String × Value) :=
  extra.foldl
    (fun fields field =>
      if field.1 = "node_dev" then fields else Value.insertField field.1 field.2 fields)
    fields

def setRoots (fields : List (String × Value)) (roots : List Value) : List (String × Value) :=
  let nodeDev := match Value.lookup "node_dev" fields with
    | some (.object inner) => .object (Value.insertField "roots" (.array roots) inner)
    | some _ => .object [("roots", .array roots)]
    | none => .object [("roots", .array roots)]
  Value.insertField "node_dev" nodeDev fields

def executorConfig (parent : AgentRunRecord) (req : SpawnChild) :
    Except TransitionRefusal (Option Value) := do
  let merged := overlay (objectFields parent.executorConfig) (objectFields req.executorConfig)
  let granted ← match req.objective.allowedWrites with
    | none => pure merged
    | some requested => do
        let roots ← narrowRoots (grantedRoots parent.executorConfig) requested
        pure (setRoots merged roots)
  let fields :=
    if req.objective.allowedTools = [] then granted
    else
      Value.insertField "allowed_tools" (.array (req.objective.allowedTools.map Value.string))
        granted
  return if fields = [] then none else some (.object fields)

def bounded (value : Value) (what : String) : Except TransitionRefusal Unit :=
  if maxInlineBytes < value.toVec.size then
    refusal "context_too_large" (what ++ " exceeds " ++ maxInlineBytes.repr ++ " bytes")
  else .ok ()

/-- The checkpoint a snapshot refers to; one is written now when none is named. -/
def namedCheckpoint (tx : Tx) : Option UInt32 → Except TransitionRefusal (Tx × UInt32)
  | some number =>
      if 1 ≤ number ∧ number ≤ tx.record.counters.checkpoint then .ok (tx, number)
      else refusal "unknown_checkpoint" ("parent has no checkpoint " ++ number.toNat.repr)
  | none =>
      let written := tx.writeCheckpoint .delegation none
      .ok (written, written.record.counters.checkpoint)

def snapshotValue (record : AgentRunRecord) (number : UInt32) (data : Option Value) : Value :=
  .object
    [("mode", .string "snapshot"), ("parent_run_id", .string record.runId),
      ("checkpoint_no", .number number.toNat.repr),
      ("domain_state_rev",
        (record.domain.map fun binding => Value.number binding.stateRev.repr).getD .null),
      ("data", data.getD .null)]

/-- What the child is told of its parent. -/
def selectContext (tx : Tx) : ContextSelection → Except TransitionRefusal (Tx × Value)
  | .none => .ok (tx, .object [("mode", .string "none")])
  | .recentTurns turns items =>
      let cap := min turns maxContextItems
      let value := Value.object
        [("mode", .string "recent_turns"), ("turns", .number turns.repr), ("items", .array items)]
      if cap < items.length then
        refusal "context_too_large"
          ("recent_turns carries " ++ items.length.repr ++ " items, bound is " ++ cap.repr)
      else do
        bounded value "recent_turns context"
        return (tx, value)
  | .snapshot checkpointNo data => do
      let named ← namedCheckpoint tx checkpointNo
      let value := snapshotValue named.1.record named.2 data
      bounded value "snapshot context"
      return (named.1, value)

/-- The stored objective keeps only how the context was selected. -/
def storedContext (tx : Tx) : ContextSelection → ContextSelection
  | .recentTurns turns _ => .recentTurns turns []
  | .snapshot checkpointNo _ =>
      .snapshot (some (checkpointNo.getD tx.record.counters.checkpoint)) none
  | .none => .none

/-- The characters Rust takes for white space. -/
def isWhiteSpace (char : Char) : Bool :=
  let code := char.toNat
  (9 ≤ code && code ≤ 13) || (0x2000 ≤ code && code ≤ 0x200a) ||
    [32, 0x85, 0xa0, 0x1680, 0x2028, 0x2029, 0x202f, 0x205f, 0x3000].contains code

/-- May this parent have another child? -/
def admitChild (parent : AgentRunRecord) (req : SpawnChild) : Except TransitionRefusal Unit :=
  let spawned := parent.children.length
  let live := (parent.children.filter ChildLink.isLive).length
  let depth := parent.depth + 1
  if parent.state.isTerminal ∨ parent.state.status = .cancelling then
    refusal "parent_not_live" ("parent is " ++ parent.state.status.asStr)
  else if req.objective.title.toList.all isWhiteSpace then
    refusal "invalid_objective" "an objective needs a title"
  else if maxChildrenPerRun ≤ spawned ∨ parent.budgets.maxChildren.any (· ≤ spawned) then
    refusal "child_budget_exceeded:max_children" "no more children may be spawned"
  else if parent.budgets.maxLiveChildren.any (· ≤ live) then
    refusal "child_budget_exceeded:max_live_children" "too many live children"
  else if min (parent.budgets.maxDepth.getD maxDepth) maxDepth < depth then
    refusal "max_depth" ("a child at depth " ++ depth.repr ++ " is too deep")
  else .ok ()

def childPrincipal (parent : AgentRunRecord) (req : SpawnChild) : Principal :=
  let user :=
    if parent.principal.kind = .user then some parent.principal.id
    else parent.principal.onBehalfOf
  match req.asAgent with
  | some agent => ⟨.agent, agent, user⟩
  | none => parent.principal

def childPlan (tx : Tx) (parent : AgentRunRecord) (req : SpawnChild) (childId : RunId)
    (budgets : RunBudgets) (config : Option Value) (context : Value) : ChildPlan where
  runId := childId
  parentRunId := parent.runId
  rootRunId := parent.rootRunId.getD parent.runId
  depth := parent.depth + 1
  subject := req.subject.getD
    { workspace := parent.subject.workspace
      path := parent.subject.path ++ "#child-" ++ tx.record.counters.child.repr
      nodeId := none }
  principal := childPrincipal parent req
  agentRef := req.agentRef <|> parent.agentRef
  budgets := budgets
  context := context
  input := req.input
  reducer := req.reducer
  executorConfig := config
  delegation :=
    { objective := { req.objective with context := storedContext tx req.objective.context }
      childNo := tx.record.counters.child
      spawnKey := req.spawnKey
      handbackDelivered := false }
  createKey := "child:" ++ parent.runId ++ ":" ++ tx.record.counters.child.repr

def linkChild (tx : Tx) (parent : AgentRunRecord) (req : SpawnChild) (childId : RunId)
    (budgets : RunBudgets) : Tx :=
  let reserved := reservation parent budgets
  let number := tx.record.counters.child
  let spawned := tx.push
    (.childSpawned childId number req.objective.title reserved (parent.depth + 1))
  { spawned with
    record :=
      { spawned.record with
        children := spawned.record.children ++
          [{ childNo := number
             runId := childId
             title := req.objective.title
             spawnKey := req.spawnKey
             status := .queued
             reserved := reserved
             delivered := false
             resultKey := none
             usage := none }] } }

def countChild (tx : Tx) : Tx :=
  { tx with
    record :=
      { tx.record with
        counters := { tx.record.counters with child := tx.record.counters.child + 1 } } }

/-- Admit a child: the link with what it is lent, and the plan it is created from. -/
def applySpawn (parent : AgentRunRecord) (req : SpawnChild) (childId : RunId) (now : Nat) :
    Except TransitionRefusal (Transition × ChildPlan) := do
  admitChild parent req
  let budgets ← childBudgets parent req (spare parent now)
  let config ← executorConfig parent req
  let selected ← selectContext (Tx.new parent now) req.objective.context
  let counted := countChild selected.1
  let plan := childPlan counted parent req childId budgets config selected.2
  return ((linkChild counted parent req childId budgets).finish, plan)

/-- The run a plan describes. -/
def materialize (plan : ChildPlan) (scope : RunScope) (now : Nat) : AgentRunRecord :=
  { newRecord
      { scope := scope
        subject := plan.subject
        principal := plan.principal
        controlCapabilityHash := none
        agentRef := plan.agentRef
        createKey := some plan.createKey
        budgets := plan.budgets
        input := plan.input
        reducer := plan.reducer
        executorConfig := plan.executorConfig
        waiter := none }
      plan.runId now with
    parentRunId := some plan.parentRunId
    rootRunId := some plan.rootRunId
    depth := plan.depth
    delegation := some plan.delegation }

/-! ## The hand-back -/

structure Handback where
  envelope : Value
  status : RunStatus
  outcomeKind : String
  satisfied : Bool

def missingFields (objective : ChildObjective) (detail : Value) : List Value :=
  (objective.requiredFields.filter fun field =>
    (detail.get field).all Value.isNull).map fun field =>
      .object [("code", .string "missing_field"), ("field", .string field)]

/-- The list an outcome carries under a key. -/
def listOf (detail : Value) (key : String) : List Value :=
  ((detail.get key).bind Value.asArray).getD []

def artifactFound (artifact : ExpectedArtifact) (got : Value) : Bool :=
  strOf "kind" got == some artifact.kind &&
    artifact.locator.all fun locator =>
      got.get "locator" == some locator || got.get "path" == locator.get "path"

def missingArtifacts (objective : ChildObjective) (detail : Value) : List Value :=
  ((objective.expectedArtifacts.zipIdx.filter fun expected =>
      expected.1.required && !(listOf detail "artifacts").any (artifactFound expected.1)).map
    fun expected =>
      .object
        [("code", .string "missing_artifact"), ("index", .number expected.2.repr),
          ("kind", .string expected.1.kind)])

def checkPassed (check : AcceptanceCheck) (got : Value) : Bool :=
  strOf "id" got == some check.id && got.get "passed" == some (.bool true)

def failedChecks (objective : ChildObjective) (detail : Value) : List Value :=
  (objective.acceptanceChecks.filter fun check =>
    check.required && !(listOf detail "checks").any (checkPassed check)).map fun check =>
      .object [("code", .string "check_not_passed"), ("check", .string check.id)]

def contractViolations (child : AgentRunRecord) (outcome : RunOutcome) : List Value :=
  match child.delegation with
  | none => []
  | some delegation =>
      let detail := outcome.detail.getD .null
      missingFields delegation.objective detail ++ missingArtifacts delegation.objective detail ++
        failedChecks delegation.objective detail

def usageValue (usage : RunUsage) : Value :=
  .object
    [("turns", .number usage.turns.repr), ("operations", .number usage.operations.repr),
      ("model_calls", .number usage.modelCalls.repr), ("tool_calls", .number usage.toolCalls.repr),
      ("input_tokens", .number usage.inputTokens.repr),
      ("output_tokens", .number usage.outputTokens.repr),
      ("consecutive_op_failures", .number usage.consecutiveOpFailures.repr),
      ("child_input_tokens", .number usage.childInputTokens.repr),
      ("child_output_tokens", .number usage.childOutputTokens.repr),
      ("child_operations", .number usage.childOperations.repr),
      ("child_model_calls", .number usage.childModelCalls.repr),
      ("child_tool_calls", .number usage.childToolCalls.repr),
      ("children_completed", .number usage.childrenCompleted.repr)]

def outcomeValue (outcome : RunOutcome) : Value :=
  .object
    (("kind", .string outcome.kind) ::
      ((outcome.code.map fun code => ("code", Value.string code)).toList ++
        (outcome.message.map fun message => ("message", Value.string message)).toList ++
        (outcome.detail.map fun detail => ("detail", detail)).toList))

def violationDiagnostic (violation : Value) : Value :=
  .object
    [("code", .string ("handback_" ++ (strOf "code" violation).getD "violation")),
      ("severity", .string "error"), ("message", .string (String.ofList violation.chars))]

def endDiagnostic (status : RunStatus) (outcome : RunOutcome) : Value :=
  .object
    [("code", .string (outcome.code.getD ("child_" ++ status.asStr))),
      ("severity", .string "error"),
      ("message", .string (outcome.message.getD ("child run " ++ status.asStr)))]

/-- The hand-back of a child that has ended. -/
def buildHandback (child : AgentRunRecord) : Option Handback :=
  match child.state with
  | .terminal ended outcome =>
      let status := ended.status
      let completed := decide (status = .completed)
      let violations := if completed then contractViolations child outcome else []
      let satisfied := completed && violations.isEmpty && decide (outcome.kind ≠ "blocked")
      let toolStatus :=
        if satisfied then "succeeded" else if completed then "blocked" else "failed"
      let diagnostics :=
        violations.map violationDiagnostic ++
          (if completed then [] else [endDiagnostic status outcome])
      let payload := Value.object
        [("child_run_id", .string child.runId),
          ("child_no",
            (child.delegation.map fun delegation => Value.number delegation.childNo.repr).getD .null),
          ("title", optional (child.delegation.map fun delegation => delegation.objective.title)),
          ("status", .string status.asStr), ("outcome", outcomeValue outcome),
          ("usage", usageValue child.usage.treeTotal),
          ("contract",
            .object [("satisfied", .bool satisfied), ("violations", .array violations)])]
      some
        { envelope := .object
            [("envelope", .string "raisin.tool-result/1"),
              ("operation_id", .string (resumeKey child.runId)), ("status", .string toolStatus),
              ("diagnostics", .array diagnostics), ("payload", payload)]
          status := status
          outcomeKind := outcome.kind
          satisfied := satisfied }
  | _ => none

def handbackKey (child : RunId) : String := "handback:" ++ child

/-- A new item of the mailbox, to be delivered by the next event. -/
def pushMail (tx : Tx) (kind : MailKind) (sender : RunId) (key : String)
    (status : Option RunStatus) : Tx :=
  let number := tx.record.counters.mail + 1
  { tx with
    record :=
      { tx.record with
        counters := { tx.record.counters with mail := number }
        mailbox := tx.record.mailbox ++ [⟨number, kind, sender, tx.nextSeq, key, status⟩] } }

/-- In a full mailbox the oldest message makes room. -/
def makeRoom (mailbox : List MailboxItem) : List MailboxItem :=
  if mailboxLimit ≤ mailbox.length then mailbox.eraseP (·.kind == .message) else mailbox

def chargeChild (usage spent : RunUsage) : RunUsage :=
  { usage with
    childInputTokens := usage.childInputTokens + spent.inputTokens
    childOutputTokens := usage.childOutputTokens + spent.outputTokens
    childOperations := usage.childOperations + spent.operations
    childModelCalls := usage.childModelCalls + spent.modelCalls
    childToolCalls := usage.childToolCalls + spent.toolCalls
    childrenCompleted := usage.childrenCompleted + 1 }

def deliverLink (status : RunStatus) (key : String) (spent : RunUsage) (link : ChildLink) :
    ChildLink :=
  { link with delivered := true, status := status, resultKey := some key, usage := some spent }

/-- Change the first link of that child. -/
def updateLink (child : RunId) (change : ChildLink → ChildLink) : List ChildLink → List ChildLink
  | [] => []
  | link :: rest =>
      if link.runId = child then change link :: rest else link :: updateLink child change rest

/-- The hand-back charged, put in the mailbox and noted on the link. -/
def landed (parent child : AgentRunRecord) (link : ChildLink) (handback : Handback) (now : Nat) :
    Tx :=
  let key := handbackKey child.runId
  let spent := child.usage.treeTotal
  let stored := storeJson (Tx.new parent now) key handback.envelope
  let charged :=
    { stored with
      record :=
        { stored.record with
          usage := chargeChild stored.record.usage spent
          mailbox := makeRoom stored.record.mailbox } }
  let mailed := pushMail charged .completion child.runId key (some handback.status)
  let linked :=
    { mailed with
      record :=
        { mailed.record with
          children := updateLink child.runId (deliverLink handback.status key spent)
            mailed.record.children } }
  linked.push
    (.childHandback child.runId link.childNo handback.status handback.outcomeKind key
      linked.record.counters.mail handback.satisfied)

/-- Land the hand-back of a child, unless it has landed or the child is unknown. -/
def applyHandback (parent child : AgentRunRecord) (handback : Handback) (now : Nat) :
    Option Transition :=
  match parent.children.find? fun link => link.runId == child.runId with
  | none => none
  | some link =>
      if link.delivered then none
      else
        let tx := landed parent child link handback now
        some
          (if tx.record.state.isTerminal then tx
          else resolveChildWaits tx child.runId (handbackKey child.runId) handback.status).finish

/-- The parent has the hand-back. -/
def applyHandbackDelivered (child : AgentRunRecord) (now : Nat) : Option Transition :=
  match child.delegation, child.parentRunId with
  | some delegation, some parent =>
      if delegation.handbackDelivered then none
      else
        let tx := Tx.new child now
        let marked :=
          { tx with
            record :=
              { tx.record with delegation := some { delegation with handbackDelivered := true } } }
        some (marked.push (.handbackDelivered parent)).finish
  | _, _ => none

/-! ## Mail -/

def mailKey (sender : RunId) (messageId : String) : String :=
  "mail:" ++ sender ++ ":" ++ messageId

def applyPostToParent (parent : AgentRunRecord) (sender : RunId) (message : Value)
    (messageId : String) (now : Nat) : Except TransitionRefusal Transition :=
  if !parent.children.any fun link => link.runId == sender && link.isLive then
    refusal "not_a_live_child" "only a live child may post to its parent"
  else if maxInlineBytes < message.toVec.size then
    refusal "message_too_large" ("a message is bounded to " ++ maxInlineBytes.repr ++ " bytes")
  else if mailboxLimit ≤ parent.mailbox.length then
    refusal "mailbox_full" "the parent's mailbox is full; it must acknowledge first"
  else
    let key := mailKey sender messageId
    let stored := storeJson (Tx.new parent now) key
      (.object
        [("from_run", .string sender), ("message_id", .string messageId), ("message", message)])
    let mailed := pushMail stored .message sender key none
    .ok (mailed.push (.mailPosted mailed.record.counters.mail sender key)).finish

/-- Post a message unless its item is still in the mailbox. -/
def postToParent (parent : AgentRunRecord) (sender : RunId) (message : Value)
    (messageId : String) (now : Nat) : Except TransitionRefusal (Option Transition) :=
  if parent.mailbox.any (·.resultKey == mailKey sender messageId) then .ok none
  else (applyPostToParent parent sender message messageId now).map some

def applyAck (record : AgentRunRecord) (upTo now : Nat) : Option Transition :=
  if record.mailbox.any (·.mailNo ≤ upTo) then
    let tx := Tx.new record now
    let kept :=
      { tx with
        record := { tx.record with mailbox := tx.record.mailbox.filter (upTo < ·.mailNo) } }
    some (kept.push (.mailboxAcked upTo)).finish
  else none

/-! ## What a parent notes of its children -/

def applyChildControlled (parent : AgentRunRecord) (child : RunId) (action : String)
    (controlId : ControlId) (ack : String) (now : Nat) : Transition :=
  let tx := Tx.new parent now
  let noted :=
    { tx with
      record :=
        { tx.record with
          children := updateLink child
            (fun link =>
              if link.isLive && action == "interrupt" then { link with status := .cancelling }
              else link)
            tx.record.children } }
  (noted.push (.childControlled child action controlId ack)).finish

def applyChildStatus (parent : AgentRunRecord) (child : RunId) (status : RunStatus) (now : Nat) :
    Option Transition :=
  match parent.children.find? fun link => link.runId == child with
  | none => none
  | some link =>
      if !link.isLive ∨ link.status = status then none
      else
        let tx := Tx.new parent now
        some
          { tx with
            record :=
              { tx.record with
                children := updateLink child (fun link => { link with status := status })
                  tx.record.children } }.finish

/-- What waited for the run outside its tree has the result. -/
def applyWaiterNotified (record : AgentRunRecord) (now : Nat) : Option Transition :=
  match record.waiter with
  | none => none
  | some waiter =>
      if waiter.delivered ∨ !record.state.isTerminal then none
      else
        let tx := Tx.new record now
        let marked :=
          { tx with
            record := { tx.record with waiter := some { waiter with delivered := true } } }
        some (marked.push (.waiterNotified waiter.kind waiter.target)).finish

end RaisinDB.Agents
