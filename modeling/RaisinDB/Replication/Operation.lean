import RaisinDB.Foundation.Separator
import RaisinDB.Replication.VectorClock

/-!
# Replicated operations

An operation is one mutation with its origin, its clock and its payload.  Of the
payload records only the fields that some modelled function reads are kept: the
identifiers, the revisions and the short texts.
-/

namespace RaisinDB.Replication

open RaisinDB.Foundation

/-! ## Identifiers and revisions -/

abbrev Uuid := BitVec 128

/-- The hyphenated form in groups of 8, 4, 4, 4 and 12 digits. -/
def hyphenated (digits : List Char) : List Char :=
  digits.take 8 ++ '-' :: (digits.drop 8).take 4 ++ '-' :: (digits.drop 12).take 4 ++
    '-' :: (digits.drop 16).take 4 ++ '-' :: digits.drop 20

def Uuid.toText (id : Uuid) : String := String.ofList (hyphenated (hexDigits 32 id.toNat))

structure HLC where
  timestampMs : Nat
  counter : Nat
  deriving DecidableEq, Repr

def HLC.toText (hlc : HLC) : String :=
  toString hlc.timestampMs ++ "-" ++ toString hlc.counter

/-! ## Payloads -/

structure Node where
  id : String
  deriving DecidableEq

structure Branch where
  name : String
  deriving DecidableEq

structure RevisionMeta where
  branch : String
  deriving DecidableEq

inductive ReplicatedNodeChangeKind where
  | upsert
  | delete
  deriving DecidableEq

structure ReplicatedNodeChange where
  node : Node
  parentId : Option String
  kind : ReplicatedNodeChangeKind
  cfOrderKey : String
  deriving DecidableEq

inductive OpType where
  | upsertTranslationOverlay (workspace nodeId locale : String) (blockUuid : Option String)
      (revision : HLC)
  | addRelation (sourceId sourceWorkspace relationType targetId targetWorkspace : String)
  | removeRelation (sourceId sourceWorkspace relationType targetId targetWorkspace : String)
  | applyRevision (branchHead : HLC) (nodeChanges : List ReplicatedNodeChange)
  | upsertNodeSnapshot (node : Node) (parentId : Option String) (revision : HLC)
      (cfOrderKey : String)
  | deleteNodeSnapshot (nodeId : String) (revision : HLC) (node : Option Node)
      (parentId : Option String)
  | updateNodeType (nodeTypeId : String)
  | deleteNodeType (nodeTypeId : String)
  | updateArchetype (archetypeId : String)
  | deleteArchetype (archetypeId : String)
  | updateElementType (elementTypeId : String)
  | deleteElementType (elementTypeId : String)
  | updateWorkspace (workspaceId : String)
  | deleteWorkspace (workspaceId : String)
  | updateBranch (branch : Branch)
  | createRevisionMeta (revisionMeta : RevisionMeta)
  | deleteBranch (branchId : String)
  | createTag (tagName revision : String)
  | deleteTag (tagName : String)
  | updateUser (userId : String)
  | deleteUser (userId : String)
  | updateTenant (tenantId : String)
  | deleteTenant (tenantId : String)
  | updateDeployment (deploymentId : String)
  | deleteDeployment (deploymentId : String)
  | updateRepository (tenantId repoId : String)
  | deleteRepository (tenantId repoId : String)
  | grantPermission (subjectType subjectId resourceType resourceId permission : String)
  | revokePermission (subjectType subjectId resourceType resourceId permission : String)
  | upsertIdentity (identityId : String)
  | deleteIdentity (identityId : String)
  | createSession (sessionId : String)
  | revokeSession (sessionId : String)
  | revokeAllIdentitySessions (identityId : String)
  | upsertOAuthClient (clientId : String)
  | deleteOAuthClient (clientId : String)
  | upsertOAuthRefreshToken (tokenHash : String)
  | revokeOAuthRefreshFamily (familyId : String)
  | upsertApiKey (keyId : String)
  | upsertSecret (name : String)
  | rotateRefreshToken (sessionId : String) (newGeneration : Nat)
  | unknown (tag : String)
  deriving DecidableEq

structure Operation where
  opId : Uuid
  opSeq : Nat
  clusterNodeId : String
  timestampMs : Nat
  vectorClock : VectorClock
  tenantId : String
  repoId : String
  branch : String
  opType : OpType
  revision : Option HLC
  actor : String
  agent : Option String
  message : Option String
  isSystem : Bool
  acknowledgedBy : Finset String
  deriving DecidableEq

/-- Operation ids are unique within the list. -/
def IdsIdentify (operations : List Operation) : Prop :=
  ∀ a ∈ operations, ∀ b ∈ operations, a.opId = b.opId → a = b

instance (operations : List Operation) : Decidable (IdsIdentify operations) := by
  unfold IdsIdentify
  infer_instance

/-- An operation of one repository whose sequence number is its own counter. -/
def makeOp (opId : Uuid) (clusterNodeId : String) (timestampMs : Nat)
    (entries : List (String × Nat)) (opType : OpType) : Operation where
  opId := opId
  opSeq := (VectorClock.ofEntries entries).get clusterNodeId
  clusterNodeId := clusterNodeId
  timestampMs := timestampMs
  vectorClock := VectorClock.ofEntries entries
  tenantId := "tenant1"
  repoId := "repo1"
  branch := "main"
  opType := opType
  revision := none
  actor := "user@example.com"
  agent := none
  message := none
  isSystem := false
  acknowledgedBy := ∅

/-! ## Targets -/

inductive OperationTarget where
  | node (id : String)
  | nodeType (id : String)
  | archetype (id : String)
  | elementType (id : String)
  | workspace (id : String)
  | branch (id : String)
  | tag (id : String)
  | user (id : String)
  | tenant (id : String)
  | deployment (id : String)
  | repository (id : String)
  | permission (id : String)
  | identity (id : String)
  | session (id : String)
  | oauthClient (id : String)
  | oauthRefreshToken (id : String)
  | oauthRefreshFamily (id : String)
  | apiKey (id : String)
  | secret (id : String)
  | revision (id : String)
  | unknown (id : String)
  deriving DecidableEq

/-- The word that names the kind of entity. -/
def OperationTarget.kind : OperationTarget → String
  | .node _ => "node"
  | .nodeType _ => "node_type"
  | .archetype _ => "archetype"
  | .elementType _ => "element_type"
  | .workspace _ => "workspace"
  | .branch _ => "branch"
  | .tag _ => "tag"
  | .user _ => "user"
  | .tenant _ => "tenant"
  | .deployment _ => "deployment"
  | .repository _ => "repository"
  | .permission _ => "permission"
  | .identity _ => "identity"
  | .session _ => "session"
  | .oauthClient _ => "oauth_client"
  | .oauthRefreshToken _ => "oauth_refresh_token"
  | .oauthRefreshFamily _ => "oauth_refresh_family"
  | .apiKey _ => "api_key"
  | .secret _ => "secret"
  | .revision _ => "revision"
  | .unknown _ => "unknown"

/-- The identifier behind the kind. -/
def OperationTarget.id : OperationTarget → String
  | .node id | .nodeType id | .archetype id | .elementType id | .workspace id
  | .branch id | .tag id | .user id | .tenant id | .deployment id | .repository id
  | .permission id | .identity id | .session id | .oauthClient id
  | .oauthRefreshToken id | .oauthRefreshFamily id | .apiKey id | .secret id
  | .revision id | .unknown id => id

def OperationTarget.toText (target : OperationTarget) : String :=
  target.kind ++ ":" ++ target.id

/-- What the operation modifies. -/
def Operation.target (op : Operation) : OperationTarget :=
  match op.opType with
  | .upsertTranslationOverlay _ nodeId _ _ _ => .node nodeId
  | .upsertNodeSnapshot node _ _ _ => .node node.id
  | .deleteNodeSnapshot nodeId _ _ _ => .node nodeId
  | .addRelation sourceId _ _ _ _ | .removeRelation sourceId _ _ _ _ => .node sourceId
  | .updateNodeType nodeTypeId | .deleteNodeType nodeTypeId => .nodeType nodeTypeId
  | .updateArchetype archetypeId | .deleteArchetype archetypeId => .archetype archetypeId
  | .updateElementType elementTypeId | .deleteElementType elementTypeId =>
      .elementType elementTypeId
  | .updateWorkspace workspaceId | .deleteWorkspace workspaceId => .workspace workspaceId
  | .updateBranch branch => .branch branch.name
  | .createRevisionMeta revisionMeta => .branch revisionMeta.branch
  | .deleteBranch branchId => .branch branchId
  | .createTag tagName _ | .deleteTag tagName => .tag tagName
  | .updateUser userId | .deleteUser userId => .user userId
  | .updateTenant tenantId | .deleteTenant tenantId => .tenant tenantId
  | .updateDeployment deploymentId | .deleteDeployment deploymentId =>
      .deployment deploymentId
  | .updateRepository _ repoId | .deleteRepository _ repoId => .repository repoId
  | .applyRevision branchHead _ => .revision (op.branch ++ "@" ++ branchHead.toText)
  | .grantPermission _ subjectId _ resourceId _
  | .revokePermission _ subjectId _ resourceId _ =>
      .permission (subjectId ++ ":" ++ resourceId)
  | .upsertOAuthClient clientId | .deleteOAuthClient clientId => .oauthClient clientId
  | .upsertOAuthRefreshToken tokenHash => .oauthRefreshToken tokenHash
  | .revokeOAuthRefreshFamily familyId => .oauthRefreshFamily familyId
  | .upsertApiKey keyId => .apiKey keyId
  | .upsertSecret name => .secret (op.branch ++ ":" ++ name)
  | .upsertIdentity identityId | .deleteIdentity identityId => .identity identityId
  | .createSession sessionId | .revokeSession sessionId
  | .rotateRefreshToken sessionId _ => .session sessionId
  | .revokeAllIdentitySessions identityId => .identity identityId
  | .unknown tag => .unknown (tag ++ ":" ++ op.opId.toText)

end RaisinDB.Replication
