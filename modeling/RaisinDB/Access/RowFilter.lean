import Mathlib.Data.List.Sort
import RaisinDB.Access.NodeConditions

/-!
# Row-level security

Whether a caller may do something to a node is decided in several places: when a node
is read, when an operation is checked, when a node is created, and before anything is
read at all.  A visitor session has its own rule, which comes before every grant.
-/

namespace RaisinDB.Access

open List

/-! ## Patterns -/

structure PermissionScope where
  workspace : String
  branch : String

/-- What patterns and conditions are made of: `glob::Pattern`, `regex::Regex` and the grammar of the
conditions. -/
structure Engine (F : Type) where
  glob : String → Option (String → Bool)
  regex : String → Option (String → Bool)
  parse : String → Option (Expr F)

/-- No pattern, nothing but blanks, `*` and a pattern that is none match everything. -/
def compilePattern {F : Type} [RustStd F] (engine : Engine F) (pattern : Option String) :
    Option (String → Bool) :=
  pattern.bind fun pattern =>
    let trimmed := RustStd.trim F pattern
    if trimmed = "" ∨ trimmed = "*" then none else engine.glob trimmed

def lead : List Char := "\x00LEAD\x00".toList

def recursive : List Char := "\x00RECURSIVE\x00".toList

def trail : List Char := "\x00TRAIL\x00".toList

/-- Put a marker for each `/**/`; one pass leaves none of them. -/
def markRecursive : List Char → List Char
  | '/' :: '*' :: '*' :: '/' :: rest => recursive ++ markRecursive rest
  | char :: rest => char :: markRecursive rest
  | [] => []

/-- Put markers for the segments that match any number of segments. -/
def markPattern (normalized : List Char) : List Char :=
  let led :=
    if "**/".toList.isPrefixOf normalized then lead ++ normalized.drop 3 else normalized
  let marked := markRecursive led
  if "/**".toList.isSuffixOf marked then marked.take (marked.length - 3) ++ trail else marked

def markerRegex (marker : List Char) : List Char :=
  if marker = "LEAD".toList then "(.*/)?".toList
  else if marker = "RECURSIVE".toList then "(/.*/|/)".toList
  else if marker = "TRAIL".toList then "(/.*)?".toList
  else []

def regexSpecials : List Char :=
  ['.', '+', '^', '$', '(', ')', '[', ']', '\x7b', '\x7d', '|', '\\']

def regexBody : List Char → List Char
  | [] => []
  | '*' :: '*' :: rest => ".*".toList ++ regexBody rest
  | char :: rest =>
      if char = '\x00' then
        markerRegex (rest.takeWhile (· ≠ '\x00')) ++
          regexBody ((rest.dropWhile (· ≠ '\x00')).drop 1)
      else if char = '*' then "[^/]*".toList ++ regexBody rest
      else if char = '?' then "[^/]".toList ++ regexBody rest
      else if char ∈ regexSpecials then '\\' :: char :: regexBody rest
      else char :: regexBody rest
termination_by chars => chars.length
decreasing_by
  all_goals simp only [length_cons, length_drop]
  · omega
  · have := (dropWhile_suffix (l := rest) (fun char => decide (char ≠ '\x00'))).length_le
    omega
  all_goals omega

def patternToRegex (pattern : String) : String :=
  let normalized := pattern.toList.dropWhile (· = '/')
  if normalized = [] then "^.*$"
  else String.ofList ("^".toList ++ regexBody (markPattern normalized) ++ "$".toList)

/-- The more exact the segments of a pattern are, the higher. -/
def segmentScore (segment : List Char) : Nat :=
  if segment = ['*', '*'] then 1
  else if segment.tails.any ['*', '*'].isPrefixOf then 5
  else if '*' ∈ segment ∨ '?' ∈ segment then 10
  else 100

def calculateSpecificity (pattern : String) : Nat :=
  let segments := pathSegments pattern
  (segments.map segmentScore).sum + segments.length * 5

namespace Permission

variable {F : Type} (engine : Engine F) (permission : Permission)

def matchesPath (path : String) : Bool :=
  match engine.regex (patternToRegex permission.path) with
  | some isMatch => isMatch (String.ofList (path.toList.dropWhile (· = '/')))
  | none => false

def pathSpecificity : Nat := calculateSpecificity permission.path

def appliesToScope [RustStd F] (scope : PermissionScope) : Bool :=
  ((compilePattern engine permission.workspace).all fun isMatch => isMatch scope.workspace) &&
    (compilePattern engine permission.branchPattern).all fun isMatch => isMatch scope.branch

/-- Without types a permission is for all of them. -/
def coversType (nodeType : String) : Bool :=
  permission.nodeTypes.all fun types => types.contains nodeType

end Permission

/-! ## Visitors -/

def visitorWorkspace : String := "raisin:access_control"

def visitorRoot : String := "/visitors"

/-- A path is another one, or lies below it. -/
def within (home path : String) : Bool :=
  path == home || (stripStart home.toList path.toList).any ['/'].isPrefixOf

def isVisitorPath (workspace path : String) : Bool :=
  workspace == visitorWorkspace && within visitorRoot path

/-- In the zone of the visitors, a visitor may read its own home, and nobody anything else. -/
def visitorZoneDecision (workspace path : String) (operation : Operation)
    (visitorHome : Option String) : Option Bool :=
  if !isVisitorPath workspace path then none
  else
    let owns := (visitorHome.filter fun home =>
      isVisitorPath workspace home && home != visitorRoot).any fun home => within home path
    some (owns && operation = .read)

def AuthContext.isSystemAdmin (auth : AuthContext) : Bool :=
  auth.resolvedPermissions.any ResolvedPermissions.isSystemAdmin

def visitorZone (auth : AuthContext) (scope : PermissionScope) (path : String)
    (operation : Operation) : Option Bool :=
  if auth.isSystemAdmin then none
  else visitorZoneDecision scope.workspace path operation auth.visitorHome

/-! ## Grants -/

section Decisions

variable {F : Type} [RustStd F] (engine : Engine F)

/-- Every permission that matches, the most specific one first. -/
def matchingPermissions (node : Node F) (permissions : List Permission) (scope : PermissionScope)
    (operation : Operation) : List Permission :=
  (permissions.filter fun permission =>
      permission.appliesToScope engine scope && permission.matchesPath engine node.path &&
        permission.operations.contains operation && permission.coversType node.nodeType)
    |>.insertionSort fun first second => second.pathSpecificity ≤ first.pathSpecificity

/-- A condition holds, or there is none. -/
def conditionHolds (permission : Permission) (node : Node F) (auth : AuthContext) : Bool :=
  match permission.condition with
  | some condition => evaluateRelCondition engine.parse condition node auth
  | none => true

/-- Keep the properties of some names. -/
def Node.retain (node : Node F) (keep : String → Bool) : Node F :=
  { node with
    properties := (node.properties.keys.filter fun name => !keep name).foldl
      (fun kept name => kept.erase name) node.properties }

def applyFieldFilter (node : Node F) (permission : Permission) : Node F :=
  match permission.fields with
  | some allowed => node.retain fun name => allowed.contains name
  | none =>
      match permission.exceptFields with
      | some denied => node.retain fun name => !denied.contains name
      | none => node

def filterNode (node : Node F) (auth : AuthContext) (scope : PermissionScope) : Option (Node F) :=
  if auth.isSystem then some node
  else match visitorZone auth scope node.path .read with
    | some allowed => if allowed then some node else none
    | none =>
        match auth.resolvedPermissions with
        | none => none
        | some resolved =>
            if resolved.isSystemAdmin then some node
            else
              let candidates := matchingPermissions engine node resolved.permissions scope .read
              (candidates.find? fun permission => conditionHolds engine permission node auth).map
                (applyFieldFilter node)

def filterNodes (nodes : List (Node F)) (auth : AuthContext) (scope : PermissionScope) :
    List (Node F) :=
  if auth.isSystem then nodes else nodes.filterMap fun node => filterNode engine node auth scope

def canPerform (node : Node F) (operation : Operation) (auth : AuthContext)
    (scope : PermissionScope) : Bool :=
  if auth.isSystem then true
  else match visitorZone auth scope node.path operation with
    | some allowed => allowed
    | none =>
        match auth.resolvedPermissions with
        | none => false
        | some resolved =>
            if resolved.isSystemAdmin then true
            else (matchingPermissions engine node resolved.permissions scope operation).any
              fun permission => conditionHolds engine permission node auth

/-! ## With relations -/

/-- What a condition comes to when a resolver follows its relations. -/
abbrev RelationResolver (F : Type) := String → Node F → AuthContext → Bool

def evaluateRelConditionAsync (condition : String) (node : Node F) (auth : AuthContext)
    (resolver : Option (RelationResolver F)) : Bool :=
  match resolver with
  | none => evaluateRelCondition engine.parse condition node auth
  | some resolve => resolve condition node auth

def conditionHoldsAsync (permission : Permission) (node : Node F) (auth : AuthContext)
    (resolver : Option (RelationResolver F)) : Bool :=
  match permission.condition with
  | some condition => evaluateRelConditionAsync engine condition node auth resolver
  | none => true

def filterNodeAsync (node : Node F) (auth : AuthContext) (scope : PermissionScope)
    (resolver : Option (RelationResolver F)) : Option (Node F) :=
  if auth.isSystem then some node
  else match visitorZone auth scope node.path .read with
    | some allowed => if allowed then some node else none
    | none =>
        match auth.resolvedPermissions with
        | none => none
        | some resolved =>
            if resolved.isSystemAdmin then some node
            else
              let candidates := matchingPermissions engine node resolved.permissions scope .read
              (candidates.find? fun permission =>
                conditionHoldsAsync engine permission node auth resolver).map
                (applyFieldFilter node)

def canPerformAsync (node : Node F) (operation : Operation) (auth : AuthContext)
    (scope : PermissionScope) (resolver : Option (RelationResolver F)) : Bool :=
  if auth.isSystem then true
  else match visitorZone auth scope node.path operation with
    | some allowed => allowed
    | none =>
        match auth.resolvedPermissions with
        | none => false
        | some resolved =>
            if resolved.isSystemAdmin then true
            else (matchingPermissions engine node resolved.permissions scope operation).any
              fun permission => conditionHoldsAsync engine permission node auth resolver

/-! ## Creating -/

/-- What stands behind the last slash. -/
def lastSegment (path : String) : String :=
  String.ofList ((path.toList.splitOn '/').getLast?.getD [])

/-- What a condition sees of a node that is to be created. -/
def candidateNode (path nodeType : String) : Node F where
  id := ""
  name := lastSegment path
  path := path
  nodeType := nodeType
  createdBy := none
  updatedBy := none
  ownerId := none
  workspace := none
  properties := ∅

/-- The permissions in the order in which they are written. -/
def canCreateAtPathAsync (path nodeType : String) (auth : AuthContext) (scope : PermissionScope)
    (resolver : Option (RelationResolver F)) : Bool :=
  if auth.isSystem then true
  else match visitorZone auth scope path .create with
    | some allowed => allowed
    | none =>
        match auth.resolvedPermissions with
        | none => false
        | some resolved =>
            if resolved.isSystemAdmin then true
            else resolved.permissions.any fun permission =>
              permission.appliesToScope engine scope && permission.matchesPath engine path &&
                permission.operations.contains .create && permission.coversType nodeType &&
                conditionHoldsAsync engine permission (candidateNode path nodeType) auth resolver

def canCreateAtPath (path nodeType : String) (auth : AuthContext) (scope : PermissionScope) :
    Bool :=
  if auth.isSystem then true
  else match visitorZone auth scope path .create with
    | some allowed => allowed
    | none =>
        match auth.resolvedPermissions with
        | none => false
        | some resolved =>
            if resolved.isSystemAdmin then true
            else resolved.permissions.any fun permission =>
              permission.appliesToScope engine scope && permission.matchesPath engine path &&
                permission.operations.contains .create && permission.coversType nodeType &&
                conditionHolds engine permission (candidateNode path nodeType) auth

/-! ## Before reading -/

/-- All workspaces, or only some; none of them is not the same as all. -/
inductive ReadableWorkspaces where
  | all
  | only (workspaces : List String)
  deriving DecidableEq

def ReadableWorkspaces.Keeps (readable : ReadableWorkspaces) (workspace : String) : Prop :=
  match readable with
  | .all => True
  | .only workspaces => workspace ∈ workspaces

def readableWorkspaces (auth : Option AuthContext) (candidates : List String) (branch : String) :
    ReadableWorkspaces :=
  match auth with
  | none => .all
  | some auth =>
      if auth.isSystem then .all
      else match auth.resolvedPermissions with
        | none => .only []
        | some resolved =>
            if resolved.isSystemAdmin then .all
            else .only (candidates.filter fun workspace =>
              resolved.permissions.any fun permission =>
                permission.operations.contains .read &&
                  permission.appliesToScope engine ⟨workspace, branch⟩)

def mayRead (auth : AuthContext) (scope : PermissionScope) (path : Option String) : Bool :=
  if auth.isSystem then true
  else
    let zone := match path with
      | some path => visitorZone auth scope path .read
      -- its own home cannot be ruled out
      | none => if auth.visitorHome.isSome then some true else none
    match zone with
    | some allowed => allowed
    | none =>
        match auth.resolvedPermissions with
        | none => false
        | some resolved =>
            if resolved.isSystemAdmin then true
            else resolved.permissions.any fun permission =>
              permission.operations.contains .read && permission.appliesToScope engine scope &&
                path.all fun path => permission.matchesPath engine path

end Decisions

end RaisinDB.Access
