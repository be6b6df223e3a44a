import Mathlib.Data.List.AList
import RaisinDB.Access.RelEvaluator

/-!
# Conditions on nodes

A permission may carry a condition.  It sees the caller as `auth` and the node as
`node`: one flat object of the system fields and of whatever the properties are
called.
-/

namespace RaisinDB.Access

open List

variable {F : Type}

/-! ## Callers and nodes -/

inductive Operation where
  | create | read | update | delete | translate | relate | unrelate | execute
  deriving DecidableEq

structure Permission where
  workspace : Option String
  branchPattern : Option String
  path : String
  nodeTypes : Option (List String)
  operations : List Operation
  fields : Option (List String)
  exceptFields : Option (List String)
  condition : Option String
  deriving DecidableEq

structure ResolvedPermissions where
  permissions : List Permission
  isSystemAdmin : Bool

structure AuthContext where
  userId : Option String
  localUserId : Option String
  email : Option String
  roles : List String
  groups : List String
  isSystem : Bool
  isAnonymous : Bool
  resolvedPermissions : Option ResolvedPermissions
  actingAsWard : Option String
  activeStewardshipSource : Option String
  home : Option String
  visitorHome : Option String
  resolvedHome : Option String

def AuthContext.anonymous : AuthContext where
  userId := none
  localUserId := none
  email := none
  roles := []
  groups := []
  isSystem := false
  isAnonymous := true
  resolvedPermissions := none
  actingAsWard := none
  activeStewardshipSource := none
  home := none
  visitorHome := none
  resolvedHome := none

inductive PropertyValue (F : Type) where
  | null
  | boolean (value : Bool)
  | integer (value : Int)
  | float (value : F)
  | string (value : String)
  | array (items : List (PropertyValue F))
  | object (fields : List (String × PropertyValue F))
  | date (shown : String)
  | decimal (shown : String)
  | reference (id : String)
  | url (url : String)
  | resource (uuid : String)
  | composite
  | element
  | vector (entries : List F)
  | geometry

structure Node (F : Type) where
  id : String
  name : String
  path : String
  nodeType : String
  createdBy : Option String
  updatedBy : Option String
  ownerId : Option String
  workspace : Option String
  properties : AList fun _ : String => PropertyValue F

/-! ## What a condition sees -/

def userHomesRoot : String := "/users/internal"

/-- `u_` and 22 letters or digits. -/
def isUserKey (key : List Char) : Bool :=
  key.length == 24 && "u_".toList.isPrefixOf key && (key.drop 2).all Char.isAlphanum

/-- `str::strip_prefix` -/
def stripStart (start text : List Char) : Option (List Char) :=
  if start.isPrefixOf text then some (text.drop start.length) else none

def userKeyFromHome (home : String) : Option String := do
  let below ← stripStart userHomesRoot.toList home.toList
  let key ← stripStart ['/'] below
  if isUserKey key then some (String.ofList key) else none

def AuthContext.userKey (auth : AuthContext) : Option String :=
  auth.resolvedHome.bind userKeyFromHome

/-- A text, or null. -/
def textOrNull : Option String → RelValue F
  | some text => .string text
  | none => .null

mutual

def propertyValueToRelValue : PropertyValue F → RelValue F
  | .null | .composite | .element | .geometry => .null
  | .boolean value => .boolean value
  | .integer value => .integer value
  | .float value => .float value
  | .string value | .date value | .decimal value | .reference value | .url value
  | .resource value => .string value
  | .array items => .array (propertyItems items)
  | .object fields => .object (propertyFields fields)
  | .vector entries => .array (entries.map .float)

def propertyItems : List (PropertyValue F) → List (RelValue F)
  | [] => []
  | item :: items => propertyValueToRelValue item :: propertyItems items

def propertyFields : List (String × PropertyValue F) → List (String × RelValue F)
  | [] => []
  | (name, value) :: fields => (name, propertyValueToRelValue value) :: propertyFields fields

end

def authObject (auth : AuthContext) : List (String × RelValue F) :=
  [("user_id", textOrNull auth.userId), ("local_user_id", textOrNull auth.localUserId),
    ("user_key", textOrNull auth.userKey), ("email", textOrNull auth.email),
    ("is_anonymous", .boolean auth.isAnonymous), ("is_system", .boolean auth.isSystem),
    ("roles", .array (auth.roles.map .string)), ("groups", .array (auth.groups.map .string)),
    ("acting_as_ward", textOrNull auth.actingAsWard),
    ("active_stewardship_source", textOrNull auth.activeStewardshipSource),
    ("home", textOrNull auth.home)]

/-- The fields that the system keeps. -/
def systemObject (node : Node F) : List (String × RelValue F) :=
  [("id", .string node.id), ("name", .string node.name), ("path", .string node.path),
    ("node_type", .string node.nodeType), ("created_by", textOrNull node.createdBy),
    ("updated_by", textOrNull node.updatedBy), ("owner_id", textOrNull node.ownerId),
    ("workspace", textOrNull node.workspace)]

/-- Every property is inserted behind the system fields. -/
def nodeObject (node : Node F) : List (String × RelValue F) :=
  node.properties.entries.foldl
    (fun fields property =>
      insertField fields property.1 (propertyValueToRelValue property.2))
    (systemObject node)

def buildRelContext (auth : AuthContext) (node : Node F) : EvalContext F :=
  [("auth", .object (authObject auth)), ("node", .object (nodeObject node))]

section Evaluation

variable [RustStd F]

/-- A condition holds when its value is truthy; an error denies. -/
def evaluateExpr (expr : Expr F) (node : Node F) (auth : AuthContext) : Bool :=
  match evaluate (buildRelContext auth node) expr with
  | .ok value => value.isTruthy
  | .error _ => false

/-- The text is parsed first; a text that is none of the language denies as well. -/
def evaluateRelCondition (parse : String → Option (Expr F)) (text : String) (node : Node F)
    (auth : AuthContext) : Bool :=
  match parse text with
  | some expr => evaluateExpr expr node auth
  | none => false

end Evaluation

/-! ## Reading system fields -/

def systemFields : List String :=
  ["id", "name", "path", "node_type", "created_by", "updated_by", "owner_id", "workspace"]

/-- The variable `node`, in parentheses or not. -/
def Expr.isNode : Expr F → Bool
  | .variable name => name == "node"
  | .grouped inner => inner.isNode
  | _ => false

/-- The text of a literal, in parentheses or not. -/
def Expr.literalText? : Expr F → Option String
  | .literal (.string text) => some text
  | .grouped inner => inner.literalText?
  | _ => none

mutual

/-- Of the node, the expression reads nothing but system fields. -/
def Expr.readsSystemFields : Expr F → Bool
  | .literal _ => true
  | .variable name => name != "node"
  | .propertyAccess object property =>
      (object.isNode && systemFields.contains property) || object.readsSystemFields
  | .indexAccess object index =>
      (object.isNode && (index.literalText?.any systemFields.contains)) ||
        (object.readsSystemFields && index.readsSystemFields)
  | .binaryOp left _ right => left.readsSystemFields && right.readsSystemFields
  | .unaryOp _ expr => expr.readsSystemFields
  | .methodCall object _ args => object.readsSystemFields && argsReadSystemFields args
  | .grouped inner => inner.readsSystemFields
  | .relates source target .. => source.readsSystemFields && target.readsSystemFields

def argsReadSystemFields : List (Expr F) → Bool
  | [] => true
  | arg :: args => arg.readsSystemFields && argsReadSystemFields args

end

/-- The node without its properties. -/
def Node.bare (node : Node F) : Node F := { node with properties := ∅ }

/-- What a system field shows when no property hides it. -/
def systemValue? (node : Node F) (name : String) : Option (RelValue F) :=
  field? (systemObject node) name

/-- No property bears the name of a system field, unless it shows what the field does. -/
def Node.Unforged (node : Node F) : Prop :=
  ∀ name ∈ systemFields, ∀ value, node.properties.lookup name = some value →
    systemValue? node name = some (propertyValueToRelValue value)

/-! ## What properties hide -/

section Fields

variable {Value : Type} {fields : List (String × Value)} {name other : String} {value : Value}

theorem field?_insertField_self : field? (insertField fields name value) name = some value := by
  simp [field?, insertField]

theorem field?_insertField_ne (apart : other ≠ name) :
    field? (insertField fields name value) other = field? fields other := by
  have kept : (fields.filter fun field => field.1 ≠ name).find? (fun field => field.1 = other) =
      fields.find? fun field => field.1 = other := by
    rw [find?_filter]
    congr 1
    funext field
    by_cases same : field.1 = other
    · simp [same, apart]
    · simp [same]
  rw [field?, insertField, find?_cons_of_neg (by simpa using apart.symm), kept, field?]

end Fields

variable {node other : Node F} {name : String}

/-- A property shows in place of a system field of its name. -/
theorem field?_nodeObject (node : Node F) (name : String) :
    field? (nodeObject node) name =
      match node.properties.lookup name with
      | some value => some (propertyValueToRelValue value)
      | none => systemValue? node name := by
  have inserted : ∀ (entries : List (Sigma fun _ : String => PropertyValue F)) fields,
      entries.NodupKeys →
        field? (entries.foldl (fun fields property =>
          insertField fields property.1 (propertyValueToRelValue property.2)) fields) name =
        match entries.dlookup name with
        | some value => some (propertyValueToRelValue value)
        | none => field? fields name := by
    intro entries
    induction entries with
    | nil => intro fields _; rfl
    | cons entry entries ih =>
      obtain ⟨key, value⟩ := entry
      intro fields distinct
      obtain ⟨fresh, distinctRest⟩ := nodupKeys_cons.mp distinct
      rw [foldl_cons, ih _ distinctRest]
      by_cases same : name = key
      · obtain rfl := same
        rw [dlookup_cons_eq, dlookup_eq_none.mpr fresh, field?_insertField_self]
      · rw [dlookup_cons_ne _ _ same, field?_insertField_ne same]
  exact inserted _ _ node.properties.nodupKeys

/-- The system fields of an unforged node show in every condition. -/
theorem Node.Unforged.field?_nodeObject (unforged : node.Unforged)
    (isSystem : name ∈ systemFields) :
    field? (nodeObject node) name = systemValue? node name := by
  rw [RaisinDB.Access.field?_nodeObject]
  cases found : node.properties.lookup name with
  | none => rfl
  | some value => exact (unforged name isSystem value found).symm

/-! ## Conditions that read system fields -/

/-- The contexts differ in nothing that such a condition reads. -/
structure AgreeOnSystemFields (ctx ctx' : EvalContext F) : Prop where
  elsewhere : ∀ name, name ≠ "node" → field? ctx name = field? ctx' name
  node : ∃ fields fields', field? ctx "node" = some (.object fields) ∧
    field? ctx' "node" = some (.object fields') ∧
    ∀ name ∈ systemFields, field? fields name = field? fields' name

section Congruence

variable [RustStd F] {ctx ctx' : EvalContext F}

/-- In parentheses or not, the variable is the whole object. -/
theorem evaluate_of_isNode {fields : List (String × RelValue F)}
    (shown : field? ctx "node" = some (.object fields)) {expr : Expr F} (isNode : expr.isNode) :
    evaluate ctx expr = .ok (.object fields) := by
  induction expr using Expr.isNode.induct with
  | case1 name =>
    rw [Expr.isNode, beq_iff_eq] at isNode
    rw [evaluate, evalVariable, isNode, shown]
  | case2 inner ih =>
    rw [Expr.isNode] at isNode
    rw [evaluate, ih isNode]
  | case3 expr notVariable notGrouped =>
    unfold Expr.isNode at isNode
    split at isNode
    · exact absurd rfl (notVariable _)
    · exact absurd rfl (notGrouped _)
    · cases isNode

theorem evaluate_of_literalText? {expr : Expr F} {text : String}
    (literal : expr.literalText? = some text) : evaluate ctx expr = .ok (.string text) := by
  induction expr using Expr.literalText?.induct with
  | case1 value =>
    obtain rfl := Option.some.inj literal
    rw [evaluate, evalLiteral]
  | case2 inner ih =>
    rw [Expr.literalText?] at literal
    rw [evaluate, ih literal]
  | case3 expr notText notGrouped =>
    unfold Expr.literalText? at literal
    split at literal
    · exact absurd rfl (notText _)
    · exact absurd rfl (notGrouped _)
    · cases literal

mutual

/-- A condition that reads system fields has the same value in both contexts. -/
theorem evaluate_congr (agree : AgreeOnSystemFields ctx ctx') :
    ∀ expr : Expr F, expr.readsSystemFields → evaluate ctx expr = evaluate ctx' expr
  | .literal value, _ => by rw [evaluate, evaluate]
  | .variable name, reads => by
    rw [Expr.readsSystemFields, bne_iff_ne] at reads
    rw [evaluate, evaluate, evalVariable, evalVariable, agree.elsewhere name reads]
  | .propertyAccess object property, reads => by
    rw [Expr.readsSystemFields, Bool.or_eq_true, Bool.and_eq_true] at reads
    rw [evaluate, evaluate]
    rcases reads with ⟨isNode, isSystem⟩ | reads
    · obtain ⟨fields, fields', shown, shown', same⟩ := agree.node
      rw [evaluate_of_isNode shown isNode, evaluate_of_isNode shown' isNode]
      change Except.ok (evalProperty (.object fields) property) =
        Except.ok (evalProperty (.object fields') property)
      rw [evalProperty, evalProperty, same property (by simpa using isSystem)]
    · rw [evaluate_congr agree object reads]
  | .indexAccess object index, reads => by
    rw [Expr.readsSystemFields, Bool.or_eq_true, Bool.and_eq_true, Bool.and_eq_true] at reads
    rw [evaluate, evaluate]
    rcases reads with ⟨isNode, isSystem⟩ | ⟨readsObject, readsIndex⟩
    · obtain ⟨fields, fields', shown, shown', same⟩ := agree.node
      obtain ⟨text, literal, isSystem⟩ := (Option.any_eq_true _ _).mp isSystem
      rw [evaluate_of_isNode shown isNode, evaluate_of_isNode shown' isNode,
        evaluate_of_literalText? literal, evaluate_of_literalText? literal]
      change evalIndex (.object fields) (.string text) = evalIndex (.object fields') (.string text)
      simp only [evalIndex, RelValue.asStr, same text (by simpa using isSystem)]
    · rw [evaluate_congr agree object readsObject, evaluate_congr agree index readsIndex]
  | .binaryOp left op right, reads => by
    rw [Expr.readsSystemFields, Bool.and_eq_true] at reads
    have lefts := evaluate_congr agree left reads.1
    have rights := evaluate_congr agree right reads.2
    cases op <;> simp only [evaluate, lefts, rights]
  | .unaryOp op expr, reads => by
    rw [Expr.readsSystemFields] at reads
    rw [evaluate, evaluate, evaluate_congr agree expr reads]
  | .methodCall object method args, reads => by
    rw [Expr.readsSystemFields, Bool.and_eq_true] at reads
    rw [evaluate, evaluate, evaluate_congr agree object reads.1,
      evaluateArgs_congr agree args reads.2]
  | .grouped inner, reads => by
    rw [Expr.readsSystemFields] at reads
    rw [evaluate, evaluate, evaluate_congr agree inner reads]
  | .relates .., _ => by rw [evaluate, evaluate]

theorem evaluateArgs_congr (agree : AgreeOnSystemFields ctx ctx') :
    ∀ args : List (Expr F), argsReadSystemFields args →
      evaluateArgs ctx args = evaluateArgs ctx' args
  | [], _ => by rw [evaluateArgs, evaluateArgs]
  | arg :: args, reads => by
    rw [argsReadSystemFields, Bool.and_eq_true] at reads
    rw [evaluateArgs, evaluateArgs, evaluate_congr agree arg reads.1,
      evaluateArgs_congr agree args reads.2]

end

end Congruence

/-! ## What a node can forge -/

section Forging

variable {node other : Node F}

/-- The contexts of two unforged nodes with the same system fields. -/
theorem agree_of_unforged (auth : AuthContext) (same : node.bare = other.bare)
    (unforged : node.Unforged) (unforged' : other.Unforged) :
    AgreeOnSystemFields (buildRelContext auth node) (buildRelContext auth other) where
  elsewhere name apart := by
    by_cases isAuth : name = "auth"
    · obtain rfl := isAuth
      rfl
    · simp [field?, buildRelContext, Ne.symm isAuth, Ne.symm apart]
  node := by
    refine ⟨nodeObject node, nodeObject other, rfl, rfl, fun name isSystem => ?_⟩
    rw [unforged.field?_nodeObject isSystem, unforged'.field?_nodeObject isSystem]
    have systems : systemObject node.bare = systemObject other.bare := congrArg systemObject same
    exact congrArg (field? · name) systems

theorem unforged_bare (node : Node F) : node.bare.Unforged := by
  intro name _ value found
  rw [Node.bare, AList.lookup_empty] at found
  cases found

/-- Such nodes are alike to every condition on system fields. -/
theorem evaluateExpr_congr [RustStd F] (auth : AuthContext) (same : node.bare = other.bare)
    (unforged : node.Unforged) (unforged' : other.Unforged) {expr : Expr F}
    (reads : expr.readsSystemFields) :
    evaluateExpr expr node auth = evaluateExpr expr other auth := by
  have values := evaluate_congr (agree_of_unforged auth same unforged unforged') expr reads
  unfold evaluateExpr
  rw [values]

/-- The condition that a system field has a certain value. -/
def fieldIs (name : String) (value : Literal F) : Expr F :=
  .binaryOp (.propertyAccess (.variable "node") name) .eq (.literal value)

theorem fieldIs_reads {name : String} (isSystem : name ∈ systemFields) (value : Literal F) :
    (fieldIs name value).readsSystemFields := by
  simp [fieldIs, Expr.readsSystemFields, Expr.isNode, isSystem]

theorem evaluateExpr_fieldIs [RustStd F] (node : Node F) (auth : AuthContext) (name : String)
    (value : Literal F) :
    evaluateExpr (fieldIs name value) node auth =
      valuesEqual ((field? (nodeObject node) name).getD .null) (evalLiteral value) := by
  rfl

/-- A text as it is written in a condition. -/
def textLiteral : Option String → Literal F
  | some text => .string text
  | none => .null

theorem evalLiteral_textLiteral (text : Option String) :
    evalLiteral (textLiteral text : Literal F) = textOrNull text := by
  cases text <;> simp [textLiteral, textOrNull, evalLiteral]

/-- A system field shows a text or null. -/
theorem systemValue_text (node : Node F) {name : String} (isSystem : name ∈ systemFields) :
    ∃ text, systemValue? node name = some (textOrNull text) := by
  simp only [systemFields, mem_cons, not_mem_nil, or_false] at isSystem
  rcases isSystem with rfl | rfl | rfl | rfl | rfl | rfl | rfl | rfl
  · exact ⟨some node.id, rfl⟩
  · exact ⟨some node.name, rfl⟩
  · exact ⟨some node.path, rfl⟩
  · exact ⟨some node.nodeType, rfl⟩
  · exact ⟨node.createdBy, rfl⟩
  · exact ⟨node.updatedBy, rfl⟩
  · exact ⟨node.ownerId, rfl⟩
  · exact ⟨node.workspace, rfl⟩

theorem valuesEqual_textOrNull [RustStd F] {value : RelValue F} {text : Option String} :
    valuesEqual value (textOrNull text) ↔ value = textOrNull text := by
  cases text <;> cases value <;> simp [textOrNull, valuesEqual]

/-- A property that hides a system field is seen by a condition on that field. -/
theorem unforged_of_sameAnswers [RustStd F] (auth : AuthContext)
    (same : ∀ expr : Expr F, expr.readsSystemFields →
      evaluateExpr expr node auth = evaluateExpr expr node.bare auth) : node.Unforged := by
  intro name isSystem value found
  obtain ⟨text, shown⟩ := systemValue_text node isSystem
  have bareShows : field? (nodeObject node.bare) name = some (textOrNull text) :=
    ((unforged_bare node).field?_nodeObject isSystem).trans shown
  have nodeShows : field? (nodeObject node) name = some (propertyValueToRelValue value) := by
    rw [field?_nodeObject, found]
  have answers := same _ (fieldIs_reads isSystem (textLiteral text))
  rw [evaluateExpr_fieldIs, evaluateExpr_fieldIs, bareShows, nodeShows, evalLiteral_textLiteral,
    Option.getD_some, Option.getD_some, valuesEqual_textOrNull.mpr rfl] at answers
  rw [shown, valuesEqual_textOrNull.mp answers]

end Forging

/-- Two nodes with the same system fields, and the node that has nothing else, are all alike to
every condition on system fields if and only if no property shows in place of such a field. -/
theorem conditions_see_system_fields [RustStd F] (node : Node F)
    (first second : AList fun _ : String => PropertyValue F) :
    (∀ (auth : AuthContext) (parse : String → Option (Expr F)) (text : String),
      (∀ expr ∈ parse text, expr.readsSystemFields) →
        evaluateRelCondition parse text { node with properties := first } auth =
          evaluateRelCondition parse text { node with properties := second } auth ∧
        evaluateRelCondition parse text { node with properties := first } auth =
          evaluateRelCondition parse text node.bare auth) ↔
      ({ node with properties := first } : Node F).Unforged ∧
        ({ node with properties := second } : Node F).Unforged := by
  constructor
  · intro same
    have whole : ∀ expr : Expr F, expr.readsSystemFields →
        evaluateExpr expr { node with properties := first } .anonymous =
            evaluateExpr expr { node with properties := second } .anonymous ∧
          evaluateExpr expr { node with properties := first } .anonymous =
            evaluateExpr expr node.bare .anonymous := by
      intro expr reads
      exact same .anonymous (fun _ => some expr) ""
        (fun other isExpr => Option.some.inj isExpr ▸ reads)
    constructor
    · exact unforged_of_sameAnswers .anonymous fun expr reads => (whole expr reads).2
    · refine unforged_of_sameAnswers .anonymous fun expr reads => ?_
      exact (whole expr reads).1.symm.trans (whole expr reads).2
  · rintro ⟨unforged, unforged'⟩ auth parse text reads
    unfold evaluateRelCondition
    cases parsed : parse text with
    | none => exact ⟨rfl, rfl⟩
    | some expr =>
        have readsExpr := reads expr parsed
        have likeSecond : ({ node with properties := first } : Node F).bare =
            ({ node with properties := second } : Node F).bare := rfl
        have likeBare : ({ node with properties := first } : Node F).bare = node.bare.bare := rfl
        exact ⟨evaluateExpr_congr auth likeSecond unforged unforged' readsExpr,
          evaluateExpr_congr auth likeBare unforged (unforged_bare node) readsExpr⟩

/-! ## A forged owner -/

/-- Where no doubles and no letters beyond ASCII occur. -/
instance plainStd : RustStd Unit where
  add _ _ := ()
  sub _ _ := ()
  mul _ _ := ()
  div _ _ := ()
  rem _ _ := ()
  neg _ := ()
  ofInt _ := ()
  toInt _ := 0
  isZero _ := true
  isWhole _ := true
  isNear _ _ := true
  partialCmp _ _ := some .eq
  display _ := "0"
  toLowercase := String.toLower
  toUppercase := String.toUpper
  trim text := text

/-- `node.owner_id == auth.user_id` -/
def ownerCondition : Expr Unit :=
  .binaryOp (.propertyAccess (.variable "node") "owner_id") .eq
    (.propertyAccess (.variable "auth") "user_id")

/-- A page that belongs to alice, with a property that says otherwise. -/
def alicesPage : Node Unit where
  id := "page-1"
  name := "page"
  path := "/page"
  nodeType := "raisin:Page"
  createdBy := some "alice"
  updatedBy := some "alice"
  ownerId := some "alice"
  workspace := some "content"
  properties := AList.singleton "owner_id" (.string "mallory")

def mallory : AuthContext := { AuthContext.anonymous with userId := some "mallory" }

theorem owner_is_forged :
    ¬(∀ expr : Expr Unit, expr.readsSystemFields →
      evaluateExpr expr alicesPage mallory = evaluateExpr expr alicesPage.bare mallory) := by
  intro same
  exact absurd (same ownerCondition (by decide)) (by decide)

end RaisinDB.Access
