import RaisinDB.Access.RowFilter

/-!
# One decision

Every place that decides about a node asks the same: is the caller above the rules, what
does the visitors' zone say, and is there a grant.
-/

namespace RaisinDB.Access

open List

variable {F : Type} [RustStd F]

/-! ## The rule -/

/-- What is granted to a caller. -/
def AuthContext.grants (auth : AuthContext) : List Permission :=
  (auth.resolvedPermissions.map ResolvedPermissions.permissions).getD []

/-- The same caller with other grants. -/
def AuthContext.withGrants (auth : AuthContext) (permissions : List Permission) : AuthContext :=
  { auth with resolvedPermissions :=
      auth.resolvedPermissions.map fun resolved => { resolved with permissions } }

/-- A permission matches the scope, the path, the operation and the type, and its condition, if
there is one, is true. -/
structure Permission.Grants (engine : Engine F) (permission : Permission) (node : Node F)
    (operation : Operation) (auth : AuthContext) (scope : PermissionScope) : Prop where
  scope : permission.appliesToScope engine scope
  path : permission.matchesPath engine node.path
  operation : operation ∈ permission.operations
  nodeType : ∀ types ∈ permission.nodeTypes, node.nodeType ∈ types
  condition : ∀ condition ∈ permission.condition,
    evaluateRelCondition engine.parse condition node auth

/-- Who may do what. -/
def Permitted (engine : Engine F) (node : Node F) (operation : Operation) (auth : AuthContext)
    (scope : PermissionScope) : Prop :=
  auth.isSystem ∨ auth.isSystemAdmin ∨ visitorZone auth scope node.path operation = some true ∨
    visitorZone auth scope node.path operation = none ∧
      ∃ permission ∈ auth.grants, permission.Grants engine node operation auth scope

/-- All places decide by the rule, and what is asked before reading does not hide what can be
read. -/
structure OneDecision (engine : Engine F) (node : Node F) (operation : Operation)
    (auth : AuthContext) (scope : PermissionScope) : Prop where
  perform : canPerform engine node operation auth scope ↔
    Permitted engine node operation auth scope
  order : ∀ shuffled, shuffled.Perm auth.grants →
    canPerform engine node operation (auth.withGrants shuffled) scope =
      canPerform engine node operation auth scope
  additive : ∀ more, auth.grants ⊆ more → canPerform engine node operation auth scope →
    canPerform engine node operation (auth.withGrants more) scope
  filter : (filterNode engine node auth scope).isSome = canPerform engine node .read auth scope
  filterAsync : filterNodeAsync engine node auth scope none = filterNode engine node auth scope
  performAsync : canPerformAsync engine node operation auth scope none =
    canPerform engine node operation auth scope
  list : ∀ nodes, filterNodes engine nodes auth scope =
    nodes.filterMap fun node => filterNode engine node auth scope
  create : ∀ path nodeType, canCreateAtPath engine path nodeType auth scope =
    canPerform engine (candidateNode path nodeType) .create auth scope
  createAsync : ∀ path nodeType, canCreateAtPathAsync engine path nodeType auth scope none =
    canCreateAtPath engine path nodeType auth scope
  mayReadPath : (filterNode engine node auth scope).isSome → mayRead engine auth scope node.path
  mayReadAnywhere : (filterNode engine node auth scope).isSome → mayRead engine auth scope none
  readable : (filterNode engine node auth scope).isSome →
    ∀ candidates, scope.workspace ∈ candidates →
      (readableWorkspaces engine auth candidates scope.branch).Keeps scope.workspace

/-! ## The places -/

section Places

variable {engine : Engine F} {node : Node F} {operation : Operation} {auth : AuthContext}
  {scope : PermissionScope} {permissions : List Permission} {permission : Permission}

theorem mem_matchingPermissions :
    permission ∈ matchingPermissions engine node permissions scope operation ∧
        conditionHolds engine permission node auth ↔
      permission ∈ permissions ∧ permission.Grants engine node operation auth scope := by
  have condition : conditionHolds engine permission node auth ↔
      ∀ condition ∈ permission.condition,
        evaluateRelCondition engine.parse condition node auth := by
    rw [conditionHolds]
    cases permission.condition <;> simp
  have types : permission.coversType node.nodeType ↔
      ∀ types ∈ permission.nodeTypes, node.nodeType ∈ types := by
    rw [Permission.coversType]
    cases permission.nodeTypes <;> simp
  rw [matchingPermissions, mem_insertionSort, mem_filter, Bool.and_eq_true, Bool.and_eq_true,
    Bool.and_eq_true, contains_iff_mem, condition, types]
  constructor
  · rintro ⟨⟨mem, ⟨⟨inScope, onPath⟩, allowed⟩, ofType⟩, holds⟩
    exact ⟨mem, inScope, onPath, allowed, ofType, holds⟩
  · rintro ⟨mem, inScope, onPath, allowed, ofType, holds⟩
    exact ⟨⟨mem, ⟨⟨inScope, onPath⟩, allowed⟩, ofType⟩, holds⟩

/-- The order in which all places ask: the system, the zone, an administrator, the grants. -/
def decided (auth : AuthContext) (zone : Option Bool) (granted : List Permission → Bool) : Bool :=
  if auth.isSystem then true
  else match zone with
    | some allowed => allowed
    | none =>
        match auth.resolvedPermissions with
        | none => false
        | some resolved => if resolved.isSystemAdmin then true else granted resolved.permissions

theorem decided_iff {zone : Option Bool} {granted : List Permission → Bool}
    (adminFree : auth.isSystemAdmin → zone ≠ some false) (nothing : granted [] = false) :
    decided auth zone granted ↔
      auth.isSystem ∨ auth.isSystemAdmin ∨ zone = some true ∨
        zone = none ∧ granted auth.grants := by
  unfold decided
  by_cases system : auth.isSystem
  · simp [system]
  · rw [if_neg system]
    cases zone with
    | some allowed =>
        cases allowed
        · simpa [system] using adminFree
        · simp
    | none =>
        unfold AuthContext.isSystemAdmin AuthContext.grants
        cases auth.resolvedPermissions with
        | none => simp [system, nothing]
        | some resolved => by_cases admin : resolved.isSystemAdmin <;> simp [system, admin]

theorem visitorZone_of_admin (path : String) (admin : auth.isSystemAdmin) :
    visitorZone auth scope path operation = none := by
  rw [visitorZone, if_pos admin]

/-- Some of the grants match. -/
theorem any_matchingPermissions :
    ((matchingPermissions engine node permissions scope operation).any fun permission =>
        conditionHolds engine permission node auth) ↔
      ∃ permission ∈ permissions, permission.Grants engine node operation auth scope := by
  rw [any_eq_true]
  constructor
  · rintro ⟨permission, mem, holds⟩
    exact ⟨permission, mem_matchingPermissions.mp ⟨mem, holds⟩⟩
  · rintro ⟨permission, mem, grants⟩
    obtain ⟨mem, holds⟩ := mem_matchingPermissions.mpr ⟨mem, grants⟩
    exact ⟨permission, mem, holds⟩

/-- An operation is allowed exactly when the rule says so. -/
theorem canPerform_iff : canPerform engine node operation auth scope ↔
    Permitted engine node operation auth scope := by
  have places : canPerform engine node operation auth scope =
      decided auth (visitorZone auth scope node.path operation) fun permissions =>
        (matchingPermissions engine node permissions scope operation).any fun permission =>
          conditionHolds engine permission node auth := rfl
  rw [places, decided_iff (fun admin => by simp [visitorZone_of_admin node.path admin]) rfl,
    any_matchingPermissions, Permitted]

theorem canPerform_congr {auth' : AuthContext} {node' : Node F}
    (same : Permitted engine node operation auth scope ↔
      Permitted engine node' operation auth' scope) :
    canPerform engine node operation auth scope = canPerform engine node' operation auth' scope :=
  Bool.eq_iff_iff.mpr (canPerform_iff.trans (same.trans canPerform_iff.symm))

/-- A node is shown exactly when it may be read. -/
theorem isSome_filterNode : (filterNode engine node auth scope).isSome =
    canPerform engine node .read auth scope := by
  rw [filterNode, canPerform]
  by_cases system : auth.isSystem
  · simp [system]
  · rw [if_neg system, if_neg system]
    cases visitorZone auth scope node.path .read with
    | some allowed => cases allowed <;> rfl
    | none =>
        cases auth.resolvedPermissions with
        | none => rfl
        | some resolved =>
            by_cases admin : resolved.isSystemAdmin
            · simp [admin]
            · simp [admin, isSome_find?]

/-- A candidate node is decided about like a node. -/
theorem canCreateAtPath_eq (path nodeType : String) :
    canCreateAtPath engine path nodeType auth scope =
      canPerform engine (candidateNode path nodeType) .create auth scope := by
  have places : canCreateAtPath engine path nodeType auth scope =
      decided auth (visitorZone auth scope path .create) fun permissions =>
        permissions.any fun permission =>
          permission.appliesToScope engine scope && permission.matchesPath engine path &&
            permission.operations.contains .create && permission.coversType nodeType &&
            conditionHolds engine permission (candidateNode path nodeType) auth := rfl
  rw [Bool.eq_iff_iff, canPerform_iff, places,
    decided_iff (fun admin => by simp [visitorZone_of_admin path admin]) rfl, Permitted]
  refine or_congr_right (or_congr_right (or_congr_right (and_congr_right fun _ => ?_)))
  rw [← any_matchingPermissions, matchingPermissions, any_eq_true, any_eq_true]
  simp only [mem_insertionSort, mem_filter, Bool.and_eq_true, candidateNode]
  constructor
  · rintro ⟨permission, mem, ⟨⟨⟨inScope, onPath⟩, allowed⟩, ofType⟩, holds⟩
    exact ⟨permission, ⟨mem, ⟨⟨inScope, onPath⟩, allowed⟩, ofType⟩, holds⟩
  · rintro ⟨permission, ⟨mem, ⟨⟨inScope, onPath⟩, allowed⟩, ofType⟩, holds⟩
    exact ⟨permission, mem, ⟨⟨⟨inScope, onPath⟩, allowed⟩, ofType⟩, holds⟩

/-- Conditions do not see what else is granted. -/
theorem permitted_withGrants (resolved : auth.resolvedPermissions.isSome) :
    Permitted engine node operation (auth.withGrants permissions) scope ↔
      auth.isSystem ∨ auth.isSystemAdmin ∨ visitorZone auth scope node.path operation = some true ∨
        visitorZone auth scope node.path operation = none ∧
          ∃ permission ∈ permissions, permission.Grants engine node operation auth scope := by
  have admin : (auth.withGrants permissions).isSystemAdmin = auth.isSystemAdmin := by
    unfold AuthContext.isSystemAdmin AuthContext.withGrants
    cases auth.resolvedPermissions <;> rfl
  have grants : (auth.withGrants permissions).grants = permissions := by
    unfold AuthContext.grants AuthContext.withGrants
    cases found : auth.resolvedPermissions with
    | none => simp [found] at resolved
    | some all => rfl
  have zone : visitorZone (auth.withGrants permissions) scope node.path operation =
      visitorZone auth scope node.path operation := by
    rw [visitorZone, visitorZone, admin]
    rfl
  rw [Permitted, admin, zone, grants]
  have same : ∀ permission : Permission,
      permission.Grants engine node operation (auth.withGrants permissions) scope ↔
        permission.Grants engine node operation auth scope := by
    intro permission
    constructor
    · rintro ⟨inScope, onPath, allowed, ofType, holds⟩
      exact ⟨inScope, onPath, allowed, ofType, holds⟩
    · rintro ⟨inScope, onPath, allowed, ofType, holds⟩
      exact ⟨inScope, onPath, allowed, ofType, holds⟩
  simp only [same]
  rfl

/-- A caller whose permissions were not resolved cannot be granted anything. -/
theorem withGrants_of_unresolved (unresolved : auth.resolvedPermissions = none) :
    auth.withGrants permissions = auth := by
  rw [AuthContext.withGrants, unresolved, Option.map_none, ← unresolved]

/-- More grants never deny. -/
theorem permitted_of_subset {more : List Permission} (wider : auth.grants ⊆ more)
    (permitted : Permitted engine node operation auth scope) :
    Permitted engine node operation (auth.withGrants more) scope := by
  cases resolved : auth.resolvedPermissions with
  | none => rwa [withGrants_of_unresolved resolved]
  | some _ =>
      rw [permitted_withGrants (by rw [resolved]; rfl)]
      refine permitted.imp_right (Or.imp_right (Or.imp_right ?_))
      rintro ⟨silent, permission, granted, grants⟩
      exact ⟨silent, permission, wider granted, grants⟩

/-- The order of the grants does not matter. -/
theorem permitted_of_perm {shuffled : List Permission} (same : shuffled.Perm auth.grants) :
    Permitted engine node operation (auth.withGrants shuffled) scope ↔
      Permitted engine node operation auth scope := by
  cases resolved : auth.resolvedPermissions with
  | none => rw [withGrants_of_unresolved resolved]
  | some _ =>
      rw [permitted_withGrants (by rw [resolved]; rfl), Permitted]
      simp only [same.mem_iff]

/-! ## Before reading -/

/-- A visitor session that is none of the above reads its own home. -/
def ReadsOwnHome (auth : AuthContext) (scope : PermissionScope) (path : String) : Prop :=
  auth.isSystem = false ∧ visitorZone auth scope path .read = some true

/-- Something in the scope may be read. -/
def HasReadGrant (engine : Engine F) (auth : AuthContext) (scope : PermissionScope) : Prop :=
  ∃ permission ∈ auth.grants, .read ∈ permission.operations ∧
    permission.appliesToScope engine scope

theorem mayRead_iff (path : Option String) (zone : Option Bool)
    (zone_eq : zone = match path with
      | some path => visitorZone auth scope path .read
      | none => if auth.visitorHome.isSome then some true else none) :
    mayRead engine auth scope path ↔
      auth.isSystem ∨ auth.isSystemAdmin ∨ zone = some true ∨
        zone = none ∧ ∃ permission ∈ auth.grants, .read ∈ permission.operations ∧
          permission.appliesToScope engine scope ∧
          ∀ inner ∈ path, permission.matchesPath engine inner := by
  have places : mayRead engine auth scope path = decided auth zone fun permissions =>
      permissions.any fun permission =>
        permission.operations.contains .read && permission.appliesToScope engine scope &&
          path.all fun path => permission.matchesPath engine path := by
    rw [zone_eq]
    rfl
  have adminFree : auth.isSystemAdmin → zone ≠ some false := by
    intro admin
    rw [zone_eq]
    cases path with
    | some path => simp [visitorZone_of_admin path admin]
    | none => by_cases home : auth.visitorHome.isSome <;> simp [home]
  rw [places, decided_iff adminFree rfl]
  refine or_congr_right (or_congr_right (or_congr_right (and_congr_right fun _ => ?_)))
  rw [any_eq_true]
  cases path <;> simp [and_assoc]

/-- What the zone allows is in the home of a visitor. -/
theorem visitorHome_of_zone {path : String} (zone : visitorZone auth scope path .read = some true) :
    auth.visitorHome.isSome := by
  unfold visitorZone visitorZoneDecision at zone
  split at zone
  · cases zone
  · split at zone
    · cases zone
    · cases found : auth.visitorHome with
      | none => simp [found] at zone
      | some home => rfl

/-- What can be read may be read, wherever it is asked. -/
theorem mayRead_of_permitted (permitted : Permitted engine node .read auth scope)
    {path : Option String} (here : path = some node.path ∨ path = none) :
    mayRead engine auth scope path := by
  rw [mayRead_iff path _ rfl]
  rcases permitted with system | admin | zone | ⟨silent, permission, granted, grants⟩
  · exact Or.inl system
  · exact Or.inr (Or.inl admin)
  · refine Or.inr (Or.inr (Or.inl ?_))
    rcases here with rfl | rfl
    · exact zone
    · simp [visitorHome_of_zone zone]
  · refine Or.inr (Or.inr ?_)
    rcases here with rfl | rfl
    · refine Or.inr ⟨silent, permission, granted, grants.operation, grants.scope, ?_⟩
      exact fun path same => Option.some.inj same ▸ grants.path
    · by_cases home : auth.visitorHome.isSome
      · simp [home]
      · refine Or.inr ⟨by simp [home], permission, granted, grants.operation, grants.scope, ?_⟩
        exact fun inner nothing => (Option.not_mem_none inner nothing).elim

theorem keeps_readableWorkspaces {candidates : List String}
    (candidate : scope.workspace ∈ candidates) :
    (readableWorkspaces engine auth candidates scope.branch).Keeps scope.workspace ↔
      auth.isSystem ∨ auth.isSystemAdmin ∨ HasReadGrant engine auth scope := by
  unfold readableWorkspaces HasReadGrant AuthContext.isSystemAdmin AuthContext.grants
  by_cases system : auth.isSystem
  · simp [system, ReadableWorkspaces.Keeps]
  · simp only [system]
    cases auth.resolvedPermissions with
    | none => simp [ReadableWorkspaces.Keeps]
    | some resolved =>
        by_cases admin : resolved.isSystemAdmin
        · simp [admin, ReadableWorkspaces.Keeps]
        · simp [admin, ReadableWorkspaces.Keeps, candidate]

end Places

/-- Patterns and conditions play no part here. -/
def noEngine : Engine Unit := ⟨fun _ => none, fun _ => none, fun _ => none⟩

def visitor : AuthContext :=
  { AuthContext.anonymous with visitorHome := some "/visitors/0123456789abcdef" }

def visitorChat : Node Unit :=
  { alicesPage with path := "/visitors/0123456789abcdef/inbox", properties := ∅ }

end RaisinDB.Access
