import RaisinDB.Packages.GlobPatterns

/-!
# Sync filters

A filter is meant for its root and for what lies below it.  The lookups take every path whose text
begins with the text of the root, so the filter also reaches the siblings whose names go on where
the name of the root ends.
-/

namespace RaisinDB.Packages

open List

inductive SyncMode where
  | skip
  | replace
  | merge
  | update
  deriving DecidableEq

inductive SyncDirection where
  | bidirectional
  | localOnly
  | serverOnly
  | pushOnly
  deriving DecidableEq

inductive ConflictStrategy where
  | ask
  | preferLocal
  | preferServer
  | preferNewer
  | keepBoth
  | mergeProperties
  | abort
  deriving DecidableEq

structure SyncFilter where
  root : String
  mode : Option SyncMode
  direction : Option SyncDirection
  includes : List String
  excludes : List String
  onConflict : Option ConflictStrategy

structure SyncDefaults where
  mode : SyncMode
  onConflict : ConflictStrategy

structure SyncConfig where
  defaults : SyncDefaults
  filters : List SyncFilter
  conflicts : List (String × ConflictStrategy)

/-! ## Lookups -/

/-- The last filter that governs the path and sets the field, with what it sets. -/
def lastSetting {β : Type} (governs : SyncFilter → Bool) (field : SyncFilter → Option β)
    (filters : List SyncFilter) : Option (SyncFilter × β) :=
  filters.reverse.findSome? fun filter =>
    if governs filter then (field filter).map fun value => (filter, value) else none

/-- Some pattern takes the path.  Without a value a match has panicked. -/
def anyMatches (path : String) : List String → Option Bool
  | [] => some false
  | pattern :: rest =>
      match globMatches pattern path with
      | none => none
      | some true => some true
      | some false => anyMatches path rest

namespace SyncFilter

variable (self : SyncFilter)

/-- The path behind the root, without slashes in front. -/
def relativePath (path : String) : String :=
  let behind := if self.root.toList <+: path.toList then path.toList.drop self.root.toList.length
    else path.toList
  String.ofList (behind.dropWhile (· = '/'))

def admits (path : String) : Option Bool :=
  if self.direction = some .localOnly then some false
  else
    match (if self.includes.isEmpty then some true
      else anyMatches (self.relativePath path) self.includes) with
    | none => none
    | some false => some false
    | some true => (anyMatches (self.relativePath path) self.excludes).map (!·)

end SyncFilter

namespace SyncConfig

variable (self : SyncConfig) (governs : SyncFilter → Bool)

def modeAndSource : SyncMode × Option String :=
  match lastSetting governs SyncFilter.mode self.filters with
  | some (filter, mode) => (mode, some filter.root)
  | none => (self.defaults.mode, none)

def direction : SyncDirection :=
  match lastSetting governs SyncFilter.direction self.filters with
  | some (_, direction) => direction
  | none => .bidirectional

def conflictStrategy (path : String) : ConflictStrategy :=
  match self.conflicts.lookup path with
  | some strategy => strategy
  | none =>
      match lastSetting governs SyncFilter.onConflict self.filters with
      | some (_, strategy) => strategy
      | none => self.defaults.onConflict

def shouldSync (path : String) : Option Bool :=
  match self.filters.reverse.find? governs with
  | some filter => filter.admits path
  | none => some true

end SyncConfig

/-- The text of the path begins with the text of the root. -/
def startsWith (path : String) (filter : SyncFilter) : Bool := filter.root.toList <+: path.toList

namespace SyncConfig

variable (self : SyncConfig) (path : String)

def getModeAndSourceForPath : SyncMode × Option String := self.modeAndSource (startsWith path)

def getDirectionForPath : SyncDirection := self.direction (startsWith path)

def getConflictStrategyForPath : ConflictStrategy := self.conflictStrategy (startsWith path) path

def shouldSyncPath : Option Bool := self.shouldSync (startsWith path) path

end SyncConfig

/-! ## Roots -/

/-- How the paths below a root begin. -/
def below (root : List Char) : List Char :=
  if root = [] ∨ root.getLast? = some '/' then root else root ++ ['/']

/-- The path is the root or lies below it. -/
def Governs (root path : List Char) : Prop := path = root ∨ below root <+: path

instance (root path : List Char) : Decidable (Governs root path) :=
  inferInstanceAs (Decidable (path = root ∨ below root <+: path))

def governs (path : String) (filter : SyncFilter) : Bool := Governs filter.root.toList path.toList

/-- The last name of the root goes on in the path. -/
structure NameGoesOn (root path : List Char) : Prop where
  nonempty : root ≠ []
  unfinished : root.getLast? ≠ some '/'
  goesOn : ∃ char rest, path = root ++ char :: rest ∧ char ≠ '/'

theorem Governs.starts {root path : List Char} (governed : Governs root path) : root <+: path := by
  rcases governed with rfl | below'
  · exact prefix_rfl
  · refine IsPrefix.trans ?_ below'
    unfold below
    split
    · exact prefix_rfl
    · exact prefix_append _ _

theorem not_governs_of_goesOn {root path : List Char} (sibling : NameGoesOn root path) :
    ¬ Governs root path := by
  obtain ⟨char, rest, rfl, other⟩ := sibling.goesOn
  rintro (same | ⟨back, joined⟩)
  · exact cons_ne_nil char rest (append_right_eq_self.mp same)
  · rw [below, if_neg (not_or.mpr ⟨sibling.nonempty, sibling.unfinished⟩), append_assoc] at joined
    exact other (cons.inj (append_cancel_left joined)).1.symm

theorem governs_of_starts {root path : List Char} (starts : root <+: path)
    (apart : ¬ NameGoesOn root path) : Governs root path := by
  obtain ⟨back, rfl⟩ := starts
  by_cases whole : root = [] ∨ root.getLast? = some '/'
  · refine .inr ?_
    rw [below, if_pos whole]
    exact prefix_append _ _
  · cases back with
    | nil => exact .inl (append_nil root)
    | cons char rest =>
        refine .inr ?_
        rw [below, if_neg whole]
        obtain ⟨nonempty, unfinished⟩ := not_or.mp whole
        have slash : char = '/' := by
          by_contra other
          exact apart ⟨nonempty, unfinished, char, rest, rfl, other⟩
        exact ⟨rest, by rw [slash, append_assoc]; rfl⟩

theorem startsWith_eq_governs {path : String} {filter : SyncFilter}
    (apart : ¬ NameGoesOn filter.root.toList path.toList) :
    startsWith path filter = governs path filter :=
  decide_eq_decide.mpr ⟨fun starts => governs_of_starts starts apart, Governs.starts⟩

/-! ## Whether the lookups keep to the roots -/

/-- All filters with these roots govern the path in the four lookups as they should. -/
def LookupsFollow (roots : List String) (path : String) : Prop :=
  ∀ config : SyncConfig, config.filters.map SyncFilter.root = roots →
    config.getModeAndSourceForPath path = config.modeAndSource (governs path) ∧
    config.getDirectionForPath path = config.direction (governs path) ∧
    config.getConflictStrategyForPath path = config.conflictStrategy (governs path) path ∧
    config.shouldSyncPath path = config.shouldSync (governs path) path

theorem findSome?_congr {α β : Type} {first second : α → Option β} {items : List α}
    (same : ∀ item ∈ items, first item = second item) :
    items.findSome? first = items.findSome? second := by
  induction items with
  | nil => rfl
  | cons item rest ih =>
      rw [findSome?_cons, findSome?_cons, same item mem_cons_self,
        ih fun other mem => same other (mem_cons_of_mem _ mem)]

theorem lastSetting_congr {β : Type} {first second : SyncFilter → Bool}
    (field : SyncFilter → Option β) {filters : List SyncFilter}
    (same : ∀ filter ∈ filters, first filter = second filter) :
    lastSetting first field filters = lastSetting second field filters :=
  findSome?_congr fun filter mem => by rw [same filter (mem_reverse.mp mem)]

/-- A filter that sets nothing but a direction. -/
def directed (direction : Option SyncDirection) (root : String) : SyncFilter :=
  ⟨root, none, direction, [], [], none⟩

theorem lastSetting_silent {governs : SyncFilter → Bool} (roots : List String) :
    lastSetting governs SyncFilter.direction (roots.map (directed none)) = none := by
  refine findSome?_eq_none_iff.mpr fun filter mem => ?_
  obtain ⟨root, _, rfl⟩ := mem_map.mp (mem_reverse.mp mem)
  exact ite_self none

/-- Among filters that set nothing, the one that does decides where it governs. -/
theorem lastSetting_directed {governs : SyncFilter → Bool} (before after : List String)
    (root : String) : lastSetting governs SyncFilter.direction (before.map (directed none) ++
      directed (some .localOnly) root :: after.map (directed none)) =
        if governs (directed (some .localOnly) root) then
          some (directed (some .localOnly) root, .localOnly) else none := by
  have quiet := @lastSetting_silent governs after
  have quiet' := @lastSetting_silent governs before
  unfold lastSetting at quiet quiet' ⊢
  rw [reverse_append, reverse_cons, findSome?_append, findSome?_append, quiet, quiet',
    findSome?_singleton, Option.none_or, Option.or_none]
  rfl

theorem lookupsFollow_iff (roots : List String) (path : String) :
    LookupsFollow roots path ↔ ∀ root ∈ roots, ¬ NameGoesOn root.toList path.toList := by
  constructor
  · intro follow root mem sibling
    obtain ⟨before, after, rfl⟩ := append_of_mem mem
    let config : SyncConfig := ⟨⟨.replace, .ask⟩, before.map (directed none) ++
      directed (some .localOnly) root :: after.map (directed none), []⟩
    have names (front : List String) : (front.map (directed none)).map SyncFilter.root = front := by
      rw [map_map]
      exact map_id front
    have rooted : config.filters.map SyncFilter.root = before ++ root :: after := by
      rw [map_append, map_cons, names, names]
      rfl
    have directions := (follow config rooted).2.1
    have taken : startsWith path (directed (some .localOnly) root) = true :=
      decide_eq_true (by
        obtain ⟨char, rest, joined, _⟩ := sibling.goesOn
        exact ⟨char :: rest, joined.symm⟩)
    have left : governs path (directed (some .localOnly) root) = false :=
      decide_eq_false (not_governs_of_goesOn sibling)
    unfold SyncConfig.getDirectionForPath SyncConfig.direction at directions
    rw [lastSetting_directed, lastSetting_directed, taken, left] at directions
    cases directions
  · intro apart config rooted
    have same : ∀ filter ∈ config.filters, startsWith path filter = governs path filter := by
      intro filter mem
      refine startsWith_eq_governs (apart filter.root ?_)
      rw [← rooted]
      exact mem_map_of_mem mem
    refine ⟨?_, ?_, ?_, ?_⟩
    · unfold SyncConfig.getModeAndSourceForPath SyncConfig.modeAndSource
      rw [lastSetting_congr _ same]
    · unfold SyncConfig.getDirectionForPath SyncConfig.direction
      rw [lastSetting_congr _ same]
    · unfold SyncConfig.getConflictStrategyForPath SyncConfig.conflictStrategy
      rw [lastSetting_congr _ same]
    · unfold SyncConfig.shouldSyncPath SyncConfig.shouldSync
      rw [find?_congr fun filter mem => same filter (mem_reverse.mp mem)]

/-- Patterns are answered as they are meant where no star passes a character of several bytes, and
filters keep to their roots where the last name of no root goes on in the path. -/
theorem sync_filters_select_iff (pattern path : String) (roots : List String) :
    ((∃ answer, globMatches pattern path = some answer ∧
        (answer = true ↔ GlobDescribes pattern path)) ↔ GlobSafe pattern path) ∧
      (LookupsFollow roots path ↔ ∀ root ∈ roots, ¬ NameGoesOn root.toList path.toList) :=
  ⟨globMatches_answers_iff pattern path, lookupsFollow_iff roots path⟩

/-- A filter that keeps drafts local. -/
def draftsConfig : SyncConfig where
  defaults := ⟨.replace, .ask⟩
  filters := [directed (some .localOnly) "/content/draft"]
  conflicts := []

/-- A name with an umlaut breaks the match, and a sibling is kept local. -/
theorem sibling_is_kept_local :
    globMatches "*.md" "\u00fcber.md" = none ∧
      draftsConfig.shouldSyncPath "/content/drafting" = some false ∧
      ¬ Governs "/content/draft".toList "/content/drafting".toList := by
  decide

end RaisinDB.Packages
