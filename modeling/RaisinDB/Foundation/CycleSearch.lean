import Mathlib

/-!
# Searching for a circle in depth

The search goes from a name to what it needs, keeps the path on which it came, and finds a circle
where it meets a name of the path again.  Names that it has left lead into no circle.
-/

namespace RaisinDB.Foundation

open List

variable {ν : Type} [DecidableEq ν]

structure SearchState (ν : Type) where
  visited : List ν
  recStack : List ν
  path : List ν

inductive Found (ν : Type) where
  | cycle (names : List ν)
  | nothing
  | panicked

/-- Look at the needs of a name in turn. -/
def scanNeeds (visit : ν → SearchState ν → Found ν × SearchState ν) :
    List ν → SearchState ν → Found ν × SearchState ν
  | [], state => (.nothing, state)
  | need :: rest, state =>
      if need ∉ state.visited then
        match visit need state with
        | (.nothing, state') => scanNeeds visit rest state'
        | (.cycle names, state') => (.cycle names, state')
        | (.panicked, state') => (.panicked, state')
      else if need ∈ state.recStack then
        match state.path.idxOf? need with
        | some start => (.cycle (state.path.drop start ++ [need]), state)
        | none => (.panicked, state)
      else scanNeeds visit rest state

def visitFrom (needs : ν → List ν) : Nat → ν → SearchState ν → Found ν × SearchState ν
  | 0, _, state => (.panicked, state)
  | fuel + 1, name, state =>
      match scanNeeds (visitFrom needs fuel) (needs name)
        ⟨name :: state.visited, name :: state.recStack, state.path ++ [name]⟩ with
      | (.nothing, state') =>
          (.nothing, ⟨state'.visited, state'.recStack.erase name, state'.path.dropLast⟩)
      | (.cycle names, state') => (.cycle names, state')
      | (.panicked, state') => (.panicked, state')

/-- Start at each of the names that has not been visited. -/
def findFrom (needs : ν → List ν) (fuel : Nat) : List ν → SearchState ν → Found ν
  | [], _ => .nothing
  | name :: rest, state =>
      if name ∉ state.visited then
        match visitFrom needs fuel name state with
        | (.nothing, state') => findFrom needs fuel rest state'
        | (found, _) => found
      else findFrom needs fuel rest state

/-! ## What the search keeps -/

variable {needs : ν → List ν}

/-- Each name needs the next one, and the last one is the first. -/
structure IsCycle (needs : ν → List ν) (names : List ν) : Prop where
  chain : names.IsChain fun name need => need ∈ needs name
  closed : names.head? = names.getLast?
  long : 2 ≤ names.length

/-- The path leads from need to need, and what was left leads into no circle. -/
structure Searching (needs : ν → List ν) (state : SearchState ν) : Prop where
  stack : state.recStack = state.path.reverse
  chain : state.path.IsChain fun name need => need ∈ needs name
  seen : ∀ name ∈ state.path, name ∈ state.visited
  left : ∀ name ∈ state.visited, name ∈ state.path ∨ Acc (fun need name => need ∈ needs name) name

/-- How a search that began in one state may have ended. -/
def Ended (needs : ν → List ν) (before : SearchState ν) (scanned : List ν) :
    Found ν × SearchState ν → Prop
  | (.cycle names, _) => IsCycle needs names
  | (.nothing, after) => Searching needs after ∧ after.path = before.path ∧
      before.visited ⊆ after.visited ∧
      ∀ name ∈ scanned, Acc (fun need name => need ∈ needs name) name
  | (.panicked, _) => False

/-- How many names have not been visited. -/
def unvisited (names : List ν) (state : SearchState ν) : Nat :=
  names.countP (· ∉ state.visited)

theorem unvisited_mono {names : List ν} {state state' : SearchState ν}
    (more : state.visited ⊆ state'.visited) : unvisited names state' ≤ unvisited names state :=
  countP_mono_left fun _ _ fresh => decide_eq_true fun old => of_decide_eq_true fresh (more old)

theorem unvisited_enter {names : List ν} {state state' : SearchState ν} {name : ν}
    (known : name ∈ names) (fresh : name ∉ state.visited)
    (entered : state'.visited = name :: state.visited) :
    unvisited names state' < unvisited names state := by
  obtain ⟨front, back, rfl⟩ := append_of_mem known
  have more : state.visited ⊆ state'.visited := by
    rw [entered]
    exact subset_cons_self _ _
  have here := @unvisited_mono ν _ front _ _ more
  have there := @unvisited_mono ν _ back _ _ more
  unfold unvisited at here there ⊢
  rw [countP_append, countP_append, countP_cons, countP_cons]
  rw [entered] at here there ⊢
  simp only [mem_cons, true_or, not_true_eq_false, decide_false, fresh, not_false_eq_true,
    decide_true, if_true]
  simp only [mem_cons] at here there
  simp only [Bool.false_eq_true, if_false]
  omega

/-- A need that is on the path closes a circle. -/
theorem isCycle_of_path {state : SearchState ν} {name need : ν} {start : Nat}
    (searching : Searching needs state) (last : state.path.getLast? = some name)
    (needed : need ∈ needs name) (found : state.path.idxOf? need = some start) :
    IsCycle needs (state.path.drop start ++ [need]) := by
  obtain ⟨inside, here, -⟩ := idxOf?_eq_some_iff.mp found
  have begins : (state.path.drop start).head? = some need := by
    rw [head?_drop, getElem?_eq_getElem inside, here]
  have ends : (state.path.drop start).getLast? = some name := by
    rw [getLast?_drop, if_neg (Nat.not_le.mpr inside), last]
  refine ⟨isChain_append.mpr ⟨searching.chain.drop start, isChain_singleton need, ?_⟩, ?_, ?_⟩
  · intro before mem after same
    rw [ends] at mem
    cases mem
    cases same
    exact needed
  · rw [getLast?_concat, head?_append, begins]
    rfl
  · rw [length_append, length_drop, length_singleton]
    omega

omit [DecidableEq ν] in
/-- A name is entered from the end of the path. -/
theorem Searching.enter {state : SearchState ν} {name : ν} (searching : Searching needs state)
    (linked : ∀ last, state.path.getLast? = some last → name ∈ needs last) :
    Searching needs ⟨name :: state.visited, name :: state.recStack, state.path ++ [name]⟩ where
  stack := by rw [reverse_append, searching.stack]; rfl
  chain := isChain_append.mpr ⟨searching.chain, isChain_singleton name, fun last mem next same => by
    cases same
    exact linked last mem⟩
  seen other mem := by
    rcases mem_append.mp mem with old | new
    · exact mem_cons_of_mem _ (searching.seen other old)
    · rw [mem_singleton.mp new]
      exact mem_cons_self
  left other mem := by
    rcases mem_cons.mp mem with rfl | old
    · exact .inl (mem_append_right _ (mem_singleton.mpr rfl))
    · exact (searching.left other old).imp_left (mem_append_left _)

/-- A name is left when none of its needs leads into a circle. -/
theorem Searching.leave {state : SearchState ν} {path : List ν} {name : ν}
    (searching : Searching needs state) (here : state.path = path ++ [name])
    (acc : ∀ need ∈ needs name, Acc (fun need name => need ∈ needs name) need) :
    Searching needs ⟨state.visited, state.recStack.erase name, state.path.dropLast⟩ := by
  have back : state.path.dropLast = path := by rw [here, dropLast_concat]
  refine ⟨?_, ?_, fun other mem => ?_, fun other mem => ?_⟩
  · dsimp only
    rw [back, searching.stack, here, reverse_append, reverse_singleton, singleton_append,
      erase_cons_head]
  · exact searching.chain.dropLast
  · exact searching.seen other (mem_of_mem_dropLast mem)
  · rcases searching.left other mem with onPath | settled
    · rw [here] at onPath
      dsimp only
      rw [back]
      rcases mem_append.mp onPath with old | new
      · exact .inl old
      · rw [mem_singleton.mp new]
        exact .inr ⟨name, fun need mem => acc need mem⟩
    · exact .inr settled

/-- The needs of the last name of the path are looked at in turn, each as a visit goes. -/
theorem ended_scan {within : List ν} {fuel : Nat}
    {visit : ν → SearchState ν → Found ν × SearchState ν}
    (visits : ∀ (need : ν) (state : SearchState ν), Searching needs state →
      need ∉ state.visited → need ∈ within →
      (∀ last, state.path.getLast? = some last → need ∈ needs last) →
      unvisited within state ≤ fuel → Ended needs state [need] (visit need state))
    {name : ν} (todo : List ν) {state : SearchState ν} (searching : Searching needs state)
    (last : state.path.getLast? = some name)
    (known : ∀ need ∈ todo, need ∈ needs name ∧ need ∈ within)
    (enough : unvisited within state ≤ fuel) :
    Ended needs state todo (scanNeeds visit todo state) := by
  induction todo generalizing state with
  | nil => exact ⟨searching, rfl, Subset.refl _, fun _ mem => absurd mem not_mem_nil⟩
  | cons need rest ih =>
    obtain ⟨needed, inside⟩ := known need mem_cons_self
    have later : ∀ other ∈ rest, other ∈ needs name ∧ other ∈ within :=
      fun other mem => known other (mem_cons_of_mem _ mem)
    rw [scanNeeds]
    by_cases fresh : need ∉ state.visited
    · rw [if_pos fresh]
      have visited := visits need state searching fresh inside
        (fun end' same => by rw [last] at same; cases same; exact needed) enough
      cases outcome : visit need state with
      | mk found after =>
        rw [outcome] at visited
        cases found with
        | cycle names => exact visited
        | panicked => exact visited
        | nothing =>
          obtain ⟨still, same, more, acc⟩ := visited
          have rest' := ih still (same ▸ last) later ((unvisited_mono more).trans enough)
          dsimp only
          cases outcome' : scanNeeds visit rest after with
          | mk found' after' =>
            rw [outcome'] at rest'
            cases found' with
            | cycle names => exact rest'
            | panicked => exact rest'
            | nothing =>
              obtain ⟨still', same', more', acc'⟩ := rest'
              exact ⟨still', same'.trans same, Subset.trans more more',
                forall_mem_cons.mpr ⟨acc need mem_cons_self, acc'⟩⟩
    · rw [if_neg fresh]
      have old : need ∈ state.visited := not_not.mp fresh
      by_cases stacked : need ∈ state.recStack
      · rw [if_pos stacked]
        rw [searching.stack, mem_reverse] at stacked
        cases found : state.path.idxOf? need with
        | none => exact absurd stacked (idxOf?_eq_none_iff.mp found)
        | some start => exact isCycle_of_path searching last needed found
      · rw [if_neg stacked]
        rw [searching.stack, mem_reverse] at stacked
        have acc := (searching.left need old).resolve_left stacked
        have rest' := ih searching last later enough
        cases outcome' : scanNeeds visit rest state with
        | mk found' after' =>
          rw [outcome'] at rest'
          cases found' with
          | cycle names => exact rest'
          | panicked => exact rest'
          | nothing =>
            obtain ⟨still', same', more', acc'⟩ := rest'
            exact ⟨still', same', more', forall_mem_cons.mpr ⟨acc, acc'⟩⟩

/-- A visit ends with a circle, or its name leads into none. -/
theorem ended_visit {within : List ν}
    (closed : ∀ name ∈ within, ∀ need ∈ needs name, need ∈ within) (fuel : Nat) :
    ∀ (name : ν) (state : SearchState ν), Searching needs state → name ∉ state.visited →
      name ∈ within → (∀ last, state.path.getLast? = some last → name ∈ needs last) →
      unvisited within state ≤ fuel →
      Ended needs state [name] (visitFrom needs fuel name state) := by
  induction fuel with
  | zero =>
    intro name state _ fresh known _ enough
    have entered := @unvisited_enter ν _ within state
      ⟨name :: state.visited, [], []⟩ name known fresh rfl
    omega
  | succ fuel ih =>
    intro name state searching fresh known linked enough
    have entered := @unvisited_enter ν _ within state
      ⟨name :: state.visited, name :: state.recStack, state.path ++ [name]⟩ name known fresh rfl
    have scanned := ended_scan ih (needs name) (searching.enter linked) getLast?_concat
      (fun need mem => ⟨mem, closed name known need mem⟩) (by omega)
    rw [visitFrom]
    cases outcome : scanNeeds (visitFrom needs fuel) (needs name)
        ⟨name :: state.visited, name :: state.recStack, state.path ++ [name]⟩ with
    | mk found after =>
      rw [outcome] at scanned
      cases found with
      | cycle names => exact scanned
      | panicked => exact scanned
      | nothing =>
        obtain ⟨still, same, more, acc⟩ := scanned
        refine ⟨still.leave same acc, ?_, fun other mem => more (mem_cons_of_mem _ mem), ?_⟩
        · dsimp only at same ⊢
          rw [same, dropLast_concat]
        · intro other mem
          rw [mem_singleton.mp mem]
          exact ⟨name, fun need mem => acc need mem⟩

/-- The search finds a circle, or none of the names leads into one. -/
theorem findFrom_spec {within : List ν} {fuel : Nat}
    (closed : ∀ name ∈ within, ∀ need ∈ needs name, need ∈ within)
    (enough : within.length ≤ fuel) (todo : List ν) {state : SearchState ν}
    (searching : Searching needs state) (root : state.path = [])
    (known : ∀ name ∈ todo, name ∈ within) :
    (∃ names, findFrom needs fuel todo state = .cycle names ∧ IsCycle needs names) ∨
      findFrom needs fuel todo state = .nothing ∧
        ∀ name ∈ todo, Acc (fun need name => need ∈ needs name) name := by
  induction todo generalizing state with
  | nil => exact .inr ⟨rfl, fun _ mem => absurd mem not_mem_nil⟩
  | cons name rest ih =>
    have later : ∀ other ∈ rest, other ∈ within :=
      fun other mem => known other (mem_cons_of_mem _ mem)
    rw [findFrom]
    by_cases fresh : name ∉ state.visited
    · rw [if_pos fresh]
      have visited := ended_visit closed fuel name state searching fresh
        (known name mem_cons_self) (fun last same => by rw [root] at same; cases same)
        (countP_le_length.trans enough)
      cases outcome : visitFrom needs fuel name state with
      | mk found after =>
        rw [outcome] at visited
        cases found with
        | cycle names => exact .inl ⟨names, rfl, visited⟩
        | panicked => exact visited.elim
        | nothing =>
          obtain ⟨still, same, _, acc⟩ := visited
          refine (ih still (same.trans root) later).imp_right fun ⟨quiet, accs⟩ => ⟨quiet, ?_⟩
          exact forall_mem_cons.mpr ⟨acc name mem_cons_self, accs⟩
    · rw [if_neg fresh]
      have acc := (searching.left name (not_not.mp fresh)).resolve_left (by rw [root]; simp)
      exact (ih searching root later).imp_right fun ⟨quiet, accs⟩ =>
        ⟨quiet, forall_mem_cons.mpr ⟨acc, accs⟩⟩

end RaisinDB.Foundation
