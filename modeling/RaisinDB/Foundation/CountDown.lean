import Mathlib

/-!
# Counting down to release

Every name has a count.  A name whose count is zero is released and tells its links, each of which
counts down by one.  The links may tell a name more often than its count expects, and then a count
would go below zero.  Whether that happens does not depend on the order of the releases.
-/

namespace RaisinDB.Foundation

open List

variable {ν : Type} [DecidableEq ν]

structure CountState (ν : Type) where
  counts : ν → Option Nat
  queue : List ν
  done : List ν

/-- Each name counts down and joins the queue at zero; names without a count are passed over.
Without a value a count would have gone below zero. -/
def tell : List ν → (ν → Option Nat) → List ν → Option ((ν → Option Nat) × List ν)
  | [], counts, queue => some (counts, queue)
  | name :: rest, counts, queue =>
      match counts name with
      | none => tell rest counts queue
      | some 0 => none
      | some (count + 1) =>
          tell rest (Function.update counts name (some count))
            (if count = 0 then queue ++ [name] else queue)

/-- The first name of the queue is released.  Nothing happens when the queue is empty. -/
def popOne (links : ν → List ν) (state : CountState ν) : Option (CountState ν) :=
  match state.queue with
  | [] => some state
  | current :: queue =>
      (tell (links current) state.counts queue).map fun told =>
        ⟨told.1, told.2, state.done ++ [current]⟩

def popAll (links : ν → List ν) : Nat → CountState ν → Option (CountState ν)
  | 0, state => some state
  | fuel + 1, state => (popOne links state).bind (popAll links fuel)

/-! ## One release -/

/-- What names are told in one release. -/
structure Told (links : List ν) (counts : ν → Option Nat) (queue : List ν)
    (counts' : ν → Option Nat) (queue' : List ν) : Prop where
  counted : ∀ name, counts' name = (counts name).map (· - links.count name)
  within : ∀ name count, counts name = some count → links.count name ≤ count
  queued : ∃ pushed, queue' = queue ++ pushed ∧ pushed.Nodup ∧
    ∀ name, name ∈ pushed ↔ counts name = some (links.count name) ∧ 0 < links.count name

theorem told_of_tell {links : List ν} {counts counts' : ν → Option Nat} {queue queue' : List ν}
    (told : tell links counts queue = some (counts', queue')) :
    Told links counts queue counts' queue' := by
  induction links generalizing counts queue with
  | nil =>
    cases told
    refine ⟨fun name => ?_, fun name count _ => Nat.zero_le count, [], (append_nil _).symm,
      nodup_nil, fun name => ?_⟩
    · simp
    · simp
  | cons first rest ih =>
    rw [tell] at told
    cases here : counts first with
    | none =>
      rw [here] at told
      obtain ⟨counted, within, pushed, joined, nodup, mem⟩ := ih told
      have other (name : ν) (known : counts name ≠ none) : first ≠ name :=
        fun same => known (same ▸ here)
      refine ⟨fun name => ?_, fun name count found => ?_, pushed, joined, nodup, fun name => ?_⟩
      · by_cases same : first = name
        · rw [counted, ← same, here]
          rfl
        · rw [counted, count_cons_of_ne same]
      · rw [count_cons_of_ne (other name (by rw [found]; exact Option.some_ne_none _))]
        exact within name count found
      · rw [mem]
        by_cases same : first = name
        · subst same
          rw [here]
          simp
        · rw [count_cons_of_ne same]
    | some count =>
      cases count with
      | zero =>
        rw [here] at told
        cases told
      | succ count =>
        rw [here] at told
        obtain ⟨counted, within, pushed, joined, nodup, mem⟩ := ih told
        refine ⟨fun name => ?_, fun name count' found => ?_, ?_⟩
        · by_cases same : first = name
          · subst same
            rw [counted, Function.update_self, here, count_cons_self]
            simp only [Option.map_some]
            congr 1
            omega
          · rw [counted, Function.update_of_ne (Ne.symm same), count_cons_of_ne same]
        · by_cases same : first = name
          · subst same
            rw [here] at found
            have bound := within first count (Function.update_self _ _ _)
            have value := Option.some.inj found
            rw [count_cons_self]
            omega
          · rw [count_cons_of_ne same]
            exact within name count' (by rwa [Function.update_of_ne (Ne.symm same)])
        · have bound := within first count (Function.update_self _ _ _)
          by_cases last : count = 0
          · subst last
            have free : rest.count first = 0 := Nat.le_zero.mp bound
            refine ⟨first :: pushed, by rw [joined, if_pos rfl, append_assoc]; rfl,
              nodup_cons.mpr ⟨fun inside => ?_, nodup⟩, fun name => ?_⟩
            · have positive := ((mem first).mp inside).2
              omega
            · by_cases same : first = name
              · subst same
                simp [here, count_cons_self, free]
              · rw [mem_cons, mem, Function.update_of_ne (Ne.symm same), count_cons_of_ne same]
                simp [Ne.symm same]
          · refine ⟨pushed, by rw [joined, if_neg last], nodup, fun name => ?_⟩
            rw [mem]
            by_cases same : first = name
            · subst same
              rw [Function.update_self, here, count_cons_self]
              simp only [Option.some.injEq]
              omega
            · rw [Function.update_of_ne (Ne.symm same), count_cons_of_ne same]

theorem tell_isSome {links : List ν} {counts : ν → Option Nat} (queue : List ν)
    (within : ∀ name count, counts name = some count → links.count name ≤ count) :
    (tell links counts queue).isSome := by
  induction links generalizing counts queue with
  | nil => rfl
  | cons first rest ih =>
    rw [tell]
    cases here : counts first with
    | none =>
      exact ih queue fun name count found => (count_le_count_cons).trans (within name count found)
    | some count =>
      have bound := within first count here
      rw [count_cons_self] at bound
      cases count with
      | zero => omega
      | succ count =>
        refine ih _ fun name count' found => ?_
        by_cases same : name = first
        · subst same
          rw [Function.update_self] at found
          have value := Option.some.inj found
          omega
        · rw [Function.update_of_ne same] at found
          have bound' := within name count' found
          rwa [count_cons_of_ne (Ne.symm same)] at bound'

/-! ## Runs -/

section Runs

variable (names : List ν) (links : ν → List ν) (expected : ν → Nat)

/-- How often a name has been told after the releases. -/
def toldBy (released : List ν) (name : ν) : Nat :=
  (released.map fun source => (links source).count name).sum

/-- A sequence of releases in which each name has been told as often as it expects. -/
structure Supported (released : List ν) : Prop where
  nodup : released.Nodup
  names : ∀ name ∈ released, name ∈ names
  earlier : ∀ front name back, released = front ++ name :: back →
    expected name ≤ toldBy links front name

/-- No such sequence tells a name more often than it expects. -/
def Balanced : Prop :=
  ∀ released, Supported names links expected released →
    ∀ name ∈ names, toldBy links released name ≤ expected name

/-- What a run keeps. -/
structure CountingDown (state : CountState ν) : Prop where
  supported : Supported names links expected (state.done ++ state.queue)
  within : ∀ name ∈ names, toldBy links state.done name ≤ expected name
  left : ∀ name ∈ names,
    state.counts name = some (expected name - toldBy links state.done name)
  released : ∀ name ∈ names, name ∈ state.done ++ state.queue ↔
    toldBy links state.done name = expected name

variable {names links expected}

theorem toldBy_append (first second : List ν) (name : ν) :
    toldBy links (first ++ second) name = toldBy links first name + toldBy links second name := by
  rw [toldBy, map_append, sum_append]
  rfl

theorem toldBy_mono {first second : List ν} (nodup : first.Nodup) (inside : first ⊆ second)
    (name : ν) : toldBy links first name ≤ toldBy links second name := by
  obtain ⟨same, perm, sub⟩ := nodup.subperm inside
  unfold toldBy
  rw [← (perm.map fun source => (links source).count name).sum_eq]
  exact (sub.map fun source => (links source).count name).sum_le_sum fun _ _ => Nat.zero_le _

theorem Supported.left {front back : List ν}
    (supported : Supported names links expected (front ++ back)) :
    Supported names links expected front where
  nodup := supported.nodup.of_append_left
  names name mem := supported.names name (mem_append_left _ mem)
  earlier before name after joined :=
    supported.earlier before name (after ++ back) (by rw [joined, append_assoc, cons_append])

theorem Supported.concat {released : List ν} {name : ν}
    (supported : Supported names links expected released) (mem : name ∈ names)
    (fresh : name ∉ released) (told : expected name ≤ toldBy links released name) :
    Supported names links expected (released ++ [name]) where
  nodup := nodup_append.mpr ⟨supported.nodup, nodup_singleton name, fun first inside other same =>
    fun equal => fresh (by rw [← mem_singleton.mp same, ← equal]; exact inside)⟩
  names other inside := by
    rcases mem_append.mp inside with old | new
    · exact supported.names other old
    · rw [mem_singleton.mp new]
      exact mem
  earlier front other back joined := by
    rcases eq_nil_or_concat back with rfl | ⟨back, last, rfl⟩
    · obtain ⟨rfl, same⟩ := append_inj' joined rfl
      rw [← (cons.inj same).1]
      exact told
    · rw [concat_eq_append, ← cons_append, ← append_assoc] at joined
      obtain ⟨same, -⟩ := append_inj' joined rfl
      exact supported.earlier front other back same

/-- Names that have been told as often as they expect, put behind the ones that told them. -/
theorem Supported.append {released pushed : List ν}
    (supported : Supported names links expected released) (mem : ∀ name ∈ pushed, name ∈ names)
    (fresh : ∀ name ∈ pushed, name ∉ released) (nodup : pushed.Nodup)
    (told : ∀ name ∈ pushed, expected name ≤ toldBy links released name) :
    Supported names links expected (released ++ pushed) := by
  induction pushed generalizing released with
  | nil =>
    rw [append_nil]
    exact supported
  | cons name rest ih =>
    rw [← singleton_append, ← append_assoc]
    obtain ⟨absent, nodup⟩ := nodup_cons.mp nodup
    refine ih (supported.concat (mem name mem_cons_self) (fresh name mem_cons_self)
      (told name mem_cons_self)) (fun other inside => mem other (mem_cons_of_mem _ inside))
      (fun other inside old => ?_) nodup (fun other inside => ?_)
    · rcases mem_append.mp old with old | new
      · exact fresh other (mem_cons_of_mem _ inside) old
      · exact absent (mem_singleton.mp new ▸ inside)
    · rw [toldBy_append]
      exact (told other (mem_cons_of_mem _ inside)).trans (Nat.le_add_right _ _)

theorem toldBy_concat (done : List ν) (current name : ν) :
    toldBy links (done ++ [current]) name = toldBy links done name + (links current).count name := by
  rw [toldBy_append]
  rfl

/-- A run begins with the names that expect nothing. -/
theorem CountingDown.init {counts : ν → Option Nat} {queue : List ν} (nodup : queue.Nodup)
    (mem : ∀ name, name ∈ queue ↔ name ∈ names ∧ expected name = 0)
    (full : ∀ name ∈ names, counts name = some (expected name)) :
    CountingDown names links expected ⟨counts, queue, []⟩ where
  supported := {
    nodup := nodup
    names := fun name inside => ((mem name).mp inside).1
    earlier := fun front name back joined => by
      have inside : name ∈ queue := by
        rw [show queue = front ++ name :: back from joined]
        exact mem_append_right _ mem_cons_self
      rw [((mem name).mp inside).2]
      exact Nat.zero_le _ }
  within _ _ := Nat.zero_le _
  left name inside := full name inside
  released name inside := by
    rw [nil_append, mem, and_iff_right inside]
    exact eq_comm

/-- One release keeps it. -/
theorem CountingDown.step {state state' : CountState ν}
    (closed : ∀ source ∈ names, ∀ name ∈ links source, name ∈ names)
    (down : CountingDown names links expected state)
    (popped : popOne links state = some state') : CountingDown names links expected state' := by
  obtain ⟨counts, queue, done⟩ := state
  cases queue with
  | nil =>
    cases popped
    exact down
  | cons current queue =>
    obtain ⟨⟨counts', queue'⟩, told, rfl⟩ := Option.map_eq_some_iff.mp popped
    obtain ⟨counted, within, pushed, rfl, nodup, mem⟩ := told_of_tell told
    have inside : current ∈ names :=
      down.supported.names current (mem_append_right _ mem_cons_self)
    have shape : done ++ [current] ++ (queue ++ pushed) =
        (done ++ current :: queue) ++ pushed := by simp
    have bound (name : ν) (known : name ∈ names) :
        toldBy links (done ++ [current]) name ≤ expected name := by
      have room := within name _ (down.left name known)
      have before := down.within name known
      rw [toldBy_concat]
      dsimp only at room before
      omega
    have joins (name : ν) (known : name ∈ names) : name ∈ pushed ↔
        toldBy links done name + (links current).count name = expected name ∧
          0 < (links current).count name := by
      have before := down.within name known
      rw [mem, down.left name known, Option.some.injEq]
      dsimp only at before ⊢
      omega
    have names_of_pushed (name : ν) (new : name ∈ pushed) : name ∈ names :=
      closed current inside name (count_pos_iff.mp ((mem name).mp new).2)
    refine ⟨?_, bound, fun name known => ?_, fun name known => ?_⟩
    · dsimp only
      rw [shape]
      refine down.supported.append names_of_pushed (fun name new old => ?_) nodup fun name new => ?_
      · have known := names_of_pushed name new
        have full := (down.released name known).mp old
        have told := (joins name known).mp new
        dsimp only at full
        omega
      · have known := names_of_pushed name new
        have told := ((joins name known).mp new).1
        have more := @toldBy_append _ _ links (done ++ [current]) queue name
        rw [← told, ← toldBy_concat, show done ++ current :: queue = done ++ [current] ++ queue by
          simp, more]
        exact Nat.le_add_right _ _
    · have before := down.within name known
      dsimp only
      rw [counted, down.left name known, toldBy_concat, Option.map_some]
      dsimp only
      congr 1
      omega
    · have old := down.released name known
      have new := joins name known
      have before := down.within name known
      have after := bound name known
      dsimp only at old before after ⊢
      rw [shape, mem_append, old, new, toldBy_concat]
      rw [toldBy_concat] at after
      omega

theorem CountingDown.popAll {state state' : CountState ν} {fuel : Nat}
    (closed : ∀ source ∈ names, ∀ name ∈ links source, name ∈ names)
    (down : CountingDown names links expected state)
    (ran : popAll links fuel state = some state') : CountingDown names links expected state' := by
  induction fuel generalizing state with
  | zero =>
    cases ran
    exact down
  | succ fuel ih =>
    obtain ⟨next, popped, rest⟩ := Option.bind_eq_some_iff.mp ran
    exact ih (down.step closed popped) rest

/-- A balanced count never goes below zero. -/
theorem CountingDown.popOne_isSome {state : CountState ν}
    (closed : ∀ source ∈ names, ∀ name ∈ links source, name ∈ names)
    (balanced : Balanced names links expected) (down : CountingDown names links expected state) :
    (popOne links state).isSome := by
  obtain ⟨counts, queue, done⟩ := state
  cases queue with
  | nil => rfl
  | cons current queue =>
    have here : current ∈ names :=
      down.supported.names current (mem_append_right _ mem_cons_self)
    have supported : Supported names links expected (done ++ [current]) := by
      have whole := down.supported
      rw [show done ++ current :: queue = (done ++ [current]) ++ queue by simp] at whole
      exact whole.left
    have room (name : ν) (count : Nat) (found : counts name = some count) :
        (links current).count name ≤ count := by
      by_cases known : name ∈ names
      · have bound := balanced _ supported name known
        have left := down.left name known
        dsimp only at left
        rw [found, Option.some.injEq] at left
        rw [toldBy_concat] at bound
        omega
      · rw [count_eq_zero_of_not_mem fun mem => known (closed current here name mem)]
        exact Nat.zero_le _
    obtain ⟨told, happened⟩ := Option.isSome_iff_exists.mp (tell_isSome queue room)
    rw [popOne]
    dsimp only
    rw [happened]
    rfl

theorem CountingDown.popAll_isSome {state : CountState ν} (fuel : Nat)
    (closed : ∀ source ∈ names, ∀ name ∈ links source, name ∈ names)
    (balanced : Balanced names links expected) (down : CountingDown names links expected state) :
    (RaisinDB.Foundation.popAll links fuel state).isSome := by
  induction fuel generalizing state with
  | zero => rfl
  | succ fuel ih =>
    obtain ⟨next, popped⟩ := Option.isSome_iff_exists.mp (down.popOne_isSome closed balanced)
    rw [RaisinDB.Foundation.popAll, popped, Option.bind_some]
    exact ih (down.step closed popped)

theorem popAll_of_empty {state : CountState ν} (fuel : Nat) (empty : state.queue = []) :
    popAll links fuel state = some state := by
  induction fuel with
  | zero => rfl
  | succ fuel ih =>
    have stays : popOne links state = some state := by rw [popOne, empty]
    rw [popAll, stays, Option.bind_some, ih]

/-- After as many releases as there are names the queue is empty. -/
theorem CountingDown.queue_popAll {state state' : CountState ν} {fuel : Nat}
    (closed : ∀ source ∈ names, ∀ name ∈ links source, name ∈ names)
    (down : CountingDown names links expected state)
    (enough : names.length ≤ state.done.length + fuel)
    (ran : RaisinDB.Foundation.popAll links fuel state = some state') : state'.queue = [] := by
  induction fuel generalizing state with
  | zero =>
    cases ran
    have fits := (down.supported.nodup.subperm down.supported.names).length_le
    rw [length_append] at fits
    exact eq_nil_of_length_eq_zero (by omega)
  | succ fuel ih =>
    obtain ⟨next, popped, rest⟩ := Option.bind_eq_some_iff.mp ran
    cases queue : state.queue with
    | nil =>
      rw [popAll_of_empty _ queue] at ran
      cases ran
      exact queue
    | cons current later =>
      refine ih (down.step closed popped) ?_ rest
      rw [popOne, queue] at popped
      obtain ⟨told, _, rfl⟩ := Option.map_eq_some_iff.mp popped
      rw [length_append, length_singleton]
      omega

/-- Every supported sequence has been released in the end. -/
theorem CountingDown.released_of_supported {state : CountState ν}
    (down : CountingDown names links expected state) (empty : state.queue = [])
    {released : List ν} (supported : Supported names links expected released) :
    released ⊆ state.done := by
  induction released using List.reverseRecOn with
  | nil => exact nil_subset _
  | append_singleton front name ih =>
    have before := ih supported.left
    have known : name ∈ names := supported.names name (mem_append_right _ (mem_singleton.mpr rfl))
    have told : expected name ≤ toldBy links state.done name :=
      (supported.earlier front name [] rfl).trans (toldBy_mono supported.left.nodup before name)
    have here := (down.released name known).mpr (Nat.le_antisymm (down.within name known) told)
    rw [empty, append_nil] at here
    exact append_subset.mpr ⟨before, cons_subset.mpr ⟨here, nil_subset _⟩⟩

/-- A run comes to its end exactly if the names are balanced. -/
theorem CountingDown.popAll_isSome_iff {state : CountState ν} {fuel : Nat}
    (closed : ∀ source ∈ names, ∀ name ∈ links source, name ∈ names)
    (down : CountingDown names links expected state)
    (enough : names.length ≤ state.done.length + fuel) :
    (RaisinDB.Foundation.popAll links fuel state).isSome ↔ Balanced names links expected := by
  constructor
  · intro ends released supported name known
    obtain ⟨final, ran⟩ := Option.isSome_iff_exists.mp ends
    have last := down.popAll closed ran
    have inside := last.released_of_supported (down.queue_popAll closed enough ran) supported
    exact (toldBy_mono supported.nodup inside name).trans (last.within name known)
  · exact fun balanced => down.popAll_isSome fuel closed balanced

end Runs

/-! ## Dependencies -/

section Dependencies

variable {names : List ν} {links needs : ν → List ν} {expected : ν → Nat}

/-- A name needs another one that is there. -/
def Needs (names : List ν) (needs : ν → List ν) (source name : ν) : Prop :=
  source ∈ needs name ∧ source ∈ names

theorem countP_mem_cons {source : ν} {released : List ν} (fresh : source ∉ released)
    (items : List ν) : items.countP (· ∈ source :: released) =
      items.count source + items.countP (· ∈ released) := by
  induction items with
  | nil => rfl
  | cons item rest ih =>
    rw [countP_cons, countP_cons, ih, count_cons]
    by_cases same : item = source
    · subst same
      simp [fresh]
      omega
    · by_cases mem : item ∈ released
      · simp [same, mem]
        omega
      · simp [same, mem]

theorem sum_count_eq_countP {released : List ν} (nodup : released.Nodup) (items : List ν) :
    (released.map fun source => items.count source).sum = items.countP (· ∈ released) := by
  induction released with
  | nil => simp
  | cons source rest ih =>
    obtain ⟨fresh, nodup⟩ := nodup_cons.mp nodup
    rw [map_cons, sum_cons, ih nodup, countP_mem_cons fresh]

variable (expects : ∀ name ∈ names, expected name = (needs name).countP (· ∈ names))
  (told : ∀ source ∈ names, ∀ name ∈ names, (needs name).count source ≤ (links source).count name)

include told in
theorem countP_le_toldBy {released : List ν} (nodup : released.Nodup) (inside : released ⊆ names)
    {name : ν} (known : name ∈ names) :
    (needs name).countP (· ∈ released) ≤ toldBy links released name := by
  rw [← sum_count_eq_countP nodup, toldBy]
  exact sum_le_sum fun source mem => told source (inside mem) name known

include expects told in
/-- Where nothing is needed in a circle, everything is released. -/
theorem CountingDown.released_of_acc {state : CountState ν}
    (down : CountingDown names links expected state) (empty : state.queue = [])
    {name : ν} (known : name ∈ names) (acc : Acc (Needs names needs) name) : name ∈ state.done := by
  induction acc with
  | intro name _ ih =>
    have nodup := down.supported.nodup
    have inside := down.supported.names
    have released := down.released name known
    rw [empty, append_nil] at nodup inside released
    have all : (needs name).countP (· ∈ names) ≤ (needs name).countP (· ∈ state.done) := by
      refine countP_mono_left fun source mem here => ?_
      have there : source ∈ names := of_decide_eq_true here
      exact decide_eq_true (ih source ⟨mem, there⟩ there)
    refine released.mpr (Nat.le_antisymm (down.within name known) ?_)
    rw [expects name known]
    exact all.trans (countP_le_toldBy told nodup inside known)

include told in
/-- When everything has been released, each name came behind all that it needs. -/
theorem CountingDown.needs_before {state : CountState ν}
    (down : CountingDown names links expected state) (empty : state.queue = [])
    (all : names ⊆ state.done) {front back : List ν} {name : ν}
    (joined : state.done = front ++ name :: back) {source : ν}
    (need : Needs names needs source name) : source ∈ front := by
  have nodup := down.supported.nodup
  have inside := down.supported.names
  have earlier := down.supported.earlier front name (back ++ state.queue)
    (by rw [joined, append_assoc, cons_append])
  rw [empty, append_nil] at nodup inside
  have known : name ∈ names := inside name (joined ▸ mem_append_right _ mem_cons_self)
  have bound := down.within name known
  rw [joined, toldBy_append] at bound
  have silent : toldBy links (name :: back) name = 0 := by omega
  rcases mem_append.mp (joined ▸ all need.2) with here | there
  · exact here
  · have none : (links source).count name = 0 := by
      refine Nat.le_zero.mp (silent ▸ ?_)
      exact single_le_sum (fun _ _ => Nat.zero_le _) _
        (mem_map_of_mem (f := fun other => (links other).count name) there)
    have some := told source need.2 name known
    have positive := count_pos_iff.mpr need.1
    omega

include told in
/-- When everything has been released, nothing is needed in a circle. -/
theorem CountingDown.acc_of_released {state : CountState ν}
    (down : CountingDown names links expected state) (empty : state.queue = [])
    (all : names ⊆ state.done) : ∀ name ∈ names, Acc (Needs names needs) name := by
  have placed : ∀ size (front back : List ν) (name : ν), front.length = size →
      state.done = front ++ name :: back → Acc (Needs names needs) name := by
    intro size
    induction size using Nat.strong_induction_on with
    | _ size ih =>
      intro front back name long joined
      refine ⟨name, fun source need => ?_⟩
      obtain ⟨before, after, rfl⟩ := append_of_mem (down.needs_before told empty all joined need)
      refine ih before.length ?_ before (after ++ name :: back) source rfl ?_
      · rw [← long, length_append, length_cons]
        omega
      · rw [joined, append_assoc, cons_append]
  intro name known
  obtain ⟨front, back, joined⟩ := append_of_mem (all known)
  exact placed front.length front back name rfl joined

end Dependencies

end RaisinDB.Foundation
