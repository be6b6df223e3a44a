import Mathlib

/-!
# Computations that fail part of the way

A computation that fails keeps the state it had reached.  What it did before the
failure stays done.
-/

namespace RaisinDB.Foundation

/-- A step may change the state and may fail; a failure undoes nothing. -/
abbrev Fallible (σ ε : Type) := ExceptT ε (StateM σ)

namespace Fallible

variable {σ ε α β : Type}

/-- The answer and the state that is left. -/
def outcome (action : Fallible σ ε α) (state : σ) : Except ε α × σ := (ExceptT.run action).run state

/-- Read the state, and fail where it says so. -/
def query (read : σ → Except ε α) : Fallible σ ε α := fun state => (read state, state)

def change (update : σ → σ) : Fallible σ ε Unit := fun state => (.ok (), update state)

/-- Fail with the error if the test says so. -/
def reject (fails : Bool) (error : ε) : Fallible σ ε Unit :=
  query fun _ => if fails then .error error else .ok ()

@[simp] theorem outcome_query (read : σ → Except ε α) (state : σ) :
    outcome (query read) state = (read state, state) := rfl

@[simp] theorem outcome_change (update : σ → σ) (state : σ) :
    outcome (change update : Fallible σ ε Unit) state = (.ok (), update state) := rfl

@[simp] theorem outcome_pure (value : α) (state : σ) :
    outcome (pure value : Fallible σ ε α) state = (.ok value, state) := rfl

theorem outcome_bind (action : Fallible σ ε α) (rest : α → Fallible σ ε β) (state : σ) :
    outcome (action >>= rest) state =
      match outcome action state with
      | (.ok value, next) => outcome (rest value) next
      | (.error error, next) => (.error error, next) := by
  simp only [outcome, ExceptT.run_bind, StateT.run_bind]
  obtain ⟨answer, next⟩ := (ExceptT.run action).run state
  cases answer with
  | ok value => rfl
  | error error => rfl

theorem outcome_bind_of_ok {action : Fallible σ ε α} {rest : α → Fallible σ ε β} {state next : σ}
    {value : α} (run : outcome action state = (.ok value, next)) :
    outcome (action >>= rest) state = outcome (rest value) next := by
  rw [outcome_bind, run]

/-- A computation succeeds when both of its parts do. -/
theorem outcome_bind_eq_ok {action : Fallible σ ε α} {rest : α → Fallible σ ε β} {state final : σ}
    {answer : β} :
    outcome (action >>= rest) state = (.ok answer, final) ↔
      ∃ value next, outcome action state = (.ok value, next) ∧
        outcome (rest value) next = (.ok answer, final) := by
  rw [outcome_bind]
  obtain ⟨first, next⟩ := outcome action state
  cases first with
  | ok value =>
    constructor
    · exact fun done => ⟨value, next, rfl, done⟩
    · rintro ⟨_, _, same, done⟩
      cases same
      exact done
  | error error =>
    constructor
    · intro done
      cases done
    · rintro ⟨_, _, same, _⟩
      cases same

/-- A computation fails in one of its parts. -/
theorem outcome_bind_eq_error {action : Fallible σ ε α} {rest : α → Fallible σ ε β}
    {state final : σ} {failure : ε} :
    outcome (action >>= rest) state = (.error failure, final) ↔
      outcome action state = (.error failure, final) ∨
        ∃ value next, outcome action state = (.ok value, next) ∧
          outcome (rest value) next = (.error failure, final) := by
  rw [outcome_bind]
  obtain ⟨first, next⟩ := outcome action state
  cases first with
  | ok value =>
    constructor
    · exact fun failed => Or.inr ⟨value, next, rfl, failed⟩
    · rintro (same | ⟨_, _, same, failed⟩)
      · cases same
      · cases same
        exact failed
  | error error =>
    constructor
    · intro failed
      cases failed
      exact Or.inl rfl
    · rintro (same | ⟨_, _, same, _⟩)
      · cases same
        rfl
      · cases same

@[simp] theorem outcome_reject (fails : Bool) (error : ε) (state : σ) :
    outcome (reject fails error : Fallible σ ε Unit) state =
      (if fails then .error error else .ok (), state) := rfl

/-! ## Computations that only read -/

/-- The state stays as it is, whatever the answer. -/
def Silent (action : Fallible σ ε α) : Prop := ∀ state, (outcome action state).2 = state

theorem silent_query (read : σ → Except ε α) : Silent (query read : Fallible σ ε α) :=
  fun _ => rfl

theorem silent_pure (value : α) : Silent (pure value : Fallible σ ε α) := fun _ => rfl

theorem silent_reject (fails : Bool) (error : ε) : Silent (reject fails error : Fallible σ ε Unit) :=
  silent_query _

theorem Silent.eq {action : Fallible σ ε α} (silent : Silent action) {state final : σ}
    {answer : Except ε α} (run : outcome action state = (answer, final)) : final = state := by
  rw [← silent state, run]

/-- What reads first fails there without a change, or after the read. -/
theorem Silent.error_of_bind {action : Fallible σ ε α} {rest : α → Fallible σ ε β}
    (silent : Silent action) {state final : σ} {failure : ε}
    (run : outcome (action >>= rest) state = (.error failure, final)) :
    final = state ∨ ∃ value, outcome action state = (.ok value, state) ∧
      outcome (rest value) state = (.error failure, final) := by
  rcases outcome_bind_eq_error.mp run with failed | ⟨value, next, passed, failed⟩
  · exact Or.inl (silent.eq failed)
  · obtain rfl := silent.eq passed
    exact Or.inr ⟨value, passed, failed⟩

theorem Silent.bind {action : Fallible σ ε α} {rest : α → Fallible σ ε β} (first : Silent action)
    (later : ∀ value, Silent (rest value)) : Silent (action >>= rest) := by
  intro state
  rw [outcome_bind]
  cases run : outcome action state with
  | mk answer next =>
    obtain rfl := first.eq run
    cases answer with
    | ok value => exact later value next
    | error error => rfl

/-! ## Computations that keep a property -/

/-- The property outlives the computation, also where it fails. -/
def Preserves (property : σ → Prop) (action : Fallible σ ε α) : Prop :=
  ∀ state, property state → property (outcome action state).2

variable {property : σ → Prop}

theorem Silent.preserves {action : Fallible σ ε α} (silent : Silent action) :
    Preserves property action := by
  intro state holds
  rw [silent state]
  exact holds

theorem preserves_change {update : σ → σ} (keeps : ∀ state, property state → property (update state)) :
    Preserves property (change update : Fallible σ ε Unit) := keeps

/-- What holds after a first part holds after the whole. -/
theorem Preserves.after {action : Fallible σ ε α} {rest : α → Fallible σ ε β} {state : σ}
    (later : ∀ value, Preserves property (rest value))
    (first : property (outcome action state).2) :
    property (outcome (action >>= rest) state).2 := by
  rw [outcome_bind]
  cases run : outcome action state with
  | mk answer next =>
    rw [run] at first
    cases answer with
    | ok value => exact later value next first
    | error error => exact first

theorem Preserves.bind {action : Fallible σ ε α} {rest : α → Fallible σ ε β}
    (first : Preserves property action) (later : ∀ value, Preserves property (rest value)) :
    Preserves property (action >>= rest) :=
  fun state holds => Preserves.after later (first state holds)

end Fallible

/-! ## Results -/

section Results

variable {ε α β : Type} {result : Except ε α} {answer : β}

/-- What succeeds after a first part needs the first part to succeed. -/
theorem ok_of_bind {rest : α → Except ε β} (ok : result >>= rest = .ok answer) :
    ∃ value, result = .ok value ∧ rest value = .ok answer := by
  cases result with
  | error error => cases ok
  | ok value => exact ⟨value, rfl, ok⟩

theorem ok_of_map {read : α → β} (ok : result.map read = .ok answer) :
    ∃ value, result = .ok value ∧ read value = answer := by
  cases result with
  | error error => cases ok
  | ok value => exact ⟨value, rfl, Except.ok.inj ok⟩

end Results

end RaisinDB.Foundation
