import RaisinDB.Agents.CommittedRuns

/-!
# What legal events keep

An invariant of the account that every legal event keeps holds along every log.  The
epoch only grows, and it grows with every change of owner.  The operation in flight is the
last one that was started.
-/

namespace RaisinDB.Agents

open List

theorem OperationId.nth_inj {run : RunId} {n m : Nat}
    (same : OperationId.nth run n = OperationId.nth run m) : n = m :=
  Nat.repr_injective ((String.append_right_inj _).mp same)

theorem RequestId.nth_inj {run : RunId} {n m : Nat}
    (same : RequestId.nth run n = RequestId.nth run m) : n = m :=
  Nat.repr_injective ((String.append_right_inj _).mp same)

namespace Ledger

/-! ## Induction along a log -/

/-- What every legal event keeps, given the events before it. -/
theorem history_invariant (Inv : List RunEventKind → Ledger → Prop)
    (keeps : ∀ early ledger kind, Inv early ledger → ledger.Legal kind →
      Inv (early ++ [kind]) (ledger.observe kind))
    (early : List RunEventKind) {kinds : List RunEventKind} {ledger : Ledger}
    (holds : Inv early ledger) (legal : LegalRun ledger kinds) : Inv (early ++ kinds) (ledger.replay kinds) := by
  induction kinds generalizing early ledger with
  | nil => rwa [append_nil]
  | cons kind rest ih =>
    have later := ih (early ++ [kind]) (keeps early ledger kind holds legal.1) legal.2
    rwa [append_assoc, singleton_append] at later

theorem replay_invariant (Inv : Ledger → Prop)
    (keeps : ∀ ledger kind, Inv ledger → ledger.Legal kind → Inv (ledger.observe kind))
    {kinds : List RunEventKind} {ledger : Ledger} (holds : Inv ledger)
    (legal : LegalRun ledger kinds) : Inv (ledger.replay kinds) :=
  history_invariant (fun _ ledger => Inv ledger) (fun _ => keeps) [] holds legal

theorem LegalRun.split {early late : List RunEventKind} {kind : RunEventKind} {ledger : Ledger}
    (legal : LegalRun ledger (early ++ kind :: late)) :
    LegalRun ledger early ∧ (ledger.replay early).Legal kind ∧
      LegalRun ((ledger.replay early).observe kind) late := by
  obtain ⟨before, here, after⟩ := legalRun_append.mp legal
  exact ⟨before, here, after⟩

@[simp] theorem observe_runId (ledger : Ledger) (kind : RunEventKind) :
    (ledger.observe kind).runId = ledger.runId := by cases kind <;> rfl

/-! ## Epochs -/

/-- The epoch and the owner move together, and only forwards. -/
theorem observe_epoch {ledger : Ledger} {kind : RunEventKind} (legal : ledger.Legal kind) :
    ledger.epoch ≤ (ledger.observe kind).epoch ∧
      ((ledger.observe kind).epoch = ledger.epoch →
        (ledger.observe kind).owner = ledger.owner) := by
  cases kind with
  | leaseAcquired owner epoch =>
    obtain ⟨_, next⟩ := legal
    simp [observe, note, next]
  | leaseTakenOver source fromEpoch owner epoch =>
    obtain ⟨_, next⟩ := legal
    simp [observe, note, next]
  | leaseReleased epoch =>
    obtain ⟨_, next⟩ := legal
    simp [observe, note, next]
  | _ => simp [observe, note]

theorem replay_epoch {kinds : List RunEventKind} {ledger : Ledger}
    (legal : LegalRun ledger kinds) :
    ledger.epoch ≤ (ledger.replay kinds).epoch ∧
      ((ledger.replay kinds).epoch = ledger.epoch →
        (ledger.replay kinds).owner = ledger.owner) := by
  refine replay_invariant
    (fun current => ledger.epoch ≤ current.epoch ∧
      (current.epoch = ledger.epoch → current.owner = ledger.owner)) ?_ ⟨le_rfl, fun _ => rfl⟩ legal
  intro current kind before here
  obtain ⟨grows, still⟩ := observe_epoch here
  refine ⟨before.1.trans grows, fun same => ?_⟩
  have unmoved : (current.observe kind).epoch = current.epoch := by omega
  exact (still unmoved).trans (before.2 (unmoved.symm.trans same))

/-! ## Operations -/

/-- Whether an event starts the operation. -/
def startsOp (opId : OperationId) : RunEventKind → Bool
  | .operationStarted started .. => started == opId
  | _ => false

def completesOp (opId : OperationId) : RunEventKind → Bool
  | .operationCompleted completed .. => completed == opId
  | _ => false

/-- Whether an event starts the operation as one that may not be replayed. -/
def startsUnsafe (opId : OperationId) : RunEventKind → Bool
  | .operationStarted started _ _ _ replaySafe .. => started == opId && !replaySafe
  | _ => false

theorem startsUnsafe_eq_false {opId : OperationId} {kind : RunEventKind}
    (none : startsOp opId kind = false) : startsUnsafe opId kind = false := by
  cases kind with
  | operationStarted started _ _ _ replaySafe =>
    have other : (started == opId) = false := none
    simp [startsUnsafe, other]
  | _ => rfl

/-- An id that the run has given out. -/
def Given (ledger : Ledger) (opId : OperationId) : Prop :=
  ∃ n, 1 ≤ n ∧ n ≤ ledger.counters.op ∧ opId = OperationId.nth ledger.runId n

/-- Each operation is started under its own id, completed once at most, and started once only if it
may not be replayed. -/
structure Dispatched (kinds : List RunEventKind) (ledger : Ledger) : Prop where
  given : ∀ kind ∈ kinds, ∀ opId, (startsOp opId kind || completesOp opId kind) = true →
    ledger.Given opId
  inFlight : ∀ op, ledger.op = some op → ledger.Given op.opId ∧
    kinds.countP (completesOp op.opId) = 0 ∧
    (op.replaySafe = true → kinds.countP (startsUnsafe op.opId) = 0) ∧
    (op.replaySafe = false → kinds.countP (startsOp op.opId) = 1)
  once : ∀ opId, kinds.any (startsUnsafe opId) = true → kinds.countP (startsOp opId) = 1
  recorded : ∀ opId, kinds.countP (completesOp opId) ≤ 1

theorem dispatched_nil {ledger : Ledger} (idle : ledger.op = none) : Dispatched [] ledger :=
  ⟨fun _ mem => absurd mem not_mem_nil, fun op same => (by simp [idle] at same),
    fun _ none => (by simp at none), fun _ => Nat.zero_le _⟩

/-- An event that neither starts nor completes an operation. -/
theorem Dispatched.other {kinds : List RunEventKind} {ledger : Ledger} {kind : RunEventKind}
    (dispatched : Dispatched kinds ledger)
    (starts : ∀ opId, startsOp opId kind = false) (completes : ∀ opId, completesOp opId kind = false)
    (op : (ledger.observe kind).op = ledger.op ∨ (ledger.observe kind).op = none)
    (counted : (ledger.observe kind).counters.op = ledger.counters.op) :
    Dispatched (kinds ++ [kind]) (ledger.observe kind) := by
  have same (opId : OperationId) : (ledger.observe kind).Given opId ↔ ledger.Given opId := by
    simp [Given, counted]
  have safe (opId : OperationId) : startsUnsafe opId kind = false :=
    startsUnsafe_eq_false (starts opId)
  refine ⟨?_, ?_, ?_, ?_⟩
  · intro other mem opId named
    rcases mem_append.mp mem with before | new
    · exact (same opId).mpr (dispatched.given other before opId named)
    · rw [mem_singleton.mp new, starts, completes] at named
      cases named
  · intro current flying
    rcases op with still | gone
    · rw [still] at flying
      obtain ⟨given, uncompleted, replays, starts'⟩ := dispatched.inFlight current flying
      refine ⟨(same _).mpr given, ?_, fun mayReplay => ?_, fun mayNot => ?_⟩
      · simp [countP_append, uncompleted, completes]
      · simp [countP_append, replays mayReplay, safe]
      · simp [countP_append, starts' mayNot, starts]
    · rw [gone] at flying
      cases flying
  · intro opId found
    have before : kinds.any (startsUnsafe opId) = true := by simpa [safe] using found
    simp [countP_append, dispatched.once opId before, starts]
  · intro opId
    simpa [countP_append, completes] using dispatched.recorded opId

/-- A first start gives out the next id. -/
theorem Dispatched.startNext {kinds : List RunEventKind} {ledger : Ledger} {op : OpView}
    (dispatched : Dispatched kinds ledger)
    (named : op.opId = OperationId.nth ledger.runId (ledger.counters.op + 1))
    {kind : RunEventKind} (starts : ∀ opId, startsOp opId kind = (op.opId == opId))
    (completes : ∀ opId, completesOp opId kind = false)
    (safe : ∀ opId, startsUnsafe opId kind = (op.opId == opId && !op.replaySafe))
    (flying : (ledger.observe kind).op = some op)
    (counted : (ledger.observe kind).counters.op = ledger.counters.op + 1) :
    Dispatched (kinds ++ [kind]) (ledger.observe kind) := by
  have later (opId : OperationId) (given : ledger.Given opId) :
      (ledger.observe kind).Given opId := by
    obtain ⟨n, positive, small, same⟩ := given
    exact ⟨n, positive, by omega, by simpa using same⟩
  have new : ¬ ledger.Given op.opId := by
    rintro ⟨n, _, small, same⟩
    have number := OperationId.nth_inj (named.symm.trans same)
    omega
  have unseen (other : RunEventKind) (mem : other ∈ kinds) :
      startsOp op.opId other = false ∧ completesOp op.opId other = false := by
    rw [← Bool.or_eq_false_iff]
    exact Bool.eq_false_iff.mpr fun found => new (dispatched.given other mem op.opId found)
  have noStarts : kinds.countP (startsOp op.opId) = 0 :=
    countP_eq_zero.mpr fun other mem => by simp [(unseen other mem).1]
  have noCompletions : kinds.countP (completesOp op.opId) = 0 :=
    countP_eq_zero.mpr fun other mem => by simp [(unseen other mem).2]
  have noUnsafe : kinds.countP (startsUnsafe op.opId) = 0 :=
    countP_eq_zero.mpr fun other mem => by simp [startsUnsafe_eq_false (unseen other mem).1]
  have givenNow : (ledger.observe kind).Given op.opId :=
    ⟨ledger.counters.op + 1, by omega, by omega, by rw [observe_runId]; exact named⟩
  refine ⟨?_, ?_, ?_, ?_⟩
  · intro other mem opId found
    rcases mem_append.mp mem with before | here
    · exact later opId (dispatched.given other before opId found)
    · rw [mem_singleton.mp here, starts, completes, Bool.or_false, beq_iff_eq] at found
      exact found ▸ givenNow
  · intro current flies
    rw [flying, Option.some.injEq] at flies
    subst flies
    refine ⟨givenNow, ?_, fun replays => ?_, fun _ => ?_⟩
    · simp [countP_append, noCompletions, completes]
    · simp [countP_append, noUnsafe, safe, replays]
    · simp [countP_append, noStarts, starts]
  · intro opId found
    by_cases same : op.opId = opId
    · subst same
      simp [countP_append, noStarts, starts]
    · have before : kinds.any (startsUnsafe opId) = true := by simpa [safe, same] using found
      simp [countP_append, dispatched.once opId before, starts, same]
  · intro opId
    simpa [countP_append, completes] using dispatched.recorded opId

/-- Every legal event keeps the operations apart. -/
theorem Dispatched.observe {kinds : List RunEventKind} {ledger : Ledger} {kind : RunEventKind}
    (dispatched : Dispatched kinds ledger) (legal : ledger.Legal kind) :
    Dispatched (kinds ++ [kind]) (ledger.observe kind) := by
  cases kind with
  | operationStarted opId kind effectId idempotencyKey replaySafe interruptible forCallId attempt =>
    obtain ⟨_, _, _, ⟨idle, _, _, _, named⟩ | ⟨before, flying, replays, again⟩⟩ := legal
    · exact dispatched.startNext named (fun _ => rfl) (fun _ => rfl) (fun _ => rfl) rfl
        (by simp [Ledger.observe, note, idle])
    · -- The operation in flight is dispatched again under its own id.
      have sameId : opId = before.opId := congrArg OpView.opId again
      have stillSafe : replaySafe = true := (congrArg OpView.replaySafe again).trans replays
      obtain ⟨given, uncompleted, neverUnsafe, _⟩ := dispatched.inFlight before flying
      have counted (other : OperationId) :
          (ledger.observe (.operationStarted opId kind effectId idempotencyKey replaySafe
            interruptible forCallId attempt)).Given other ↔ ledger.Given other := by
        simp [Given, Ledger.observe, note, flying]
      refine ⟨?_, ?_, ?_, ?_⟩
      · intro other mem given' found
        rcases mem_append.mp mem with early | here
        · exact (counted _).mpr (dispatched.given other early given' found)
        · rw [mem_singleton.mp here] at found
          have same : opId = given' := by simpa [startsOp, completesOp] using found
          exact (counted _).mpr (same ▸ sameId ▸ given)
      · intro current flies
        have view : current = ⟨opId, kind, effectId, idempotencyKey, replaySafe, interruptible,
            forCallId, attempt, ledger.epoch⟩ := by
          simpa [Ledger.observe, note] using flies.symm
        subst view
        refine ⟨(counted _).mpr (sameId ▸ given), ?_, fun _ => ?_, fun unsafely => ?_⟩
        · simp [countP_append, completesOp, sameId, uncompleted]
        · simp [countP_append, startsUnsafe, sameId, neverUnsafe replays, stillSafe]
        · simp [stillSafe] at unsafely
      · intro other found
        have early : kinds.any (startsUnsafe other) = true := by
          simpa [startsUnsafe, stillSafe] using found
        have different : opId ≠ other := by
          rintro rfl
          have none := countP_eq_zero.mp (neverUnsafe replays)
          obtain ⟨event, mem, startsIt⟩ := any_eq_true.mp early
          exact none event mem (sameId ▸ startsIt)
        simp [countP_append, dispatched.once other early, startsOp, different]
      · intro other
        simpa [countP_append, completesOp] using dispatched.recorded other
  | operationCompleted opId kind effectId forCallId tool outcome usage resultRef toolCalls =>
    obtain ⟨op, flying, named, _⟩ := legal
    obtain ⟨given, uncompleted, _⟩ := dispatched.inFlight op flying
    have counted (other : OperationId) :
        (ledger.observe (.operationCompleted opId kind effectId forCallId tool outcome usage
          resultRef toolCalls)).Given other ↔ ledger.Given other := by
      simp [Given, Ledger.observe, note]
    refine ⟨?_, ?_, ?_, ?_⟩
    · intro other mem given' found
      rcases mem_append.mp mem with early | here
      · exact (counted _).mpr (dispatched.given other early given' found)
      · rw [mem_singleton.mp here] at found
        have same : opId = given' := by simpa [startsOp, completesOp] using found
        exact (counted _).mpr (same ▸ named ▸ given)
    · intro current flies
      simp [Ledger.observe, note] at flies
    · intro other found
      have early : kinds.any (startsUnsafe other) = true := by
        simpa [startsUnsafe] using found
      simp [countP_append, dispatched.once other early, startsOp]
    · intro other
      by_cases same : opId = other
      · subst same
        rw [← named, countP_append, uncompleted]
        simp [completesOp, named]
      · simpa [countP_append, completesOp, same] using dispatched.recorded other
  | operationCancelled | operationAbandoned =>
    exact dispatched.other (fun _ => rfl) (fun _ => rfl) (.inr rfl) rfl
  | _ => exact dispatched.other (fun _ => rfl) (fun _ => rfl) (.inl rfl) rfl

theorem dispatched_of_legal {runId : RunId} {kinds : List RunEventKind}
    (legal : LegalRun (created runId) kinds) :
    Dispatched kinds ((created runId).replay kinds) := by
  have kept := history_invariant Dispatched (fun _ _ _ dispatched here => dispatched.observe here) []
    (dispatched_nil rfl) legal
  rwa [nil_append] at kept

end Ledger

end RaisinDB.Agents
