import RaisinDB.Clock.HybridClock

/-!
# Concurrent calls

The clock keeps its timestamp and its counter in two atomic cells.  A call loads
both, then exchanges first the timestamp and then the counter, and starts over when
an exchange fails.  Every access is a step of its own, and the steps of different
callers interleave in any order.
-/

namespace RaisinDB.Clock

open RaisinDB.Foundation RaisinDB.Replication List

/-- How far a caller is in the loop, with the locals it has read so far. -/
inductive Phase where
  | idle
  | clockRead (wallClock : Nat)
  | timestampLoaded (wallClock lastTs : Nat)
  | loaded (lastTs lastCnt : Nat) (next : HLC)
  | timestampSwapped (lastTs lastCnt : Nat) (next : HLC)
  deriving DecidableEq

/-- The two cells and the callers. -/
structure SharedClock (ι : Type) where
  timestamp : Nat
  counter : Nat
  phase : ι → Phase

/-- The next access of a caller; the reading is used when it is the wall clock that is read. -/
structure Access (ι : Type) where
  caller : ι
  wallClock : Nat

section Callers

variable {ι : Type} [DecidableEq ι]

def SharedClock.setPhase (clock : SharedClock ι) (caller : ι) (phase : Phase) : SharedClock ι :=
  { clock with phase := Function.update clock.phase caller phase }

@[simp] theorem SharedClock.setPhase_self (clock : SharedClock ι) (caller : ι) (phase : Phase) :
    (clock.setPhase caller phase).phase caller = phase := Function.update_self ..

theorem SharedClock.setPhase_other (clock : SharedClock ι) {caller other : ι}
    (different : other ≠ caller) (phase : Phase) :
    (clock.setPhase caller phase).phase other = clock.phase other :=
  Function.update_of_ne different ..

/-- One access.  A failed exchange sends the caller back to the top of the loop, a successful
exchange of the counter ends the call. -/
def SharedClock.access (propose : Nat → Nat → Nat → HLC) (clock : SharedClock ι)
    (access : Access ι) : SharedClock ι × Option HLC :=
  match clock.phase access.caller with
  | .idle => (clock.setPhase access.caller (.clockRead access.wallClock), none)
  | .clockRead wallClock =>
      (clock.setPhase access.caller (.timestampLoaded wallClock clock.timestamp), none)
  | .timestampLoaded wallClock lastTs =>
      (clock.setPhase access.caller
        (.loaded lastTs clock.counter (propose wallClock lastTs clock.counter)), none)
  | .loaded lastTs lastCnt next =>
      if clock.timestamp = lastTs then
        ({ clock.setPhase access.caller (.timestampSwapped lastTs lastCnt next) with
          timestamp := next.timestampMs }, none)
      else (clock.setPhase access.caller .idle, none)
  | .timestampSwapped _ lastCnt next =>
      if clock.counter = lastCnt then
        ({ clock.setPhase access.caller .idle with counter := next.counter }, some next)
      else (clock.setPhase access.caller .idle, none)

section Access

variable {propose : Nat → Nat → Nat → HLC} {clock : SharedClock ι} {access : Access ι}

theorem SharedClock.access_idle (phase : clock.phase access.caller = .idle) :
    clock.access propose access =
      (clock.setPhase access.caller (.clockRead access.wallClock), none) := by
  rw [SharedClock.access, phase]

theorem SharedClock.access_clockRead {wallClock : Nat}
    (phase : clock.phase access.caller = .clockRead wallClock) :
    clock.access propose access =
      (clock.setPhase access.caller (.timestampLoaded wallClock clock.timestamp), none) := by
  rw [SharedClock.access, phase]

theorem SharedClock.access_timestampLoaded {wallClock lastTs : Nat}
    (phase : clock.phase access.caller = .timestampLoaded wallClock lastTs) :
    clock.access propose access =
      (clock.setPhase access.caller
        (.loaded lastTs clock.counter (propose wallClock lastTs clock.counter)), none) := by
  rw [SharedClock.access, phase]

theorem SharedClock.access_loaded {lastCnt : Nat} {next : HLC}
    (phase : clock.phase access.caller = .loaded clock.timestamp lastCnt next) :
    clock.access propose access =
      ({ clock.setPhase access.caller (.timestampSwapped clock.timestamp lastCnt next) with
        timestamp := next.timestampMs }, none) := by
  rw [SharedClock.access, phase]
  exact if_pos rfl

theorem SharedClock.access_loaded_other {lastTs lastCnt : Nat} {next : HLC}
    (phase : clock.phase access.caller = .loaded lastTs lastCnt next)
    (changed : clock.timestamp ≠ lastTs) :
    clock.access propose access = (clock.setPhase access.caller .idle, none) := by
  rw [SharedClock.access, phase]
  exact if_neg changed

theorem SharedClock.access_swapped {lastTs : Nat} {next : HLC}
    (phase : clock.phase access.caller = .timestampSwapped lastTs clock.counter next) :
    clock.access propose access =
      ({ clock.setPhase access.caller .idle with counter := next.counter }, some next) := by
  rw [SharedClock.access, phase]
  exact if_pos rfl

theorem SharedClock.access_swapped_other {lastTs lastCnt : Nat} {next : HLC}
    (phase : clock.phase access.caller = .timestampSwapped lastTs lastCnt next)
    (changed : clock.counter ≠ lastCnt) :
    clock.access propose access = (clock.setPhase access.caller .idle, none) := by
  rw [SharedClock.access, phase]
  exact if_neg changed

end Access

def accessMachine (propose : Nat → Nat → Nat → HLC) :
    Machine (SharedClock ι) (Access ι) (Option HLC) where
  step := SharedClock.access propose

/-- A clock that nobody is using. -/
def SharedClock.start (initial : HLC) : SharedClock ι :=
  ⟨initial.timestampMs, initial.counter, fun _ => .idle⟩

/-- The revisions that completed calls of `tick` have returned. -/
def ticks (initial : HLC) (accesses : List (Access ι)) : List HLC :=
  ((accessMachine proposeTick).outputs (SharedClock.start initial) accesses).reduceOption

/-! ## Overwritten counters -/

/-- The clock with a note for every caller whether the counter has changed since it loaded it. -/
structure Watched (ι : Type) where
  clock : SharedClock ι
  overwritten : ι → Bool

/-- The next access of the caller is the load of the counter. -/
def Phase.loadsCounter : Phase → Bool
  | .timestampLoaded _ _ => true
  | _ => false

def Watched.access (watched : Watched ι) (access : Access ι) : Watched ι × Option HLC :=
  let (clock, given) := watched.clock.access proposeTick access
  (⟨clock, fun caller =>
    if caller = access.caller ∧ (watched.clock.phase access.caller).loadsCounter then false
    else watched.overwritten caller || clock.counter != watched.clock.counter⟩, given)

def watchMachine : Machine (Watched ι) (Access ι) (Option HLC) where
  step := Watched.access

def Watched.start (initial : HLC) : Watched ι := ⟨.start initial, fun _ => false⟩

/-- Watching changes nothing. -/
theorem watch_outputs (watched : Watched ι) (accesses : List (Access ι)) :
    watchMachine.outputs watched accesses =
      (accessMachine proposeTick).outputs watched.clock accesses := by
  induction accesses generalizing watched with
  | nil => rfl
  | cons access rest ih => exact congrArg (_ :: ·) (ih (watched.access access).1)

/-- An exchange of the counter succeeds only on the value that the caller has loaded, not on the
same value after a change and back; and no counter is full. -/
def Undisturbed (watched : Watched ι) (access : Access ι) : Prop :=
  match watched.clock.phase access.caller with
  | .timestampLoaded _ _ => watched.clock.counter < 2 ^ 64 - 1
  | .timestampSwapped _ lastCnt _ =>
      watched.clock.counter = lastCnt → watched.overwritten access.caller = false
  | _ => True

instance undisturbedDecidable (watched : Watched ι) (access : Access ι) :
    Decidable (Undisturbed watched access) := by
  unfold Undisturbed
  split
  · infer_instance
  · infer_instance
  · infer_instance

/-! ## Uniqueness -/

/-- The caller raises the timestamp, or keeps it and counts on. -/
def Proposes (lastTs lastCnt : Nat) (next : HLC) : Prop :=
  (lastTs < next.timestampMs ∧ next.counter = 0) ∨
    (next.timestampMs = lastTs ∧ next.counter = lastCnt + 1)

theorem proposes_proposeTick {counter : Nat} (fits : counter < 2 ^ 64 - 1)
    (wallClock lastTs : Nat) : Proposes lastTs counter (proposeTick wallClock lastTs counter) := by
  rw [proposeTick, wrapU64_succ fits]
  split
  · rename_i advanced
    exact Or.inl ⟨advanced, rfl⟩
  · exact Or.inr ⟨rfl, rfl⟩

/-- The counters given out for a timestamp go up to a bound. -/
def BoundedAt (done : List HLC) (timestampMs bound : Nat) : Prop :=
  ∀ given ∈ done, given.timestampMs = timestampMs → 0 < given.counter → given.counter ≤ bound

/-- Revisions with a counter are earlier than the timestamp. -/
def CountedBefore (done : List HLC) (timestampMs : Nat) : Prop :=
  ∀ given ∈ done, 0 < given.counter → given.timestampMs < timestampMs

/-- What the locals of a caller say about the revisions given out so far. -/
def Consistent (done : List HLC) (timestamp : Nat) (overwritten : Bool) : Phase → Prop
  | .idle | .clockRead _ => True
  | .timestampLoaded _ lastTs => lastTs ≤ timestamp
  | .loaded lastTs lastCnt next =>
      lastTs ≤ timestamp ∧ Proposes lastTs lastCnt next ∧
        (overwritten = false → timestamp = lastTs → BoundedAt done lastTs lastCnt)
  | .timestampSwapped lastTs lastCnt next =>
      next.timestampMs ≤ timestamp ∧ Proposes lastTs lastCnt next ∧
        (lastTs < next.timestampMs →
          (⟨next.timestampMs, 0⟩ ∉ done) ∧
            (overwritten = false → CountedBefore done next.timestampMs)) ∧
        (next.timestampMs = lastTs → overwritten = false →
          BoundedAt done next.timestampMs lastCnt)

/-- The timestamp that the caller has raised the clock to, without the counter yet. -/
def Phase.raised : Phase → Option Nat
  | .timestampSwapped lastTs _ next =>
      if lastTs < next.timestampMs then some next.timestampMs else none
  | _ => none

structure Ticking (done : List HLC) (watched : Watched ι) : Prop where
  distinct : done.Nodup
  past : ∀ given ∈ done, given.timestampMs ≤ watched.clock.timestamp
  bounded : BoundedAt done watched.clock.timestamp watched.clock.counter
  callers : ∀ caller,
    Consistent done watched.clock.timestamp (watched.overwritten caller)
      (watched.clock.phase caller)
  apart : ∀ a b timestampMs, (watched.clock.phase a).raised = some timestampMs →
    (watched.clock.phase b).raised = some timestampMs → a = b

theorem Consistent.later {done : List HLC} {timestamp timestamp' : Nat} {overwritten : Bool}
    {phase : Phase} (consistent : Consistent done timestamp overwritten phase)
    (le : timestamp ≤ timestamp') : Consistent done timestamp' overwritten phase := by
  cases phase with
  | idle => trivial
  | clockRead wallClock => trivial
  | timestampLoaded wallClock lastTs => exact Nat.le_trans consistent le
  | loaded lastTs lastCnt next =>
    obtain ⟨below, proposes, bounded⟩ := consistent
    refine ⟨below.trans le, proposes, fun fresh same => bounded fresh ?_⟩
    exact le_antisymm (same ▸ le) below
  | timestampSwapped lastTs lastCnt next =>
    obtain ⟨below, proposes, raise, count⟩ := consistent
    exact ⟨below.trans le, proposes, raise, count⟩

theorem BoundedAt.snoc {done : List HLC} {timestampMs bound : Nat} {given : HLC}
    (bounded : BoundedAt done timestampMs bound) (uncounted : given.counter = 0) :
    BoundedAt (done ++ [given]) timestampMs bound := by
  refine forall_mem_append.mpr ⟨bounded, forall_mem_singleton.mpr fun _ positive => ?_⟩
  rw [uncounted] at positive
  exact absurd positive (lt_irrefl 0)

theorem CountedBefore.snoc {done : List HLC} {timestampMs : Nat} {given : HLC}
    (before : CountedBefore done timestampMs) (uncounted : given.counter = 0) :
    CountedBefore (done ++ [given]) timestampMs := by
  refine forall_mem_append.mpr ⟨before, forall_mem_singleton.mpr fun positive => ?_⟩
  rw [uncounted] at positive
  exact absurd positive (lt_irrefl 0)

/-- Another caller gives a revision out.  When it counted on, the counter has changed. -/
theorem Consistent.given {done : List HLC} {timestamp : Nat} {overwritten overwritten' : Bool}
    {phase : Phase} {given : HLC} (consistent : Consistent done timestamp overwritten phase)
    (fresh : overwritten' = false → overwritten = false)
    (counted : overwritten' = false → given.counter = 0)
    (apart : phase.raised = some given.timestampMs → given.counter ≠ 0) :
    Consistent (done ++ [given]) timestamp overwritten' phase := by
  cases phase with
  | idle => trivial
  | clockRead wallClock => trivial
  | timestampLoaded wallClock lastTs => exact consistent
  | loaded lastTs lastCnt next =>
    obtain ⟨below, proposes, bounded⟩ := consistent
    exact ⟨below, proposes, fun still same =>
      (bounded (fresh still) same).snoc (counted still)⟩
  | timestampSwapped lastTs lastCnt next =>
    obtain ⟨below, proposes, raise, count⟩ := consistent
    refine ⟨below, proposes, fun raises => ⟨?_, fun still => ?_⟩, fun keeps still => ?_⟩
    · rw [mem_append, mem_singleton, not_or]
      refine ⟨(raise raises).1, fun same => ?_⟩
      have raised : (Phase.timestampSwapped lastTs lastCnt next).raised =
          some given.timestampMs := by
        rw [Phase.raised, if_pos raises, ← same]
      exact apart raised (congrArg HLC.counter same.symm)
    · exact ((raise raises).2 (fresh still)).snoc (counted still)
    · exact (count keeps (fresh still)).snoc (counted still)

/-- A caller moves on without touching the cells. -/
theorem Ticking.rephase {done : List HLC} {watched : Watched ι} (ticking : Ticking done watched)
    {caller : ι} {phase : Phase} {overwritten : ι → Bool}
    (others : ∀ other, other ≠ caller → overwritten other = watched.overwritten other)
    (own : Consistent done watched.clock.timestamp (overwritten caller) phase)
    (quiet : phase.raised = none) :
    Ticking done ⟨watched.clock.setPhase caller phase, overwritten⟩ := by
  have raised : ∀ other timestampMs,
      ((watched.clock.setPhase caller phase).phase other).raised = some timestampMs →
        (watched.clock.phase other).raised = some timestampMs := by
    intro other timestampMs raise
    by_cases same : other = caller
    · rw [same, SharedClock.setPhase_self, quiet] at raise
      cases raise
    · rwa [SharedClock.setPhase_other _ same] at raise
  refine ⟨ticking.distinct, ticking.past, ticking.bounded, fun other => ?_, ?_⟩
  · by_cases same : other = caller
    · rw [same, SharedClock.setPhase_self]
      exact own
    · dsimp only
      rw [others other same, SharedClock.setPhase_other _ same]
      exact ticking.callers other
  · exact fun a b timestampMs first second =>
      ticking.apart a b timestampMs (raised a _ first) (raised b _ second)

/-- A caller exchanges the timestamp.  A timestamp it raises is newer than everything. -/
theorem Ticking.swapTimestamp {done : List HLC} {watched : Watched ι}
    (ticking : Ticking done watched) {caller : ι} {lastCnt : Nat} {next : HLC}
    (phase : watched.clock.phase caller = .loaded watched.clock.timestamp lastCnt next) :
    Ticking done
      ⟨{ watched.clock.setPhase caller (.timestampSwapped watched.clock.timestamp lastCnt next) with
        timestamp := next.timestampMs }, watched.overwritten⟩ := by
  have own := ticking.callers caller
  rw [phase] at own
  obtain ⟨_, proposes, bounded⟩ := own
  have grows : watched.clock.timestamp ≤ next.timestampMs := by
    rcases proposes with ⟨raises, _⟩ | ⟨keeps, _⟩
    · exact raises.le
    · exact keeps.ge
  -- the timestamps that others have raised are not above the old timestamp
  have older : ∀ other timestampMs, (watched.clock.phase other).raised = some timestampMs →
      timestampMs ≤ watched.clock.timestamp := by
    intro other timestampMs raised
    have consistent := ticking.callers other
    cases shape : watched.clock.phase other with
    | timestampSwapped lastTs' lastCnt' next' =>
      rw [shape] at consistent raised
      rw [Phase.raised] at raised
      split at raised
      · exact Option.some.inj raised ▸ consistent.1
      · cases raised
    | _ => rw [shape] at raised; cases raised
  have raisedAfter : ∀ other timestampMs,
      ((watched.clock.setPhase caller
        (.timestampSwapped watched.clock.timestamp lastCnt next)).phase other).raised =
          some timestampMs →
      (other = caller ∧ watched.clock.timestamp < timestampMs) ∨
        (other ≠ caller ∧ (watched.clock.phase other).raised = some timestampMs) := by
    intro other timestampMs raised
    by_cases same : other = caller
    · rw [same, SharedClock.setPhase_self, Phase.raised] at raised
      split at raised
      · rename_i raises
        exact Or.inl ⟨same, Option.some.inj raised ▸ raises⟩
      · cases raised
    · rw [SharedClock.setPhase_other _ same] at raised
      exact Or.inr ⟨same, raised⟩
  refine ⟨ticking.distinct, fun given hgiven => (ticking.past given hgiven).trans grows, ?_,
    fun other => ?_, fun a b timestampMs first second => ?_⟩
  · intro given hgiven same positive
    rcases proposes with ⟨raises, _⟩ | ⟨keeps, _⟩
    · exact absurd (ticking.past given hgiven) (not_le.mpr (same ▸ raises))
    · exact ticking.bounded given hgiven (same.trans keeps) positive
  · by_cases same : other = caller
    · rw [same]
      dsimp only
      rw [SharedClock.setPhase_self]
      refine ⟨le_refl _, proposes, fun raises => ⟨fun hmem => ?_, fun _ given hgiven _ => ?_⟩,
        fun keeps fresh => keeps ▸ bounded fresh rfl⟩
      · exact absurd (ticking.past _ hmem) (not_le.mpr raises)
      · exact (ticking.past given hgiven).trans_lt raises
    · dsimp only
      rw [SharedClock.setPhase_other _ same]
      exact (ticking.callers other).later grows
  · rcases raisedAfter a timestampMs first with ⟨sameA, above⟩ | ⟨_, oldA⟩
    · rcases raisedAfter b timestampMs second with ⟨sameB, _⟩ | ⟨_, oldB⟩
      · exact sameA.trans sameB.symm
      · exact absurd (older b timestampMs oldB) (not_le.mpr above)
    · rcases raisedAfter b timestampMs second with ⟨_, above⟩ | ⟨_, oldB⟩
      · exact absurd (older a timestampMs oldA) (not_le.mpr above)
      · exact ticking.apart a b timestampMs oldA oldB

/-- A caller exchanges the counter it has loaded, and its call is done. -/
theorem Ticking.swapCounter {done : List HLC} {watched : Watched ι}
    (ticking : Ticking done watched) {caller : ι} {lastTs : Nat} {next : HLC}
    (phase : watched.clock.phase caller = .timestampSwapped lastTs watched.clock.counter next)
    (fresh : watched.overwritten caller = false) {overwritten : ι → Bool}
    (flags : ∀ other, other ≠ caller → overwritten other = false →
      watched.overwritten other = false ∧ next.counter = watched.clock.counter) :
    Ticking (done ++ [next])
      ⟨{ watched.clock.setPhase caller .idle with counter := next.counter }, overwritten⟩ := by
  have own := ticking.callers caller
  rw [phase] at own
  obtain ⟨below, proposes, raise, count⟩ := own
  have new : next ∉ done := by
    intro hmem
    rcases proposes with ⟨raises, zero⟩ | ⟨keeps, counts⟩
    · refine (raise raises).1 ?_
      rw [← zero]
      exact hmem
    · have bound := count keeps fresh next hmem rfl (counts ▸ Nat.succ_pos _)
      exact absurd bound (by omega)
  have quiet : ∀ other timestampMs,
      ((watched.clock.setPhase caller .idle).phase other).raised = some timestampMs →
        other ≠ caller ∧ (watched.clock.phase other).raised = some timestampMs := by
    intro other timestampMs raised
    by_cases same : other = caller
    · rw [same, SharedClock.setPhase_self] at raised
      cases raised
    · rw [SharedClock.setPhase_other _ same] at raised
      exact ⟨same, raised⟩
  refine ⟨?_, ?_, ?_, fun other => ?_, fun a b timestampMs first second => ?_⟩
  · rw [← concat_eq_append]
    exact ticking.distinct.concat new
  · exact forall_mem_append.mpr ⟨ticking.past, forall_mem_singleton.mpr below⟩
  · rcases proposes with ⟨raises, zero⟩ | ⟨_, counts⟩
    · refine BoundedAt.snoc (fun given hgiven same positive => ?_) zero
      have earlier := (raise raises).2 fresh given hgiven positive
      exact absurd (earlier.trans_le below) (same ▸ lt_irrefl _)
    · refine forall_mem_append.mpr ⟨fun given hgiven same positive => ?_,
        forall_mem_singleton.mpr fun _ _ => le_refl _⟩
      exact (ticking.bounded given hgiven same positive).trans (counts ▸ Nat.le_succ _)
  · by_cases same : other = caller
    · rw [same]
      dsimp only
      rw [SharedClock.setPhase_self]
      trivial
    · dsimp only
      rw [SharedClock.setPhase_other _ same]
      refine (ticking.callers other).given (fun still => (flags other same still).1)
        (fun still => ?_) fun raised zero => ?_
      · have unchanged := (flags other same still).2
        rcases proposes with ⟨_, zero⟩ | ⟨_, counts⟩
        · exact zero
        · omega
      · rcases proposes with ⟨raises, _⟩ | ⟨_, counts⟩
        · refine same (ticking.apart other caller next.timestampMs raised ?_)
          rw [phase, Phase.raised, if_pos raises]
        · omega
  · obtain ⟨_, oldA⟩ := quiet a timestampMs first
    obtain ⟨_, oldB⟩ := quiet b timestampMs second
    exact ticking.apart a b timestampMs oldA oldB

/-- While the access leaves the counter alone and is not its load, the notes stay. -/
theorem Watched.access_quiet {watched : Watched ι} {access : Access ι} {clock : SharedClock ι}
    (result : watched.clock.access proposeTick access = (clock, none))
    (noLoad : (watched.clock.phase access.caller).loadsCounter = false)
    (same : clock.counter = watched.clock.counter) :
    watched.access access = (⟨clock, watched.overwritten⟩, none) := by
  rw [Watched.access, result]
  simp [noLoad, same]

theorem Ticking.step {done : List HLC} {watched : Watched ι} (ticking : Ticking done watched)
    {access : Access ι} (undisturbed : Undisturbed watched access) :
    Ticking (done ++ [(watched.access access).2].reduceOption) (watched.access access).1 := by
  have own := ticking.callers access.caller
  unfold Undisturbed at undisturbed
  -- a step without a result that only this caller notices
  have quiet : ∀ {clock : SharedClock ι},
      watched.clock.access proposeTick access = (clock, none) →
      (watched.clock.phase access.caller).loadsCounter = false →
      clock.counter = watched.clock.counter →
      Ticking done ⟨clock, watched.overwritten⟩ →
      Ticking (done ++ [(watched.access access).2].reduceOption) (watched.access access).1 := by
    intro clock result noLoad same after
    rw [Watched.access_quiet result noLoad same, reduceOption_singleton, Option.toList_none,
      append_nil]
    exact after
  cases phase : watched.clock.phase access.caller with
  | idle =>
    rw [phase] at quiet
    refine quiet (SharedClock.access_idle phase) rfl rfl ?_
    exact ticking.rephase (fun _ _ => rfl) trivial rfl
  | clockRead wallClock =>
    rw [phase] at quiet
    refine quiet (SharedClock.access_clockRead phase) rfl rfl ?_
    exact ticking.rephase (fun _ _ => rfl) (le_refl watched.clock.timestamp) rfl
  | timestampLoaded wallClock lastTs =>
    rw [phase] at own undisturbed
    rw [Watched.access, SharedClock.access_timestampLoaded phase]
    dsimp only
    rw [reduceOption_singleton, Option.toList_none, append_nil]
    refine ticking.rephase (fun other different => ?_) ?_ rfl
    · simp [different, SharedClock.setPhase]
    · refine ⟨own, proposes_proposeTick undisturbed wallClock lastTs, fun _ same => ?_⟩
      exact same ▸ ticking.bounded
  | loaded lastTs lastCnt next =>
    rw [phase] at quiet
    by_cases same : watched.clock.timestamp = lastTs
    · subst same
      refine quiet (SharedClock.access_loaded phase) rfl rfl ?_
      exact ticking.swapTimestamp phase
    · refine quiet (SharedClock.access_loaded_other phase same) rfl rfl ?_
      exact ticking.rephase (fun _ _ => rfl) trivial rfl
  | timestampSwapped lastTs lastCnt next =>
    rw [phase] at quiet undisturbed
    by_cases same : watched.clock.counter = lastCnt
    · have fresh := undisturbed same
      subst same
      rw [Watched.access, SharedClock.access_swapped phase]
      dsimp only
      rw [reduceOption_singleton, Option.toList_some]
      refine ticking.swapCounter phase fresh fun other different still => ?_
      rw [if_neg fun both => different both.1] at still
      obtain ⟨old, unchanged⟩ := Bool.or_eq_false_iff.mp still
      exact ⟨old, by simpa using unchanged⟩
    · refine quiet (SharedClock.access_swapped_other phase same) rfl rfl ?_
      exact ticking.rephase (fun _ _ => rfl) trivial rfl

/-- In a run without a counter that changes and comes back under a caller, no revision is
returned twice. -/
theorem ticks_distinct (initial : HLC) {accesses : List (Access ι)}
    (undisturbed : ∀ transition ∈ watchMachine.transitions (Watched.start initial) accesses,
      Undisturbed transition.before transition.event) :
    (ticks initial accesses).Nodup := by
  have ticking := watchMachine.history_invariant
    (fun _ outs watched => Ticking outs.reduceOption watched) Undisturbed ?_ ?_ undisturbed
  · have same := watch_outputs (Watched.start initial) accesses
    rw [same] at ticking
    exact ticking.distinct
  · intro _ outs watched access ticking permitted
    rw [reduceOption_append]
    exact ticking.step permitted
  · refine ⟨nodup_nil, (fun given hgiven => by cases hgiven),
      (fun given hgiven => by cases hgiven), fun _ => trivial, fun _ _ _ raised => ?_⟩
    cases raised

end Callers

/-- The readings of the wall clock never go back. -/
def ForwardClock {ι : Type} (accesses : List (Access ι)) : Prop :=
  accesses.Pairwise fun a b => a.wallClock ≤ b.wallClock

instance forwardClockDecidable {ι : Type} (accesses : List (Access ι)) :
    Decidable (ForwardClock accesses) := by
  unfold ForwardClock
  infer_instance

/-- Some accesses of one caller at one time. -/
def burst (count caller wallClock : Nat) : List (Access Nat) := replicate count ⟨caller, wallClock⟩

/-- Caller 1 is stopped before its exchange of the counter 1.  Callers 2 and 3 bring the counter
back to 1, the exchange resets it, and caller 4 gets the revision of caller 3. -/
def resetRun : List (Access Nat) :=
  burst 5 0 1000 ++ burst 4 1 1001 ++ burst 5 2 1002 ++ burst 5 3 1002 ++ burst 1 1 1002 ++
    burst 5 4 1002

theorem reset_counter_repeats :
    ¬ ∀ (ι : Type) [DecidableEq ι] (initial : HLC) (accesses : List (Access ι)),
      ForwardClock accesses → (ticks initial accesses).Nodup := by
  intro claim
  have distinct := claim Nat ⟨1000, 0⟩ resetRun (by decide)
  exact absurd distinct (by decide +kernel)

/-- Two callers in turns, with a failed exchange on both sides. -/
theorem contended_ticks_distinct :
    (ticks ⟨1000, 0⟩ (burst 3 1 1000 ++ burst 5 2 1000 ++ burst 7 1 1000)).Nodup := by
  refine ticks_distinct _ ?_
  decide +kernel

end RaisinDB.Clock
