import RaisinDB.Foundation.Machine
import RaisinDB.Replication.Operation

/-!
# The hybrid logical clock of a node

A revision is a wall-clock reading with a counter.  `tick` and `update` give out
revisions for local events and for revisions seen from other nodes.  Run one after
another they leave the value they return in the clock.
-/

namespace RaisinDB.Clock

open RaisinDB.Foundation RaisinDB.Replication List

/-! ## The order of revisions -/

/-- The timestamp first, then the counter. -/
def hlcOrder (hlc : HLC) : ℕ ×ₗ ℕ := toLex (hlc.timestampMs, hlc.counter)

theorem hlcOrder_injective : Function.Injective hlcOrder := by
  intro a b same
  cases a with
  | mk timestampMs counter =>
      cases b with
      | mk timestampMs' counter' =>
          obtain ⟨rfl, rfl⟩ := Prod.mk.inj (toLex.injective same)
          rfl

instance hlcLinearOrder : LinearOrder HLC := LinearOrder.lift' hlcOrder hlcOrder_injective

theorem hlc_lt_iff {a b : HLC} :
    a < b ↔ a.timestampMs < b.timestampMs ∨
      (a.timestampMs = b.timestampMs ∧ a.counter < b.counter) :=
  Prod.Lex.toLex_lt_toLex

theorem hlc_le_iff {a b : HLC} :
    a ≤ b ↔ a.timestampMs < b.timestampMs ∨
      (a.timestampMs = b.timestampMs ∧ a.counter ≤ b.counter) :=
  Prod.Lex.toLex_le_toLex

/-! ## Calls -/

/-- What `tick` writes over the values it has loaded. -/
def proposeTick (wallClock lastTs lastCnt : Nat) : HLC :=
  if wallClock > lastTs then ⟨wallClock, 0⟩ else ⟨lastTs, wrapU64 (lastCnt + 1)⟩

/-- What `update` writes over the values it has loaded. -/
def proposeUpdate (remote : HLC) (wallClock lastTs lastCnt : Nat) : HLC :=
  let maxTs := max (max wallClock lastTs) remote.timestampMs
  if maxTs = remote.timestampMs then ⟨maxTs, wrapU64 (remote.counter + 1)⟩
  else if maxTs = lastTs then ⟨maxTs, wrapU64 (lastCnt + 1)⟩
  else ⟨maxTs, 0⟩

inductive ClockCall where
  | tick
  | update (remote : HLC)
  deriving DecidableEq

def ClockCall.propose : ClockCall → Nat → Nat → Nat → HLC
  | .tick => proposeTick
  | .update remote => proposeUpdate remote

/-- A call with the wall-clock reading it gets. -/
structure TimedCall where
  call : ClockCall
  wallClock : Nat

/-- Without another caller both exchanges succeed at once. -/
def NodeHLCState.run (last : HLC) (timed : TimedCall) : HLC × HLC :=
  let next := timed.call.propose timed.wallClock last.timestampMs last.counter
  (next, next)

/-- The clock of a node, with one call after another. -/
def clockMachine : Machine HLC TimedCall HLC where
  step := NodeHLCState.run

/-! ## One call -/

theorem wrapU64_succ {counter : Nat} (small : counter < 2 ^ 64 - 1) :
    wrapU64 (counter + 1) = counter + 1 := by
  rw [wrapU64]
  omega

/-- The call does not overflow a counter. -/
def CountersFit (last : HLC) : ClockCall → Prop
  | .tick => last.counter < 2 ^ 64 - 1
  | .update remote => last.counter < 2 ^ 64 - 1 ∧ remote.counter < 2 ^ 64 - 1

/-- The remote timestamp ties with the local one, ahead of the wall clock, and its counter is
behind. -/
def Regresses (last : HLC) : TimedCall → Prop
  | ⟨.tick, _⟩ => False
  | ⟨.update remote, wallClock⟩ =>
      remote.timestampMs = last.timestampMs ∧ wallClock ≤ last.timestampMs ∧
        remote.counter < last.counter

theorem lt_proposeTick {last : HLC} (fits : last.counter < 2 ^ 64 - 1) (wallClock : Nat) :
    last < proposeTick wallClock last.timestampMs last.counter := by
  rw [hlc_lt_iff, proposeTick, wrapU64_succ fits]
  split
  · rename_i advanced
    exact Or.inl advanced
  · exact Or.inr ⟨rfl, Nat.lt_succ_self _⟩

theorem remote_lt_proposeUpdate {remote : HLC} (fits : remote.counter < 2 ^ 64 - 1)
    (wallClock lastTs lastCnt : Nat) : remote < proposeUpdate remote wallClock lastTs lastCnt := by
  have above : remote.timestampMs ≤ max (max wallClock lastTs) remote.timestampMs :=
    le_max_right _ _
  rw [hlc_lt_iff, proposeUpdate, wrapU64_succ fits]
  split
  · rename_i same
    exact Or.inr ⟨same.symm, Nat.lt_succ_self _⟩
  · rename_i different
    have later := lt_of_le_of_ne above (Ne.symm different)
    split
    · exact Or.inl later
    · exact Or.inl later

theorem lt_proposeUpdate_iff {last remote : HLC} (fits : last.counter < 2 ^ 64 - 1)
    (remoteFits : remote.counter < 2 ^ 64 - 1) (wallClock : Nat) :
    last < proposeUpdate remote wallClock last.timestampMs last.counter ↔
      ¬ Regresses last ⟨.update remote, wallClock⟩ := by
  rw [hlc_lt_iff, proposeUpdate, wrapU64_succ fits, wrapU64_succ remoteFits, Regresses]
  split
  · dsimp only
    omega
  · split
    · dsimp only
      omega
    · dsimp only
      omega

theorem lt_propose_iff {last : HLC} {timed : TimedCall} (fits : CountersFit last timed.call) :
    last < timed.call.propose timed.wallClock last.timestampMs last.counter ↔
      ¬ Regresses last timed := by
  obtain ⟨call, wallClock⟩ := timed
  cases call with
  | tick => exact iff_of_true (lt_proposeTick fits wallClock) id
  | update remote => exact lt_proposeUpdate_iff fits.1 fits.2 wallClock

/-! ## Runs -/

/-- Every revision given out is later than the start, than all before it, and than the remote
revision it answers. -/
structure Monotone (start : HLC) (calls : List TimedCall) : Prop where
  later : ∀ given ∈ clockMachine.outputs start calls, start < given
  increasing : (clockMachine.outputs start calls).Pairwise (· < ·)
  aboveRemote : ∀ transition ∈ clockMachine.transitions start calls, ∀ remote,
    transition.event.call = .update remote → remote < transition.output

theorem outputs_cons (start : HLC) (timed : TimedCall) (rest : List TimedCall) :
    clockMachine.outputs start (timed :: rest) =
      timed.call.propose timed.wallClock start.timestampMs start.counter ::
        clockMachine.outputs
          (timed.call.propose timed.wallClock start.timestampMs start.counter) rest := rfl

theorem outputs_later_of_steps {start : HLC} {calls : List TimedCall}
    (steps : ∀ transition ∈ clockMachine.transitions start calls,
      transition.before < transition.output) :
    (∀ given ∈ clockMachine.outputs start calls, start < given) ∧
      (clockMachine.outputs start calls).Pairwise (· < ·) := by
  induction calls generalizing start with
  | nil => exact ⟨(fun _ hmem => by cases hmem), Pairwise.nil⟩
  | cons timed rest ih =>
      obtain ⟨here, following⟩ := forall_mem_cons.mp steps
      obtain ⟨later, increasing⟩ := ih following
      rw [outputs_cons]
      refine ⟨forall_mem_cons.mpr ⟨here, fun given hmem => ?_⟩, pairwise_cons.mpr ⟨later, increasing⟩⟩
      exact lt_trans here (later given hmem)

theorem steps_later_of_outputs {start : HLC} {calls : List TimedCall}
    (later : ∀ given ∈ clockMachine.outputs start calls, start < given)
    (increasing : (clockMachine.outputs start calls).Pairwise (· < ·)) :
    ∀ transition ∈ clockMachine.transitions start calls,
      transition.before < transition.output := by
  induction calls generalizing start with
  | nil => intro transition hmem; cases hmem
  | cons timed rest ih =>
      rw [outputs_cons] at later increasing
      obtain ⟨above, following⟩ := pairwise_cons.mp increasing
      exact forall_mem_cons.mpr ⟨later _ mem_cons_self, ih above following⟩

/-- The clock is monotone along a run exactly when no call of it regresses. -/
theorem clock_monotone_iff {start : HLC} {calls : List TimedCall}
    (fits : ∀ transition ∈ clockMachine.transitions start calls,
      CountersFit transition.before transition.event.call) :
    Monotone start calls ↔
      ∀ transition ∈ clockMachine.transitions start calls,
        ¬ Regresses transition.before transition.event := by
  have step : ∀ transition ∈ clockMachine.transitions start calls,
      transition.before < transition.output ↔
        ¬ Regresses transition.before transition.event := by
    intro transition hmem
    have small := fits transition hmem
    obtain ⟨early, timed, late, _, rfl⟩ := clockMachine.mem_transitions_iff.mp hmem
    exact lt_propose_iff small
  constructor
  · intro monotone transition hmem
    exact (step transition hmem).mp
      (steps_later_of_outputs monotone.later monotone.increasing transition hmem)
  · intro keeps
    obtain ⟨later, increasing⟩ := outputs_later_of_steps fun transition hmem =>
      (step transition hmem).mpr (keeps transition hmem)
    refine ⟨later, increasing, fun transition hmem remote update => ?_⟩
    have small := fits transition hmem
    obtain ⟨early, timed, late, _, rfl⟩ := clockMachine.mem_transitions_iff.mp hmem
    obtain ⟨call, wallClock⟩ := timed
    obtain rfl : call = .update remote := update
    exact remote_lt_proposeUpdate small.2 wallClock _ _

/-- A clock at counter 5 hears of counter 2 of the same millisecond. -/
theorem tied_update_goes_back :
    ¬ ∀ (start : HLC) (calls : List TimedCall),
      (∀ transition ∈ clockMachine.transitions start calls,
        CountersFit transition.before transition.event.call) → Monotone start calls := by
  intro claim
  have monotone := claim ⟨1000, 5⟩ [⟨.update ⟨1000, 2⟩, 900⟩]
    (forall_mem_singleton.mpr ⟨by decide, by decide⟩)
  exact absurd (monotone.later _ mem_cons_self) (by decide)

/-- A tick, an update from the future and a tick of a clock that was set back. -/
theorem ticks_and_update_increase :
    Monotone ⟨1000, 5⟩ [⟨.tick, 1000⟩, ⟨.update ⟨2000, 7⟩, 1001⟩, ⟨.tick, 10⟩] := by
  refine (clock_monotone_iff ?_).mpr ?_
  · refine forall_mem_cons.mpr ⟨?_, forall_mem_cons.mpr ⟨⟨?_, ?_⟩, forall_mem_singleton.mpr ?_⟩⟩
    · exact (by decide : (5 : Nat) < 2 ^ 64 - 1)
    · exact (by decide : (6 : Nat) < 2 ^ 64 - 1)
    · exact (by decide : (7 : Nat) < 2 ^ 64 - 1)
    · exact (by decide : (8 : Nat) < 2 ^ 64 - 1)
  · refine forall_mem_cons.mpr ⟨id, forall_mem_cons.mpr ⟨?_, forall_mem_singleton.mpr id⟩⟩
    exact fun regresses => absurd regresses.1 (by decide)

end RaisinDB.Clock
