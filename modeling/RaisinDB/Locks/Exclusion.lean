import Mathlib.Algebra.Order.Group.Nat
import RaisinDB.Locks.InProcess

/-!
# What the lock manager excludes

A key is granted again only when the lease of its last guard is over, or has been swept away after
it was over.  Tokens increase, a token acts on its own lease only, and the units of a pool that
are out and those that are left make up its capacity.
-/

namespace RaisinDB.Locks

open Function

/-- The entry of a key is the lease of its last guard, unless that was released or swept when it
was over. -/
def Agrees : Option LockEntry → Option Lease → Prop
  | some entry, some lease => lease = ⟨entry.token, entry.expiresAtMs, none⟩
  | none, some lease => ∃ now, lease.sweptAt = some now ∧ lease.expiresAtMs ≤ now
  | none, none => True
  | some _, none => False

/-- What is out of a pool and what is left make up the capacity it was first claimed with. -/
def Conserved (pool : String) (log : List Happened) (left : ℕ) : Prop :=
  ∃ capacity, firstAsked pool log = some capacity ∧
    returnedUnits pool log ≤ claimedUnits pool log ∧ outstanding pool log + left = capacity.val

/-- What makes an entry of the log right, given the log before it. -/
def Happened.Rightful (before : List Happened) : Happened → Prop
  | granted guard reading =>
      (∀ lease, lastLease guard.key before = some lease → lease.expiresAtMs ≤ reading ∨
        ∃ now, lease.sweptAt = some now ∧ lease.expiresAtMs ≤ now) ∧
      ∀ earlier time, granted earlier time ∈ before → earlier.token < guard.token
  | released key token => ∃ lease, lastLease key before = some lease ∧ lease.token = token
  | renewed key token _ => ∃ lease, lastLease key before = some lease ∧ lease.token = token
  | swept key reading => ∃ lease, lastLease key before = some lease ∧ lease.expiresAtMs ≤ reading
  | asked _ _ => True
  | claimed pool units remaining => Conserved pool before (units.val + remaining.val)
  | returned pool units result =>
      units.val ≤ outstanding pool before ∧
        ∃ left, Conserved pool before left ∧ result.val = left + units.val

def Rightful : List Happened → Prop
  | [] => True
  | happened :: before => happened.Rightful before ∧ Rightful before

theorem Rightful.at_append {after before : List Happened} {happened : Happened}
    (rightful : Rightful (after ++ happened :: before)) : happened.Rightful before := by
  induction after with
  | nil => exact rightful.1
  | cons _ after ih => exact ih rightful.2

/-- The counter of a pool, which is made when the pool is first claimed. -/
def Counted (pool : String) (log : List Happened) : Option U64 → Prop
  | some left => Conserved pool log left.val
  | none => firstAsked pool log = none ∧ claimedUnits pool log = 0 ∧ returnedUnits pool log = 0 ∧
      ∀ units left, .claimed pool units left ∉ log

/-- An entry of the log that is not about a pool changes nothing in its accounts. -/
theorem counted_cons {pool : String} {log : List Happened} {happened : Happened}
    (asks : firstAsked pool (happened :: log) = firstAsked pool log)
    (claims : claimedUnits pool (happened :: log) = claimedUnits pool log)
    (returns : returnedUnits pool (happened :: log) = returnedUnits pool log)
    (other : ∀ units left, happened ≠ .claimed pool units left) {counter : Option U64}
    (counted : Counted pool log counter) : Counted pool (happened :: log) counter := by
  cases counter with
  | some left => simpa only [Counted, Conserved, outstanding, asks, claims, returns] using counted
  | none =>
    obtain ⟨noneAsked, noneClaimed, noneReturned, absent⟩ := counted
    refine ⟨asks.trans noneAsked, claims.trans noneClaimed, returns.trans noneReturned, ?_⟩
    intro units left mem
    rcases List.mem_cons.mp mem with new | old
    · exact other units left new.symm
    · exact absent units left old

structure Sound (state : State) : Prop where
  leases : ∀ key, Agrees (state.locks key) (lastLease key state.log)
  tokens : ∀ guard reading, .granted guard reading ∈ state.log → guard.token ≤ state.fence
  rightful : Rightful state.log
  pools : ∀ pool, Counted pool state.log (state.pools pool)

theorem sound_initial : Sound .initial :=
  ⟨fun _ => trivial, fun _ _ mem => (nomatch mem), trivial,
    fun _ => ⟨rfl, rfl, rfl, fun _ _ mem => (nomatch mem)⟩⟩

/-! ## Leases -/

namespace Sound

variable {state : State}

theorem quiet (sound : Sound state) (calls : ℕ → Option Pending) (clock : ℕ) :
    Sound { state with calls, clock } :=
  ⟨sound.leases, sound.tokens, sound.rightful, sound.pools⟩

/-- The entry of a key is its last guard's lease, and not swept. -/
theorem lease_of_entry (sound : Sound state) {key : String} {entry : LockEntry}
    (held : state.locks key = some entry) :
    lastLease key state.log = some ⟨entry.token, entry.expiresAtMs, none⟩ := by
  have agrees := sound.leases key
  rw [held] at agrees
  cases lease : lastLease key state.log with
  | none => rw [lease] at agrees; exact agrees.elim
  | some lease' => rw [lease] at agrees; exact congrArg some agrees

/-- A key that is granted when its last lease is over. -/
theorem grant (sound : Sound state) {key owner : String} {now expiresAtMs : ℕ}
    (expired : ∀ lease, lastLease key state.log = some lease → lease.expiresAtMs ≤ now ∨
      ∃ time, lease.sweptAt = some time ∧ lease.expiresAtMs ≤ time) :
    Sound (Locks.grant state key owner now expiresAtMs) := by
  refine ⟨?_, ?_, ⟨⟨expired, ?_⟩, sound.rightful⟩,
    fun pool => counted_cons rfl rfl rfl (by simp) (sound.pools pool)⟩
  · intro other
    by_cases same : key = other
    · subst same
      simp [Locks.grant, lastLease, Happened.lease, Agrees]
    · simpa [Locks.grant, lastLease, Happened.lease, same, Ne.symm same] using sound.leases other
  · intro guard reading mem
    rcases List.mem_cons.mp mem with new | old
    · obtain ⟨rfl, -⟩ := Happened.granted.inj new
      exact le_refl _
    · exact (sound.tokens guard reading old).trans (Nat.le_succ _)
  · intro earlier time mem
    exact Nat.lt_succ_of_le (sound.tokens earlier time mem)

theorem acquireEntry (sound : Sound state) (key owner : String) (now expiresAtMs : ℕ) :
    Sound (Locks.acquireEntry state key owner now expiresAtMs) := by
  unfold Locks.acquireEntry
  cases held : state.locks key with
  | none =>
    refine sound.grant fun lease last => .inr ?_
    have agrees := sound.leases key
    rw [held, last] at agrees
    exact agrees
  | some entry =>
    dsimp only
    split_ifs with live
    · exact sound
    · refine sound.grant fun lease last => .inl ?_
      rw [sound.lease_of_entry held] at last
      obtain rfl := Option.some.inj last
      exact not_lt.mp live

/-- An entry of the log that ends or changes the lease of one key only. -/
theorem leases_update (sound : Sound state) {key : String} {entry : Option LockEntry}
    {happened : Happened} (here : Agrees entry (happened.lease key (lastLease key state.log)))
    (elsewhere : ∀ other lease, key ≠ other → happened.lease other lease = lease) (other : String) :
    Agrees (update state.locks key entry other) (lastLease other (happened :: state.log)) := by
  by_cases same : key = other
  · subst same
    simpa [lastLease] using here
  · rw [lastLease, elsewhere other _ same, update_of_ne (Ne.symm same)]
    exact sound.leases other

theorem release (sound : Sound state) (key : String) (token : ℕ) :
    Sound (Locks.release state key token) := by
  unfold Locks.release
  cases held : state.locks key with
  | none => exact sound
  | some entry =>
    dsimp only
    split_ifs with own
    · have last := sound.lease_of_entry held
      refine ⟨sound.leases_update ?_ ?_, fun guard reading mem => ?_,
        ⟨⟨_, last, own⟩, sound.rightful⟩,
        fun pool => counted_cons rfl rfl rfl (by simp) (sound.pools pool)⟩
      · simp [last, Happened.lease, own, Option.filter, Agrees]
      · intro other lease ne
        simp [Happened.lease, ne]
      · exact sound.tokens guard reading ((List.mem_cons.mp mem).resolve_left (by simp))
    · exact sound

theorem renewEntry (sound : Sound state) (key : String) (token expiresAtMs : ℕ) :
    Sound (Locks.renewEntry state key token expiresAtMs) := by
  unfold Locks.renewEntry
  cases held : state.locks key with
  | none => exact sound
  | some entry =>
    dsimp only
    split_ifs with own
    · have last := sound.lease_of_entry held
      refine ⟨sound.leases_update ?_ ?_, fun guard reading mem => ?_,
        ⟨⟨_, last, own⟩, sound.rightful⟩,
        fun pool => counted_cons rfl rfl rfl (by simp) (sound.pools pool)⟩
      · simp [last, Happened.lease, own, Agrees]
      · intro other lease ne
        simp [Happened.lease, ne]
      · exact sound.tokens guard reading ((List.mem_cons.mp mem).resolve_left (by simp))
    · exact sound

theorem sweepKey (sound : Sound state) (key : String) (now : ℕ) :
    Sound (Locks.sweepKey state key now) := by
  unfold Locks.sweepKey
  cases held : state.locks key with
  | none => exact sound
  | some entry =>
    dsimp only
    split_ifs with live
    · exact sound
    · have last := sound.lease_of_entry held
      refine ⟨sound.leases_update ?_ ?_, fun guard reading mem => ?_,
        ⟨⟨_, last, not_lt.mp live⟩, sound.rightful⟩,
        fun pool => counted_cons rfl rfl rfl (by simp) (sound.pools pool)⟩
      · simpa [last, Happened.lease, Agrees] using live
      · intro other lease ne
        simp [Happened.lease, ne]
      · exact sound.tokens guard reading ((List.mem_cons.mp mem).resolve_left (by simp))

/-! ## Counters -/

theorem conserved (sound : Sound state) {pool : String} {counter : U64}
    (value : state.pools pool = some counter) : Conserved pool state.log counter.val := by
  have counted := sound.pools pool
  rwa [value] at counted

/-- An entry of the log and the new counter of one pool. -/
theorem pools_update (sound : Sound state) {pool : String} {counter : U64} {happened : Happened}
    (here : Conserved pool (happened :: state.log) counter.val)
    (elsewhere : ∀ other, pool ≠ other → Counted other state.log (state.pools other) →
      Counted other (happened :: state.log) (state.pools other)) (other : String) :
    Counted other (happened :: state.log) (update state.pools pool (some counter) other) := by
  by_cases same : pool = other
  · subst same
    simpa [Counted] using here
  · rw [update_of_ne (Ne.symm same)]
    exact elsewhere other same (sound.pools other)

theorem claimStart (sound : Sound state) (call : ℕ) (pool : String) (units capacity : U64) :
    Sound (Locks.claimStart state call pool units capacity) := by
  refine ⟨sound.leases, fun guard reading mem => ?_, ⟨trivial, sound.rightful⟩,
    sound.pools_update ?_ ?_⟩
  · exact sound.tokens guard reading ((List.mem_cons.mp mem).resolve_left (by simp))
  · have counted := sound.pools pool
    cases value : state.pools pool with
    | none =>
      rw [value] at counted
      obtain ⟨noneAsked, noneClaimed, noneReturned, -⟩ := counted
      refine ⟨capacity, by simp [firstAsked, noneAsked], ?_, ?_⟩
      · simp [returnedUnits, claimedUnits, noneClaimed, noneReturned]
      · simp [outstanding, claimedUnits, noneClaimed]
    | some counter =>
      rw [value] at counted
      obtain ⟨first, asked, le, total⟩ := counted
      exact ⟨first, by simp [firstAsked, asked], le, total⟩
  · intro other ne counted
    exact counted_cons (by simp [firstAsked, ne]) rfl rfl (by simp) counted

theorem claimExchange (sound : Sound state) {call : ℕ} {pool : String}
    {units current counter : U64} (spurious : Bool) (value : state.pools pool = some counter) :
    Sound (Locks.claimExchange state call pool units current counter spurious) := by
  unfold Locks.claimExchange
  split_ifs with short exchanged
  · exact sound.quiet _ _
  · obtain ⟨-, rfl⟩ := exchanged
    have enough := not_lt.mp short
    have left : (counter - units).val = counter.val - units.val := Fin.sub_val_of_le enough
    have le : units.val ≤ counter.val := enough
    obtain ⟨capacity, asked, out, total⟩ := sound.conserved value
    refine ⟨sound.leases, fun guard reading mem => ?_,
      ⟨⟨capacity, asked, out, ?_⟩, sound.rightful⟩, sound.pools_update ?_ ?_⟩
    · exact sound.tokens guard reading ((List.mem_cons.mp mem).resolve_left (by simp))
    · rw [left]
      omega
    · refine ⟨capacity, asked, ?_, ?_⟩
      · simp only [returnedUnits, claimedUnits, if_true]
        omega
      · simp only [outstanding, returnedUnits, claimedUnits, if_true, left] at total ⊢
        omega
    · intro other ne counted
      exact counted_cons rfl (by simp [claimedUnits, ne]) rfl (by simp [ne]) counted
  · exact sound.quiet _ _

theorem orInsert (sound : Sound state) {pool : String} {value : U64}
    (granted : ∃ given left, .claimed pool given left ∈ state.log) :
    Sound (Locks.orInsert state pool value) := by
  refine ⟨sound.leases, sound.tokens, sound.rightful, fun other => ?_⟩
  by_cases same : pool = other
  · subst same
    have counted := sound.pools pool
    cases counter : state.pools pool with
    | none =>
      rw [counter] at counted
      obtain ⟨given, left, mem⟩ := granted
      exact absurd mem (counted.2.2.2 given left)
    | some counter' =>
      rw [counter] at counted
      simpa [Locks.orInsert, counter] using counted
  · simpa [Locks.orInsert, Ne.symm same] using sound.pools other

theorem releaseClaimAdd (sound : Sound state) {call : ℕ} {pool : String} {units counter : U64}
    (out : units.val ≤ outstanding pool state.log) (value : state.pools pool = some counter) :
    Sound (Locks.releaseClaimAdd state call pool units counter) := by
  obtain ⟨capacity, asked, le, total⟩ := sound.conserved value
  have bound := capacity.isLt
  have sum : (counter + units).val = counter.val + units.val := by
    rw [Fin.val_add, Nat.mod_eq_of_lt (by omega)]
  refine ⟨sound.leases, fun guard reading mem => ?_,
    ⟨⟨out, counter.val, ⟨capacity, asked, le, total⟩, ?_⟩, sound.rightful⟩,
    sound.pools_update ?_ ?_⟩
  · exact sound.tokens guard reading ((List.mem_cons.mp mem).resolve_left (by simp))
  · simp only [saturatingAdd]
    omega
  · refine ⟨capacity, asked, ?_, ?_⟩
    · simp only [outstanding] at out
      simp only [returnedUnits, claimedUnits, if_true]
      omega
    · simp only [outstanding, returnedUnits, claimedUnits, if_true, sum] at out total ⊢
      omega
  · intro other ne counted
    exact counted_cons rfl rfl (by simp [returnedUnits, ne]) (by simp) counted

theorem step (sound : Sound state) {next : State} (step : Step state next) : Sound next := by
  cases step with
  | tryAcquire call now key owner ttlMs fresh later => exact sound.quiet _ _
  | acquireEntry waiting => exact (sound.quiet _ _).acquireEntry _ _ _ _
  | release key token => exact sound.release key token
  | renew call now key token ttlMs fresh later => exact sound.quiet _ _
  | renewEntry waiting => exact (sound.quiet _ _).renewEntry _ _ _
  | sweep call now fresh later => exact sound.quiet _ _
  | sweepKey key sweeping => exact sound.sweepKey key _
  | sweepEnd sweeping => exact sound.quiet _ _
  | claim call pool units capacity fresh => exact sound.claimStart call pool units capacity
  | claimLoad waiting value => exact sound.quiet _ _
  | claimExchange spurious waiting value => exact sound.claimExchange spurious value
  | releaseClaim units fresh granted out => exact (sound.orInsert granted).quiet _ _
  | releaseClaimAdd waiting out value => exact sound.releaseClaimAdd out value

end Sound

theorem Reachable.sound {state : State} (reachable : Reachable state) : Sound state := by
  induction reachable with
  | initial => exact sound_initial
  | step reachable step ih => exact ih.step step

/-- In every run: each guard is granted when the lease of the key's last one is over or has been
swept away when it was over, with a larger token than any before it; only the token of the last
unreleased guard releases or renews a key; the entries are the leases that the log tells of; and
what is out of a pool and what is left in it make up the capacity it was first claimed with. -/
theorem inProcess_excludes {state : State} (reachable : Reachable state) :
    (∀ after happened before, state.log = after ++ happened :: before →
      happened.Rightful before) ∧
    (∀ key, Agrees (state.locks key) (lastLease key state.log)) ∧
    ∀ pool left, state.pools pool = some left → Conserved pool state.log left.val := by
  have sound := reachable.sound
  refine ⟨?_, sound.leases, fun pool left value => sound.conserved value⟩
  intro after happened before split
  have rightful := sound.rightful
  rw [split] at rightful
  exact rightful.at_append

/-! ## An acquisition that is overtaken by a sweep -/

def acquiring : State := (State.initial.readClock 50).begin 0 (.acquire "job" "first" 50 60)

def held : State := acquireEntry (acquiring.finish 0) "job" "first" 50 60

/-- A second call has read the clock when the first lease has five milliseconds to go. -/
def waiting : State := (held.readClock 55).begin 1 (.acquire "job" "second" 55 65)

def sweeping : State := (waiting.readClock 70).begin 2 (.sweep 70)

def grantedLate : State :=
  acquireEntry ((sweepKey sweeping "job" 70).finish 1) "job" "second" 55 65

theorem reachable_grantedLate : Reachable grantedLate := by
  have first : Reachable acquiring :=
    Reachable.initial.step (.tryAcquire 0 50 "job" "first" 10 rfl (by decide))
  have granted : Reachable held := first.step (.acquireEntry rfl)
  have second : Reachable waiting :=
    granted.step (.tryAcquire 1 55 "job" "second" 10 rfl (by decide))
  have sweep : Reachable sweeping := second.step (.sweep 2 70 rfl (by decide))
  have sweepCall : sweeping.calls 2 = some (.sweep 70) := rfl
  have secondCall : (sweepKey sweeping "job" 70).calls 1 =
      some (.acquire "job" "second" 55 65) := rfl
  exact (sweep.step (.sweepKey "job" sweepCall)).step (.acquireEntry secondCall)

theorem inProcess_excludes_late :
    (∀ after happened before, grantedLate.log = after ++ happened :: before →
      happened.Rightful before) ∧
    (∀ key, Agrees (grantedLate.locks key) (lastLease key grantedLate.log)) ∧
    ∀ pool left, grantedLate.pools pool = some left → Conserved pool grantedLate.log left.val :=
  inProcess_excludes reachable_grantedLate

/-- The second guard is granted by a call whose reading the lease of the first one outlives. -/
theorem lease_outlives_reading :
    ¬∀ state, Reachable state → ∀ after guard reading before,
      state.log = after ++ .granted guard reading :: before →
        ∀ lease, lastLease guard.key before = some lease → lease.expiresAtMs ≤ reading := by
  intro exclusive
  have log : grantedLate.log = [.granted ⟨"job", 2, 65⟩ 55, .swept "job" 70,
      .granted ⟨"job", 1, 60⟩ 50] := by decide +kernel
  have expired := exclusive grantedLate reachable_grantedLate [] ⟨"job", 2, 65⟩ 55 _ log
    ⟨1, 60, some 70⟩ (by decide +kernel)
  exact absurd expired (by decide)

end RaisinDB.Locks
