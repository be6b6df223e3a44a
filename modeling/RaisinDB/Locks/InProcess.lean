import Mathlib.Algebra.Order.Group.Nat
import Mathlib.Logic.Function.Basic
import Mathlib.Order.Fin.Basic
import Mathlib.Data.Fin.Basic

/-!
# The in-process lock manager

Leases live in a map, counters of free units in another.  A call that depends on the time reads
the clock first and changes its entry of the map later, so calls overlap; a claim of units is a
loop of compare-and-exchange steps.  Whatever changes a lease or a counter is written to a log,
the newest entry first.
-/

namespace RaisinDB.Locks

open Function

abbrev U64 := Fin (2 ^ 64)

structure LockEntry where
  owner : String
  token : ℕ
  expiresAtMs : ℕ
  deriving DecidableEq

structure LockGuard where
  key : String
  token : ℕ
  expiresAtMs : ℕ
  deriving DecidableEq

/-- What a call has done to the leases and the counters. -/
inductive Happened where
  /-- A guard was granted, by a call that had read this time. -/
  | granted (guard : LockGuard) (reading : ℕ)
  | released (key : String) (token : ℕ)
  | renewed (key : String) (token expiresAtMs : ℕ)
  | swept (key : String) (reading : ℕ)
  /-- A claim was begun, with this capacity. -/
  | asked (pool : String) (capacity : U64)
  | claimed (pool : String) (units remaining : U64)
  | returned (pool : String) (units result : U64)
  deriving DecidableEq

/-- A call between two of its steps. -/
inductive Pending where
  | acquire (key owner : String) (now expiresAtMs : ℕ)
  | renew (key : String) (token expiresAtMs : ℕ)
  | sweep (now : ℕ)
  | claim (pool : String) (units : U64) (current : Option U64)
  | releaseClaim (pool : String) (units : U64)

structure State where
  locks : String → Option LockEntry
  pools : String → Option U64
  fence : ℕ
  clock : ℕ
  calls : ℕ → Option Pending
  log : List Happened

namespace State

def initial : State := ⟨fun _ => none, fun _ => none, 0, 0, fun _ => none, []⟩

def begin (state : State) (call : ℕ) (pending : Pending) : State :=
  { state with calls := update state.calls call (some pending) }

def finish (state : State) (call : ℕ) : State :=
  { state with calls := update state.calls call none }

/-- Read the clock, which does not run backwards. -/
def readClock (state : State) (now : ℕ) : State := { state with clock := now }

end State

/-- `now.saturating_add(ttl.as_millis() as u64)` -/
def expiry (now ttlMs : ℕ) : ℕ := min (now + ttlMs % 2 ^ 64) (2 ^ 64 - 1)

/-! ## Leases -/

/-- Grant the key with a fresh fencing token. -/
def grant (state : State) (key owner : String) (now expiresAtMs : ℕ) : State :=
  { state with
    fence := state.fence + 1
    locks := update state.locks key (some ⟨owner, state.fence + 1, expiresAtMs⟩)
    log := .granted ⟨key, state.fence + 1, expiresAtMs⟩ now :: state.log }

/-- A live lease wins the tie; an expired one is taken over. -/
def acquireEntry (state : State) (key owner : String) (now expiresAtMs : ℕ) : State :=
  match state.locks key with
  | some entry => if now < entry.expiresAtMs then state else grant state key owner now expiresAtMs
  | none => grant state key owner now expiresAtMs

def release (state : State) (key : String) (token : ℕ) : State :=
  match state.locks key with
  | some entry =>
      if entry.token = token then
        { state with
          locks := update state.locks key none
          log := .released key token :: state.log }
      else state
  | none => state

def renewEntry (state : State) (key : String) (token expiresAtMs : ℕ) : State :=
  match state.locks key with
  | some entry =>
      if entry.token = token then
        { state with
          locks := update state.locks key (some { entry with expiresAtMs })
          log := .renewed key token expiresAtMs :: state.log }
      else state
  | none => state

/-- A sweep reaches one key. -/
def sweepKey (state : State) (key : String) (now : ℕ) : State :=
  match state.locks key with
  | some entry =>
      if now < entry.expiresAtMs then state
      else
        { state with
          locks := update state.locks key none
          log := .swept key now :: state.log }
  | none => state

/-! ## Counters -/

/-- The counter of a pool is made on first touch. -/
def orInsert (state : State) (pool : String) (value : U64) : State :=
  { state with pools := update state.pools pool (some ((state.pools pool).getD value)) }

def claimStart (state : State) (call : ℕ) (pool : String) (units capacity : U64) : State :=
  { (orInsert state pool capacity).begin call (.claim pool units none) with
    log := .asked pool capacity :: state.log }

def claimLoad (state : State) (call : ℕ) (pool : String) (units counter : U64) : State :=
  state.begin call (.claim pool units (some counter))

/-- One round of the loop: give up when too few units are left, else exchange the counter when it
is as it was read and the weak exchange does not fail for no reason. -/
def claimExchange (state : State) (call : ℕ) (pool : String) (units current counter : U64)
    (spurious : Bool) : State :=
  if current < units then state.finish call
  else if spurious = false ∧ counter = current then
    { state.finish call with
      pools := update state.pools pool (some (current - units))
      log := .claimed pool units (current - units) :: state.log }
  else state.begin call (.claim pool units (some counter))

def saturatingAdd (left right : U64) : U64 :=
  ⟨min (left.val + right.val) (2 ^ 64 - 1), by omega⟩

def releaseClaimAdd (state : State) (call : ℕ) (pool : String) (units counter : U64) : State :=
  { state.finish call with
    pools := update state.pools pool (some (counter + units))
    log := .returned pool units (saturatingAdd counter units) :: state.log }

/-! ## What the log says -/

/-- The units that claims of a pool were granted. -/
def claimedUnits (pool : String) : List Happened → ℕ
  | [] => 0
  | .claimed other units _ :: before =>
      (if other = pool then units.val else 0) + claimedUnits pool before
  | _ :: before => claimedUnits pool before

def returnedUnits (pool : String) : List Happened → ℕ
  | [] => 0
  | .returned other units _ :: before =>
      (if other = pool then units.val else 0) + returnedUnits pool before
  | _ :: before => returnedUnits pool before

/-- The units that were handed out and not returned. -/
def outstanding (pool : String) (log : List Happened) : ℕ :=
  claimedUnits pool log - returnedUnits pool log

/-- The capacity that the pool was first claimed with. -/
def firstAsked (pool : String) : List Happened → Option U64
  | [] => none
  | .asked other capacity :: before =>
      (firstAsked pool before).or (if other = pool then some capacity else none)
  | _ :: before => firstAsked pool before

structure Lease where
  token : ℕ
  expiresAtMs : ℕ
  /-- The reading of the sweep that has taken it out of the map. -/
  sweptAt : Option ℕ
  deriving DecidableEq

/-- What one entry of the log does to the lease of the guard that was last granted for a key. -/
def Happened.lease (key : String) (lease : Option Lease) : Happened → Option Lease
  | granted guard _ =>
      if guard.key = key then some ⟨guard.token, guard.expiresAtMs, none⟩ else lease
  | released other token =>
      if other = key then lease.filter fun held => held.token ≠ token else lease
  | renewed other token expiresAtMs =>
      if other = key then
        lease.map fun held => if held.token = token then { held with expiresAtMs } else held
      else lease
  | swept other reading =>
      if other = key then lease.map fun held => { held with sweptAt := some reading } else lease
  | _ => lease

/-- The lease of the guard that was last granted for a key, unless it was released. -/
def lastLease (key : String) : List Happened → Option Lease
  | [] => none
  | happened :: before => happened.lease key (lastLease key before)

/-! ## Runs -/

/-- One step of one call.  Units are given back only when they were granted and are still out. -/
inductive Step : State → State → Prop
  | tryAcquire {state : State} (call now : ℕ) (key owner : String) (ttlMs : ℕ)
      (fresh : state.calls call = none) (later : state.clock ≤ now) :
      Step state ((state.readClock now).begin call (.acquire key owner now (expiry now ttlMs)))
  | acquireEntry {state : State} {call now expiresAtMs : ℕ} {key owner : String}
      (waiting : state.calls call = some (.acquire key owner now expiresAtMs)) :
      Step state (acquireEntry (state.finish call) key owner now expiresAtMs)
  | release (state : State) (key : String) (token : ℕ) : Step state (release state key token)
  | renew {state : State} (call now : ℕ) (key : String) (token ttlMs : ℕ)
      (fresh : state.calls call = none) (later : state.clock ≤ now) :
      Step state ((state.readClock now).begin call (.renew key token (expiry now ttlMs)))
  | renewEntry {state : State} {call token expiresAtMs : ℕ} {key : String}
      (waiting : state.calls call = some (.renew key token expiresAtMs)) :
      Step state (renewEntry (state.finish call) key token expiresAtMs)
  | sweep {state : State} (call now : ℕ) (fresh : state.calls call = none)
      (later : state.clock ≤ now) : Step state ((state.readClock now).begin call (.sweep now))
  | sweepKey {state : State} {call now : ℕ} (key : String)
      (sweeping : state.calls call = some (.sweep now)) : Step state (sweepKey state key now)
  | sweepEnd {state : State} {call now : ℕ} (sweeping : state.calls call = some (.sweep now)) :
      Step state (state.finish call)
  | claim {state : State} (call : ℕ) (pool : String) (units capacity : U64)
      (fresh : state.calls call = none) : Step state (claimStart state call pool units capacity)
  | claimLoad {state : State} {call : ℕ} {pool : String} {units counter : U64}
      (waiting : state.calls call = some (.claim pool units none))
      (value : state.pools pool = some counter) :
      Step state (claimLoad state call pool units counter)
  | claimExchange {state : State} {call : ℕ} {pool : String} {units current counter : U64}
      (spurious : Bool) (waiting : state.calls call = some (.claim pool units (some current)))
      (value : state.pools pool = some counter) :
      Step state (claimExchange state call pool units current counter spurious)
  | releaseClaim {state : State} {call : ℕ} {pool : String} (units : U64)
      (fresh : state.calls call = none)
      (granted : ∃ given left, .claimed pool given left ∈ state.log)
      (out : units.val ≤ outstanding pool state.log) :
      Step state ((orInsert state pool 0).begin call (.releaseClaim pool units))
  | releaseClaimAdd {state : State} {call : ℕ} {pool : String} {units counter : U64}
      (waiting : state.calls call = some (.releaseClaim pool units))
      (out : units.val ≤ outstanding pool state.log)
      (value : state.pools pool = some counter) :
      Step state (releaseClaimAdd state call pool units counter)

inductive Reachable : State → Prop
  | initial : Reachable .initial
  | step {state next : State} (reachable : Reachable state) (step : Step state next) :
      Reachable next

end RaisinDB.Locks
