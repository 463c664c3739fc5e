import Proxyd.Consensus.Poller
import Proxyd.Go.Json
import Proxyd.Lib.Except
import Proxyd.Lib.Lease
import Proxyd.Lib.Reach

/-
  Proxyd.Consensus.Tracker

  The high-availability consensus tracker of `consensus_tracker.go`: the
  proxyd instances of one namespace elect, through a lock held in Redis, the
  instance whose pollers' state all of them serve.

    * `InMemoryConsensusTracker.Valid` and `Behind`, on the state itself;
    * the Redis keys of the namespace: `mutex`, holding the lock value of the
      leader, and `state:<val>` and `leader:<val>`, the state and hostname
      the holder of `<val>` posted; all of them expire (`Lib.Lease`);
    * `RedisConsensusTracker.stateHeartbeat` and `postPayload`, one heartbeat
      of one instance, with the outcome of each Redis call it makes given by
      a `CallFailures`;
    * the system: any number of instances sharing one Redis, whose steps are
      heartbeats, clock advances and the pollers' `Set*BlockNumber` calls.

  Go-level choices of the embedding:
    * the clock is a `Nat` (milliseconds); a key written with time to live
      `lockPeriod` at `now` lives while the clock is below `now + lockPeriod`;
    * a Redis call that fails (a transport error) has no effect on the store;
    * the lock values `redsync` draws at random are drawn from a counter, so
      no two locks share one; they are never `""`, so a lock value read from
      the `mutex` key is a `some`;
    * the JSON text of a `ConsensusTrackerState`, written by `postPayload`
      and read back by followers, is stored as the state itself:
      `json.Marshal` of it cannot fail and `json.Unmarshal` returns what it
      printed;
    * the Redis calls of one heartbeat are taken together as one step.
-/

namespace Proxyd.Consensus

open Proxyd.Lib Proxyd.Go

/-- `InMemoryConsensusTracker.Valid`. -/
def ConsensusTrackerState.valid (s : ConsensusTrackerState) : Bool :=
  s.latest > 0 && s.safe > 0 && s.finalized > 0

/-- `InMemoryConsensusTracker.Behind`. -/
def ConsensusTrackerState.behind (s other : ConsensusTrackerState) : Bool :=
  s.latest < other.latest || s.safe < other.safe || s.finalized < other.finalized

/-- The Redis keys of one namespace (`consensus:<namespace>:<tag>`) by tag. -/
structure Store where
  /-- `mutex`: the lock value of the leader. -/
  mutex : Option (Expiring Nat)
  /-- `leader:<val>`: the hostname of the holder of lock value `<val>`. -/
  leaders : Nat → Option (Expiring String)
  /-- `state:<val>`: the state the holder of lock value `<val>` posted. -/
  states : Nat → Option (Expiring ConsensusTrackerState)

/-- No key set. -/
def Store.empty : Store := ⟨none, fun _ => none, fun _ => none⟩

/-- The fields of `RedisConsensusTracker` that change. -/
structure RedisConsensusTracker where
  /-- `redlock`: the value of the lock last taken; `none` for `nil`. -/
  redlock : Option Nat
  leader : Bool
  leaderName : String
  /-- `local.state`: what this instance's pollers found. -/
  localState : ConsensusTrackerState
  /-- `remote.state`: what `Get{Latest,Safe,Finalized}BlockNumber` serve. -/
  remoteState : ConsensusTrackerState

/-- `NewRedisConsensusTracker`: no lock, not leading, both states zero. -/
def newRedisConsensusTracker : RedisConsensusTracker := ⟨none, false, "", ⟨0, 0, 0⟩, ⟨0, 0, 0⟩⟩

namespace RedisConsensusTracker

/-- `SetLatestBlockNumber`: writes the local state. -/
def setLatestBlockNumber (ct : RedisConsensusTracker) (n : UInt64) : RedisConsensusTracker :=
  { ct with localState := { ct.localState with latest := n } }

/-- `SetSafeBlockNumber`: writes the local state. -/
def setSafeBlockNumber (ct : RedisConsensusTracker) (n : UInt64) : RedisConsensusTracker :=
  { ct with localState := { ct.localState with safe := n } }

/-- `SetFinalizedBlockNumber`: writes the local state. -/
def setFinalizedBlockNumber (ct : RedisConsensusTracker) (n : UInt64) : RedisConsensusTracker :=
  { ct with localState := { ct.localState with finalized := n } }

end RedisConsensusTracker

/-- Which Redis calls of one heartbeat fail with a transport error.  A
    heartbeat makes at most one `Unlock` call. -/
structure CallFailures where
  getMutex : Bool
  unlock : Bool
  extend : Bool
  getLeader : Bool
  getState : Bool
  lock : Bool
  setState : Bool
  setLeader : Bool
  deriving DecidableEq, Repr

/-- Every call succeeds. -/
def CallFailures.none : CallFailures := ⟨false, false, false, false, false, false, false, false⟩

/-! ## The `redsync` mutex -/

/-- `Mutex.Lock` with a fresh value `m` and one try: `SET mutex m NX PX
    lockPeriod`; `none` when it fails. -/
def mutexLock (fails : Bool) (lockPeriod now m : Nat) (rs : Store) : Option Store :=
  if fails then none else (acquire now lockPeriod m rs.mutex).map ({ rs with mutex := · })

/-- `Mutex.Extend` of the lock of value `m`; `none` when `err != nil || !ok`. -/
def mutexExtend (fails : Bool) (lockPeriod now m : Nat) (rs : Store) : Option Store :=
  if fails then none else (renew now lockPeriod m rs.mutex).map ({ rs with mutex := · })

/-- `Mutex.Unlock` of the lock of value `m`; `none` when `err != nil || !ok`. -/
def mutexUnlock (fails : Bool) (now m : Nat) (rs : Store) : Option Store :=
  if fails then none else (release now m rs.mutex).map ({ rs with mutex := · })

/-! ## One heartbeat -/

section Heartbeat

variable (lockPeriod : Nat) (hostname : String) (f : CallFailures) (now : Nat)

/-- `postPayload(mutexVal)`: post the local state, then the hostname, under
    the lock value, and serve the local state; a failed write drops the
    leader flag and serves nothing new. -/
def postPayload (mutexVal : Nat) (rs : Store) (ct : RedisConsensusTracker) :
    Store × RedisConsensusTracker :=
  if f.setState then (rs, { ct with leader := false }) else
  let rs := { rs with states := Function.update rs.states mutexVal (some ⟨ct.localState, now + lockPeriod⟩) }
  if f.setLeader then (rs, { ct with leader := false }) else
  let rs := { rs with leaders := Function.update rs.leaders mutexVal (some ⟨hostname, now + lockPeriod⟩) }
  (rs, { ct with leaderName := hostname, remoteState := ct.localState })

/-- The release after an error, written twice in `stateHeartbeat`: unlock;
    when that fails too, return with the leader flag still set. -/
def releaseAfterError (m : Nat) (rs : Store) (ct : RedisConsensusTracker) :
    Store × RedisConsensusTracker :=
  match mutexUnlock f.unlock now m rs with
  | none => (rs, ct)
  | some rs' => (rs', { ct with leader := false })

/-- The follower's branch of `stateHeartbeat`: read the hostname and the
    state posted under the lock value `val`, and serve that state. -/
def follow (val : Nat) (rs : Store) (ct : RedisConsensusTracker) : RedisConsensusTracker :=
  if f.getLeader then ct else
  let ct := { ct with leaderName := (liveValue now (rs.leaders val)).getD "" }
  if f.getState then ct else
  match liveValue now (rs.states val) with
  | none => ct  -- "remote state is missing (recent leader election maybe?)"
  | some state => { ct with remoteState := state }

/-- `stateHeartbeat`, with `fresh` the value a new lock would take.  The
    leader's lock is reached through the `redlock` pointer. -/
def stateHeartbeat (fresh : Nat) (rs : Store) (ct : RedisConsensusTracker) :
    Except GoPanic (Store × RedisConsensusTracker) :=
  if f.getMutex then
    -- "failed to read the lock"
    if ct.leader then do
      let m ← deref ct.redlock
      return releaseAfterError f now m rs ct
    else return (rs, ct)
  else
    match liveValue now rs.mutex with
    | some val =>
      if ct.leader then do
        let m ← deref ct.redlock
        match mutexExtend f.extend lockPeriod now m rs with
        | none => return releaseAfterError f now m rs ct
        | some rs' => return postPayload lockPeriod hostname f now val rs' ct
      else return (rs, follow f now val rs ct)
    | none =>
      if !ct.localState.valid then return (rs, ct)
      else if ct.remoteState.valid && ct.localState.behind ct.remoteState then return (rs, ct)
      else
        match mutexLock f.lock lockPeriod now fresh rs with
        | none => return (rs, { ct with leader := false })
        | some rs' =>
          return postPayload lockPeriod hostname f now fresh rs' { ct with redlock := some fresh, leader := true }

end Heartbeat

/-! ## The instances and the Redis they share -/

/-- What the instances share: `lockPeriod`, positive since a key written with
    a zero time to live would never expire, and each instance's `HOSTNAME`. -/
structure TrackerConfig (I : Type) where
  lockPeriod : Nat
  lockPeriod_pos : 0 < lockPeriod
  hostname : I → String

/-- The default `lockPeriod`, `30 * time.Second`. -/
def defaultLockPeriod : Nat := 30000

/-- The default `heartbeatInterval`, `2 * time.Second`: `Init` runs a
    heartbeat, then waits for the rest of the interval. -/
def defaultHeartbeatInterval : Nat := 2000

/-- The clock, the next fresh lock value, Redis and every instance. -/
structure System (I : Type) where
  now : Nat
  nextLockValue : Nat
  store : Store
  trackers : I → RedisConsensusTracker

/-- A step of the system. -/
inductive Action (I : Type) where
  /-- The clock advances. -/
  | tick (d : Nat)
  /-- An instance runs `stateHeartbeat`. -/
  | heartbeat (i : I) (f : CallFailures)
  /-- An instance's pollers write its local state. -/
  | setLatestBlockNumber (i : I) (n : UInt64)
  | setSafeBlockNumber (i : I) (n : UInt64)
  | setFinalizedBlockNumber (i : I) (n : UInt64)

variable {I : Type} [DecidableEq I]

namespace System

/-- Replace one instance's tracker. -/
def setTracker (s : System I) (i : I) (ct : RedisConsensusTracker) : System I :=
  { s with trackers := Function.update s.trackers i ct }

/-- One step; a heartbeat that panics stops the system. -/
def step (c : TrackerConfig I) (s : System I) : Action I → Except GoPanic (System I)
  | .tick d => .ok { s with now := s.now + d }
  | .heartbeat i f => do
    let (store, ct) ← stateHeartbeat c.lockPeriod (c.hostname i) f s.now s.nextLockValue s.store (s.trackers i)
    return { s with store, nextLockValue := s.nextLockValue + 1, trackers := Function.update s.trackers i ct }
  | .setLatestBlockNumber i n => .ok (s.setTracker i ((s.trackers i).setLatestBlockNumber n))
  | .setSafeBlockNumber i n => .ok (s.setTracker i ((s.trackers i).setSafeBlockNumber n))
  | .setFinalizedBlockNumber i n => .ok (s.setTracker i ((s.trackers i).setFinalizedBlockNumber n))

/-- Steps in turn. -/
def run (c : TrackerConfig I) (s : System I) : List (Action I) → Except GoPanic (System I)
  | [] => .ok s
  | a :: as => do run c (← s.step c a) as

/-- Before any step: no key is set, no lock value drawn, every tracker new. -/
def Initial (s : System I) : Prop :=
  s.nextLockValue = 0 ∧ s.store.mutex = none ∧ ∀ i, s.trackers i = newRedisConsensusTracker

end System

/-- The instances in any interleaving, with any calls failing. -/
def leaderElection (c : TrackerConfig I) : LTS (System I) (Action I) where
  init := System.Initial
  step s a s' := s.step c a = .ok s'

/-- A run the step function computes is a run of the system. -/
theorem leaderElection_run_of_run_eq_ok {c : TrackerConfig I} :
    ∀ {s s' : System I} {as : List (Action I)}, s.run c as = .ok s' → (leaderElection c).Run s as s'
  | s, s', [], h => by
    cases h
    exact .nil s
  | s, s', a :: as, h => by
    obtain ⟨s₁, h₁, hrun⟩ := except_bind_eq_ok.mp h
    exact .cons h₁ (leaderElection_run_of_run_eq_ok hrun)

end Proxyd.Consensus
