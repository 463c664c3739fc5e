import Proxyd.Consensus.Tracker

/-
  Proxyd.Consensus.Leadership

  What the Redis leader election of `consensus_tracker.go` guarantees.

  One heartbeat touches the `mutex` key in one of four ways (`LockEffect`):
  it leaves it, the leader extends or releases its own live lock, or the
  instance takes the free lock with a fresh value.  From that:

    * in every reachable state the lock values are distinct and a flagged
      instance has one, so `stateHeartbeat` never dereferences a `nil`
      `redlock`, and at most one instance holds the lock;
    * a flagged instance whose lock the key no longer holds is stuck: each of
      its heartbeats, whatever the calls answer, changes nothing, so the state
      it serves is frozen while another instance holds the lock;
    * that state is reachable: a failed `Extend` followed by a failed
      `Unlock` returns with the flag still set, where every other way out of
      the leader's branch clears it; a leader whose `Extend` keeps failing
      until its lease lapses loses the lock to another instance and keeps
      its flag;
    * when the clock never lets a flagged instance's lock lapse, every
      flagged instance holds the lock, and a heartbeat whose calls succeed
      serves the instance's own state when it leads and the state posted
      under the lock otherwise.
-/

namespace Proxyd.Consensus

open Proxyd.Lib Proxyd.Go

/-- An instance holds the lock at `now`: the `mutex` key lives and holds its
    lock value. -/
def HoldsLock (now : Nat) (rs : Store) (ct : RedisConsensusTracker) : Prop :=
  ∃ m, ct.redlock = some m ∧ liveValue now rs.mutex = some m

/-! ## The `redsync` calls -/

section Mutex

variable {fails : Bool} {lockPeriod now m : Nat} {rs rs' : Store}

theorem mutexLock_eq_some :
    mutexLock fails lockPeriod now m rs = some rs' ↔
      fails = false ∧ liveValue now rs.mutex = none ∧ rs' = { rs with mutex := some ⟨m, now + lockPeriod⟩ } := by
  cases fails with
  | true => simp [mutexLock]
  | false =>
    simp only [mutexLock, Bool.false_eq_true, if_false, Option.map_eq_some_iff, acquire_eq_some, true_and]
    constructor
    · rintro ⟨_, ⟨hlive, rfl⟩, rfl⟩
      exact ⟨hlive, rfl⟩
    · rintro ⟨hlive, rfl⟩
      exact ⟨_, ⟨hlive, rfl⟩, rfl⟩

theorem mutexExtend_eq_some :
    mutexExtend fails lockPeriod now m rs = some rs' ↔
      fails = false ∧ liveValue now rs.mutex = some m ∧ rs' = { rs with mutex := some ⟨m, now + lockPeriod⟩ } := by
  cases fails with
  | true => simp [mutexExtend]
  | false =>
    simp only [mutexExtend, Bool.false_eq_true, if_false, Option.map_eq_some_iff, renew_eq_some, true_and]
    constructor
    · rintro ⟨_, ⟨hlive, rfl⟩, rfl⟩
      exact ⟨hlive, rfl⟩
    · rintro ⟨hlive, rfl⟩
      exact ⟨_, ⟨hlive, rfl⟩, rfl⟩

theorem mutexUnlock_eq_some :
    mutexUnlock fails now m rs = some rs' ↔
      fails = false ∧ liveValue now rs.mutex = some m ∧ rs' = { rs with mutex := none } := by
  cases fails with
  | true => simp [mutexUnlock]
  | false =>
    simp only [mutexUnlock, Bool.false_eq_true, if_false, Option.map_eq_some_iff, release_eq_some, true_and]
    constructor
    · rintro ⟨_, ⟨hlive, rfl⟩, rfl⟩
      exact ⟨hlive, rfl⟩
    · rintro ⟨hlive, rfl⟩
      exact ⟨_, ⟨hlive, rfl⟩, rfl⟩

theorem mutexExtend_of_live_ne {v : Nat} (hv : liveValue now rs.mutex = some v) (hne : v ≠ m) :
    mutexExtend fails lockPeriod now m rs = none := by
  cases fails <;> simp [mutexExtend, renew_of_live_ne hv hne]

theorem mutexUnlock_of_live_ne {v : Nat} (hv : liveValue now rs.mutex = some v) (hne : v ≠ m) :
    mutexUnlock fails now m rs = none := by
  cases fails <;> simp [mutexUnlock, release_of_live_ne hv hne]

end Mutex

/-! ## What one heartbeat does to the lock -/

section Heartbeat

variable {lockPeriod : Nat} {hostname : String} {f : CallFailures} {now : Nat}

@[simp] theorem postPayload_mutex (v : Nat) (rs : Store) (ct : RedisConsensusTracker) :
    (postPayload lockPeriod hostname f now v rs ct).1.mutex = rs.mutex := by
  unfold postPayload
  split_ifs <;> rfl

@[simp] theorem postPayload_redlock (v : Nat) (rs : Store) (ct : RedisConsensusTracker) :
    (postPayload lockPeriod hostname f now v rs ct).2.redlock = ct.redlock := by
  unfold postPayload
  split_ifs <;> rfl

/-- `postPayload` never raises the leader flag. -/
theorem postPayload_leader {v : Nat} {rs : Store} {ct : RedisConsensusTracker}
    (h : (postPayload lockPeriod hostname f now v rs ct).2.leader = true) : ct.leader = true := by
  unfold postPayload at h
  split_ifs at h
  exact h

@[simp] theorem follow_redlock (val : Nat) (rs : Store) (ct : RedisConsensusTracker) :
    (follow f now val rs ct).redlock = ct.redlock := by
  unfold follow
  split_ifs <;> (try split) <;> rfl

@[simp] theorem follow_leader (val : Nat) (rs : Store) (ct : RedisConsensusTracker) :
    (follow f now val rs ct).leader = ct.leader := by
  unfold follow
  split_ifs <;> (try split) <;> rfl

/-- The release after an error either changes nothing or deletes the
    caller's live lock and drops the flag. -/
theorem releaseAfterError_cases (m : Nat) (rs : Store) (ct : RedisConsensusTracker) :
    releaseAfterError f now m rs ct = (rs, ct) ∨
      (liveValue now rs.mutex = some m ∧
        releaseAfterError f now m rs ct = ({ rs with mutex := none }, { ct with leader := false })) := by
  unfold releaseAfterError
  cases h : mutexUnlock f.unlock now m rs with
  | none => exact .inl rfl
  | some rs' =>
    obtain ⟨-, hlive, rfl⟩ := mutexUnlock_eq_some.mp h
    exact .inr ⟨hlive, rfl⟩

/-- While the key holds another lock value, the release after an error
    changes nothing. -/
theorem releaseAfterError_of_live_ne {m v : Nat} {rs : Store} {ct : RedisConsensusTracker}
    (hv : liveValue now rs.mutex = some v) (hne : v ≠ m) : releaseAfterError f now m rs ct = (rs, ct) := by
  simp [releaseAfterError, mutexUnlock_of_live_ne hv hne]

/-- The ways one heartbeat of an instance with tracker `ct` can leave the
    `mutex` key and the instance's lock value and flag. -/
inductive LockEffect (lockPeriod now fresh : Nat) (rs : Store) (ct : RedisConsensusTracker) :
    Store → RedisConsensusTracker → Prop where
  /-- The key and the lock value stay; the flag is not raised. -/
  | keep {rs' ct'} : rs'.mutex = rs.mutex → ct'.redlock = ct.redlock → (ct'.leader = true → ct.leader = true) →
      LockEffect lockPeriod now fresh rs ct rs' ct'
  /-- The instance extends its live lock. -/
  | extend {rs' ct'} (m : Nat) : ct.redlock = some m → liveValue now rs.mutex = some m →
      rs'.mutex = some ⟨m, now + lockPeriod⟩ → ct'.redlock = ct.redlock →
      LockEffect lockPeriod now fresh rs ct rs' ct'
  /-- The instance deletes its live lock and drops the flag. -/
  | release {rs' ct'} (m : Nat) : ct.redlock = some m → liveValue now rs.mutex = some m →
      rs'.mutex = none → ct'.redlock = ct.redlock → ct'.leader = false →
      LockEffect lockPeriod now fresh rs ct rs' ct'
  /-- The instance takes the free lock with the fresh value. -/
  | acquire {rs' ct'} : liveValue now rs.mutex = none → rs'.mutex = some ⟨fresh, now + lockPeriod⟩ →
      ct'.redlock = some fresh → LockEffect lockPeriod now fresh rs ct rs' ct'

namespace LockEffect

variable {fresh : Nat} {rs rs' : Store} {ct ct' : RedisConsensusTracker}

theorem refl : LockEffect lockPeriod now fresh rs ct rs ct := .keep rfl rfl id

theorem of_releaseAfterError {m : Nat} (hm : ct.redlock = some m)
    (h : releaseAfterError f now m rs ct = (rs', ct')) : LockEffect lockPeriod now fresh rs ct rs' ct' := by
  rcases releaseAfterError_cases (f := f) m rs ct with hkeep | ⟨hlive, hrel⟩
  · rw [hkeep] at h
    cases h
    exact refl
  · rw [hrel] at h
    cases h
    exact .release m hm hlive rfl rfl rfl

/-- Posting after an effect keeps it: `postPayload` leaves the key and the
    lock value and can only drop the flag. -/
theorem postPayload (h : LockEffect lockPeriod now fresh rs ct rs' ct') (hostname : String)
    (f : CallFailures) (v : Nat) :
    LockEffect lockPeriod now fresh rs ct (Consensus.postPayload lockPeriod hostname f now v rs' ct').1
      (Consensus.postPayload lockPeriod hostname f now v rs' ct').2 := by
  cases h with
  | keep hmu hrl hl =>
    exact .keep (by simpa using hmu) (by simpa using hrl) (fun h' => hl (postPayload_leader h'))
  | extend m hm hlive hmu hrl => exact .extend m hm hlive (by simpa using hmu) (by simpa using hrl)
  | release m hm hlive hmu hrl hl =>
    refine .release m hm hlive (by simpa using hmu) (by simpa using hrl) ?_
    cases hl' : (Consensus.postPayload lockPeriod hostname f now v rs' ct').2.leader
    · rfl
    · simp [postPayload_leader hl'] at hl
  | acquire hlive hmu hrl => exact .acquire hlive (by simpa using hmu) (by simpa using hrl)

/-- The lock value afterwards is the old one or the fresh one. -/
theorem redlock_cases (h : LockEffect lockPeriod now fresh rs ct rs' ct') :
    ct'.redlock = ct.redlock ∨ ct'.redlock = some fresh := by
  cases h with
  | keep _ hrl _ => exact .inl hrl
  | extend _ _ _ _ hrl => exact .inl hrl
  | release _ _ _ _ hrl _ => exact .inl hrl
  | acquire _ _ hrl => exact .inr hrl

/-- A flagged instance keeps having a lock value. -/
theorem redlock_of_leader (h : LockEffect lockPeriod now fresh rs ct rs' ct')
    (hinv : ct.leader = true → ct.redlock.isSome) : ct'.leader = true → ct'.redlock.isSome := by
  intro hl
  cases h with
  | keep _ hrl hl' => rw [hrl]; exact hinv (hl' hl)
  | extend m hm _ _ hrl => simp [hrl, hm]
  | release _ _ _ _ _ hl' => simp [hl'] at hl
  | acquire _ _ hrl => simp [hrl]

/-- An instance that does not hold the live lock leaves the key alone. -/
theorem mutex_of_live_ne {v : Nat} (h : LockEffect lockPeriod now fresh rs ct rs' ct')
    (hv : liveValue now rs.mutex = some v) (hne : ct.redlock ≠ some v) : rs'.mutex = rs.mutex := by
  cases h with
  | keep hmu _ _ => exact hmu
  | extend m hm hlive _ _ => rw [hv] at hlive; cases hlive; exact absurd hm hne
  | release m hm hlive _ _ _ => rw [hv] at hlive; cases hlive; exact absurd hm hne
  | acquire hlive _ _ => rw [hv] at hlive; cases hlive

/-- A flagged instance that held the lock still holds it. -/
theorem holdsLock (hpos : 0 < lockPeriod) (h : LockEffect lockPeriod now fresh rs ct rs' ct')
    (hinv : ct.leader = true → HoldsLock now rs ct) : ct'.leader = true → HoldsLock now rs' ct' := by
  intro hl
  cases h with
  | keep hmu hrl hl' =>
    obtain ⟨m, hm, hlive⟩ := hinv (hl' hl)
    exact ⟨m, hrl ▸ hm, hmu ▸ hlive⟩
  | extend m hm _ hmu hrl => exact ⟨m, hrl ▸ hm, by simp [hmu, hpos]⟩
  | release _ _ _ _ _ hl' => simp [hl'] at hl
  | acquire _ hmu hrl => exact ⟨fresh, hrl, by simp [hmu, hpos]⟩

end LockEffect

/-- Every heartbeat that does not panic has one of the four effects. -/
theorem stateHeartbeat_lockEffect {fresh : Nat} {rs rs' : Store} {ct ct' : RedisConsensusTracker}
    (h : stateHeartbeat lockPeriod hostname f now fresh rs ct = .ok (rs', ct')) :
    LockEffect lockPeriod now fresh rs ct rs' ct' := by
  unfold stateHeartbeat at h
  split at h
  · -- the read of the lock failed
    split at h
    · obtain ⟨m, hm, h⟩ := except_bind_eq_ok.mp h
      exact .of_releaseAfterError (deref_eq_ok.mp hm) (except_pure_eq_ok.mp h)
    · cases h
      exact .refl
  · split at h
    · -- the lock is held: extend it, or follow its holder
      rename_i val hval
      split at h
      · obtain ⟨m, hm, h⟩ := except_bind_eq_ok.mp h
        have hm := deref_eq_ok.mp hm
        split at h
        · exact .of_releaseAfterError hm (except_pure_eq_ok.mp h)
        · rename_i rs₁ hext
          obtain ⟨-, hlive, rfl⟩ := mutexExtend_eq_some.mp hext
          have hext : LockEffect lockPeriod now fresh rs ct { rs with mutex := some ⟨m, now + lockPeriod⟩ } ct :=
            .extend m hm hlive rfl rfl
          have heff := hext.postPayload hostname f val
          rwa [except_pure_eq_ok.mp h] at heff
      · cases h
        exact .keep rfl (follow_redlock ..) (by simp)
    · -- the lock is free: take it when the local state is good enough
      rename_i hnone
      split at h
      · cases h
        exact .refl
      split at h
      · cases h
        exact .refl
      split at h
      · cases h
        exact .keep rfl rfl (by simp)
      · rename_i rs₁ hlock
        obtain ⟨-, hlive, rfl⟩ := mutexLock_eq_some.mp hlock
        have hacq : LockEffect lockPeriod now fresh rs ct { rs with mutex := some ⟨fresh, now + lockPeriod⟩ }
            { ct with redlock := some fresh, leader := true } := .acquire hlive rfl rfl
        have heff := hacq.postPayload hostname f fresh
        rwa [except_pure_eq_ok.mp h] at heff

/-- A heartbeat panics only by dereferencing a `nil` lock of a flagged
    instance. -/
theorem stateHeartbeat_ok {fresh : Nat} (rs : Store) (ct : RedisConsensusTracker)
    (hinv : ct.leader = true → ct.redlock.isSome) :
    ∃ r, stateHeartbeat lockPeriod hostname f now fresh rs ct = .ok r := by
  unfold stateHeartbeat
  cases hl : ct.leader with
  | false =>
    simp only [Bool.false_eq_true, if_false]
    split
    · exact ⟨_, rfl⟩
    · split
      · exact ⟨_, rfl⟩
      · split
        · exact ⟨_, rfl⟩
        split
        · exact ⟨_, rfl⟩
        split <;> exact ⟨_, rfl⟩
  | true =>
    obtain ⟨m, hm⟩ := Option.isSome_iff_exists.mp (hinv hl)
    simp only [if_true, hm, deref, except_ok_bind]
    split
    · exact ⟨_, rfl⟩
    · split
      · split <;> exact ⟨_, rfl⟩
      · split
        · exact ⟨_, rfl⟩
        split
        · exact ⟨_, rfl⟩
        split <;> exact ⟨_, rfl⟩

/-- A flagged instance whose lock the key no longer holds changes nothing,
    whatever its calls answer: its `Extend` and its `Unlock` both fail. -/
theorem stateHeartbeat_of_stale {fresh m v : Nat} {rs : Store} {ct : RedisConsensusTracker}
    (hl : ct.leader = true) (hm : ct.redlock = some m) (hv : liveValue now rs.mutex = some v) (hne : v ≠ m) :
    stateHeartbeat lockPeriod hostname f now fresh rs ct = .ok (rs, ct) := by
  have hrel : releaseAfterError f now m rs ct = (rs, ct) := releaseAfterError_of_live_ne hv hne
  unfold stateHeartbeat
  -- in both branches `simp` settles the leader test from `hl` in the context
  split
  · -- the read of the lock failed, and so does the unlock
    simp [hm, deref, hrel]
  · -- the read finds the other lock: the extend fails, then the unlock
    simp [hv, hm, deref, mutexExtend_of_live_ne hv hne, hrel]

/-- A flagged instance holding the lock, whose calls succeed, extends it and
    serves its own local state. -/
theorem stateHeartbeat_none_of_holdsLock {fresh : Nat} {rs : Store} {ct : RedisConsensusTracker}
    (hl : ct.leader = true) (hh : HoldsLock now rs ct) :
    ∃ rs', stateHeartbeat lockPeriod hostname .none now fresh rs ct =
      .ok (rs', { ct with leaderName := hostname, remoteState := ct.localState }) := by
  obtain ⟨m, hm, hv⟩ := hh
  have hext : mutexExtend false lockPeriod now m rs = some { rs with mutex := some ⟨m, now + lockPeriod⟩ } :=
    mutexExtend_eq_some.mpr ⟨rfl, hv, rfl⟩
  unfold stateHeartbeat
  simp only [CallFailures.none, Bool.false_eq_true, if_false, hv, hl, if_true, hm, deref, except_ok_bind, hext,
    except_pure_eq_ok, postPayload]
  exact ⟨_, rfl⟩

/-- A follower whose calls succeed serves the state posted under the live
    lock value, when there is one. -/
theorem stateHeartbeat_none_follow {fresh v : Nat} {st : ConsensusTrackerState} {rs : Store}
    {ct : RedisConsensusTracker} (hl : ct.leader = false) (hv : liveValue now rs.mutex = some v)
    (hs : liveValue now (rs.states v) = some st) :
    stateHeartbeat lockPeriod hostname .none now fresh rs ct =
      .ok (rs, { ct with leaderName := (liveValue now (rs.leaders v)).getD "", remoteState := st }) := by
  simp [stateHeartbeat, CallFailures.none, hl, hv, follow, hs]

end Heartbeat

/-! ## The system -/

section System

variable {I : Type} [DecidableEq I] {c : TrackerConfig I}

theorem setTracker_trackers (s : System I) (i : I) (ct : RedisConsensusTracker) (j : I) :
    (s.setTracker i ct).trackers j = if j = i then ct else s.trackers j :=
  Function.update_apply ..

/-- A tracker written with the same lock value leaves every lock value. -/
theorem setTracker_redlock {s : System I} {i : I} {ct : RedisConsensusTracker}
    (hr : ct.redlock = (s.trackers i).redlock) (j : I) :
    ((s.setTracker i ct).trackers j).redlock = (s.trackers j).redlock := by
  rw [setTracker_trackers]
  split_ifs with hj
  · subst hj
    exact hr
  · rfl

/-- A tracker written with the same flag leaves every flag. -/
theorem setTracker_leader {s : System I} {i : I} {ct : RedisConsensusTracker}
    (hl : ct.leader = (s.trackers i).leader) (j : I) :
    ((s.setTracker i ct).trackers j).leader = (s.trackers j).leader := by
  rw [setTracker_trackers]
  split_ifs with hj
  · subst hj
    exact hl
  · rfl

/-- What one step of the system can do: advance the clock, run a heartbeat
    of one instance, or rewrite one instance's local state. -/
theorem step_cases {s s' : System I} {a : Action I} (h : s.step c a = .ok s') :
    (∃ d, a = .tick d ∧ s' = { s with now := s.now + d }) ∨
    (∃ i f rs ct, a = .heartbeat i f ∧
      stateHeartbeat c.lockPeriod (c.hostname i) f s.now s.nextLockValue s.store (s.trackers i) = .ok (rs, ct) ∧
      s' = { s with store := rs, nextLockValue := s.nextLockValue + 1,
                    trackers := Function.update s.trackers i ct }) ∨
    (∃ i ct, s' = s.setTracker i ct ∧ ct.redlock = (s.trackers i).redlock ∧
      ct.leader = (s.trackers i).leader) := by
  cases a with
  | tick d => exact .inl ⟨d, rfl, (Except.ok.inj h).symm⟩
  | heartbeat i f =>
    obtain ⟨⟨rs, ct⟩, hhb, hs'⟩ := except_bind_eq_ok.mp h
    exact .inr (.inl ⟨i, f, rs, ct, rfl, hhb, (except_pure_eq_ok.mp hs').symm⟩)
  | setLatestBlockNumber i n => exact .inr (.inr ⟨i, _, (Except.ok.inj h).symm, rfl, rfl⟩)
  | setSafeBlockNumber i n => exact .inr (.inr ⟨i, _, (Except.ok.inj h).symm, rfl, rfl⟩)
  | setFinalizedBlockNumber i n => exact .inr (.inr ⟨i, _, (Except.ok.inj h).symm, rfl, rfl⟩)

/-- A heartbeat step runs the instance's `stateHeartbeat` on the shared store
    and draws the next lock value. -/
theorem step_heartbeat {s : System I} {i : I} {f : CallFailures} {rs : Store} {ct : RedisConsensusTracker}
    (h : stateHeartbeat c.lockPeriod (c.hostname i) f s.now s.nextLockValue s.store (s.trackers i) = .ok (rs, ct)) :
    s.step c (.heartbeat i f) = .ok { s with store := rs, nextLockValue := s.nextLockValue + 1,
                                             trackers := Function.update s.trackers i ct } := by
  simp [System.step, h]

/-! ### Lock values -/

/-- The lock values of a run: each was drawn before the next fresh one, no
    two instances have the same, and a flagged instance has one. -/
structure LockValuesInv (s : System I) : Prop where
  redlock_lt : ∀ i m, (s.trackers i).redlock = some m → m < s.nextLockValue
  redlock_inj : ∀ i j m, (s.trackers i).redlock = some m → (s.trackers j).redlock = some m → i = j
  redlock_of_leader : ∀ i, (s.trackers i).leader = true → (s.trackers i).redlock.isSome

omit [DecidableEq I] in
theorem lockValuesInv_initial {s : System I} (h : s.Initial) : LockValuesInv s where
  redlock_lt i m hm := by simp [h.2.2 i, newRedisConsensusTracker] at hm
  redlock_inj i _ m hm := by simp [h.2.2 i, newRedisConsensusTracker] at hm
  redlock_of_leader i hl := by simp [h.2.2 i, newRedisConsensusTracker] at hl

namespace LockValuesInv

variable {s : System I}

theorem setTracker (hinv : LockValuesInv s) {i : I} {ct : RedisConsensusTracker}
    (hr : ct.redlock = (s.trackers i).redlock) (hl : ct.leader = (s.trackers i).leader) :
    LockValuesInv (s.setTracker i ct) where
  redlock_lt j m hm := hinv.redlock_lt j m (setTracker_redlock hr j ▸ hm)
  redlock_inj j k m hj hk := hinv.redlock_inj j k m (setTracker_redlock hr j ▸ hj) (setTracker_redlock hr k ▸ hk)
  redlock_of_leader j hj := setTracker_redlock hr j ▸ hinv.redlock_of_leader j (setTracker_leader hl j ▸ hj)

omit [DecidableEq I] in
/-- The lock value an instance has after its heartbeat is no other
    instance's: it is its old one or the fresh one. -/
theorem not_shared (hinv : LockValuesInv s) {lockPeriod : Nat} {i k : I} {rs : Store}
    {ct : RedisConsensusTracker} (heff : LockEffect lockPeriod s.now s.nextLockValue s.store (s.trackers i) rs ct)
    (hk : k ≠ i) {m : Nat} (hm : ct.redlock = some m) (hkm : (s.trackers k).redlock = some m) : False := by
  rcases heff.redlock_cases with hold | hfresh
  · exact hk (hinv.redlock_inj k i m hkm (hold ▸ hm))
  · rw [hfresh] at hm
    cases hm
    exact absurd (hinv.redlock_lt k _ hkm) (Nat.lt_irrefl _)

theorem heartbeat (hinv : LockValuesInv s) {lockPeriod : Nat} {i : I} {rs : Store}
    {ct : RedisConsensusTracker} (heff : LockEffect lockPeriod s.now s.nextLockValue s.store (s.trackers i) rs ct) :
    LockValuesInv { s with store := rs, nextLockValue := s.nextLockValue + 1,
                           trackers := Function.update s.trackers i ct } where
  redlock_lt j m hm := by
    simp only [Function.update_apply] at hm ⊢
    split_ifs at hm with hji
    · rcases heff.redlock_cases with hold | hfresh
      · have := hinv.redlock_lt i m (hold ▸ hm)
        omega
      · rw [hfresh] at hm
        cases hm
        omega
    · have := hinv.redlock_lt j m hm
      omega
  redlock_inj j k m hj hk := by
    simp only [Function.update_apply] at hj hk
    split_ifs at hj hk with hji hki hki
    · exact hji.trans hki.symm
    · exact (hinv.not_shared heff hki hj hk).elim
    · exact (hinv.not_shared heff hji hk hj).elim
    · exact hinv.redlock_inj j k m hj hk
  redlock_of_leader j hj := by
    simp only [Function.update_apply] at hj ⊢
    split_ifs at hj ⊢ with hji
    · exact heff.redlock_of_leader (hinv.redlock_of_leader i) hj
    · exact hinv.redlock_of_leader j hj

theorem step (hinv : LockValuesInv s) {a : Action I} {s' : System I} (h : s.step c a = .ok s') :
    LockValuesInv s' := by
  rcases step_cases h with ⟨d, -, rfl⟩ | ⟨i, f, rs, ct, -, hhb, rfl⟩ | ⟨i, ct, rfl, hr, hl⟩
  · exact ⟨hinv.redlock_lt, hinv.redlock_inj, hinv.redlock_of_leader⟩
  · exact hinv.heartbeat (stateHeartbeat_lockEffect hhb)
  · exact hinv.setTracker hr hl

end LockValuesInv

theorem leaderElection_lockValuesInv (c : TrackerConfig I) :
    (leaderElection c).Invariant LockValuesInv :=
  ⟨fun _ h => lockValuesInv_initial h, fun _ _ _ hinv h => hinv.step h⟩

/-- No reachable state panics: every step of every instance returns, since a
    flagged instance always has a lock to extend or release. -/
theorem leaderElection_step_ok (c : TrackerConfig I) {s : System I} (hs : (leaderElection c).Reachable s)
    (a : Action I) : ∃ s', s.step c a = .ok s' := by
  have hinv := (leaderElection_lockValuesInv c).reachable hs
  cases a with
  | tick d => exact ⟨_, rfl⟩
  | heartbeat i f =>
    have hok : ∃ r, stateHeartbeat c.lockPeriod (c.hostname i) f s.now s.nextLockValue s.store (s.trackers i) = .ok r :=
      stateHeartbeat_ok _ _ (hinv.redlock_of_leader i)
    obtain ⟨⟨rs, ct⟩, h⟩ := hok
    exact ⟨_, step_heartbeat h⟩
  | setLatestBlockNumber i n => exact ⟨_, rfl⟩
  | setSafeBlockNumber i n => exact ⟨_, rfl⟩
  | setFinalizedBlockNumber i n => exact ⟨_, rfl⟩

/-- At most one instance holds the lock. -/
theorem leaderElection_holdsLock_unique (c : TrackerConfig I) {s : System I}
    (hs : (leaderElection c).Reachable s) {i j : I} (hi : HoldsLock s.now s.store (s.trackers i))
    (hj : HoldsLock s.now s.store (s.trackers j)) : i = j := by
  obtain ⟨m, hm, hlive⟩ := hi
  obtain ⟨m', hm', hlive'⟩ := hj
  have hmm : m = m' := Option.some.inj (hlive.symm.trans hlive')
  subst hmm
  exact ((leaderElection_lockValuesInv c).reachable hs).redlock_inj i j m hm hm'

/-- In every reachable state, with any calls failing and any clock, no step
    panics (a flagged instance always has a lock to extend or release), and
    at most one instance holds the lock. -/
theorem leaderElection_safety (c : TrackerConfig I) {s : System I} (hs : (leaderElection c).Reachable s) :
    (∀ a, ∃ s', s.step c a = .ok s') ∧
      ∀ i j, HoldsLock s.now s.store (s.trackers i) → HoldsLock s.now s.store (s.trackers j) → i = j :=
  ⟨leaderElection_step_ok c hs, fun _ _ hi hj => leaderElection_holdsLock_unique c hs hi hj⟩

/-- A flagged instance whose lock the key no longer holds changes nothing in
    the system but the fresh-value counter, whatever its calls answer. -/
theorem step_heartbeat_of_stale {s : System I} {i : I} {m v : Nat} (f : CallFailures)
    (hl : (s.trackers i).leader = true) (hm : (s.trackers i).redlock = some m)
    (hv : liveValue s.now s.store.mutex = some v) (hne : v ≠ m) :
    s.step c (.heartbeat i f) = .ok { s with nextLockValue := s.nextLockValue + 1 } := by
  rw [step_heartbeat (stateHeartbeat_of_stale hl hm hv hne), Function.update_eq_self]

/-! ### Two instances, and a leader whose `Extend` fails -/

/-- Two instances on one Redis, with the default lock period. -/
def twoTrackers : TrackerConfig (Fin 2) := ⟨defaultLockPeriod, by decide, fun _ => "proxyd"⟩

/-- Both instances as `NewRedisConsensusTracker` leaves them. -/
def initialSystem : System (Fin 2) := ⟨0, 0, Store.empty, fun _ => newRedisConsensusTracker⟩

theorem initialSystem_initial : initialSystem.Initial := ⟨rfl, rfl, fun _ => rfl⟩

/-- The pollers of both instances find block 5 (safe 4, finalized 3), and
    instance 0 takes the lock. -/
def lockTakenRun : List (Action (Fin 2)) :=
  [.setLatestBlockNumber 0 5, .setSafeBlockNumber 0 4, .setFinalizedBlockNumber 0 3,
   .setLatestBlockNumber 1 5, .setSafeBlockNumber 1 4, .setFinalizedBlockNumber 1 3,
   .heartbeat 0 .none]

/-- Where `lockTakenRun` leads. -/
def lockTakenSystem : System (Fin 2) :=
  ((initialSystem.run twoTrackers lockTakenRun).toOption).getD initialSystem

/-- Once instance 0 has taken the lock, no step panics and it is the one
    holder. -/
theorem leaderElection_safety_lockTaken :
    (leaderElection twoTrackers).Reachable lockTakenSystem ∧
      (∀ a, ∃ s', lockTakenSystem.step twoTrackers a = .ok s') ∧
      ∀ i j, HoldsLock lockTakenSystem.now lockTakenSystem.store (lockTakenSystem.trackers i) →
        HoldsLock lockTakenSystem.now lockTakenSystem.store (lockTakenSystem.trackers j) → i = j := by
  have hs : (leaderElection twoTrackers).Reachable lockTakenSystem :=
    ⟨initialSystem, lockTakenRun, initialSystem_initial, leaderElection_run_of_run_eq_ok rfl⟩
  exact ⟨hs, leaderElection_safety twoTrackers hs⟩

/-- A heartbeat whose `Extend` and `Unlock` calls fail, as they do while
    the instance cannot reach Redis for them. -/
def extendUnlockFail : CallFailures := { CallFailures.none with unlock := true, extend := true }

/-- After `lockTakenRun`, instance 0 beats every `heartbeatInterval` and
    each time its `Extend` and `Unlock` fail, until its lease lapses at
    `lockPeriod`; instance 1, beating at that moment, takes the lock, and
    posts block 6 at its next heartbeat. -/
def failedExtendRun : List (Action (Fin 2)) :=
  lockTakenRun ++ (List.replicate 14 [.tick defaultHeartbeatInterval, .heartbeat 0 extendUnlockFail]).flatten ++
    [.tick defaultHeartbeatInterval, .heartbeat 1 .none, .setLatestBlockNumber 1 6, .heartbeat 1 .none]

/-- Where `failedExtendRun` leads. -/
def failedExtendSystem : System (Fin 2) :=
  ((initialSystem.run twoTrackers failedExtendRun).toOption).getD initialSystem

/-- After its `Extend` and `Unlock` fail, instance 0 keeps its leader flag
    while instance 1 holds the lock.  It serves block 5 while instance 1
    posts block 6, and each of its later heartbeats leaves everything but
    the fresh-value counter unchanged, whatever its calls answer. -/
theorem leaderElection_failed_extend_stale :
    (leaderElection twoTrackers).init initialSystem ∧
    (leaderElection twoTrackers).Run initialSystem failedExtendRun failedExtendSystem ∧
    (failedExtendSystem.trackers 0).leader = true ∧
    ¬ HoldsLock failedExtendSystem.now failedExtendSystem.store (failedExtendSystem.trackers 0) ∧
    HoldsLock failedExtendSystem.now failedExtendSystem.store (failedExtendSystem.trackers 1) ∧
    (failedExtendSystem.trackers 0).remoteState = ⟨5, 4, 3⟩ ∧
    liveValue failedExtendSystem.now (failedExtendSystem.store.states 15) = some ⟨6, 4, 3⟩ ∧
    ∀ f, failedExtendSystem.step twoTrackers (.heartbeat 0 f) =
      .ok { failedExtendSystem with nextLockValue := failedExtendSystem.nextLockValue + 1 } := by
  have hlive : liveValue failedExtendSystem.now failedExtendSystem.store.mutex = some 15 := rfl
  have hlock : (failedExtendSystem.trackers 0).redlock = some 0 := rfl
  refine ⟨initialSystem_initial, leaderElection_run_of_run_eq_ok rfl, rfl, ?_, ⟨15, rfl, hlive⟩, rfl, rfl,
    fun f => step_heartbeat_of_stale f rfl hlock hlive (by decide)⟩
  -- the key holds instance 1's value, not instance 0's
  rintro ⟨m, hm, hm'⟩
  rw [hlock] at hm
  cases hm
  rw [hlive] at hm'
  cases hm'

/-! ### Leases that do not lapse -/

/-- The clock may advance by `d` without the lock of a flagged instance
    lapsing. -/
def LeasesOutlive (s : System I) (d : Nat) : Prop :=
  ∀ i, (s.trackers i).leader = true → ∀ e, s.store.mutex = some e → s.now + d < e.expiry

/-- The instances in any interleaving, with any calls failing, when the clock
    never lets the lock of a flagged instance lapse. -/
def timelyElection (c : TrackerConfig I) : LTS (System I) (Action I) where
  init := System.Initial
  step s a s' := s.step c a = .ok s' ∧ ∀ d, a = .tick d → LeasesOutlive s d

/-- A run the step function computes without advancing the clock is a run of
    the timely system. -/
theorem timelyElection_run_of_run_eq_ok :
    ∀ {s s' : System I} {as : List (Action I)}, s.run c as = .ok s' → (∀ d, Action.tick d ∉ as) →
      (timelyElection c).Run s as s'
  | s, s', [], h, _ => by
    cases h
    exact .nil s
  | s, s', a :: as, h, hnt => by
    obtain ⟨s₁, h₁, hrun⟩ := except_bind_eq_ok.mp h
    refine .cons ⟨h₁, fun d hd => (hnt d (hd ▸ List.mem_cons_self ..)).elim⟩ ?_
    exact timelyElection_run_of_run_eq_ok hrun (fun d hd => hnt d (List.mem_cons_of_mem _ hd))

/-- Every flagged instance holds the lock. -/
def LeadersHoldLock (s : System I) : Prop :=
  ∀ i, (s.trackers i).leader = true → HoldsLock s.now s.store (s.trackers i)

theorem LeadersHoldLock.step {s s' : System I} {a : Action I} (hinv : LockValuesInv s)
    (hlead : LeadersHoldLock s) (h : s.step c a = .ok s') (ht : ∀ d, a = .tick d → LeasesOutlive s d) :
    LeadersHoldLock s' := by
  rcases step_cases h with ⟨d, rfl, rfl⟩ | ⟨i, f, rs, ct, -, hhb, rfl⟩ | ⟨i, ct, rfl, hr, hl⟩
  · -- the clock advances within every flagged instance's lease
    intro j hj
    obtain ⟨m, hm, hlive⟩ := hlead j hj
    exact ⟨m, hm, liveValue_later hlive (ht d rfl j hj)⟩
  · -- a heartbeat of `i`: it keeps its own lease, and cannot touch another's
    have heff := stateHeartbeat_lockEffect hhb
    intro j hj
    simp only [Function.update_apply] at hj ⊢
    split_ifs at hj ⊢ with hji
    · exact heff.holdsLock c.lockPeriod_pos (hlead i) hj
    · obtain ⟨m, hm, hlive⟩ := hlead j hj
      have hne : (s.trackers i).redlock ≠ some m := fun him => hji (hinv.redlock_inj j i m hm him)
      exact ⟨m, hm, heff.mutex_of_live_ne hlive hne ▸ hlive⟩
  · -- a poller's write leaves every lock value and flag
    intro j hj
    obtain ⟨m, hm, hlive⟩ := hlead j (setTracker_leader hl j ▸ hj)
    exact ⟨m, setTracker_redlock hr j ▸ hm, hlive⟩

theorem timelyElection_invariant (c : TrackerConfig I) :
    (timelyElection c).Invariant (fun s => LockValuesInv s ∧ LeadersHoldLock s) where
  init s h := ⟨lockValuesInv_initial h, fun i hi => by simp [h.2.2 i, newRedisConsensusTracker] at hi⟩
  step _ _ _ hinv h := ⟨hinv.1.step h.1, hinv.2.step hinv.1 h.1 h.2⟩

/-- When the clock never lets a flagged instance's lock lapse, a flagged
    instance holds the lock, and a heartbeat whose calls all succeed serves
    the instance's own local state when it is flagged, and the state posted
    under the live lock value when it follows. -/
theorem timelyElection_leader_holds_lock (c : TrackerConfig I) {s : System I}
    (hs : (timelyElection c).Reachable s) (i : I) :
    ((s.trackers i).leader = true → HoldsLock s.now s.store (s.trackers i)) ∧
    ((s.trackers i).leader = true → ∃ s', s.step c (.heartbeat i .none) = .ok s' ∧
      (s'.trackers i).leader = true ∧ (s'.trackers i).remoteState = (s.trackers i).localState) ∧
    (∀ v st, (s.trackers i).leader = false → liveValue s.now s.store.mutex = some v →
      liveValue s.now (s.store.states v) = some st →
      ∃ s', s.step c (.heartbeat i .none) = .ok s' ∧ (s'.trackers i).remoteState = st) := by
  obtain ⟨-, hlead⟩ := (timelyElection_invariant c).reachable hs
  refine ⟨hlead i, fun hl => ?_, fun v st hl hv hst => ?_⟩
  · have hok : ∃ rs', stateHeartbeat c.lockPeriod (c.hostname i) .none s.now s.nextLockValue s.store (s.trackers i) =
        .ok (rs', { s.trackers i with leaderName := c.hostname i, remoteState := (s.trackers i).localState }) :=
      stateHeartbeat_none_of_holdsLock hl (hlead i hl)
    obtain ⟨rs', h⟩ := hok
    refine ⟨_, step_heartbeat h, ?_, ?_⟩
    · simp [hl]
    · simp
  · exact ⟨_, step_heartbeat (stateHeartbeat_none_follow hl hv hst), by simp⟩

/-- Instance 0 after taking the lock: it holds it, and its next heartbeat
    serves its own state. -/
theorem timelyElection_leader_holds_lock_taken :
    (timelyElection twoTrackers).Reachable lockTakenSystem ∧
    (lockTakenSystem.trackers 0).leader = true ∧
    HoldsLock lockTakenSystem.now lockTakenSystem.store (lockTakenSystem.trackers 0) ∧
    ∃ s', lockTakenSystem.step twoTrackers (.heartbeat 0 .none) = .ok s' ∧
      (s'.trackers 0).leader = true ∧ (s'.trackers 0).remoteState = ⟨5, 4, 3⟩ := by
  have hs : (timelyElection twoTrackers).Reachable lockTakenSystem :=
    ⟨initialSystem, lockTakenRun, initialSystem_initial,
      timelyElection_run_of_run_eq_ok rfl (fun d => by simp [lockTakenRun])⟩
  have hl : (lockTakenSystem.trackers 0).leader = true := rfl
  have hc := timelyElection_leader_holds_lock twoTrackers hs 0
  exact ⟨hs, hl, hc.1 hl, hc.2.1 hl⟩

end System

end Proxyd.Consensus
