import Proxyd.Limit.FrontendRateLimiter

/-
  Proxyd.Limit.FallbackRateLimiter

  The limiters `limiterFactory` of `proxyd.go` builds, now over a Redis
  whose pipeline can fail: the memory limiter, the Redis limiter, and with
  `FallbackToMemory` the `FallbackRateLimiter` of
  `frontend_rate_limiter.go` that asks Redis first and the memory limiter
  when Redis fails.

  A failed pipeline may have run its `INCR` before the reply was lost, so a
  call that Redis does not answer can still be counted there.  The memory
  limiter counts only the calls it is asked.  Each of the two lets at most
  `max` calls of a key through at one truncated timestamp, so the fallback
  lets at most `2 * max` through, and a Redis that fails in the middle of an
  interval lets it reach that.

  The law of the fallback (`fallbackLaw`) answers a call from the calls
  Redis counted or the calls the memory limiter counted before it; the
  limiters keep it over non-decreasing times (`FallbackInv.takeAll`), and
  the bounds are proved on the law.  The server counts a call as let
  through only when `Take` answers `true` without an error.
-/

namespace Proxyd.Limit

/-! ## The limiters over a failing Redis -/

/-- How the Redis pipeline of one `Take` ends: it ran, or it failed with
    `err`, after its `INCR` was applied or before. -/
inductive PipelineResult where
  | ok
  | failed (err : String) (applied : Bool)
  deriving DecidableEq, Repr

/-- The pipeline ran its `INCR`. -/
def PipelineResult.incremented : PipelineResult → Bool
  | .ok => true
  | .failed _ applied => applied

/-- `RedisFrontendRateLimiter.Take` over a pipeline that can fail: an error
    answers `(false, err)`, and the counter has counted the call if the
    `INCR` was applied. -/
def RedisFrontendRateLimiter.takeOrFail (r : RedisFrontendRateLimiter) (now : ℕ) (key : String) :
    PipelineResult → Except String Bool × RedisFrontendRateLimiter
  | .ok => (.ok (r.take now key).1, (r.take now key).2)
  | .failed err applied => (.error err, if applied then (r.take now key).2 else r)

/-- `FallbackRateLimiter`, with the primary and the secondary limiter
    `limiterFactory` gives it. -/
structure FallbackRateLimiter where
  primary : RedisFrontendRateLimiter
  secondary : MemoryFrontendRateLimiter

/-- `NewFallbackRateLimiter(primary, secondary)`. -/
def newFallbackRateLimiter (primary : RedisFrontendRateLimiter)
    (secondary : MemoryFrontendRateLimiter) : FallbackRateLimiter :=
  ⟨primary, secondary⟩

/-- `FallbackRateLimiter.Take`: the primary's answer, or the secondary's
    when the primary fails. -/
def FallbackRateLimiter.take (f : FallbackRateLimiter) (now : ℕ) (key : String)
    (res : PipelineResult) : Bool × FallbackRateLimiter :=
  match f.primary.takeOrFail now key res with
  | (.error _, primary) =>
    let (ok, secondary) := f.secondary.take now key
    (ok, ⟨primary, secondary⟩)
  | (.ok ok, primary) => (ok, { f with primary })

/-- A run of `Take` calls, each with how its Redis pipeline ends. -/
def FallbackRateLimiter.takeAll (f : FallbackRateLimiter) :
    List ((ℕ × String) × PipelineResult) → List Bool
  | [] => []
  | ((now, key), res) :: calls =>
    let (ok, f) := f.take now key res
    ok :: f.takeAll calls

/-- The `FrontendRateLimiter`s `limiterFactory` builds. -/
inductive FrontendRateLimiter where
  | memory (m : MemoryFrontendRateLimiter)
  | redis (r : RedisFrontendRateLimiter)
  | fallback (f : FallbackRateLimiter)

/-- `FrontendRateLimiter.Take`; only a Redis limiter reads how its pipeline
    ends, and only the Redis limiter alone returns its error. -/
def FrontendRateLimiter.take : FrontendRateLimiter → ℕ → String → PipelineResult →
    Except String Bool × FrontendRateLimiter
  | .memory m, now, key, _ => (.ok (m.take now key).1, .memory (m.take now key).2)
  | .redis r, now, key, res => ((r.takeOrFail now key res).1, .redis (r.takeOrFail now key res).2)
  | .fallback f, now, key, res => (.ok (f.take now key res).1, .fallback (f.take now key res).2)

/-- A run of `Take` calls on one limiter, each with how its Redis pipeline
    ends. -/
def FrontendRateLimiter.takeAll (l : FrontendRateLimiter) :
    List ((ℕ × String) × PipelineResult) → List (Except String Bool)
  | [] => []
  | ((now, key), res) :: calls =>
    let (ok, l) := l.take now key res
    ok :: l.takeAll calls

/-- `limiterFactory(dur, max, prefix)` under `RateLimit.UseRedis` and
    `Redis.FallbackToMemory`. -/
def limiterFactory (useRedis fallbackToMemory : Bool) (dur max : ℕ) (pfx : String) :
    FrontendRateLimiter :=
  if useRedis then
    if fallbackToMemory then
      .fallback (newFallbackRateLimiter (newRedisFrontendRateLimiter dur max pfx)
        (newMemoryFrontendRateLimit dur max))
    else .redis (newRedisFrontendRateLimiter dur max pfx)
  else .memory (newMemoryFrontendRateLimit dur max)

/-- Whether the server lets a call through on an answer of `Take`: an error
    limits the call, as `ok == false` does. -/
def letThrough : Except String Bool → Bool
  | .ok ok => ok
  | .error _ => false

/-- How many of the calls at `key` and the truncated timestamp `ts` the
    answers `oks` let through. -/
def letThroughAt (dur : ℕ) (key : String) (ts : ℤ) (calls : List (ℕ × String)) (oks : List Bool) : ℕ :=
  (calls.zip oks).countP fun p => p.2 && countsAt dur key ts p.1

@[simp] theorem RedisFrontendRateLimiter.takeOrFail_ok (r : RedisFrontendRateLimiter) (now : ℕ) (key : String) :
    r.takeOrFail now key .ok = (.ok (r.take now key).1, (r.take now key).2) := rfl

@[simp] theorem RedisFrontendRateLimiter.takeOrFail_failed (r : RedisFrontendRateLimiter) (now : ℕ)
    (key err : String) (applied : Bool) :
    r.takeOrFail now key (.failed err applied) =
      (.error err, if applied then (r.take now key).2 else r) := rfl

@[simp] theorem RedisFrontendRateLimiter.takeOrFail_dur (r : RedisFrontendRateLimiter) (now : ℕ) (key : String)
    (res : PipelineResult) : (r.takeOrFail now key res).2.dur = r.dur := by
  cases res with
  | ok => rfl
  | failed err applied => cases applied <;> rfl

@[simp] theorem RedisFrontendRateLimiter.takeOrFail_max (r : RedisFrontendRateLimiter) (now : ℕ) (key : String)
    (res : PipelineResult) : (r.takeOrFail now key res).2.max = r.max := by
  cases res with
  | ok => rfl
  | failed err applied => cases applied <;> rfl

@[simp] theorem FallbackRateLimiter.take_ok (f : FallbackRateLimiter) (now : ℕ) (key : String) :
    f.take now key .ok = ((f.primary.take now key).1, { f with primary := (f.primary.take now key).2 }) :=
  rfl

@[simp] theorem FallbackRateLimiter.take_failed (f : FallbackRateLimiter) (now : ℕ) (key err : String)
    (applied : Bool) :
    f.take now key (.failed err applied) =
      ((f.secondary.take now key).1,
        ⟨if applied then (f.primary.take now key).2 else f.primary, (f.secondary.take now key).2⟩) :=
  rfl

@[simp] theorem FallbackRateLimiter.take_primary (f : FallbackRateLimiter) (now : ℕ) (key : String)
    (res : PipelineResult) : (f.take now key res).2.primary = (f.primary.takeOrFail now key res).2 := by
  cases res <;> rfl

/-- The memory limiter alone answers every call, and never fails. -/
theorem FrontendRateLimiter.takeAll_memory (m : MemoryFrontendRateLimiter) :
    ∀ calls : List ((ℕ × String) × PipelineResult),
      (FrontendRateLimiter.memory m).takeAll calls = (m.takeAll (calls.map Prod.fst)).map .ok
  | [] => rfl
  | ((now, key), _) :: calls => by
    simp only [FrontendRateLimiter.takeAll, FrontendRateLimiter.take, List.map_cons,
      MemoryFrontendRateLimiter.takeAll, FrontendRateLimiter.takeAll_memory _ calls]

/-- The fallback limiter answers every call, and never fails. -/
theorem FrontendRateLimiter.takeAll_fallback (f : FallbackRateLimiter) :
    ∀ calls : List ((ℕ × String) × PipelineResult),
      (FrontendRateLimiter.fallback f).takeAll calls = (f.takeAll calls).map .ok
  | [] => rfl
  | ((now, key), res) :: calls => by
    simp only [FrontendRateLimiter.takeAll, FrontendRateLimiter.take, List.map_cons,
      FallbackRateLimiter.takeAll, FrontendRateLimiter.takeAll_fallback _ calls]

/-! ## The law of the fallback -/

/-- The answer of the law to a call `c` whose pipeline ends with `res`,
    after the calls `counted` that Redis counted and the calls `asked` that
    the memory limiter was asked: Redis answers when its pipeline runs, and
    when it fails the memory limiter does, if there is a `fallback`. -/
def fallbackAnswer (dur max : ℕ) (fallback : Bool) (counted asked : List (ℕ × String))
    (c : ℕ × String) : PipelineResult → Bool
  | .ok => decide (counted.countP (countsAt dur c.2 (truncateNow dur c.1)) < max)
  | .failed _ _ => fallback && decide (asked.countP (countsAt dur c.2 (truncateNow dur c.1)) < max)

/-- The answers of the law to the calls `calls`: Redis counts each call
    whose `INCR` ran, and the memory limiter each call it is asked. -/
def fallbackLaw (dur max : ℕ) (fallback : Bool) :
    List (ℕ × String) → List (ℕ × String) → List ((ℕ × String) × PipelineResult) → List Bool
  | _, _, [] => []
  | counted, asked, (c, res) :: calls =>
    fallbackAnswer dur max fallback counted asked c res ::
      fallbackLaw dur max fallback (if res.incremented then counted ++ [c] else counted)
        (if res ≠ .ok then asked ++ [c] else asked) calls

/-! ## The limiters keep the law -/

/-- The Redis step lemma over a failing pipeline: the counters count the
    call exactly when its `INCR` ran. -/
theorem RedisInv.takeOrFail {r : RedisFrontendRateLimiter} {counted : List (ℕ × String)}
    (hinv : RedisInv r counted) (now : ℕ) (key : String) (res : PipelineResult) :
    RedisInv (r.takeOrFail now key res).2
      (if res.incremented then counted ++ [(now, key)] else counted) := by
  cases res with
  | ok => exact (hinv.take now key).2
  | failed err applied =>
    cases applied with
    | false => exact hinv
    | true => exact (hinv.take now key).2

/-- The Redis limiter alone keeps the law with no fallback: a failed
    pipeline is an error, and the server limits the call. -/
theorem RedisInv.takeAll_letThrough :
    ∀ (calls : List ((ℕ × String) × PipelineResult)) {r : RedisFrontendRateLimiter}
      {counted : List (ℕ × String)} (asked : List (ℕ × String)), RedisInv r counted →
      ((FrontendRateLimiter.redis r).takeAll calls).map letThrough =
        fallbackLaw r.dur r.max false counted asked calls
  | [], _, _, _, _ => rfl
  | ((now, key), res) :: calls, r, counted, asked, hinv => by
    have ih := RedisInv.takeAll_letThrough calls (if res ≠ .ok then asked ++ [(now, key)] else asked)
      (hinv.takeOrFail now key res)
    have hans : letThrough (r.takeOrFail now key res).1 =
        fallbackAnswer r.dur r.max false counted asked (now, key) res := by
      cases res with
      | ok => simpa [letThrough, fallbackAnswer] using (hinv.take now key).1
      | failed err applied => rfl
    simp only [FrontendRateLimiter.takeAll, FrontendRateLimiter.take, List.map_cons, fallbackLaw,
      hans, ih, RedisFrontendRateLimiter.takeOrFail_dur, RedisFrontendRateLimiter.takeOrFail_max]

/-- What the fallback limiter holds after Redis counted the calls `counted`
    and the memory limiter was asked the calls `asked`: the two limiters
    share `dur` and `max`, as `limiterFactory` builds them. -/
structure FallbackInv (f : FallbackRateLimiter) (counted asked : List (ℕ × String)) : Prop where
  dur_eq : f.secondary.dur = f.primary.dur
  max_eq : f.secondary.max = f.primary.max
  counters : RedisInv f.primary counted
  generation : MemoryInv f.secondary asked

/-- The step lemma: a call none of whose predecessors at the memory limiter
    is later answers as the law does, and keeps the invariant. -/
theorem FallbackInv.take {f : FallbackRateLimiter} {counted asked : List (ℕ × String)}
    (hinv : FallbackInv f counted asked) {now : ℕ} (key : String) (res : PipelineResult)
    (hle : ∀ c ∈ asked, c.1 ≤ now) :
    (f.take now key res).1 = fallbackAnswer f.primary.dur f.primary.max true counted asked (now, key) res ∧
      FallbackInv (f.take now key res).2
        (if res.incremented then counted ++ [(now, key)] else counted)
        (if res ≠ .ok then asked ++ [(now, key)] else asked) := by
  have hcounters := hinv.counters.takeOrFail now key res
  cases res with
  | ok =>
    -- Redis answers; the memory limiter is not asked
    refine ⟨(hinv.counters.take now key).1, ?_⟩
    exact ⟨hinv.dur_eq, hinv.max_eq, hcounters, hinv.generation⟩
  | failed err applied =>
    -- the memory limiter answers and counts the call
    obtain ⟨hok, hgen⟩ := hinv.generation.take key hle
    refine ⟨by simpa [fallbackAnswer, ← hinv.dur_eq, ← hinv.max_eq] using hok, ?_⟩
    refine ⟨?_, ?_, by simpa using hcounters, by simpa using hgen⟩
    · cases applied <;> simpa using hinv.dur_eq
    · cases applied <;> simpa using hinv.max_eq

/-- The run lemma: from any state that holds the invariant, over calls at
    non-decreasing times, the fallback limiter answers as the law does. -/
theorem FallbackInv.takeAll :
    ∀ (calls : List ((ℕ × String) × PipelineResult)) {f : FallbackRateLimiter}
      {counted asked : List (ℕ × String)}, FallbackInv f counted asked →
      ((asked ++ calls.map Prod.fst).map Prod.fst).Pairwise (· ≤ ·) →
      f.takeAll calls = fallbackLaw f.primary.dur f.primary.max true counted asked calls
  | [], _, _, _, _, _ => rfl
  | ((now, key), res) :: calls, f, counted, asked, hinv, hsorted => by
    have hle : ∀ c ∈ asked, c.1 ≤ now := by
      intro c hc
      rw [List.map_append, List.pairwise_append] at hsorted
      exact hsorted.2.2 c.1 (List.mem_map_of_mem hc) now (by simp)
    obtain ⟨hok, hinv'⟩ := hinv.take key res hle
    -- the memory limiter's calls stay in order, whether or not it is asked this one
    have hsorted' : (((if res ≠ .ok then asked ++ [(now, key)] else asked) ++
        calls.map Prod.fst).map Prod.fst).Pairwise (· ≤ ·) := by
      split
      · simpa using hsorted
      · simp only [List.map_append, List.map_cons, List.map_map] at hsorted ⊢
        exact hsorted.sublist ((List.sublist_cons_self _ _).append_left _)
    have ih := FallbackInv.takeAll calls hinv' hsorted'
    simp only [FallbackRateLimiter.takeAll, fallbackLaw, hok, ih, FallbackRateLimiter.take_primary,
      RedisFrontendRateLimiter.takeOrFail_dur, RedisFrontendRateLimiter.takeOrFail_max]

/-! ## Quotas -/

/-- A call counted at `key` and `ts` is counted with the calls of its own
    key at its own timestamp. -/
theorem countsAt_eq_of_countsAt {dur : ℕ} {key key' : String} {ts : ℤ} {now : ℕ}
    (h : countsAt dur key ts (now, key') = true) :
    countsAt dur key' (truncateNow dur now) = countsAt dur key ts := by
  simp only [countsAt, Bool.and_eq_true, beq_iff_eq] at h
  obtain ⟨hk, hts⟩ := h
  rw [hk, hts]

theorem countP_ite_append {α : Type} (p : α → Bool) (b : Prop) [Decidable b] (l : List α) (c : α) :
    (if b then l ++ [c] else l).countP p = l.countP p + if b ∧ p c = true then 1 else 0 := by
  split_ifs <;> simp_all [List.countP_append]

@[simp] theorem letThroughAt_nil (dur : ℕ) (key : String) (ts : ℤ) (oks : List Bool) :
    letThroughAt dur key ts [] oks = 0 := rfl

@[simp] theorem letThroughAt_cons (dur : ℕ) (key : String) (ts : ℤ) (c : ℕ × String)
    (calls : List (ℕ × String)) (ok : Bool) (oks : List Bool) :
    letThroughAt dur key ts (c :: calls) (ok :: oks) =
      letThroughAt dur key ts calls oks + if ok = true ∧ countsAt dur key ts c = true then 1 else 0 := by
  simp [letThroughAt, List.countP_cons]

/-- The quota of the law: over the calls after `past`, no more calls are let
    through at `key` and `ts` than `past` left of `max`. -/
theorem letThroughAt_lawAnswers_le (dur max : ℕ) (key : String) (ts : ℤ) :
    ∀ calls past : List (ℕ × String),
      letThroughAt dur key ts calls (lawAnswers dur max past calls) ≤
        max - past.countP (countsAt dur key ts)
  | [], _ => by simp [lawAnswers]
  | (now, key') :: calls, past => by
    have ih := letThroughAt_lawAnswers_le dur max key ts calls (past ++ [(now, key')])
    rw [List.countP_append] at ih
    simp only [lawAnswers, letThroughAt_cons]
    by_cases hc : countsAt dur key ts (now, key') = true
    · -- the call draws on the quota of its class when it is let through
      rw [countsAt_eq_of_countsAt hc]
      simp only [hc, List.countP_singleton, if_true] at ih
      split_ifs with h <;> simp_all <;> omega
    · simp only [hc, List.countP_singleton] at ih
      simpa [hc] using ih

/-- The two quotas of the law: over the calls after it, no more calls are
    let through at `key` and `ts` than Redis's count left of `max`, and,
    with a fallback, than the memory limiter's count left of it. -/
theorem letThroughAt_fallbackLaw_le (dur max : ℕ) (fallback : Bool) (key : String) (ts : ℤ) :
    ∀ (calls : List ((ℕ × String) × PipelineResult)) (counted asked : List (ℕ × String)),
      letThroughAt dur key ts (calls.map Prod.fst) (fallbackLaw dur max fallback counted asked calls) ≤
        (max - counted.countP (countsAt dur key ts)) +
          if fallback then max - asked.countP (countsAt dur key ts) else 0
  | [], _, _ => by simp [fallbackLaw]
  | ((now, key'), res) :: calls, counted, asked => by
    have ih := letThroughAt_fallbackLaw_le dur max fallback key ts calls
      (if res.incremented then counted ++ [(now, key')] else counted)
      (if res ≠ .ok then asked ++ [(now, key')] else asked)
    simp only [countP_ite_append] at ih
    simp only [List.map_cons, fallbackLaw, letThroughAt_cons]
    by_cases hc : countsAt dur key ts (now, key') = true
    · -- the call draws on the quota of the limiter that answers it
      cases res with
      | ok =>
        simp only [fallbackAnswer, countsAt_eq_of_countsAt hc, hc, PipelineResult.incremented] at ih ⊢
        split_ifs at ih ⊢ <;> simp_all <;> omega
      | failed err applied =>
        simp only [fallbackAnswer, countsAt_eq_of_countsAt hc, hc] at ih ⊢
        cases fallback <;> split_ifs at ih ⊢ <;> simp_all <;> omega
    · -- a call of another class leaves both quotas as they are
      have hc' : countsAt dur key ts (now, key') = false := by simpa using hc
      simp only [hc', Bool.false_eq_true, and_false, if_false, add_zero] at ih ⊢
      exact ih

/-! ## What each limiter lets through -/

@[simp] theorem letThrough_ok (ok : Bool) : letThrough (.ok ok) = ok := rfl

/-- Two calls of one key at one time, the second while Redis is down. -/
def redisDownRun : List ((ℕ × String) × PipelineResult) :=
  [((0, "k"), .ok), ((0, "k"), .failed "i/o timeout" false)]

theorem countsAt_self (dur : ℕ) (c : ℕ × String) : countsAt dur c.2 (truncateNow dur c.1) c = true := by
  simp [countsAt]

/-- Calls that Redis answers while its quota lasts are all let through. -/
theorem fallbackLaw_replicate_ok {dur max : ℕ} {fallback : Bool} {c : ℕ × String}
    (rest : List ((ℕ × String) × PipelineResult)) :
    ∀ (n : ℕ) (counted asked : List (ℕ × String)),
      counted.countP (countsAt dur c.2 (truncateNow dur c.1)) + n ≤ max →
      fallbackLaw dur max fallback counted asked (List.replicate n (c, .ok) ++ rest) =
        List.replicate n true ++ fallbackLaw dur max fallback (counted ++ List.replicate n c) asked rest
  | 0, _, _, _ => by simp
  | n + 1, counted, asked, hn => by
    have ih := @fallbackLaw_replicate_ok dur max fallback c rest n (counted ++ [c]) asked
      (by simp [List.countP_append, countsAt_self]; omega)
    have hlt : counted.countP (countsAt dur c.2 (truncateNow dur c.1)) < max := by omega
    simp [List.replicate_succ, fallbackLaw, fallbackAnswer, PipelineResult.incremented, hlt, ih]

/-- Calls whose pipeline fails before its `INCR` are all let through while
    the memory limiter's quota lasts. -/
theorem fallbackLaw_replicate_failed {dur max : ℕ} {c : ℕ × String} (err : String)
    (rest : List ((ℕ × String) × PipelineResult)) :
    ∀ (n : ℕ) (counted asked : List (ℕ × String)),
      asked.countP (countsAt dur c.2 (truncateNow dur c.1)) + n ≤ max →
      fallbackLaw dur max true counted asked (List.replicate n (c, .failed err false) ++ rest) =
        List.replicate n true ++ fallbackLaw dur max true counted (asked ++ List.replicate n c) rest
  | 0, _, _, _ => by simp
  | n + 1, counted, asked, hn => by
    have ih := @fallbackLaw_replicate_failed dur max c err rest n counted (asked ++ [c])
      (by simp [List.countP_append, countsAt_self]; omega)
    have hlt : asked.countP (countsAt dur c.2 (truncateNow dur c.1)) < max := by omega
    simp [List.replicate_succ, fallbackLaw, fallbackAnswer, PipelineResult.incremented, hlt, ih]

/-- The fallback reaches twice the limit: when Redis fails after letting
    `max` calls of a key through, the memory limiter, which saw none of
    them, lets `max` more through at the same time. -/
theorem limiterFactory_fallback_twice_max (dur max : ℕ) (pfx key err : String) (now : ℕ) :
    (limiterFactory true true dur max pfx).takeAll
        (List.replicate max ((now, key), .ok) ++ List.replicate max ((now, key), .failed err false)) =
      List.replicate (2 * max) (.ok true) := by
  have hinv : FallbackInv (newFallbackRateLimiter (newRedisFrontendRateLimiter dur max pfx)
      (newMemoryFrontendRateLimit dur max)) [] [] :=
    ⟨rfl, rfl, fun _ _ => rfl, rfl⟩
  -- every call is at `now`, so the times are in order
  have hsorted : (([] ++ (List.replicate max ((now, key), PipelineResult.ok) ++
      List.replicate max ((now, key), PipelineResult.failed err false)).map Prod.fst).map
        Prod.fst).Pairwise (· ≤ ·) := by
    simp [List.map_replicate, List.pairwise_replicate]
  have hredis := @fallbackLaw_replicate_ok dur max true (now, key)
    (List.replicate max ((now, key), .failed err false)) max [] [] (by simp)
  have hmemory := @fallbackLaw_replicate_failed dur max (now, key) err [] max
    (List.replicate max (now, key)) [] (by simp)
  simp only [List.nil_append, List.append_nil] at hredis hmemory
  simp only [limiterFactory, if_true, FrontendRateLimiter.takeAll_fallback]
  rw [FallbackInv.takeAll _ hinv hsorted]
  simp only [newFallbackRateLimiter, newRedisFrontendRateLimiter]
  rw [hredis, hmemory]
  simp [fallbackLaw, two_mul]

end Proxyd.Limit
