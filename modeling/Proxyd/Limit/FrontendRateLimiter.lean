import Mathlib

/-
  Proxyd.Limit.FrontendRateLimiter

  The frontend rate limiters of `frontend_rate_limiter.go`, over a run of
  `Take` calls, each at the time it reads.

  Both limiters name an interval by `truncateNow(dur)`: the time truncated
  to a multiple of `dur` since Go's zero time, printed in whole Unix
  seconds.  The memory limiter keeps one generation of per-key counts and
  starts a new one whenever that number changes; the Redis limiter `INCR`s
  a key that holds the number.  Over non-decreasing times both let a call
  through exactly when fewer than `max` earlier calls share its key and its
  truncated timestamp (`memoryTakeAll_eq_lawAnswers`,
  `redisTakeAll_eq_lawAnswers`).

  For a `dur` of one second or more, distinct intervals get distinct
  timestamps, and that is the per-interval law.  Below a second, two
  intervals can fall in one second and then share a count: the limit is
  not reset at the boundary between them.

  Redis is assumed to run `INCR` atomically and to keep each key while calls
  use it; a failing pipeline is not modelled.  Each `Take` is one step.
-/

namespace Proxyd.Limit

/-! ## Time -/

/-- `unixToInternal`: seconds from Go's zero time, January 1 of year 1 UTC,
    to the Unix epoch. -/
def unixToInternal : ℤ := (1969 * 365 + 1969 / 4 - 1969 / 100 + 1969 / 400) * 86400

/-- `t.Truncate(d)`, for a `time.Time` given as nanoseconds since the zero
    time: rounded down to a multiple of `d`; unchanged for `d <= 0`. -/
def truncate (t d : ℕ) : ℕ := if d = 0 then t else t - t % d

/-- `t.Unix()`: whole seconds since the Unix epoch. -/
def unix (t : ℕ) : ℤ := ((t / 1000000000 : ℕ) : ℤ) - unixToInternal

/-- `truncateNow(dur)`, at the time `now` the call reads. -/
def truncateNow (dur now : ℕ) : ℤ := unix (truncate now dur)

theorem truncate_eq_mul {d : ℕ} (hd : 0 < d) (t : ℕ) : truncate t d = d * (t / d) := by
  have := Nat.mod_add_div t d
  simp only [truncate, hd.ne', if_false]
  omega

theorem truncate_mono (d : ℕ) {t t' : ℕ} (h : t ≤ t') : truncate t d ≤ truncate t' d := by
  rcases Nat.eq_zero_or_pos d with rfl | hd
  · simpa [truncate] using h
  · rw [truncate_eq_mul hd, truncate_eq_mul hd]
    exact Nat.mul_le_mul_left d (Nat.div_le_div_right h)

theorem truncateNow_mono (dur : ℕ) {t t' : ℕ} (h : t ≤ t') : truncateNow dur t ≤ truncateNow dur t' := by
  have := Nat.div_le_div_right (c := 1000000000) (truncate_mono dur h)
  simp only [truncateNow, unix]
  omega

/-- With a `dur` of a second or more, a later interval is a later second. -/
theorem truncateNow_lt_of_div_lt {dur t t' : ℕ} (hdur : 1000000000 ≤ dur) (h : t / dur < t' / dur) :
    truncateNow dur t < truncateNow dur t' := by
  have hd : 0 < dur := by omega
  -- the two interval starts are at least `dur` apart
  have hgap : dur * (t / dur) + dur ≤ dur * (t' / dur) := by
    rw [← Nat.mul_succ]
    exact Nat.mul_le_mul_left dur h
  simp only [truncateNow, unix, truncate_eq_mul hd]
  omega

/-- With a `dur` of a second or more, two times get one timestamp exactly
    when `Truncate` puts them in one interval. -/
theorem truncateNow_eq_iff {dur : ℕ} (hdur : 1000000000 ≤ dur) (t t' : ℕ) :
    truncateNow dur t = truncateNow dur t' ↔ t / dur = t' / dur := by
  constructor
  · intro h
    rcases Nat.lt_trichotomy (t / dur) (t' / dur) with hlt | heq | hgt
    · exact absurd h (truncateNow_lt_of_div_lt hdur hlt).ne
    · exact heq
    · exact absurd h (truncateNow_lt_of_div_lt hdur hgt).ne'
  · intro h
    simp only [truncateNow, truncate_eq_mul (show 0 < dur by omega), h]

/-! ## The limiters -/

/-- `limitedKeys`: one generation of counts; an absent key counts `0`, as
    `Take` stores it. -/
structure LimitedKeys where
  truncTS : ℤ
  keys : String → ℕ

/-- `newLimitedKeys(t)`. -/
def newLimitedKeys (t : ℤ) : LimitedKeys := ⟨t, fun _ => 0⟩

/-- `limitedKeys.Take`: count the call, and let it through when fewer than
    `max` were counted before it. -/
def LimitedKeys.take (l : LimitedKeys) (key : String) (max : ℕ) : Bool × LimitedKeys :=
  let val := l.keys key
  (decide (val < max), { l with keys := Function.update l.keys key (val + 1) })

/-- `MemoryFrontendRateLimiter`. -/
structure MemoryFrontendRateLimiter where
  currGeneration : Option LimitedKeys
  dur : ℕ
  max : ℕ

/-- `NewMemoryFrontendRateLimit(dur, max)`. -/
def newMemoryFrontendRateLimit (dur max : ℕ) : MemoryFrontendRateLimiter := ⟨none, dur, max⟩

/-- The generation a call at `truncTS` counts in: the current one when it
    is for `truncTS`, a new one otherwise. -/
def MemoryFrontendRateLimiter.generation (m : MemoryFrontendRateLimiter) (truncTS : ℤ) : LimitedKeys :=
  match m.currGeneration with
  | some g => if g.truncTS = truncTS then g else newLimitedKeys truncTS
  | none => newLimitedKeys truncTS

/-- `MemoryFrontendRateLimiter.Take` at the time `now`. -/
def MemoryFrontendRateLimiter.take (m : MemoryFrontendRateLimiter) (now : ℕ) (key : String) :
    Bool × MemoryFrontendRateLimiter :=
  let limiter := m.generation (truncateNow m.dur now)
  let (ok, limiter) := limiter.take key m.max
  (ok, { m with currGeneration := some limiter })

/-- A run of `Take` calls, each given as its time and its key. -/
def MemoryFrontendRateLimiter.takeAll (m : MemoryFrontendRateLimiter) : List (ℕ × String) → List Bool
  | [] => []
  | (now, key) :: calls =>
    let (ok, m) := m.take now key
    ok :: m.takeAll calls

/-- The Redis key of a call, `rate_limit:<prefix>:<key>:<truncTS>`. -/
def rateLimitKey (pfx key : String) (truncTS : ℤ) : String :=
  "rate_limit:" ++ pfx ++ ":" ++ key ++ ":" ++ toString truncTS

/-- `RedisFrontendRateLimiter`, with the counters its Redis holds; `pfx` is
    the `prefix` field. -/
structure RedisFrontendRateLimiter where
  counters : String → ℕ
  dur : ℕ
  max : ℕ
  pfx : String

/-- `NewRedisFrontendRateLimiter`, over a Redis with none of its keys. -/
def newRedisFrontendRateLimiter (dur max : ℕ) (pfx : String) : RedisFrontendRateLimiter :=
  ⟨fun _ => 0, dur, max, pfx⟩

/-- `RedisFrontendRateLimiter.Take` at the time `now`: `INCR` the key, and
    let the call through when the count before it is below `max`. -/
def RedisFrontendRateLimiter.take (r : RedisFrontendRateLimiter) (now : ℕ) (key : String) :
    Bool × RedisFrontendRateLimiter :=
  let fullKey := rateLimitKey r.pfx key (truncateNow r.dur now)
  let incr := r.counters fullKey + 1
  (decide (incr - 1 < r.max), { r with counters := Function.update r.counters fullKey incr })

def RedisFrontendRateLimiter.takeAll (r : RedisFrontendRateLimiter) : List (ℕ × String) → List Bool
  | [] => []
  | (now, key) :: calls =>
    let (ok, r) := r.take now key
    ok :: r.takeAll calls

/-! ## The law both limiters keep -/

/-- A call is counted with one for `key` at the truncated timestamp `ts`. -/
def countsAt (dur : ℕ) (key : String) (ts : ℤ) (c : ℕ × String) : Bool :=
  c.2 == key && truncateNow dur c.1 == ts

/-- The answers of the law to the calls `calls` after the calls `past`: a
    call is let through when fewer than `max` earlier calls are for its key
    at its truncated timestamp. -/
def lawAnswers (dur max : ℕ) : List (ℕ × String) → List (ℕ × String) → List Bool
  | _, [] => []
  | past, (now, key) :: calls =>
    decide (past.countP (countsAt dur key (truncateNow dur now)) < max) ::
      lawAnswers dur max (past ++ [(now, key)]) calls

/-! ## The memory limiter keeps the law -/

/-- What a generation holds after the calls `past`: no call is at a later
    timestamp, and its count for each key is how many of them were for that
    key at its timestamp. -/
structure Counts (dur : ℕ) (g : LimitedKeys) (past : List (ℕ × String)) : Prop where
  le_truncTS : ∀ c ∈ past, truncateNow dur c.1 ≤ g.truncTS
  keys_eq : ∀ key, g.keys key = past.countP (countsAt dur key g.truncTS)

/-- The memory limiter after the calls `past`: no generation before the
    first call, and after it a generation for the latest timestamp. -/
def MemoryInv (m : MemoryFrontendRateLimiter) (past : List (ℕ × String)) : Prop :=
  match m.currGeneration with
  | none => past = []
  | some g => (∃ c ∈ past, truncateNow m.dur c.1 = g.truncTS) ∧ Counts m.dur g past

theorem counts_newLimitedKeys {dur : ℕ} {past : List (ℕ × String)} {ts : ℤ}
    (hlt : ∀ c ∈ past, truncateNow dur c.1 < ts) : Counts dur (newLimitedKeys ts) past where
  le_truncTS c hc := (hlt c hc).le
  keys_eq key := by
    refine (List.countP_eq_zero.mpr fun c hc => ?_).symm
    simp [countsAt, newLimitedKeys, (hlt c hc).ne]

/-- Counting a call at the generation's timestamp: the answer is the law's,
    and the counts stay right. -/
theorem Counts.take {dur : ℕ} {g : LimitedKeys} {past : List (ℕ × String)} (hc : Counts dur g past)
    {now : ℕ} (key : String) (max : ℕ) (hnow : truncateNow dur now = g.truncTS) :
    (g.take key max).1 = decide (past.countP (countsAt dur key g.truncTS) < max) ∧
      Counts dur (g.take key max).2 (past ++ [(now, key)]) := by
  refine ⟨by simp [LimitedKeys.take, hc.keys_eq key], ?_, ?_⟩
  · intro c hc'
    rcases List.mem_append.mp hc' with hc' | hc'
    · exact hc.le_truncTS c hc'
    · simp [List.mem_singleton.mp hc', hnow, LimitedKeys.take]
  · intro key'
    by_cases hk : key' = key
    · subst hk
      simp [LimitedKeys.take, hc.keys_eq, List.countP_append, countsAt, hnow]
    · simp [LimitedKeys.take, hc.keys_eq, List.countP_append, countsAt, hk, Ne.symm hk]

/-- The generation a call at `now` counts in, after calls none later than
    `now`, holds the counts of its timestamp: a new generation holds none,
    since every earlier call was at an earlier timestamp. -/
theorem MemoryInv.generation {m : MemoryFrontendRateLimiter} {past : List (ℕ × String)}
    (hinv : MemoryInv m past) {now : ℕ} (hle : ∀ c ∈ past, c.1 ≤ now) :
    (m.generation (truncateNow m.dur now)).truncTS = truncateNow m.dur now ∧
      Counts m.dur (m.generation (truncateNow m.dur now)) past := by
  unfold MemoryInv at hinv
  unfold MemoryFrontendRateLimiter.generation
  split
  · rename_i g hg
    rw [hg] at hinv
    obtain ⟨⟨c₀, hc₀, hts⟩, hcounts⟩ := hinv
    split
    · rename_i heq
      exact ⟨heq, hcounts⟩
    · rename_i hne
      -- the current generation is for an earlier timestamp
      have hlt : g.truncTS < truncateNow m.dur now :=
        lt_of_le_of_ne (hts ▸ truncateNow_mono m.dur (hle c₀ hc₀)) hne
      exact ⟨rfl, counts_newLimitedKeys fun c hc => (hcounts.le_truncTS c hc).trans_lt hlt⟩
  · rename_i hg
    rw [hg] at hinv
    subst hinv
    exact ⟨rfl, counts_newLimitedKeys fun c hc => absurd hc List.not_mem_nil⟩

@[simp] theorem MemoryFrontendRateLimiter.take_dur (m : MemoryFrontendRateLimiter) (now : ℕ) (key : String) :
    (m.take now key).2.dur = m.dur := rfl

@[simp] theorem MemoryFrontendRateLimiter.take_max (m : MemoryFrontendRateLimiter) (now : ℕ) (key : String) :
    (m.take now key).2.max = m.max := rfl

/-- The step lemma: a call none of whose predecessors is later answers as
    the law does, and keeps the invariant. -/
theorem MemoryInv.take {m : MemoryFrontendRateLimiter} {past : List (ℕ × String)}
    (hinv : MemoryInv m past) {now : ℕ} (key : String) (hle : ∀ c ∈ past, c.1 ≤ now) :
    (m.take now key).1 = decide (past.countP (countsAt m.dur key (truncateNow m.dur now)) < m.max) ∧
      MemoryInv (m.take now key).2 (past ++ [(now, key)]) := by
  obtain ⟨hts, hcounts⟩ := hinv.generation hle
  obtain ⟨hok, hcounts'⟩ := hcounts.take key m.max hts.symm
  refine ⟨by simpa [MemoryFrontendRateLimiter.take, hts] using hok, ?_⟩
  refine ⟨⟨(now, key), List.mem_append_right _ (List.mem_singleton_self _), ?_⟩, hcounts'⟩
  simpa [MemoryFrontendRateLimiter.take, LimitedKeys.take] using hts.symm

/-- The run lemma: from any state that holds the invariant, over calls at
    non-decreasing times, the memory limiter answers as the law does. -/
theorem MemoryInv.takeAll :
    ∀ (calls : List (ℕ × String)) {m : MemoryFrontendRateLimiter} {past : List (ℕ × String)},
      MemoryInv m past → ((past ++ calls).map Prod.fst).Pairwise (· ≤ ·) →
        m.takeAll calls = lawAnswers m.dur m.max past calls
  | [], _, _, _, _ => rfl
  | (now, key) :: calls, m, past, hinv, hsorted => by
    have hle : ∀ c ∈ past, c.1 ≤ now := by
      intro c hc
      rw [List.map_append, List.pairwise_append] at hsorted
      exact hsorted.2.2 c.1 (List.mem_map_of_mem hc) now (by simp)
    obtain ⟨hok, hinv'⟩ := hinv.take key hle
    have ih := MemoryInv.takeAll calls hinv' (by simpa using hsorted)
    simp only [MemoryFrontendRateLimiter.takeAll, lawAnswers, hok, ih,
      MemoryFrontendRateLimiter.take_dur, MemoryFrontendRateLimiter.take_max]

theorem memoryTakeAll_eq_lawAnswers (dur max : ℕ) {calls : List (ℕ × String)}
    (hsorted : (calls.map Prod.fst).Pairwise (· ≤ ·)) :
    (newMemoryFrontendRateLimit dur max).takeAll calls = lawAnswers dur max [] calls :=
  MemoryInv.takeAll calls (show MemoryInv (newMemoryFrontendRateLimit dur max) [] from rfl)
    (by simpa using hsorted)

/-! ## The Redis limiter keeps the law -/

/-- Equal lists split alike at an element that neither tail holds. -/
theorem append_cons_cancel_of_not_mem {α : Type} {a : α} :
    ∀ {l₁ l₂ s₁ s₂ : List α}, a ∉ s₁ → a ∉ s₂ → l₁ ++ a :: s₁ = l₂ ++ a :: s₂ → l₁ = l₂ ∧ s₁ = s₂
  | [], [], _, _, _, _, h => ⟨rfl, (List.cons.inj h).2⟩
  | [], _ :: l₂, _, s₂, h₁, _, h => by
    -- the first tail would hold the `a` of the second list
    have h := (List.cons.inj h).2
    exact absurd (h ▸ List.mem_append_right l₂ List.mem_cons_self) h₁
  | _ :: l₁, [], s₁, _, _, h₂, h => by
    have h := (List.cons.inj h).2
    exact absurd (h ▸ List.mem_append_right l₁ List.mem_cons_self) h₂
  | _ :: _, _ :: _, _, _, h₁, h₂, h => by
    obtain ⟨rfl, ht⟩ := List.cons.inj h
    obtain ⟨rfl, rfl⟩ := append_cons_cancel_of_not_mem h₁ h₂ ht
    exact ⟨rfl, rfl⟩

/-- `%d` prints digits and a sign, never a `:`. -/
theorem colon_not_mem_toString (ts : ℤ) : ':' ∉ (toString ts).toList := by
  have hdigit : ∀ n : ℕ, ':' ∉ n.repr.toList := fun n h => by
    have := Nat.isDigit_of_mem_toDigits (by decide) (by decide) (Nat.toList_repr ▸ h)
    exact absurd this (by decide)
  change ':' ∉ ts.repr.toList
  rw [Int.repr_eq_if]
  split
  · exact hdigit _
  · simpa [String.toList_append] using hdigit _

/-- A Redis key names its key and its timestamp: the timestamp is what
    follows the last `:`. -/
theorem rateLimitKey_inj {pfx key key' : String} {ts ts' : ℤ} :
    rateLimitKey pfx key ts = rateLimitKey pfx key' ts' ↔ key = key' ∧ ts = ts' := by
  constructor
  · intro h
    have h' := congrArg String.toList h
    simp only [rateLimitKey, String.toList_append, List.append_assoc, List.append_cancel_left_eq] at h'
    obtain ⟨hk, hts⟩ := append_cons_cancel_of_not_mem (colon_not_mem_toString ts)
      (colon_not_mem_toString ts') h'
    exact ⟨String.toList_inj.mp hk, Int.repr_injective (String.toList_inj.mp hts)⟩
  · rintro ⟨rfl, rfl⟩
    rfl

/-- The Redis counters after the calls `past`: the counter of each key at
    each timestamp is how many of them were for that key at that timestamp. -/
def RedisInv (r : RedisFrontendRateLimiter) (past : List (ℕ × String)) : Prop :=
  ∀ key ts, r.counters (rateLimitKey r.pfx key ts) = past.countP (countsAt r.dur key ts)

@[simp] theorem RedisFrontendRateLimiter.take_dur (r : RedisFrontendRateLimiter) (now : ℕ) (key : String) :
    (r.take now key).2.dur = r.dur := rfl

@[simp] theorem RedisFrontendRateLimiter.take_max (r : RedisFrontendRateLimiter) (now : ℕ) (key : String) :
    (r.take now key).2.max = r.max := rfl

@[simp] theorem RedisFrontendRateLimiter.take_pfx (r : RedisFrontendRateLimiter) (now : ℕ) (key : String) :
    (r.take now key).2.pfx = r.pfx := rfl

/-- The step lemma: every call answers as the law does, and keeps the
    counters right; no order of the times is needed. -/
theorem RedisInv.take {r : RedisFrontendRateLimiter} {past : List (ℕ × String)} (hinv : RedisInv r past)
    (now : ℕ) (key : String) :
    (r.take now key).1 = decide (past.countP (countsAt r.dur key (truncateNow r.dur now)) < r.max) ∧
      RedisInv (r.take now key).2 (past ++ [(now, key)]) := by
  refine ⟨by simp [RedisFrontendRateLimiter.take, hinv key], fun key' ts' => ?_⟩
  by_cases h : key' = key ∧ ts' = truncateNow r.dur now
  · obtain ⟨rfl, rfl⟩ := h
    simp [RedisFrontendRateLimiter.take, hinv key' _, List.countP_append, countsAt]
  · -- another key's counter is left as it was
    have hne : rateLimitKey r.pfx key' ts' ≠ rateLimitKey r.pfx key (truncateNow r.dur now) :=
      fun h' => h (rateLimitKey_inj.mp h')
    have hcount : countsAt r.dur key' ts' (now, key) = false := by
      simp only [countsAt, Bool.and_eq_false_iff, beq_eq_false_iff_ne]
      by_cases hk : key = key'
      · exact .inr fun hts => h ⟨hk.symm, hts.symm⟩
      · exact .inl hk
    simp [RedisFrontendRateLimiter.take, hne, hinv key' ts', List.countP_append, hcount]

theorem RedisInv.takeAll :
    ∀ (calls : List (ℕ × String)) {r : RedisFrontendRateLimiter} {past : List (ℕ × String)},
      RedisInv r past → r.takeAll calls = lawAnswers r.dur r.max past calls
  | [], _, _, _ => rfl
  | (now, key) :: calls, r, past, hinv => by
    obtain ⟨hok, hinv'⟩ := hinv.take now key
    have ih := RedisInv.takeAll calls hinv'
    simp only [RedisFrontendRateLimiter.takeAll, lawAnswers, hok, ih,
      RedisFrontendRateLimiter.take_dur, RedisFrontendRateLimiter.take_max]

theorem redisTakeAll_eq_lawAnswers (dur max : ℕ) (pfx : String) (calls : List (ℕ × String)) :
    (newRedisFrontendRateLimiter dur max pfx).takeAll calls = lawAnswers dur max [] calls :=
  RedisInv.takeAll calls (show RedisInv (newRedisFrontendRateLimiter dur max pfx) [] from fun _ _ => rfl)

/-! ## Intervals -/

/-- The per-interval law: a call is let through when fewer than `max`
    earlier calls are for its key in its interval of `dur`, as `Truncate`
    aligns them. -/
def intervalAnswers (dur max : ℕ) : List (ℕ × String) → List (ℕ × String) → List Bool
  | _, [] => []
  | past, (now, key) :: calls =>
    decide ((past.countP fun c => c.2 == key && c.1 / dur == now / dur) < max) ::
      intervalAnswers dur max (past ++ [(now, key)]) calls

/-- With a `dur` of a second or more, the law of the timestamps is the
    per-interval law. -/
theorem lawAnswers_eq_intervalAnswers {dur : ℕ} (hdur : 1000000000 ≤ dur) (max : ℕ) :
    ∀ (calls past : List (ℕ × String)), lawAnswers dur max past calls = intervalAnswers dur max past calls
  | [], _ => rfl
  | (now, key) :: calls, past => by
    have hcount : past.countP (countsAt dur key (truncateNow dur now)) =
        past.countP fun c => c.2 == key && c.1 / dur == now / dur := by
      apply List.countP_congr
      intro c _
      simp [countsAt, truncateNow_eq_iff hdur]
    simp only [lawAnswers, intervalAnswers, hcount, lawAnswers_eq_intervalAnswers hdur max calls]

/-- With a `dur` of a second or more, over non-decreasing times, both
    limiters let a call through exactly when fewer than `max` earlier calls
    are for its key in its interval. -/
theorem takeAll_eq_intervalAnswers {dur : ℕ} (hdur : 1000000000 ≤ dur) (max : ℕ) (pfx : String)
    {calls : List (ℕ × String)} (hsorted : (calls.map Prod.fst).Pairwise (· ≤ ·)) :
    (newMemoryFrontendRateLimit dur max).takeAll calls = intervalAnswers dur max [] calls ∧
      (newRedisFrontendRateLimiter dur max pfx).takeAll calls = intervalAnswers dur max [] calls := by
  rw [memoryTakeAll_eq_lawAnswers dur max hsorted, redisTakeAll_eq_lawAnswers,
    lawAnswers_eq_intervalAnswers hdur]
  exact ⟨rfl, rfl⟩

/-- With `dur` a second, two calls for `foo` a second apart fall in two
    intervals, and both limiters let both through under a limit of one. -/
theorem takeAll_eq_intervalAnswers_second :
    ([(0, "foo"), (1000000000, "foo")].map Prod.fst).Pairwise (· ≤ ·) ∧
      (newMemoryFrontendRateLimit 1000000000 1).takeAll [(0, "foo"), (1000000000, "foo")] =
        [true, true] ∧
      (newRedisFrontendRateLimiter 1000000000 1 "").takeAll [(0, "foo"), (1000000000, "foo")] =
        [true, true] := by
  have hsorted : ([(0, "foo"), (1000000000, "foo")].map Prod.fst).Pairwise (· ≤ ·) := by decide
  have hint : intervalAnswers 1000000000 1 [] [(0, "foo"), (1000000000, "foo")] = [true, true] := by
    simp [intervalAnswers]
  obtain ⟨hmem, hredis⟩ := takeAll_eq_intervalAnswers le_rfl 1 "" hsorted
  exact ⟨hsorted, hmem.trans hint, hredis.trans hint⟩

/-- Below a second, the first interval of `dur` and the next share their
    timestamp. -/
theorem truncateNow_dur_eq_zero {dur : ℕ} (hdur : dur < 1000000000) : truncateNow dur dur = truncateNow dur 0 := by
  simp [truncateNow, truncate, unix, Nat.div_eq_of_lt hdur]

/-- Below a second, calls at the start of the first interval and of the
    next are counted together: with a limit of one, both limiters refuse
    the second call, which the per-interval law lets through. -/
theorem takeAll_interval_starts {dur : ℕ} (hpos : 0 < dur) (hdur : dur < 1000000000) (key : String) :
    (newMemoryFrontendRateLimit dur 1).takeAll [(0, key), (dur, key)] = [true, false] ∧
      (newRedisFrontendRateLimiter dur 1 "").takeAll [(0, key), (dur, key)] = [true, false] ∧
      intervalAnswers dur 1 [] [(0, key), (dur, key)] = [true, true] := by
  have hlaw : lawAnswers dur 1 [] [(0, key), (dur, key)] = [true, false] := by
    simp [lawAnswers, countsAt, truncateNow_dur_eq_zero hdur]
  refine ⟨?_, ?_, ?_⟩
  · rw [memoryTakeAll_eq_lawAnswers dur 1 (by simp), hlaw]
  · rw [redisTakeAll_eq_lawAnswers, hlaw]
  · simp [intervalAnswers, Nat.div_self hpos]

/-- Two calls for `foo`, at the zero time and half a second later, under a
    limit of one call per `500ms`: both limiters refuse the second, the
    first call of its interval. -/
theorem takeAll_half_second_interval :
    (newMemoryFrontendRateLimit 500000000 1).takeAll [(0, "foo"), (500000000, "foo")] = [true, false] ∧
      (newRedisFrontendRateLimiter 500000000 1 "").takeAll [(0, "foo"), (500000000, "foo")] = [true, false] ∧
      intervalAnswers 500000000 1 [] [(0, "foo"), (500000000, "foo")] = [true, true] :=
  takeAll_interval_starts (by decide) (by decide) "foo"

end Proxyd.Limit
