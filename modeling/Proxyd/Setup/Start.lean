import Proxyd.Consensus.Candidates
import Proxyd.Rpc.Forward

/-
  Proxyd.Setup.Start

  What `Start` of `proxyd.go` checks in a config before it serves, and the
  backend groups it builds from it: each group's backends in the order the
  config lists them, and `FallbackBackends`, from a backend's name to
  whether the group's `fallbacks` name it.  The consensus poller splits a
  group by that map into `Primaries()` and `Fallbacks()`.

  The config's maps are ranged over in an order of the runtime's choosing
  (`MapRange`), which decides only which error is reported first.  Values
  read through `ReadFromEnvOrConfig` are given as read; connecting to Redis
  is taken to succeed, and the steps that follow the groups (the cache, the
  limiters, the server) are left out.

  Every backend a group lists is polled as exactly one of a primary or a
  fallback (`start_partitions_groups`).  The check that the group's
  fallbacks were all instantiated counts the pairs of a backend and a
  fallback with one name: with distinct backends it holds exactly when
  every fallback is a backend of the group, but a backend listed twice
  makes up for a fallback the group lacks.
-/

namespace Proxyd.Setup

open Proxyd.Go Proxyd.Lib

/-! ## The config -/

/-- `BackendConfig`: the fields `Start` checks or hands to the consensus
    poller. -/
structure BackendConfig where
  rpcURL : String
  consensusSkipPeerCountCheck : Bool
  consensusForcedCandidate : Bool
  consensusReceiptsTarget : String

/-- `BackendGroupConfig`: the backends of a group and those of them that
    are fallbacks, by name. -/
structure BackendGroupConfig where
  backends : List String
  fallbacks : List String

/-- `Config`: the fields `Start` checks before it builds the server;
    `senderRateLimitInterval` is in nanoseconds. -/
structure Config where
  backends : GoMap BackendConfig
  backendGroups : GoMap BackendGroupConfig
  rpcMethodMappings : GoMap String
  authentication : GoMap String
  redisURL : String
  redisReadURL : String
  rateLimitUseRedis : Bool
  senderRateLimitEnabled : Bool
  senderRateLimitLimit : ℤ
  senderRateLimitInterval : ℤ
  wsBackendGroup : String
  wsPort : ℕ

/-- The orders in which `Start` ranges over the config's maps. -/
structure StartRanges where
  authentication : MapRange (String × String)
  backends : MapRange (String × BackendConfig)
  backendGroups : MapRange (String × BackendGroupConfig)
  rpcMethodMappings : MapRange (String × String)

/-- The ranges that visit each map's entries in the order they were first
    assigned. -/
def StartRanges.keep : StartRanges :=
  ⟨⟨id, fun _ => List.Perm.refl _⟩, ⟨id, fun _ => List.Perm.refl _⟩, ⟨id, fun _ => List.Perm.refl _⟩,
    ⟨id, fun _ => List.Perm.refl _⟩⟩

/-- A config with the backends `a` and `b` and one group `main`, of the
    backends and fallbacks given, that serves `eth_chainId`. -/
def mainConfig (backends fallbacks : List String) : Config where
  backends := toGoMap [("a", ⟨"http://a:8545", false, false, ""⟩), ("b", ⟨"http://b:8545", false, false, ""⟩)]
  backendGroups := toGoMap [("main", ⟨backends, fallbacks⟩)]
  rpcMethodMappings := toGoMap [("eth_chainId", "main")]
  authentication := GoMap.empty
  redisURL := ""
  redisReadURL := ""
  rateLimitUseRedis := false
  senderRateLimitEnabled := false
  senderRateLimitLimit := 0
  senderRateLimitInterval := 0
  wsBackendGroup := ""
  wsPort := 0

/-! ## The checks before the backends -/

/-- The checks of `Start` up to the backends, in order. -/
def checkConfig (ranges : StartRanges) (config : Config) : Except String Unit :=
  if config.backends.entries.length = 0 then throw "must define at least one backend"
  else if config.backendGroups.entries.length = 0 then throw "must define at least one backend group"
  else if config.rpcMethodMappings.entries.length = 0 then
    throw "must define at least one RPC method mapping"
  else
    (ranges.authentication.order config.authentication.entries).forM fun kv =>
      if kv.1 = "none" then throw "cannot use none as an auth key" else pure ()

/-- The checks of `Start` on the Redis URLs and the sender rate limit. -/
def checkRedisAndSenderRateLimit (config : Config) : Except String Unit :=
  if config.redisReadURL ≠ "" ∧ config.redisURL = "" then
    throw "must specify a Redis primary URL. only read endpoint is set"
  else if config.redisURL = "" ∧ config.rateLimitUseRedis then
    throw "must specify a Redis URL if UseRedis is true in rate limit config"
  else if config.senderRateLimitEnabled ∧ config.senderRateLimitLimit ≤ 0 then
    throw "limit in sender_rate_limit must be > 0"
  else if config.senderRateLimitEnabled ∧ config.senderRateLimitInterval < 1000000000 then
    throw "interval in sender_rate_limit must be >= 1s"
  else pure ()

/-! ## The backends -/

/-- `validateReceiptsTarget`: an empty target is `debug_getRawReceipts`. -/
def validateReceiptsTarget (val : String) : Except String String :=
  let val := if val = "" then Rpc.receiptsTargetDebugGetRawReceipts else val
  if val = Rpc.receiptsTargetDebugGetRawReceipts ∨ val = Rpc.receiptsTargetAlchemyGetTransactionReceipts ∨
      val = Rpc.receiptsTargetEthGetTransactionReceipts ∨ val = Rpc.receiptsTargetParityGetTransactionReceipts then
    pure val
  else throw ("invalid receipts target: " ++ val)

/-- The body of the loop over `config.Backends`: the checks on one backend,
    and the backend `NewBackend` makes, as the consensus poller reads it. -/
def newBackend (name : String) (cfg : BackendConfig) : Except String Consensus.Backend :=
  if cfg.rpcURL = "" then throw ("must define an RPC URL for backend " ++ name)
  else
    (validateReceiptsTarget cfg.consensusReceiptsTarget).map fun _ =>
      ⟨name, cfg.consensusSkipPeerCountCheck, cfg.consensusForcedCandidate⟩

/-- `backendsByName`, built by the loop over `config.Backends`. -/
def buildBackends (range : MapRange (String × BackendConfig)) (backends : GoMap BackendConfig) :
    Except String (GoMap Consensus.Backend) :=
  (range.order backends.entries).foldlM
    (fun backendsByName kv => (newBackend kv.1 kv.2).map fun back => backendsByName.set kv.1 back)
    GoMap.empty

/-! ## The backend groups -/

/-- The loop over `bg.Fallbacks` for the backend `bName`: each fallback of
    that name marks it a fallback and is counted. -/
def matchFallbacks (bName : String) (fallbacks : List String) (acc : GoMap Bool × ℕ) : GoMap Bool × ℕ :=
  fallbacks.foldl (fun acc fb => if bName = fb then (acc.1.set bName true, acc.2 + 1) else acc) acc

/-- The body of the loop over `bg.Backends`: the backend appended, and its
    entry in `fallbackBackends` set to `false` if no fallback set it. -/
def addGroupBackend (backendsByName : GoMap Consensus.Backend) (fallbacks : List String)
    (acc : List Consensus.Backend × GoMap Bool × ℕ) (bName : String) :
    Except String (List Consensus.Backend × GoMap Bool × ℕ) :=
  match backendsByName.get bName with
  | none => throw ("backend " ++ bName ++ " is not defined")
  | some back =>
    let (fallbackBackends, fallbackCount) := matchFallbacks bName fallbacks (acc.2.1, acc.2.2)
    let fallbackBackends :=
      if (fallbackBackends.get bName).isSome then fallbackBackends else fallbackBackends.set bName false
    pure (acc.1 ++ [back], fallbackBackends, fallbackCount)

/-- The `BackendGroup` `Start` builds for `bg`, after it checked that every
    configured fallback was counted. -/
def buildBackendGroup (backendsByName : GoMap Consensus.Backend) (bgName : String)
    (bg : BackendGroupConfig) : Except String Consensus.BackendGroup := do
  let (backends, fallbackBackends, fallbackCount) ←
    bg.backends.foldlM (addGroupBackend backendsByName bg.fallbacks) ([], GoMap.empty, 0)
  if fallbackCount ≠ bg.fallbacks.length then
    throw ("error: number of fallbacks instantiated (" ++ toString fallbackCount ++
      ") did not match configured (" ++ toString bg.fallbacks.length ++ ") for backend group " ++ bgName)
  else pure ⟨backends, fallbackBackends⟩

/-- `backendGroups`, built by the loop over `config.BackendGroups`. -/
def buildBackendGroups (range : MapRange (String × BackendGroupConfig))
    (backendsByName : GoMap Consensus.Backend) (backendGroups : GoMap BackendGroupConfig) :
    Except String (GoMap Consensus.BackendGroup) :=
  (range.order backendGroups.entries).foldlM
    (fun groups kv => (buildBackendGroup backendsByName kv.1 kv.2).map fun bg => groups.set kv.1 bg)
    GoMap.empty

/-- The checks of `Start` on the groups it built: the WebSocket group and
    the groups of the method mappings. -/
def checkGroups (range : MapRange (String × String)) (config : Config)
    (backendGroups : GoMap Consensus.BackendGroup) : Except String Unit :=
  if config.wsBackendGroup ≠ "" ∧ (backendGroups.get config.wsBackendGroup).isNone then
    throw ("ws backend group " ++ config.wsBackendGroup ++ " does not exist")
  else if (config.wsBackendGroup = "" ∨ (backendGroups.get config.wsBackendGroup).isNone) ∧
      config.wsPort ≠ 0 then
    throw "a ws port was defined, but no ws group was defined"
  else
    (range.order config.rpcMethodMappings.entries).forM fun kv =>
      if (backendGroups.get kv.2).isNone then throw ("undefined backend group " ++ kv.2) else pure ()

/-- `Start`, up to the backend groups it serves. -/
def start (ranges : StartRanges) (config : Config) : Except String (GoMap Consensus.BackendGroup) := do
  checkConfig ranges config
  checkRedisAndSenderRateLimit config
  let backendsByName ← buildBackends ranges.backends config.backends
  let backendGroups ← buildBackendGroups ranges.backendGroups backendsByName config.backendGroups
  checkGroups ranges.rpcMethodMappings config backendGroups
  pure backendGroups

/-! ## The loop over a group's backends -/

theorem matchFallbacks_count (bName : String) :
    ∀ (fallbacks : List String) (m : GoMap Bool) (c : ℕ),
      (matchFallbacks bName fallbacks (m, c)).2 = c + fallbacks.count bName
  | [], _, _ => rfl
  | fb :: fallbacks, m, c => by
    by_cases h : bName = fb
    · subst h
      have ih := matchFallbacks_count bName fallbacks (m.set bName true) (c + 1)
      simp only [matchFallbacks, List.foldl_cons, if_true] at ih ⊢
      rw [ih, List.count_cons_self]
      omega
    · have ih := matchFallbacks_count bName fallbacks m c
      simp only [matchFallbacks, List.foldl_cons, if_neg h] at ih ⊢
      rw [ih, List.count_cons_of_ne (Ne.symm h)]

theorem matchFallbacks_get (bName : String) :
    ∀ (fallbacks : List String) (m : GoMap Bool) (c : ℕ) (k : String),
      (matchFallbacks bName fallbacks (m, c)).1.get k =
        if k = bName ∧ bName ∈ fallbacks then some true else m.get k
  | [], _, _, k => by simp [matchFallbacks]
  | fb :: fallbacks, m, c, k => by
    by_cases h : bName = fb
    · subst h
      have ih := matchFallbacks_get bName fallbacks (m.set bName true) (c + 1) k
      simp only [matchFallbacks, List.foldl_cons, if_true] at ih ⊢
      rw [ih]
      by_cases hk : k = bName
      · simp [hk]
      · simp [hk, Ne.symm hk]
    · have ih := matchFallbacks_get bName fallbacks m c k
      simp only [matchFallbacks, List.foldl_cons, if_neg h] at ih ⊢
      rw [ih]
      by_cases hk : k = bName <;> simp [hk, h]

/-- What the loop over a group's backends has built after the names `pre`:
    their backends, the fallback flag of each name, and the pairs of a
    backend and a fallback with one name counted. -/
structure GroupAcc (backendsByName : GoMap Consensus.Backend) (fallbacks : List String)
    (acc : List Consensus.Backend × GoMap Bool × ℕ) (pre : List String) : Prop where
  names : acc.1.map (·.name) = pre
  defined : ∀ be ∈ acc.1, backendsByName.get be.name = some be
  flags : ∀ k, acc.2.1.get k = if k ∈ pre then some (decide (k ∈ fallbacks)) else none
  count : acc.2.2 = (pre.map fun n => fallbacks.count n).sum

/-- The step lemma of the loop: a backend known by its name is appended,
    and its flag says whether it is a fallback, whether or not the name came
    before. -/
theorem GroupAcc.add {backendsByName : GoMap Consensus.Backend}
    (hnames : ∀ n b, backendsByName.get n = some b → b.name = n) {fallbacks : List String}
    {acc acc' : List Consensus.Backend × GoMap Bool × ℕ} {pre : List String} {bName : String}
    (hacc : GroupAcc backendsByName fallbacks acc pre)
    (h : addGroupBackend backendsByName fallbacks acc bName = .ok acc') :
    GroupAcc backendsByName fallbacks acc' (pre ++ [bName]) := by
  unfold addGroupBackend at h
  split at h
  · cases h
  · rename_i back hback
    obtain ⟨backends, m, c⟩ := acc
    simp only [except_pure_eq_ok] at h
    subst h
    refine ⟨?_, ?_, ?_, ?_⟩
    · simp [← hacc.names, hnames bName back hback]
    · intro be hbe
      rcases List.mem_append.mp hbe with hbe | hbe
      · exact hacc.defined be hbe
      · rw [List.mem_singleton.mp hbe, hnames bName back hback]
        exact hback
    · intro k
      have hget := matchFallbacks_get bName fallbacks m c
      split
      · rename_i hset
        rw [hget, hacc.flags]
        -- the name was flagged before, or marked a fallback now
        by_cases hk : k = bName
        · subst hk
          by_cases hf : k ∈ fallbacks
          · simp [hf]
          · rw [hget, hacc.flags] at hset
            simp only [hf, and_false, if_false] at hset
            by_cases hp : k ∈ pre
            · simp [hp, hf]
            · simp [hp] at hset
        · simp [hk]
      · rename_i hset
        rw [GoMap.get_set, hget, hacc.flags]
        by_cases hk : bName = k
        · subst hk
          rw [hget, hacc.flags] at hset
          by_cases hf : bName ∈ fallbacks <;> simp_all
        · simp [Ne.symm hk, hk]
    · have hc : c = (pre.map fun n => fallbacks.count n).sum := hacc.count
      simp [matchFallbacks_count, hc]

theorem groupAcc_nil (backendsByName : GoMap Consensus.Backend) (fallbacks : List String) :
    GroupAcc backendsByName fallbacks ([], GoMap.empty, 0) [] :=
  ⟨rfl, fun _ h => absurd h List.not_mem_nil, fun _ => by simp, rfl⟩

/-- A group that `buildBackendGroup` accepts: its backends are the named
    ones, each flagged a fallback exactly when the group names it one. -/
theorem buildBackendGroup_eq_ok {backendsByName : GoMap Consensus.Backend}
    (hnames : ∀ n b, backendsByName.get n = some b → b.name = n) {bgName : String}
    {cfg : BackendGroupConfig} {bg : Consensus.BackendGroup}
    (h : buildBackendGroup backendsByName bgName cfg = .ok bg) :
    GroupAcc backendsByName cfg.fallbacks (bg.backends, bg.fallbackBackends, cfg.fallbacks.length)
      cfg.backends := by
  obtain ⟨acc, hfold, h⟩ := except_bind_eq_ok.mp h
  have hacc := except_foldlM_invariant (GroupAcc backendsByName cfg.fallbacks)
    (fun _ _ _ _ hb hstep => hb.add hnames hstep) (groupAcc_nil backendsByName cfg.fallbacks) hfold
  obtain ⟨backends, m, c⟩ := acc
  simp only at h
  split at h
  · cases h
  · rename_i hc
    simp only [except_pure_eq_ok] at h
    subst h
    simp only [ne_eq, Decidable.not_not] at hc
    subst hc
    simpa using hacc

/-- The flag of each backend of a group `buildBackendGroup` accepted says
    whether the group names it a fallback. -/
theorem GroupAcc.flag {backendsByName : GoMap Consensus.Backend} {fallbacks : List String}
    {bg : Consensus.BackendGroup} {c : ℕ} {names : List String}
    (hacc : GroupAcc backendsByName fallbacks (bg.backends, bg.fallbackBackends, c) names)
    {be : Consensus.Backend} (hbe : be ∈ bg.backends) :
    bg.fallbackBackends.get be.name = some (decide (be.name ∈ fallbacks)) := by
  have hmem : be.name ∈ names := hacc.names ▸ List.mem_map_of_mem hbe
  simpa [hmem] using hacc.flags be.name

/-- Such a group splits into its primaries and its fallbacks: every backend
    is exactly one of them, as the group names it. -/
theorem GroupAcc.partition {backendsByName : GoMap Consensus.Backend} {fallbacks : List String}
    {bg : Consensus.BackendGroup} {c : ℕ} {names : List String}
    (hacc : GroupAcc backendsByName fallbacks (bg.backends, bg.fallbackBackends, c) names) :
    (bg.primaries ++ bg.fallbacks).Perm bg.backends ∧
      ∀ be ∈ bg.backends, (be ∈ bg.fallbacks ↔ be.name ∈ fallbacks) ∧
        (be ∈ bg.primaries ↔ be.name ∉ fallbacks) := by
  -- on the group's backends, being a fallback is not being a primary
  have hnot : ∀ be ∈ bg.backends, decide (bg.fallbackBackends.get be.name = some true) =
      !decide (bg.fallbackBackends.get be.name = some false) := by
    intro be hbe
    rw [hacc.flag hbe]
    by_cases h : be.name ∈ fallbacks <;> simp [h]
  refine ⟨?_, fun be hbe => ?_⟩
  · rw [Consensus.BackendGroup.fallbacks, List.filter_congr hnot]
    exact List.filter_append_perm _ _
  · simp [Consensus.BackendGroup.fallbacks, Consensus.BackendGroup.primaries, hbe, hacc.flag hbe]

/-! ## `Start` -/

theorem goMap_get_of_mem {α : Type} (m : GoMap α) {k : String} {v : α} (h : (k, v) ∈ m.entries) :
    m.get k = some v := by
  rw [GoMap.get, (find?_key_eq_some_iff m.nodup).mpr ⟨h, rfl⟩]
  rfl

theorem newBackend_name {name : String} {cfg : BackendConfig} {back : Consensus.Backend}
    (h : newBackend name cfg = .ok back) : back.name = name := by
  unfold newBackend at h
  split at h
  · cases h
  · obtain ⟨_, -, rfl⟩ := except_map_eq_ok.mp h
    rfl

/-- Every backend `backendsByName` holds is under its own name. -/
theorem buildBackends_names {range : MapRange (String × BackendConfig)} {backends : GoMap BackendConfig}
    {backendsByName : GoMap Consensus.Backend} (h : buildBackends range backends = .ok backendsByName) :
    ∀ n b, backendsByName.get n = some b → b.name = n := by
  have hinv := except_foldlM_invariant_nil (fun (m : GoMap Consensus.Backend) _ => ∀ n b, m.get n = some b → b.name = n)
    (fun m _ kv m' hm hstep => by
      obtain ⟨back, hback, rfl⟩ := except_map_eq_ok.mp hstep
      intro n b hn
      rw [GoMap.get_set] at hn
      split at hn
      · rename_i hk
        cases hn
        exact (newBackend_name hback).trans hk
      · exact hm n b hn)
    (fun n b hn => by simp at hn) h
  exact hinv

/-- Every group `Start` builds is the group `buildBackendGroup` accepted
    for the config of its name. -/
theorem buildBackendGroups_get {range : MapRange (String × BackendGroupConfig)}
    {backendsByName : GoMap Consensus.Backend} {backendGroups : GoMap BackendGroupConfig}
    {groups : GoMap Consensus.BackendGroup}
    (h : buildBackendGroups range backendsByName backendGroups = .ok groups) :
    ∀ k g, groups.get k = some g →
      ∃ cfg, backendGroups.get k = some cfg ∧ buildBackendGroup backendsByName k cfg = .ok g := by
  have hinv := except_foldlM_invariant_nil
    (fun (m : GoMap Consensus.BackendGroup) pre => ∀ k g, m.get k = some g →
      ∃ cfg, (k, cfg) ∈ pre ∧ buildBackendGroup backendsByName k cfg = .ok g)
    (fun m pre kv m' hm hstep => by
      obtain ⟨bg, hbg, rfl⟩ := except_map_eq_ok.mp hstep
      intro k g hk
      rw [GoMap.get_set] at hk
      split at hk
      · rename_i hkv
        cases hk
        subst hkv
        exact ⟨kv.2, List.mem_append_right _ (List.mem_singleton_self _), hbg⟩
      · obtain ⟨cfg, hmem, hcfg⟩ := hm k g hk
        exact ⟨cfg, List.mem_append_left _ hmem, hcfg⟩)
    (fun k g hk => by simp at hk) h
  intro k g hk
  obtain ⟨cfg, hmem, hcfg⟩ := hinv k g hk
  exact ⟨cfg, goMap_get_of_mem backendGroups ((range.perm _).subset (by simpa using hmem)), hcfg⟩

/-- What a config `Start` accepts gives: the backends by name, and every
    group built from the config of its name, after the checks on the built
    groups passed. -/
theorem start_eq_ok {ranges : StartRanges} {config : Config} {groups : GoMap Consensus.BackendGroup}
    (h : start ranges config = .ok groups) :
    ∃ backendsByName : GoMap Consensus.Backend,
      (∀ n b, backendsByName.get n = some b → b.name = n) ∧
      (∀ k g, groups.get k = some g →
        ∃ cfg, config.backendGroups.get k = some cfg ∧ buildBackendGroup backendsByName k cfg = .ok g) ∧
      checkGroups ranges.rpcMethodMappings config groups = .ok () := by
  obtain ⟨_, -, h⟩ := except_bind_eq_ok.mp h
  obtain ⟨_, -, h⟩ := except_bind_eq_ok.mp h
  obtain ⟨backendsByName, hbackends, h⟩ := except_bind_eq_ok.mp h
  obtain ⟨groups', hgroups, h⟩ := except_bind_eq_ok.mp h
  obtain ⟨u, hcheck, h⟩ := except_bind_eq_ok.mp h
  obtain rfl : groups' = groups := except_pure_eq_ok.mp h
  exact ⟨backendsByName, buildBackends_names hbackends, buildBackendGroups_get hgroups, hcheck⟩

/-! ## What `Start` accepts -/

/-- Every backend a group of a config `Start` accepts lists is polled as
    exactly one of a primary or a fallback: a fallback exactly when the
    group's config names it one. -/
theorem start_partitions_groups {ranges : StartRanges} {config : Config}
    {groups : GoMap Consensus.BackendGroup} (h : start ranges config = .ok groups)
    {name : String} {bg : Consensus.BackendGroup} (hg : groups.get name = some bg) :
    ∃ cfg, config.backendGroups.get name = some cfg ∧ bg.backends.map (·.name) = cfg.backends ∧
      (bg.primaries ++ bg.fallbacks).Perm bg.backends ∧
      ∀ be ∈ bg.backends, (be ∈ bg.fallbacks ↔ be.name ∈ cfg.fallbacks) ∧
        (be ∈ bg.primaries ↔ be.name ∉ cfg.fallbacks) := by
  obtain ⟨backendsByName, hnames, hbuilt, -⟩ := start_eq_ok h
  obtain ⟨cfg, hcfg, hbuild⟩ := hbuilt name bg hg
  have hacc := buildBackendGroup_eq_ok hnames hbuild
  exact ⟨cfg, hcfg, hacc.names, hacc.partition.1, hacc.partition.2⟩

/-- The group `main` of `a` and the fallback `b`. -/
def mainGroup : Consensus.BackendGroup :=
  ⟨[⟨"a", false, false⟩, ⟨"b", false, false⟩], toGoMap [("a", false), ("b", true)]⟩

theorem start_mainConfig :
    start StartRanges.keep (mainConfig ["a", "b"] ["b"]) = .ok (toGoMap [("main", mainGroup)]) := rfl

theorem start_partitions_groups_main :
    ∃ cfg, (mainConfig ["a", "b"] ["b"]).backendGroups.get "main" = some cfg ∧
      mainGroup.backends.map (·.name) = cfg.backends ∧
      (mainGroup.primaries ++ mainGroup.fallbacks).Perm mainGroup.backends ∧
      ∀ be ∈ mainGroup.backends, (be ∈ mainGroup.fallbacks ↔ be.name ∈ cfg.fallbacks) ∧
        (be ∈ mainGroup.primaries ↔ be.name ∉ cfg.fallbacks) :=
  start_partitions_groups start_mainConfig rfl

/-- A group that lists `a` twice and names as fallbacks `a` and a backend
    `c` that no config defines passes the check: the second `a` is counted
    in the place of `c`. -/
theorem start_accepts_undefined_fallback :
    start StartRanges.keep (mainConfig ["a", "a"] ["a", "c"]) =
        .ok (toGoMap [("main", ⟨[⟨"a", false, false⟩, ⟨"a", false, false⟩], toGoMap [("a", true)]⟩)]) ∧
      (mainConfig ["a", "a"] ["a", "c"]).backends.get "c" = none :=
  ⟨rfl, rfl⟩

/-! ## The count of fallbacks -/

section Count

variable {α : Type} [DecidableEq α]

theorem countP_mem_cons {b : α} {B : List α} (hb : b ∉ B) :
    ∀ F : List α, F.countP (fun x => decide (x ∈ b :: B)) = F.count b + F.countP (fun x => decide (x ∈ B))
  | [] => rfl
  | f :: F => by
    have ih := countP_mem_cons hb F
    by_cases hf : f = b
    · subst hf
      simp only [List.countP_cons, List.count_cons_self, ih, List.mem_cons_self, decide_true,
        if_true, hb, decide_false, Bool.false_eq_true, if_false]
      omega
    · have hmem : decide (f ∈ b :: B) = decide (f ∈ B) := by simp [hf]
      rw [List.countP_cons, List.countP_cons, List.count_cons_of_ne hf, ih, hmem]
      omega

/-- Over distinct names, the pairs of a name and a fallback equal to it are
    the fallbacks that are among the names. -/
theorem sum_count_eq_countP (F : List α) :
    ∀ {B : List α}, B.Nodup → (B.map fun n => F.count n).sum = F.countP (fun x => decide (x ∈ B))
  | [], _ => by simp
  | b :: B, hnd => by
    obtain ⟨hb, hnd⟩ := List.nodup_cons.mp hnd
    rw [List.map_cons, List.sum_cons, sum_count_eq_countP F hnd, countP_mem_cons hb]

end Count

/-- With every backend it lists defined, the loop over a group's backends
    succeeds. -/
theorem foldlM_addGroupBackend_ok {backendsByName : GoMap Consensus.Backend}
    (hnames : ∀ n b, backendsByName.get n = some b → b.name = n) (fallbacks : List String) :
    ∀ {names : List String}, (∀ n ∈ names, (backendsByName.get n).isSome) →
      ∀ {acc : List Consensus.Backend × GoMap Bool × ℕ} {pre : List String},
        GroupAcc backendsByName fallbacks acc pre →
        ∃ acc', names.foldlM (addGroupBackend backendsByName fallbacks) acc = .ok acc' ∧
          GroupAcc backendsByName fallbacks acc' (pre ++ names)
  | [], _, acc, pre, hacc => ⟨acc, rfl, by simpa using hacc⟩
  | n :: names, hdef, acc, pre, hacc => by
    obtain ⟨back, hback⟩ := Option.isSome_iff_exists.mp (hdef n List.mem_cons_self)
    -- the step succeeds on a defined name
    have hstep : ∃ acc₁, addGroupBackend backendsByName fallbacks acc n = .ok acc₁ := by
      simp [addGroupBackend, hback]
    obtain ⟨acc₁, h₁⟩ := hstep
    obtain ⟨acc', hfold, hacc'⟩ := foldlM_addGroupBackend_ok hnames fallbacks
      (fun n' hn' => hdef n' (List.mem_cons_of_mem n hn')) (hacc.add hnames h₁)
    refine ⟨acc', ?_, by simpa using hacc'⟩
    rw [List.foldlM_cons, h₁]
    exact hfold

/-- Over a group whose backends are distinct and defined, the fallback
    check of `Start` passes exactly when every configured fallback is one of
    the group's backends. -/
theorem buildBackendGroup_ok_iff {backendsByName : GoMap Consensus.Backend}
    (hnames : ∀ n b, backendsByName.get n = some b → b.name = n) (bgName : String)
    {cfg : BackendGroupConfig} (hnd : cfg.backends.Nodup)
    (hdef : ∀ n ∈ cfg.backends, (backendsByName.get n).isSome) :
    (∃ bg, buildBackendGroup backendsByName bgName cfg = .ok bg) ↔ ∀ fb ∈ cfg.fallbacks, fb ∈ cfg.backends := by
  -- the check compares the count of pairs with the number of fallbacks
  have hcount : (cfg.backends.map fun n => cfg.fallbacks.count n).sum = cfg.fallbacks.length ↔
      ∀ fb ∈ cfg.fallbacks, fb ∈ cfg.backends := by
    rw [sum_count_eq_countP cfg.fallbacks hnd, List.countP_eq_length]
    simp
  rw [← hcount]
  constructor
  · rintro ⟨bg, hbg⟩
    exact (buildBackendGroup_eq_ok hnames hbg).count.symm
  · intro hsum
    obtain ⟨⟨backends, m, c⟩, hfold, hacc⟩ :=
      foldlM_addGroupBackend_ok hnames cfg.fallbacks hdef (groupAcc_nil backendsByName cfg.fallbacks)
    have hc : c = cfg.fallbacks.length := hacc.count.trans hsum
    refine ⟨⟨backends, m⟩, ?_⟩
    simp [buildBackendGroup, hfold, hc]

/-- `backendsByName` of the config with the backends `a` and `b`. -/
def mainBackendsByName : GoMap Consensus.Backend :=
  toGoMap [("a", ⟨"a", false, false⟩), ("b", ⟨"b", false, false⟩)]

theorem buildBackends_mainConfig :
    buildBackends StartRanges.keep.backends (mainConfig [] []).backends = .ok mainBackendsByName := rfl

theorem buildBackendGroup_ok_iff_main :
    (∃ bg, buildBackendGroup mainBackendsByName "main" ⟨["a", "b"], ["b", "c"]⟩ = .ok bg) ↔
      ∀ fb ∈ ["b", "c"], fb ∈ ["a", "b"] :=
  buildBackendGroup_ok_iff (buildBackends_names buildBackends_mainConfig) "main" (by decide) (by decide)

end Proxyd.Setup
