import Proxyd.Rpc.Multicall

/-
  Proxyd.Rpc.Routing

  The order in which `BackendGroup.Forward` tries its backends
  (`orderedBackendsForRequest` and `loadBalancedConsensusGroup` of
  `backend.go`), and the backends the loop of `ForwardRequestToBackendGroup`
  reaches in that order.

  Without consensus routing every backend is tried, the healthy ones first,
  each part shuffled by weight when routing is weighted.  With consensus
  routing only the healthy members of the consensus group are tried: those
  not degraded first, then the degraded ones as a last resort.  `IsHealthy`
  and `IsDegraded` are read once for each backend while the order is made,
  and are given here as predicates; each shuffle is random, and only that
  it permutes its slice is used.

  The loop goes past a backend only when its `Forward` fails with an error
  that does not stop the group, so the backends it reaches are a prefix of
  the order (`reachedBackends_prefix`).  An unhealthy backend is then reached only
  after every healthy one, and a degraded member only after every member
  that is healthy and not degraded.
-/

namespace Proxyd.Rpc

/-- A shuffle of a slice in place, `rand.Shuffle` or `weightedShuffle`:
    some permutation of it. -/
structure Shuffle (α : Type) where
  apply : List α → List α
  perm : ∀ l, (apply l).Perm l

/-- The shuffles one call of `orderedBackendsForRequest` may make, one for
    each call site. -/
structure RoutingShuffles (α : Type) where
  weightedHealthy : Shuffle α
  weightedUnhealthy : Shuffle α
  consensusHealthy : Shuffle α
  consensusDegraded : Shuffle α
  consensusWeighted : Shuffle α

section Order

variable {α : Type} (isHealthy isDegraded : α → Bool) (sh : RoutingShuffles α)

/-- `loadBalancedConsensusGroup`, over the consensus group `cg` that
    `GetConsensusGroup` returns. -/
def loadBalancedConsensusGroup (cg : List α) (weightedRouting : Bool) : List α :=
  -- unhealthy members are not attempted; degraded ones are kept for last
  let backendsHealthy := cg.filter fun be => isHealthy be && !isDegraded be
  let backendsDegraded := cg.filter fun be => isHealthy be && isDegraded be
  let backendsHealthy := sh.consensusHealthy.apply backendsHealthy
  let backendsDegraded := sh.consensusDegraded.apply backendsDegraded
  let backendsHealthy :=
    if weightedRouting then sh.consensusWeighted.apply backendsHealthy else backendsHealthy
  backendsHealthy ++ backendsDegraded

/-- `orderedBackendsForRequest`; `consensusGroup` is the consensus poller's
    group when the group routes by consensus. -/
def orderedBackendsForRequest (backends : List α) (consensusGroup : Option (List α))
    (weightedRouting : Bool) : List α :=
  match consensusGroup with
  | some cg => loadBalancedConsensusGroup isHealthy isDegraded sh cg weightedRouting
  | none =>
    let healthy := backends.filter isHealthy
    let unhealthy := backends.filter fun be => !isHealthy be
    if weightedRouting then sh.weightedHealthy.apply healthy ++ sh.weightedUnhealthy.apply unhealthy
    else healthy ++ unhealthy

/-- Without consensus routing, the order is the healthy backends in some
    order followed by the unhealthy ones in some order. -/
theorem orderedBackendsForRequest_none (backends : List α) (weightedRouting : Bool) :
    ∃ hs us, orderedBackendsForRequest isHealthy isDegraded sh backends none weightedRouting = hs ++ us ∧
      hs.Perm (backends.filter isHealthy) ∧ us.Perm (backends.filter fun be => !isHealthy be) := by
  cases weightedRouting with
  | false => exact ⟨_, _, rfl, List.Perm.refl _, List.Perm.refl _⟩
  | true => exact ⟨_, _, rfl, sh.weightedHealthy.perm _, sh.weightedUnhealthy.perm _⟩

/-- With consensus routing, the order is the healthy members that are not
    degraded in some order followed by the degraded ones in some order. -/
theorem orderedBackendsForRequest_some (backends cg : List α) (weightedRouting : Bool) :
    ∃ hs ds, orderedBackendsForRequest isHealthy isDegraded sh backends (some cg) weightedRouting =
        hs ++ ds ∧
      hs.Perm (cg.filter fun be => isHealthy be && !isDegraded be) ∧
      ds.Perm (cg.filter fun be => isHealthy be && isDegraded be) := by
  refine ⟨_, _, rfl, ?_, sh.consensusDegraded.perm _⟩
  cases weightedRouting with
  | false => exact sh.consensusHealthy.perm _
  | true => exact (sh.consensusWeighted.perm _).trans (sh.consensusHealthy.perm _)

/-- The shuffle that leaves its slice as it is. -/
def Shuffle.keep : Shuffle α := ⟨id, fun _ => List.Perm.refl _⟩

/-- Shuffles that leave every slice as it is. -/
def RoutingShuffles.keep : RoutingShuffles α := ⟨.keep, .keep, .keep, .keep, .keep⟩

end Order

/-! ## The backends the loop reaches -/

/-- The backends the loop of `ForwardRequestToBackendGroup` reaches before
    it returns: it goes past one only after an error of its `Forward` that
    does not stop the group, and with no requests left it returns at the
    first. -/
def reachedBackends (isBatch : Bool) : List Upstream → List RPCReq → List Upstream
  | [], _ => []
  | u :: us, rpcReqs =>
    if 0 < rpcReqs.length then
      match u.forward isBatch rpcReqs with
      | .ok (rpcReqs, .error e) => if e.stopsGroup then [u] else u :: reachedBackends isBatch us rpcReqs
      | _ => [u]
    else [u]

theorem reachedBackends_prefix (isBatch : Bool) :
    ∀ (us : List Upstream) (reqs : List RPCReq), reachedBackends isBatch us reqs <+: us
  | [], _ => List.nil_prefix
  | u :: us, reqs => by
    unfold reachedBackends
    split
    · split
      · split
        · exact List.cons_prefix_cons.mpr ⟨rfl, List.nil_prefix⟩
        · exact List.cons_prefix_cons.mpr ⟨rfl, reachedBackends_prefix isBatch us _⟩
      · exact List.cons_prefix_cons.mpr ⟨rfl, List.nil_prefix⟩
    · exact List.cons_prefix_cons.mpr ⟨rfl, List.nil_prefix⟩

/-- A prefix of `a ++ b` that holds an element outside `a` holds all of
    `a`. -/
theorem prefix_of_mem_of_not_mem {α : Type} {l a b : List α} {x : α} (hl : l <+: a ++ b)
    (hx : x ∈ l) (hxa : x ∉ a) : a <+: l := by
  obtain ⟨t, ht⟩ := hl
  rcases List.append_eq_append_iff.mp ht with ⟨a', rfl, -⟩ | ⟨c', rfl, -⟩
  · exact absurd (List.mem_append_left a' hx) hxa
  · exact List.prefix_append a c'

/-! ## Which backends serve a request -/

section Reached

variable (isHealthy isDegraded : Upstream → Bool) (sh : RoutingShuffles Upstream)
  (backends : List Upstream) (weightedRouting isBatch : Bool) (reqs : List RPCReq)

/-- Without consensus routing, a request reaches an unhealthy backend only
    after it reached every healthy backend of the group. -/
theorem reachedBackends_unhealthy {u : Upstream}
    (hu : u ∈ reachedBackends isBatch
      (orderedBackendsForRequest isHealthy isDegraded sh backends none weightedRouting) reqs)
    (hunhealthy : isHealthy u = false) :
    ∀ v ∈ backends, isHealthy v = true → v ∈ reachedBackends isBatch
      (orderedBackendsForRequest isHealthy isDegraded sh backends none weightedRouting) reqs := by
  intro v hv hhealthy
  obtain ⟨hs, us, heq, hhs, -⟩ :=
    orderedBackendsForRequest_none isHealthy isDegraded sh backends weightedRouting
  have hpre := reachedBackends_prefix isBatch
    (orderedBackendsForRequest isHealthy isDegraded sh backends none weightedRouting) reqs
  rw [heq] at hpre hu ⊢
  -- the healthy part holds no unhealthy backend, so the loop went past all of it
  have hu_hs : u ∉ hs := fun h => by
    simpa [hunhealthy] using (List.mem_filter.mp (hhs.subset h)).2
  have hall := prefix_of_mem_of_not_mem hpre hu hu_hs
  exact hall.subset (hhs.symm.subset (List.mem_filter.mpr ⟨hv, hhealthy⟩))

/-- With consensus routing, a request reaches only healthy members of the
    consensus group, and a degraded member only after every member that is
    healthy and not degraded. -/
theorem reachedBackends_consensus (cg : List Upstream) {u : Upstream}
    (hu : u ∈ reachedBackends isBatch
      (orderedBackendsForRequest isHealthy isDegraded sh backends (some cg) weightedRouting) reqs) :
    u ∈ cg ∧ isHealthy u = true ∧
      (isDegraded u = true → ∀ v ∈ cg, isHealthy v = true → isDegraded v = false →
        v ∈ reachedBackends isBatch
          (orderedBackendsForRequest isHealthy isDegraded sh backends (some cg) weightedRouting) reqs) := by
  obtain ⟨hs, ds, heq, hhs, hds⟩ :=
    orderedBackendsForRequest_some isHealthy isDegraded sh backends cg weightedRouting
  have hpre := reachedBackends_prefix isBatch
    (orderedBackendsForRequest isHealthy isDegraded sh backends (some cg) weightedRouting) reqs
  rw [heq] at hpre hu ⊢
  -- every backend of the order is a healthy member, degraded or not
  have hmem : u ∈ hs ++ ds := hpre.subset hu
  have hcg : u ∈ cg ∧ isHealthy u = true := by
    rcases List.mem_append.mp hmem with h | h
    · have h := List.mem_filter.mp (hhs.subset h)
      simp only [Bool.and_eq_true] at h
      exact ⟨h.1, h.2.1⟩
    · have h := List.mem_filter.mp (hds.subset h)
      simp only [Bool.and_eq_true] at h
      exact ⟨h.1, h.2.1⟩
  refine ⟨hcg.1, hcg.2, fun hdeg v hv hvh hvd => ?_⟩
  have hu_hs : u ∉ hs := fun h => by
    simpa [hdeg] using (List.mem_filter.mp (hhs.subset h)).2
  have hall := prefix_of_mem_of_not_mem hpre hu hu_hs
  exact hall.subset (hhs.symm.subset (List.mem_filter.mpr ⟨hv, by simp [hvh, hvd]⟩))

end Reached

/-- A health check that passes only the refusing backend. -/
def refusingHealthy (u : Upstream) : Bool := u.backend.name == "refusing"

def chainIdRequest : RPCReq := ⟨"2.0", "eth_chainId", none, some (.num "1")⟩

/-- The unhealthy echo backend is reached, so the healthy refusing one was
    reached before it. -/
theorem reachedBackends_unhealthy_echo :
    refusingUpstream ∈ reachedBackends false (orderedBackendsForRequest refusingHealthy (fun _ => false)
      RoutingShuffles.keep [echoBackend, refusingUpstream] none false) [chainIdRequest] :=
  reachedBackends_unhealthy refusingHealthy (fun _ => false) RoutingShuffles.keep
    [echoBackend, refusingUpstream] false false [chainIdRequest]
    (show echoBackend ∈ [refusingUpstream, echoBackend] from List.mem_cons_of_mem _ List.mem_cons_self)
    rfl refusingUpstream (List.mem_cons_of_mem _ List.mem_cons_self) rfl

/-- In the consensus group every backend is healthy and the echo backend
    is degraded. -/
theorem reachedBackends_consensus_degraded :
    echoBackend ∈ [refusingUpstream, echoBackend] ∧ true = true ∧
      ((!refusingHealthy echoBackend) = true → ∀ v ∈ [refusingUpstream, echoBackend],
        true = true → (!refusingHealthy v) = false →
        v ∈ reachedBackends false (orderedBackendsForRequest (fun _ => true)
          (fun v => !refusingHealthy v) RoutingShuffles.keep [] (some [refusingUpstream, echoBackend]) false)
          [chainIdRequest]) :=
  reachedBackends_consensus (fun _ => true) (fun v => !refusingHealthy v)
    RoutingShuffles.keep [] false false [chainIdRequest] [refusingUpstream, echoBackend]
    (show echoBackend ∈ [refusingUpstream, echoBackend] from List.mem_cons_of_mem _ List.mem_cons_self)

end Proxyd.Rpc
