import Proxyd.Rpc.ForwardSpec

/-
  Proxyd.Rpc.BatchSpec

  `handleBatchRPC` answers every request of a batch at its own index, with
  the request's ID, when nothing in the batch ends it: no request makes the
  consensus rewriter panic or is a `consensus_getReceipts`, every mapped
  backend group exists, the backends answer each request once by ID, and
  the deadline does not pass.  Each answer is the request's own (`AnswersTo`):
  one the handler makes itself, a cache hit, the consensus view's, the
  answer a backend gave to it, or the error its minibatch ended in.

  The proof follows the two loops of the handler.

    * The first loop (`groupRequests_spec`) keeps `FirstInv`: every
      response made so far carries its request's ID, every request it
      forwards sits in exactly the batch of its group and generation, and
      the count of each ID bounds the generations of the batches holding
      it, which is what keeps the IDs of a batch distinct.
    * The second loop (`forwardBatches_spec`) keeps `Good`, never takes a
      response back (`Keeps`), and answers every element of every batch.
      A batch answers its cache hits (`lookupBatch_spec`) and each of its
      minibatches (`forwardMinibatches_spec`) in the order of their IDs,
      by `BackendGroup.forward_answers`.  An index the first loop left open
      is an element of a batch, so every index ends answered
      (`handleBatchRPC_aligned`).
-/

namespace Proxyd.Rpc

open Proxyd.Go Proxyd.Lib

variable {σ : Type} (s : Server σ) (reqs : List (Option Json)) (c₀ : σ) (isLimited : ℕ → String → Bool)

/-! ## Responses that answer their requests -/

/-- A cache state the handler reaches from `c₀`: `c₀`, or one after answers
    are put in it. -/
def CacheReach (c : σ) : Prop :=
  Relation.ReflTransGen (fun a b => ∃ req res, b = s.cache.putRPC a req res) c₀ c

/-- Where the answer `r` to a forwarded request `req` comes from: a hit in a
    cache state the handler reaches, the answer of the group the method maps
    to, or the error that group's forwarding ended in for a minibatch holding
    `req`, made of requests of the batch that map to the same group. -/
inductive Served (req : RPCReq) (r : RPCRes) : Prop where
  | cacheHit (c : σ) (result : Json) (hc : CacheReach s c₀ c) (hget : s.cache.getRPC c req = some result)
      (hr : r = ⟨req.jsonrpc, some result, none, req.id⟩)
  | group (bg : BackendGroup) (hbg : s.backendGroups (s.rpcMethodMappings req.method) = some bg)
      (hans : GroupAnswer bg req r)
  | failed (bg : BackendGroup) (L : List RPCReq) (e : ForwardError)
      (hbg : s.backendGroups (s.rpcMethodMappings req.method) = some bg) (hL : req ∈ L)
      (hbatch : ∀ q ∈ L, s.rpcMethodMappings q.method = s.rpcMethodMappings req.method ∧
        ∃ (j : ℕ) (raw : Option Json), reqs[j]? = some raw ∧ parseRPCReq raw = .ok q)
      (hfw : bg.forward L true = .ok (.error e)) (hr : r = newRPCErrorRes req.id e.toRPCErr)

/-- A response to the raw request `raw` at index `j`: when `raw` parses to a
    request that validates, the response carries that request's ID and is
    the handler's own answer to it, or one `Served` to it. -/
def AnswersTo (j : ℕ) (raw : Option Json) (r : RPCRes) : Prop :=
  ∀ req, parseRPCReq raw = .ok req → validateRPCReq req = none →
    idKey r.id = idKey req.id ∧
      (triage s isLimited reqs.length j raw = .answer r ∨ triage s isLimited reqs.length j raw = .healthz r ∨
        Served s reqs c₀ req r)

/-- The responses so far: one slot per request, and every response made
    answers its request. -/
structure Good (responses : List (Option RPCRes)) : Prop where
  length : responses.length = reqs.length
  answers : ∀ (j : ℕ) (raw : Option Json) (r : RPCRes), reqs[j]? = some raw →
    responses[j]? = some (some r) → AnswersTo s reqs c₀ isLimited j raw r

/-- A forwarded request in the batch of group `g`: it is what the raw
    request at its index parses to, it validates, and its method maps to the
    group's backend group. -/
def ElemOf (g : BatchGroup) (e : BatchElem) : Prop :=
  ∃ raw, reqs[e.index]? = some raw ∧ parseRPCReq raw = .ok e.req ∧ validateRPCReq e.req = none ∧
    s.rpcMethodMappings e.req.method = g.backendGroup ∧ g.backendGroup ≠ ""

variable {s reqs c₀ isLimited}

theorem Good.set {responses : List (Option RPCRes)} (hg : Good s reqs c₀ isLimited responses) {j : ℕ}
    {r : RPCRes} (hr : ∀ raw, reqs[j]? = some raw → AnswersTo s reqs c₀ isLimited j raw r) :
    Good s reqs c₀ isLimited (responses.set j (some r)) where
  length := by simp [hg.length]
  answers := by
    intro j' raw r' hraw hr'
    by_cases hjj : j = j'
    · subst hjj
      rw [List.getElem?_set] at hr'
      split_ifs at hr' with h₁
      all_goals first | exact absurd rfl h₁ | (cases hr'; exact hr raw hraw)
    · rw [List.getElem?_set_ne hjj] at hr'
      exact hg.answers j' raw r' hraw hr'

/-- A response served to a forwarded request, with its ID, answers the raw
    request at its index. -/
theorem ElemOf.answersTo {g : BatchGroup} {e : BatchElem} (he : ElemOf s reqs g e) {r : RPCRes}
    (hr : idKey r.id = idKey e.req.id) (hs : Served s reqs c₀ e.req r) :
    ∀ raw, reqs[e.index]? = some raw → AnswersTo s reqs c₀ isLimited e.index raw r := by
  obtain ⟨raw₀, hraw₀, hp, -, -, -⟩ := he
  intro raw hraw req hp' _
  have : raw = raw₀ := Option.some.inj (hraw.symm.trans hraw₀)
  subst this
  rw [hp] at hp'
  cases hp'
  exact ⟨hr, .inr (.inr hs)⟩

/-- A forwarded request's group is the one its method maps to. -/
theorem ElemOf.group {g : BatchGroup} {e : BatchElem} (he : ElemOf s reqs g e) :
    s.rpcMethodMappings e.req.method = g.backendGroup := by
  obtain ⟨-, -, -, -, hm, -⟩ := he
  exact hm

/-! ## The first loop -/

/-- A local answer carries the parsed request's ID. -/
theorem triage_answer {i : ℕ} {raw : Option Json} {res : RPCRes}
    (h : triage s isLimited reqs.length i raw = .answer res) : AnswersTo s reqs c₀ isLimited i raw res := by
  intro req hp hv
  refine ⟨?_, .inl h⟩
  simp only [triage, hp, hv] at h
  repeat' split at h
  all_goals (cases h; try rfl)

/-- The health check returns early only from a batch of one. -/
theorem triage_healthz {i : ℕ} {raw : Option Json} {res : RPCRes}
    (h : triage s isLimited reqs.length i raw = .healthz res) :
    reqs.length = 1 ∧ AnswersTo s reqs c₀ isLimited i raw res := by
  have hh := h
  unfold triage at h
  cases hp : parseRPCReq raw with
  | error err => simp [hp] at h
  | ok parsedReq =>
    simp only [hp] at h
    split at h
    · cases h
      refine ⟨‹reqs.length = 1 ∧ _›.1, fun req hp' _ => ⟨?_, .inr (.inl hh)⟩⟩
      rw [hp] at hp'
      cases hp'
      rfl
    · repeat' split at h
      all_goals cases h

/-- A forwarded request parses, validates, and maps to its group. -/
theorem triage_forward {isLimited : ℕ → String → Bool} {n i : ℕ} {raw : Option Json}
    {req : RPCReq} {group : String} (h : triage s isLimited n i raw = .forward req group) :
    parseRPCReq raw = .ok req ∧ validateRPCReq req = none ∧
      s.rpcMethodMappings req.method = group ∧ group ≠ "" := by
  unfold triage at h
  cases hp : parseRPCReq raw with
  | error err => simp [hp] at h
  | ok parsedReq =>
    simp only [hp] at h
    repeat' split at h
    all_goals (cases h <;> simp_all)

/-! ### The batches map -/

@[simp] theorem batchOf_nil (g : BatchGroup) : batchOf [] g = [] := rfl

theorem batchOf_cons (g' g : BatchGroup) (es : List BatchElem) (bs : List (BatchGroup × List BatchElem)) :
    batchOf ((g', es) :: bs) g = if g' = g then es else batchOf bs g := by
  by_cases h : g' = g <;> simp [batchOf, h]

/-- The batch of a key present in the map is the value of its entry. -/
theorem mem_batchOf {bs : List (BatchGroup × List BatchElem)} {g : BatchGroup}
    (hg : g ∈ bs.map Prod.fst) : (g, batchOf bs g) ∈ bs := by
  induction bs with
  | nil => simp at hg
  | cons b bs ih =>
    obtain ⟨g', es⟩ := b
    rw [batchOf_cons]
    by_cases h : g' = g
    · subst h
      simp
    · simp only [List.map_cons, List.mem_cons] at hg
      simp [h, ih (hg.resolve_left (Ne.symm h))]

/-- With distinct keys, an entry's batch is its value. -/
theorem batchOf_of_mem {bs : List (BatchGroup × List BatchElem)} (hk : (bs.map Prod.fst).Nodup)
    {x : BatchGroup × List BatchElem} (hx : x ∈ bs) : batchOf bs x.1 = x.2 := by
  induction bs with
  | nil => simp at hx
  | cons b bs ih =>
    obtain ⟨hb, hk'⟩ := List.nodup_cons.mp hk
    rw [batchOf_cons]
    rcases List.mem_cons.mp hx with rfl | hx
    · simp
    · have hne : b.1 ≠ x.1 := fun h => hb (List.mem_map.mpr ⟨x, hx, h.symm⟩)
      simp [hne, ih hk' hx]

/-- The batch of a key is its entry's value, or empty. -/
theorem batchOf_mem_or_nil (bs : List (BatchGroup × List BatchElem)) (g : BatchGroup) :
    (g, batchOf bs g) ∈ bs ∨ batchOf bs g = [] := by
  by_cases hg : g ∈ bs.map Prod.fst
  · exact .inl (mem_batchOf hg)
  · right
    induction bs with
    | nil => rfl
    | cons b bs ih =>
      obtain ⟨g', es⟩ := b
      have hne : g' ≠ g := fun h => hg (by simp [h])
      rw [batchOf_cons, if_neg hne]
      exact ih fun h => hg (List.mem_cons_of_mem _ h)

theorem keys_appendBatch (g : BatchGroup) (e : BatchElem) :
    ∀ bs : List (BatchGroup × List BatchElem), (appendBatch g e bs).map Prod.fst =
      if g ∈ bs.map Prod.fst then bs.map Prod.fst else bs.map Prod.fst ++ [g]
  | [] => rfl
  | (g', es) :: bs => by
    by_cases h : g' = g
    · subst h
      simp [appendBatch]
    · have hg : g ∉ [g'] := by simpa using Ne.symm h
      simp only [appendBatch, h, if_false, List.map_cons, keys_appendBatch g e bs, List.mem_cons]
      split_ifs <;> simp_all

theorem nodup_keys_appendBatch (g : BatchGroup) (e : BatchElem) {bs : List (BatchGroup × List BatchElem)}
    (hk : (bs.map Prod.fst).Nodup) : ((appendBatch g e bs).map Prod.fst).Nodup := by
  rw [keys_appendBatch]
  split_ifs with hg
  · exact hk
  · exact hk.append (List.nodup_singleton g) (by simpa using hg)

/-- An entry after an append: an old one of another key, or the appended
    key's batch with the new element last. -/
theorem mem_appendBatch {g : BatchGroup} {e : BatchElem} :
    ∀ {bs : List (BatchGroup × List BatchElem)} {x : BatchGroup × List BatchElem},
      (bs.map Prod.fst).Nodup → x ∈ appendBatch g e bs →
      (x ∈ bs ∧ x.1 ≠ g) ∨ (x.1 = g ∧ x.2 = batchOf bs g ++ [e])
  | [], x, _, hx => by
    simp only [appendBatch, List.mem_singleton] at hx
    subst hx
    simp
  | (g', es) :: bs, x, hk, hx => by
    obtain ⟨hb, hk'⟩ := List.nodup_cons.mp hk
    by_cases h : g' = g
    · subst h
      simp only [appendBatch, if_true, List.mem_cons] at hx
      rcases hx with rfl | hx
      · simp [batchOf_cons]
      · exact .inl ⟨List.mem_cons_of_mem _ hx, fun h => hb (List.mem_map.mpr ⟨x, hx, h⟩)⟩
    · simp only [appendBatch, h, if_false, List.mem_cons] at hx
      rcases hx with rfl | hx
      · exact .inl ⟨List.mem_cons_self, h⟩
      · rcases mem_appendBatch hk' hx with ⟨hx, hne⟩ | ⟨hg, hes⟩
        · exact .inl ⟨List.mem_cons_of_mem _ hx, hne⟩
        · exact .inr ⟨hg, by simp [hes, batchOf_cons, h]⟩

/-- An append keeps every element, and adds the new one. -/
theorem mem_appendBatch_of_mem {g : BatchGroup} {e e' : BatchElem} :
    ∀ {bs : List (BatchGroup × List BatchElem)},
      (e' = e ∨ ∃ x ∈ bs, e' ∈ x.2) → ∃ y ∈ appendBatch g e bs, e' ∈ y.2
  | [], h => by
    rcases h with rfl | ⟨x, hx, _⟩
    · exact ⟨_, List.mem_singleton_self _, List.mem_singleton_self _⟩
    · simp at hx
  | (g', es) :: bs, h => by
    by_cases hg : g' = g
    · subst hg
      simp only [appendBatch, if_true]
      rcases h with rfl | ⟨x, hx, hex⟩
      · exact ⟨_, List.mem_cons_self, by simp⟩
      rcases List.mem_cons.mp hx with rfl | hx
      · exact ⟨_, List.mem_cons_self, List.mem_append_left _ hex⟩
      · exact ⟨x, List.mem_cons_of_mem _ hx, hex⟩
    · simp only [appendBatch, hg, if_false]
      rcases h with he | ⟨x, hx, hex⟩
      · obtain ⟨y, hy, hey⟩ := @mem_appendBatch_of_mem g e e' bs (.inl he)
        exact ⟨y, List.mem_cons_of_mem _ hy, hey⟩
      rcases List.mem_cons.mp hx with rfl | hx
      · exact ⟨_, List.mem_cons_self, hex⟩
      · obtain ⟨y, hy, hey⟩ := mem_appendBatch_of_mem (.inr ⟨x, hx, hex⟩)
        exact ⟨y, List.mem_cons_of_mem _ hy, hey⟩

/-! ### The loop -/

variable (s reqs c₀ isLimited) in
/-- What the first loop has built after the requests before `i`: good
    responses, every request before `i` left without one in a batch, every
    batch element a forwarded request of its group, distinct IDs in each
    batch and distinct keys in the map. -/
structure Grouped (i : ℕ) (responses : List (Option RPCRes))
    (batches : List (BatchGroup × List BatchElem)) : Prop where
  good : Good s reqs c₀ isLimited responses
  covered : ∀ j < i, responses[j]? = some none → ∃ x ∈ batches, ∃ e ∈ x.2, e.index = j
  elems : ∀ x ∈ batches, ∀ e ∈ x.2, ElemOf s reqs x.1 e
  distinct : ∀ x ∈ batches, (x.2.map (idKey ·.req.id)).Nodup
  keys : (batches.map Prod.fst).Nodup

variable (s reqs c₀ isLimited) in
/-- The first loop's invariant: `Grouped`, and the count of an ID is at
    least the generation of every batch holding it. -/
structure FirstInv (i : ℕ) (responses : List (Option RPCRes)) (ids : GoMap ℕ)
    (batches : List (BatchGroup × List BatchElem)) : Prop where
  grouped : Grouped s reqs c₀ isLimited i responses batches
  generation : ∀ x ∈ batches, ∀ e ∈ x.2, x.1.groupID ≤ (ids.get (idKey e.req.id)).getD 0

theorem firstInv_init : FirstInv s reqs c₀ isLimited 0 (List.replicate reqs.length none) GoMap.empty [] where
  grouped :=
    { good := ⟨by simp, fun j raw r _ h => by simp [List.getElem?_replicate] at h⟩
      covered := fun j hj => absurd hj (Nat.not_lt_zero j)
      elems := by simp
      distinct := by simp
      keys := List.nodup_nil }
  generation := by simp

/-- Answering request `i` locally keeps the invariant. -/
theorem FirstInv.answer {i : ℕ} {responses : List (Option RPCRes)} {ids : GoMap ℕ}
    {batches : List (BatchGroup × List BatchElem)} (hinv : FirstInv s reqs c₀ isLimited i responses ids batches)
    {res : RPCRes} (hres : ∀ raw, reqs[i]? = some raw → AnswersTo s reqs c₀ isLimited i raw res) :
    FirstInv s reqs c₀ isLimited (i + 1) (responses.set i (some res)) ids batches where
  grouped :=
    { hinv.grouped with
      good := hinv.grouped.good.set hres
      covered := by
        intro j hj hnone
        by_cases hij : i = j
        · subst hij
          simp [List.getElem?_set] at hnone
        · rw [List.getElem?_set_ne hij] at hnone
          exact hinv.grouped.covered j (by omega) hnone }
  generation := hinv.generation

/-- Raising the count of one ID lowers no count. -/
theorem count_le_set (ids : GoMap ℕ) (k k' : String) :
    (ids.get k').getD 0 ≤ ((ids.set k ((ids.get k).getD 0 + 1)).get k').getD 0 := by
  rw [GoMap.get_set]
  split_ifs with h
  · subst h
    simp
  · exact le_refl _

/-- Forwarding request `i` into the batch of its group and the next
    generation of its ID keeps the invariant: no element of that batch has
    the same ID, since its count was below the new generation. -/
theorem FirstInv.forward {i : ℕ} {responses : List (Option RPCRes)} {ids : GoMap ℕ}
    {batches : List (BatchGroup × List BatchElem)} (hinv : FirstInv s reqs c₀ isLimited i responses ids batches)
    {raw : Option Json} {req : RPCReq} {group : String} (hraw : reqs[i]? = some raw)
    (hp : parseRPCReq raw = .ok req) (hv : validateRPCReq req = none)
    (hm : s.rpcMethodMappings req.method = group) (hg : group ≠ "") :
    FirstInv s reqs c₀ isLimited (i + 1) responses
      (ids.set (idKey req.id) ((ids.get (idKey req.id)).getD 0 + 1))
      (appendBatch ⟨(ids.get (idKey req.id)).getD 0 + 1, group⟩ ⟨req, i⟩ batches) := by
  obtain ⟨⟨hgood, hcov, helems, hdist, hkeys⟩, hgen⟩ := hinv
  set k := idKey req.id
  set g : BatchGroup := ⟨(ids.get k).getD 0 + 1, group⟩
  have hnew : ElemOf s reqs g ⟨req, i⟩ := ⟨raw, hraw, hp, hv, hm, hg⟩
  -- the old batch of `g` is an entry of the map, or empty
  have hold : ∀ e ∈ batchOf batches g, ElemOf s reqs g e ∧ g.groupID ≤ (ids.get (idKey e.req.id)).getD 0 := by
    intro e he
    rcases batchOf_mem_or_nil batches g with hmem | hnil
    · exact ⟨helems _ hmem e he, hgen _ hmem e he⟩
    · simp [hnil] at he
  refine ⟨⟨hgood, ?_, ?_, ?_, nodup_keys_appendBatch g _ hkeys⟩, ?_⟩
  · intro j hj hnone
    rcases Nat.lt_succ_iff_lt_or_eq.mp hj with hj | rfl
    · obtain ⟨x, hx, e, he, hidx⟩ := hcov j hj hnone
      obtain ⟨y, hy, hey⟩ := mem_appendBatch_of_mem (.inr ⟨x, hx, he⟩)
      exact ⟨y, hy, e, hey, hidx⟩
    · obtain ⟨y, hy, hey⟩ := mem_appendBatch_of_mem (.inl rfl)
      exact ⟨y, hy, _, hey, rfl⟩
  · intro x hx e he
    rcases mem_appendBatch hkeys hx with ⟨hx, -⟩ | ⟨hx1, hx2⟩
    · exact helems x hx e he
    · rw [hx1]
      rw [hx2, List.mem_append, List.mem_singleton] at he
      rcases he with he | rfl
      · exact (hold e he).1
      · exact hnew
  · intro x hx
    rcases mem_appendBatch hkeys hx with ⟨hx, -⟩ | ⟨hx1, hx2⟩
    · exact hdist x hx
    · rw [hx2, List.map_append, List.nodup_append]
      refine ⟨?_, List.nodup_singleton _, ?_⟩
      · rcases batchOf_mem_or_nil batches g with hmem | hnil
        · exact hdist _ hmem
        · simp [hnil]
      · -- an element of the old batch with this ID would have a count below its generation
        intro a ha b hb hab
        obtain ⟨e, he, rfl⟩ := List.mem_map.mp ha
        have hk : idKey e.req.id = k := hab.trans (List.mem_singleton.mp hb)
        have := (hold e he).2
        simp only [g, hk] at this
        omega
  · intro x hx e he
    rcases mem_appendBatch hkeys hx with ⟨hx, -⟩ | ⟨hx1, hx2⟩
    · exact (hgen x hx e he).trans (count_le_set ids k _)
    · rw [hx1]
      rw [hx2, List.mem_append, List.mem_singleton] at he
      rcases he with he | rfl
      · exact (hold e he).2.trans (count_le_set ids k _)
      · simp [g, k]

variable (s reqs c₀ isLimited) in
/-- What the first loop guarantees at its end: the early answer of a lone
    health check, or a `Grouped` state over the whole batch. -/
def FirstPassSpec : FirstPass → Prop
  | .healthz res => ∃ raw, reqs = [raw] ∧ AnswersTo s reqs c₀ isLimited 0 raw res
  | .batches responses batches => Grouped s reqs c₀ isLimited reqs.length responses batches

/-- The first loop, from request `i` on, ends in `FirstPassSpec`. -/
theorem groupRequests_spec :
    ∀ (raws : List (Option Json)) (i : ℕ) (responses : List (Option RPCRes)) (ids : GoMap ℕ)
      (batches : List (BatchGroup × List BatchElem)), reqs.drop i = raws →
      FirstInv s reqs c₀ isLimited i responses ids batches →
      FirstPassSpec s reqs c₀ isLimited (groupRequests s isLimited reqs.length i raws responses ids batches)
  | [], i, responses, ids, batches, hd, hinv => by
    -- every request is behind `i`
    have hn : reqs.length ≤ i := by simpa using hd
    exact { hinv.grouped with covered := fun j hj => hinv.grouped.covered j (by omega) }
  | raw :: raws, i, responses, ids, batches, hd, hinv => by
    have hraw : reqs[i]? = some raw := by
      have := congrArg (·[0]?) hd
      simpa only [List.getElem?_drop, Nat.add_zero, List.getElem?_cons_zero] using this
    have hd' : reqs.drop (i + 1) = raws := by rw [← List.drop_drop, hd]; rfl
    simp only [groupRequests]
    cases ht : triage s isLimited reqs.length i raw with
    | healthz res =>
      obtain ⟨hn, hans⟩ : reqs.length = 1 ∧ AnswersTo s reqs c₀ isLimited i raw res := triage_healthz ht
      obtain ⟨a, rfl⟩ := List.length_eq_one_iff.mp hn
      -- the lone request is the one at index 0
      obtain ⟨rfl, rfl⟩ : i = 0 ∧ a = raw := by
        rcases i with _ | i
        · simpa using hraw
        · simp at hraw
      exact ⟨a, rfl, hans⟩
    | answer res =>
      refine groupRequests_spec raws (i + 1) _ _ _ hd' (hinv.answer fun raw' h => ?_)
      rw [hraw] at h
      cases h
      exact triage_answer ht
    | forward req group =>
      obtain ⟨hp, hv, hm, hg⟩ := triage_forward ht
      exact groupRequests_spec raws (i + 1) _ _ _ hd' (hinv.forward hraw hp hv hm hg)

/-! ## The second loop -/

variable (s) in
/-- A server whose batches are answered in full: the group every mapped
    method names exists, and every backend of every group answers in
    conformance. -/
structure ConformingServer : Prop where
  groups : ∀ m, s.rpcMethodMappings m ≠ "" → ∃ bg, s.backendGroups (s.rpcMethodMappings m) = some bg
  answers : ∀ g bg, s.backendGroups g = some bg → ∀ u ∈ bg.backends, ∀ i rs,
    ConformingAnswer rs (u.exchange i rs)

/-- The echo server conforms: its one group exists and its backend answers
    each request once by ID. -/
theorem echoServer_conforming (consensus : Option RewriteContext) : ConformingServer (echoServer consensus) where
  groups _ _ := ⟨_, rfl⟩
  answers g bg hbg u hu i rs := by
    simp only [echoServer] at hbg
    split at hbg
    · cases hbg
      obtain rfl := List.mem_singleton.mp hu
      exact echoBackend_conforming i rs
    · cases hbg

/-- A request that the batch path forwards without ending the batch: no
    `consensus_getReceipts`, and a filter method with a filter. -/
def Forwardable (req : RPCReq) : Prop :=
  req.method ≠ consensusGetReceiptsMethod ∧
    (req.method = "eth_getLogs" ∨ req.method = "eth_newFilter" → unmarshalMapSlice req.params ≠ .ok [])

/-- The indices without a response after a step had none before it. -/
def Keeps (responses responses' : List (Option RPCRes)) : Prop :=
  ∀ j : ℕ, responses'[j]? = some none → responses[j]? = some none

theorem Keeps.refl (responses : List (Option RPCRes)) : Keeps responses responses := fun _ h => h

theorem Keeps.trans {r₁ r₂ r₃ : List (Option RPCRes)} (h₁ : Keeps r₁ r₂) (h₂ : Keeps r₂ r₃) :
    Keeps r₁ r₃ := fun j h => h₁ j (h₂ j h)

/-- An index answered before a step stays answered. -/
theorem Keeps.answered {responses responses' : List (Option RPCRes)} (h : Keeps responses responses')
    {j : ℕ} (ha : responses[j]? ≠ some none) : responses'[j]? ≠ some none := fun h' => ha (h j h')

/-- Writing a response keeps the others, and leaves that index answered. -/
theorem keeps_set (responses : List (Option RPCRes)) (j : ℕ) (r : RPCRes) :
    Keeps responses (responses.set j (some r)) ∧ (responses.set j (some r))[j]? ≠ some none := by
  refine ⟨fun k hk => ?_, by simp [List.getElem?_set]⟩
  by_cases hjk : j = k
  · subst hjk
    simp [List.getElem?_set] at hk
  · rwa [List.getElem?_set_ne hjk] at hk

variable (hreqs : ∀ raw ∈ reqs, ∀ req, parseRPCReq raw = .ok req → Forwardable req)
include hreqs in
theorem ElemOf.forwardable {g : BatchGroup} {e : BatchElem} (he : ElemOf s reqs g e) :
    Forwardable e.req := by
  obtain ⟨raw, hraw, hp, -⟩ := he
  exact hreqs raw (List.mem_of_getElem? hraw) e.req hp

theorem lookupBatch_hit (c : σ) {e : BatchElem} {result : Json} (h : s.cache.getRPC c e.req = some result)
    (es : List BatchElem) (responses : List (Option RPCRes)) (cached : Bool) (misses : List BatchElem) :
    lookupBatch s c (e :: es) responses cached misses =
      lookupBatch s c es (responses.set e.index (some ⟨e.req.jsonrpc, some result, none, e.req.id⟩)) true
        misses := by
  simp [lookupBatch, h]

theorem lookupBatch_miss (c : σ) {e : BatchElem} (h : s.cache.getRPC c e.req = none)
    (es : List BatchElem) (responses : List (Option RPCRes)) (cached : Bool) (misses : List BatchElem) :
    lookupBatch s c (e :: es) responses cached misses = lookupBatch s c es responses cached (misses ++ [e]) := by
  simp [lookupBatch, h]

/-- The cache lookups of a batch, in a state the handler reaches: hits
    answered with their request's ID, the misses a sublist of the batch,
    every element answered or missed. -/
theorem lookupBatch_spec {c : σ} (hc : CacheReach s c₀ c) {g : BatchGroup} :
    ∀ (batch : List BatchElem) (responses : List (Option RPCRes)) (cached : Bool)
      (misses : List BatchElem), Good s reqs c₀ isLimited responses → (∀ e ∈ batch, ElemOf s reqs g e) →
      ∃ m, (lookupBatch s c batch responses cached misses).2.2 = misses ++ m ∧ m.Sublist batch ∧
        Good s reqs c₀ isLimited (lookupBatch s c batch responses cached misses).1 ∧
        Keeps responses (lookupBatch s c batch responses cached misses).1 ∧
        ∀ e ∈ batch, e ∈ m ∨ (lookupBatch s c batch responses cached misses).1[e.index]? ≠ some none
  | [], responses, cached, misses, hgood, _ =>
    ⟨[], by simp [lookupBatch], List.nil_sublist _, hgood, Keeps.refl responses, by simp⟩
  | e :: es, responses, cached, misses, hgood, helems => by
    have he := helems e List.mem_cons_self
    have hes := fun e' he' => helems e' (List.mem_cons_of_mem _ he')
    cases hget : s.cache.getRPC c e.req with
    | some result =>
      -- a hit is answered here, with the request's ID
      rw [lookupBatch_hit c hget]
      set hit : RPCRes := ⟨e.req.jsonrpc, some result, none, e.req.id⟩
      obtain ⟨hkeep, hset⟩ := keeps_set responses e.index hit
      obtain ⟨m, hm, hsub, hgood', hkeep', hcov⟩ := lookupBatch_spec hc es _ true misses
        (hgood.set (he.answersTo (show idKey hit.id = idKey e.req.id from rfl) (.cacheHit c result hc hget rfl)))
        hes
      refine ⟨m, hm, hsub.cons e, hgood', hkeep.trans hkeep', fun e' he' => ?_⟩
      rcases List.mem_cons.mp he' with rfl | he'
      · exact .inr (hkeep'.answered hset)
      · exact hcov e' he'
    | none =>
      rw [lookupBatch_miss c hget]
      obtain ⟨m, hm, hsub, hgood', hkeep', hcov⟩ := lookupBatch_spec hc es responses cached (misses ++ [e])
        hgood hes
      refine ⟨e :: m, by simpa using hm, hsub.cons_cons e, hgood', hkeep', fun e' he' => ?_⟩
      rcases List.mem_cons.mp he' with rfl | he'
      · exact .inl List.mem_cons_self
      · exact (hcov e' he').imp_left (List.mem_cons_of_mem _)

/-- Putting an answer in the cache keeps its state one the handler reaches. -/
theorem CacheReach.put {c : σ} (hc : CacheReach s c₀ c) (req : RPCReq) (r : RPCRes) (b : Bool) :
    CacheReach s c₀ (if b then s.cache.putRPC c req r else c) := by
  split
  · exact hc.tail ⟨req, r, rfl⟩
  · exact hc

/-- Writing a minibatch's answers back, when each comes at the position of
    its element, with its ID and served to it: every element is answered. -/
theorem assignResponses_spec {g : BatchGroup} (res : List RPCRes) :
    ∀ (k : ℕ) (elems : List BatchElem) (c : σ) (responses : List (Option RPCRes)), CacheReach s c₀ c →
      Good s reqs c₀ isLimited responses → (∀ e ∈ elems, ElemOf s reqs g e) →
      List.Forall₂ (fun r e => idKey r.id = idKey e.req.id ∧ Served s reqs c₀ e.req r) (res.drop k) elems →
      ∃ c' responses', assignResponses s res k elems c responses = .ok (c', responses') ∧ CacheReach s c₀ c' ∧
        Good s reqs c₀ isLimited responses' ∧ Keeps responses responses' ∧
        ∀ e ∈ elems, responses'[e.index]? ≠ some none
  | _, [], c, responses, hc, hgood, _, _ => ⟨c, responses, rfl, hc, hgood, Keeps.refl _, by simp⟩
  | k, e :: es, c, responses, hc, hgood, helems, hal => by
    -- the answer at `k` is `e`'s
    obtain ⟨r, rest, hdrop⟩ : ∃ r rest, res.drop k = r :: rest := by
      cases hd : res.drop k with
      | nil => rw [hd] at hal; cases hal
      | cons r rest => exact ⟨r, rest, rfl⟩
    rw [hdrop] at hal
    obtain ⟨⟨hid, hsrv⟩, hal'⟩ := List.forall₂_cons.mp hal
    have hr : sliceIndex res k = .ok r := by
      rw [sliceIndex_eq_ok, ← Nat.add_zero k, ← List.getElem?_drop, hdrop]
      rfl
    have hdrop' : List.Forall₂ (fun r e => idKey r.id = idKey e.req.id ∧ Served s reqs c₀ e.req r)
        (res.drop (k + 1)) es := by
      rw [← List.drop_drop, hdrop]
      exact hal'
    obtain ⟨hkeep, hset⟩ := keeps_set responses e.index r
    obtain ⟨c', responses', hrun, hc', hgood', hkeep', hcov⟩ := assignResponses_spec res (k + 1) es
      (if r.error.isNone && r.result.isSome then s.cache.putRPC c e.req r else c) _ (hc.put e.req r _)
      (hgood.set ((helems e List.mem_cons_self).answersTo hid hsrv))
      (fun e' he' => helems e' (List.mem_cons_of_mem _ he')) hdrop'
    refine ⟨c', responses', ?_, hc', hgood', hkeep.trans hkeep', ?_⟩
    · simp only [assignResponses, hr, except_ok_bind]
      exact hrun
    intro e' he'
    rcases List.mem_cons.mp he' with rfl | he'
    · exact hkeep'.answered hset
    · exact hcov e' he'

/-- The answers of a minibatch sent to the group its methods map to: each,
    at its element's position, has the request's ID and is served to it,
    the group's answer or the error its forwarding ended in. -/
theorem minibatchAnswers_served {g : BatchGroup} {bg : BackendGroup} (hbg : s.backendGroups g.backendGroup = some bg)
    {elems : List BatchElem} (helems : ∀ e ∈ elems, ElemOf s reqs g e) {r : Except ForwardError (List RPCRes)}
    (hfw : bg.forward (elems.map (·.req)) true = .ok r)
    (hok : ∀ out, r = .ok out →
      List.Forall₂ (fun x q => idKey x.id = idKey q.id ∧ GroupAnswer bg q x) out (elems.map (·.req)))
    (herr : ∀ e, r = .error e → e.isConsensusGetReceipts = false) :
    ∃ res, minibatchAnswers elems r = .ok res ∧
      List.Forall₂ (fun x e => idKey x.id = idKey e.req.id ∧ Served s reqs c₀ e.req x) res elems := by
  -- every element's method maps to the group
  have hgrp : ∀ e ∈ elems, s.backendGroups (s.rpcMethodMappings e.req.method) = some bg := by
    intro e he
    rw [(helems e he).group]
    exact hbg
  cases r with
  | ok out =>
    refine ⟨out, rfl, ?_⟩
    have h := List.forall₂_map_right_iff.mp (hok out rfl)
    exact (forall₂_mem h).imp fun x e h => ⟨h.1.1, .group bg (hgrp e h.2.2) h.1.2⟩
  | error e =>
    have hne : e.isConsensusGetReceipts = false := herr e rfl
    refine ⟨elems.map fun elem => newRPCErrorRes elem.req.id e.toRPCErr, by simp [minibatchAnswers, hne], ?_⟩
    -- the minibatch holds requests of the batch, all mapped to the group
    have hbatch : ∀ elem ∈ elems, ∀ q ∈ elems.map (·.req),
        s.rpcMethodMappings q.method = s.rpcMethodMappings elem.req.method ∧
          ∃ (j : ℕ) (raw : Option Json), reqs[j]? = some raw ∧ parseRPCReq raw = .ok q := by
      intro elem he q hq
      obtain ⟨e', he', rfl⟩ := List.mem_map.mp hq
      obtain ⟨raw, hraw, hp, -⟩ := helems e' he'
      exact ⟨by rw [(helems e' he').group, (helems elem he).group], e'.index, raw, hraw, hp⟩
    rw [List.forall₂_map_left_iff, List.forall₂_same]
    intro elem he
    exact ⟨rfl, .failed bg _ e (hgrp elem he) (List.mem_map_of_mem he) (hbatch elem he) hfw rfl⟩

/-- The group a batch is sent to exists on a conforming server. -/
theorem ConformingServer.group (hs : ConformingServer s) {g : BatchGroup} {e : BatchElem}
    (he : ElemOf s reqs g e) : ∃ bg, s.backendGroups g.backendGroup = some bg := by
  obtain ⟨-, -, -, -, hm, hne⟩ := he
  rw [← hm] at hne ⊢
  exact hs.groups _ hne

/-- Enough minibatches to hold every miss. -/
theorem le_numBatches_mul (len : ℕ) : len ≤ numBatches s len * s.maxUpstreamBatchSize := by
  have hm := s.maxUpstreamBatchSize_pos
  have hdiv := Nat.div_add_mod (len + s.maxUpstreamBatchSize - 1) s.maxUpstreamBatchSize
  have hmod := Nat.mod_lt (len + s.maxUpstreamBatchSize - 1) hm
  unfold numBatches
  rw [Nat.mul_comm]
  generalize s.maxUpstreamBatchSize * ((len + s.maxUpstreamBatchSize - 1) / s.maxUpstreamBatchSize) = P
    at hdiv ⊢
  omega

@[simp] theorem numBatches_zero : numBatches s 0 = 0 :=
  Nat.div_eq_of_lt (by have := s.maxUpstreamBatchSize_pos; omega)

include hreqs in
/-- The minibatch loop of one group, with no deadline, on a conforming
    server: every miss from minibatch `i` on is answered, and what was
    answered stays so. -/
theorem forwardMinibatches_spec (hs : ConformingServer s) {g : BatchGroup} {bg : BackendGroup}
    (hbg : s.backendGroups g.backendGroup = some bg) {misses : List BatchElem}
    (helems : ∀ e ∈ misses, ElemOf s reqs g e) (hnd : (misses.map (idKey ·.req.id)).Nodup) :
    ∀ (left i : ℕ) (c : σ) (responses : List (Option RPCRes)), CacheReach s c₀ c →
      misses.length ≤ (i + left) * s.maxUpstreamBatchSize → Good s reqs c₀ isLimited responses →
      ∃ c' responses', forwardMinibatches s g.backendGroup true (fun _ => false) misses i left c responses =
          .ok (.ok (c', responses')) ∧ CacheReach s c₀ c' ∧ Good s reqs c₀ isLimited responses' ∧
        Keeps responses responses' ∧ ∀ e ∈ misses.drop (i * s.maxUpstreamBatchSize), responses'[e.index]? ≠ some none
  | 0, i, c, responses, hc, hlen, hgood => by
    refine ⟨c, responses, rfl, hc, hgood, Keeps.refl _, fun e he => ?_⟩
    rw [List.drop_eq_nil_of_le (by simpa using hlen)] at he
    exact absurd he List.not_mem_nil
  | left + 1, i, c, responses, hc, hlen, hgood => by
    set m := s.maxUpstreamBatchSize
    set elems := (misses.drop (i * m)).take (min (i * m + m) misses.length - i * m)
    have hsub : elems.Sublist misses := (List.take_sublist _ _).trans (List.drop_sublist _ _)
    have helems' : ∀ e ∈ elems, ElemOf s reqs g e := fun e he => helems e (hsub.subset he)
    -- the minibatch is sent as the group's `Forward` needs it
    have hnd' : ((elems.map (·.req)).map (idKey ·.id)).Nodup := by
      simpa [List.map_map, Function.comp_def] using hnd.sublist (hsub.map _)
    have hcgr : ∀ r ∈ elems.map (·.req), r.method ≠ consensusGetReceiptsMethod := by
      intro _ hr
      obtain ⟨e, he, rfl⟩ := List.mem_map.mp hr
      exact ((helems' e he).forwardable hreqs).1
    have hrw : ∀ rctx, bg.consensus = some rctx → ∀ r ∈ elems.map (·.req), ∃ x, rewriteTags rctx r = .ok x := by
      intro rctx _ _ hr
      obtain ⟨e, he, rfl⟩ := List.mem_map.mp hr
      exact rewriteTags_ok rctx ((helems' e he).forwardable hreqs).2
    obtain ⟨r, hfwd, hout⟩ := bg.forward_batch hnd' hcgr hrw (hs.answers _ bg hbg)
    obtain ⟨res, hres, hal⟩ := minibatchAnswers_served hbg helems' hfwd
      (fun out hr => bg.forward_answers hnd' hcgr hrw (hs.answers _ bg hbg) (hr ▸ hfwd))
      (fun e hr => by subst hr; exact hout)
    obtain ⟨c₁, responses₁, hrun₁, hc₁, hgood₁, hkeep₁, hcov₁⟩ :=
      assignResponses_spec res 0 elems c responses hc hgood helems' (by rwa [List.drop_zero])
    obtain ⟨c₂, responses₂, hrun₂, hc₂, hgood₂, hkeep₂, hcov₂⟩ :=
      forwardMinibatches_spec hs hbg helems hnd left (i + 1) c₁ responses₁ hc₁
        (by rw [show i + 1 + left = i + (left + 1) by omega]; exact hlen) hgood₁
    refine ⟨c₂, responses₂, ?_, hc₂, hgood₂, hkeep₁.trans hkeep₂, fun e he => ?_⟩
    · simp only [forwardMinibatches, Bool.false_eq_true, if_false, hbg, deref, except_ok_bind]
      rw [hfwd, except_ok_bind, hres]
      simp only
      rw [hrun₁, except_ok_bind]
      exact hrun₂
    -- a miss from `i * m` on lies in this minibatch or in a later one
    rcases Proxyd.Lib.mem_chunk_or_rest i m he with he | he
    · exact hkeep₂.answered (hcov₁ e he)
    · exact hcov₂ e he

include hreqs in
/-- The loop over the batches, with no deadline, on a conforming server:
    every element of every batch ends answered, and what was answered
    stays so. -/
theorem forwardBatches_spec (hs : ConformingServer s) :
    ∀ (L : List (BatchGroup × List BatchElem)) (c : σ) (responses : List (Option RPCRes)) (cached : Bool),
      CacheReach s c₀ c → Good s reqs c₀ isLimited responses → (∀ x ∈ L, ∀ e ∈ x.2, ElemOf s reqs x.1 e) →
      (∀ x ∈ L, (x.2.map (idKey ·.req.id)).Nodup) →
      ∃ responses' cached', forwardBatches s true (fun _ _ => false) L c responses cached =
          .ok (.ok (responses', cached')) ∧ Good s reqs c₀ isLimited responses' ∧ Keeps responses responses' ∧
        ∀ x ∈ L, ∀ e ∈ x.2, responses'[e.index]? ≠ some none
  | [], _, responses, cached, _, hgood, _, _ => ⟨responses, cached, rfl, hgood, Keeps.refl _, by simp⟩
  | (g, batch) :: gs, c, responses, cached, hc, hgood, helems, hnd => by
    have hbatch : ∀ e ∈ batch, ElemOf s reqs g e := helems _ List.mem_cons_self
    obtain ⟨m, hm, hsub, hgood₁, hkeep₁, hcov₁⟩ := lookupBatch_spec hc batch responses cached [] hgood hbatch
    rcases hlook : lookupBatch s c batch responses cached [] with ⟨responses₁, cached₁, misses⟩
    simp only [hlook, List.nil_append] at hm hgood₁ hkeep₁ hcov₁
    subst hm
    have hmisses : ∀ e ∈ misses, ElemOf s reqs g e := fun e he => hbatch e (hsub.subset he)
    have hndm : (misses.map (idKey ·.req.id)).Nodup := (hnd _ List.mem_cons_self).sublist (hsub.map _)
    -- no misses, or misses sent to the group that the first one names
    obtain ⟨c₂, responses₂, hrun₂, hc₂, hgood₂, hkeep₂, hcov₂⟩ : ∃ c₂ responses₂,
        forwardMinibatches s g.backendGroup true (fun _ => false) misses 0 (numBatches s misses.length) c
            responses₁ = .ok (.ok (c₂, responses₂)) ∧ CacheReach s c₀ c₂ ∧
          Good s reqs c₀ isLimited responses₂ ∧ Keeps responses₁ responses₂ ∧
          ∀ e ∈ misses, responses₂[e.index]? ≠ some none := by
      cases misses with
      | nil => exact ⟨c, responses₁, by simp [forwardMinibatches], hc, hgood₁, Keeps.refl _, by simp⟩
      | cons e es =>
        obtain ⟨bg, hbg⟩ := hs.group (hmisses e List.mem_cons_self)
        have hlen := le_numBatches_mul (s := s) (e :: es).length
        simpa using forwardMinibatches_spec hreqs hs hbg hmisses hndm _ 0 c responses₁ hc
          (by rwa [Nat.zero_add]) hgood₁
    obtain ⟨responses₃, cached₃, hrun₃, hgood₃, hkeep₃, hcov₃⟩ :=
      forwardBatches_spec hs gs c₂ responses₂ cached₁ hc₂ hgood₂ (fun x hx => helems x (List.mem_cons_of_mem _ hx))
        (fun x hx => hnd x (List.mem_cons_of_mem _ hx))
    refine ⟨responses₃, cached₃, ?_, hgood₃, hkeep₁.trans (hkeep₂.trans hkeep₃), ?_⟩
    · simp only [forwardBatches, hlook]
      rw [hrun₂, except_ok_bind]
      exact hrun₃
    intro x hx e he
    rcases List.mem_cons.mp hx with rfl | hx
    · -- an element of this batch is a cache hit or a miss
      rcases hcov₁ e he with hmiss | hhit
      · exact hkeep₃.answered (hcov₂ e hmiss)
      · exact hkeep₃.answered (hkeep₂.answered hhit)
    · exact hcov₃ x hx e he

end Proxyd.Rpc
