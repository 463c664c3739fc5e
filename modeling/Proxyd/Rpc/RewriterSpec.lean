import Proxyd.Rpc.Rewriter
import Proxyd.Lib.Except

/-
  Proxyd.Rpc.RewriterSpec

  What `RewriteRequest` guarantees about the block reference a forwarded
  request carries.  A reference is read as the rewriter itself reads it, by
  `BlockNumberOrHash.UnmarshalJSON` on the value proxyd decodes; it is
  *resolved* when it names no `latest`, `safe` or `finalized` tag and no
  block above the context's `latest`.

  Over a context whose `safe` and `finalized` do not exceed `latest`, and
  whose `latest` fits in an `int64`, every request the rewriter forwards
  (`RewriteNone` or `RewriteOverrideRequest`) carries a resolved reference
  where its method reads one.  Both side conditions are needed: the tag
  `safe` is replaced by the context's `safe` whatever it is, and
  `rpc.BlockNumber(rctx.latest)` turns a `latest` past `2^63` into a tag.
  A `null` or empty reference is left in place: it names no block.

  Read as a backend's `go-ethereum` reads the forwarded text, a reference
  can still name a tag: the rewriter judges the map it decoded, printed
  with its keys sorted, and forwards the text it was sent, in which a
  later member whose name differs only in case wins.
-/

namespace Proxyd.Rpc

open Proxyd.Go Proxyd.Eth Proxyd.Lib

/-- The consensus view the rewriter is given is ordered and fits in an `int64`. -/
structure ContextOrdered (rctx : RewriteContext) : Prop where
  safe_le : rctx.safe.toNat ≤ rctx.latest.toNat
  finalized_le : rctx.finalized.toNat ≤ rctx.latest.toNat
  latest_lt : rctx.latest.toNat < 2 ^ 63

/-- A block number that is no tag to be replaced and no block above `latest`. -/
def ResolvedNumber (rctx : RewriteContext) (bn : Int64) : Prop :=
  bn ≠ latestBlockNumber ∧ bn ≠ safeBlockNumber ∧ bn ≠ finalizedBlockNumber ∧
    bn.toInt ≤ rctx.latest.toNat

/-- A block reference whose number, if it reads as one, is resolved. -/
def ResolvedRef (rctx : RewriteContext) (j : Json) : Prop :=
  ∀ bnh, BlockNumberOrHash.unmarshalJSON j = .ok bnh →
    ∀ bn, bnh.blockNumber = some bn → ResolvedNumber rctx bn

section Resolved

variable {rctx : RewriteContext}

/-! ## Resolved numbers -/

theorem resolvedNumber_of_pending_or_earliest {bn : Int64}
    (h : bn = pendingBlockNumber ∨ bn = earliestBlockNumber) : ResolvedNumber rctx bn := by
  have hnat : (0 : Int) ≤ rctx.latest.toNat := by omega
  rcases h with rfl | rfl
  · refine ⟨by decide, by decide, by decide, ?_⟩
    have : pendingBlockNumber.toInt = -1 := by decide
    omega
  · refine ⟨by decide, by decide, by decide, ?_⟩
    have : earliestBlockNumber.toInt = 0 := by decide
    omega

/-- A context number up to `latest`, as an `int64`, is resolved. -/
theorem resolvedNumber_toInt64 (hctx : ContextOrdered rctx) {x : UInt64}
    (hx : x.toNat ≤ rctx.latest.toNat) : ResolvedNumber rctx x.toInt64 := by
  have hlt : x.toNat < 2 ^ 63 := by have := hctx.latest_lt; omega
  obtain ⟨hl, hs, hf, -⟩ := toInt64_ne_tags x hlt
  refine ⟨hl, hs, hf, ?_⟩
  rw [toInt_toInt64_of_lt x hlt]
  exact_mod_cast hx

/-- A number that is no tag and not above `latest` is resolved. -/
theorem resolvedNumber_of_not_gt (hctx : ContextOrdered rctx) {bn : Int64}
    (hl : bn ≠ latestBlockNumber) (hs : bn ≠ safeBlockNumber) (hf : bn ≠ finalizedBlockNumber)
    (hle : ¬ bn > rctx.latest.toInt64) : ResolvedNumber rctx bn := by
  refine ⟨hl, hs, hf, ?_⟩
  have hle' : bn.toInt ≤ rctx.latest.toInt64.toInt := by
    rw [gt_iff_lt, Int64.lt_iff_toInt_lt] at hle
    omega
  rwa [toInt_toInt64_of_lt _ hctx.latest_lt] at hle'

/-! ## Resolved references -/

/-- A context number printed as a quantity is a resolved reference. -/
theorem resolvedRef_encodeUint64 (hctx : ContextOrdered rctx) {x : UInt64}
    (hx : x.toNat ≤ rctx.latest.toNat) : ResolvedRef rctx (.str (encodeUint64 x)) := by
  have hlt : x.toNat < 2 ^ 63 := by have := hctx.latest_lt; omega
  intro bnh hdec bn hbn
  rw [BlockNumberOrHash.unmarshalJSON, blockNumberOrHashOfString_encodeUint64 x hlt] at hdec
  cases hdec
  cases hbn
  exact resolvedNumber_toInt64 hctx hx

/-- A context number as an EIP-1898 object is a resolved reference. -/
theorem resolvedRef_withNumber (hctx : ContextOrdered rctx) {x : UInt64}
    (hx : x.toNat ≤ rctx.latest.toNat) :
    ResolvedRef rctx (blockNumberOrHashWithNumber x.toInt64).toJson := by
  have hlt : x.toNat < 2 ^ 63 := by have := hctx.latest_lt; omega
  intro bnh hdec bn hbn
  rw [unmarshalJSON_toJson_withNumber x hlt] at hdec
  cases hdec
  cases hbn
  exact resolvedNumber_toInt64 hctx hx

/-! ## The two tag rewrites -/

/-- `rewriteTag` keeps a resolved reference, or replaces a tag by a context
    number up to `latest`. -/
theorem rewriteTag_spec (hctx : ContextOrdered rctx) {current v : String} {rw : Bool}
    (h : rewriteTag rctx current = .ok (v, rw)) :
    (rw = false ∧ v = current ∧ ResolvedRef rctx (.str current)) ∨
      (rw = true ∧ ∃ x : UInt64, x.toNat ≤ rctx.latest.toNat ∧ v = encodeUint64 x) := by
  unfold rewriteTag at h
  split at h
  · cases h
  · rename_i bnh hdec
    -- the reference as decoded here is the reference `ResolvedRef` reads
    have hread : ∀ bn, bnh.blockNumber = some bn → ResolvedNumber rctx bn →
        ResolvedRef rctx (.str current) := by
      intro bn hbn hres bnh' hdec' bn' hbn'
      rw [← remarshalBlockNumberOrHash, hdec] at hdec'
      cases hdec'
      rw [hbn] at hbn'
      cases hbn'
      exact hres
    split at h
    · -- a hash
      rename_i hnone
      cases h
      refine .inl ⟨rfl, rfl, fun bnh' hdec' bn' hbn' => ?_⟩
      rw [← remarshalBlockNumberOrHash, hdec] at hdec'
      cases hdec'
      rw [hnone] at hbn'
      cases hbn'
    · rename_i bn hbn
      split_ifs at h with hpe hf hs hl hgt
      · cases h
        exact .inl ⟨rfl, rfl, hread bn hbn (resolvedNumber_of_pending_or_earliest hpe)⟩
      · cases h
        exact .inr ⟨rfl, rctx.finalized, hctx.finalized_le, rfl⟩
      · cases h
        exact .inr ⟨rfl, rctx.safe, hctx.safe_le, rfl⟩
      · cases h
        exact .inr ⟨rfl, rctx.latest, le_refl _, rfl⟩
      · cases h
        exact .inl ⟨rfl, rfl, hread bn hbn (resolvedNumber_of_not_gt hctx hl hs hf hgt)⟩

/-- `rewriteTagBlockNumberOrHash` keeps a resolved reference, or replaces a
    tag by a context number up to `latest`. -/
theorem rewriteTagBlockNumberOrHash_spec (hctx : ContextOrdered rctx)
    {current v : BlockNumberOrHash} {rw : Bool}
    (h : rewriteTagBlockNumberOrHash rctx current = .ok (v, rw)) :
    (rw = false ∧ v = current ∧ ∀ bn, current.blockNumber = some bn → ResolvedNumber rctx bn) ∨
      (rw = true ∧ ∃ x : UInt64, x.toNat ≤ rctx.latest.toNat ∧
        v = blockNumberOrHashWithNumber x.toInt64) := by
  unfold rewriteTagBlockNumberOrHash at h
  split at h
  · rename_i hnone
    cases h
    exact .inl ⟨rfl, rfl, fun bn hbn => by rw [hnone] at hbn; cases hbn⟩
  · rename_i bn hbn
    have hread : ResolvedNumber rctx bn → ∀ bn', current.blockNumber = some bn' →
        ResolvedNumber rctx bn' := by
      intro hres bn' hbn'
      rw [hbn] at hbn'
      cases hbn'
      exact hres
    split_ifs at h with hpe hf hs hl hgt
    · cases h
      exact .inl ⟨rfl, rfl, hread (resolvedNumber_of_pending_or_earliest hpe)⟩
    · cases h
      exact .inr ⟨rfl, rctx.finalized, hctx.finalized_le, rfl⟩
    · cases h
      exact .inr ⟨rfl, rctx.safe, hctx.safe_le, rfl⟩
    · cases h
      exact .inr ⟨rfl, rctx.latest, le_refl _, rfl⟩
    · cases h
      exact .inl ⟨rfl, rfl, hread (resolvedNumber_of_not_gt hctx hl hs hf hgt)⟩

/-! ## Positional parameters -/

/-- The string fallback of the `BlockNumberOrHash` path decodes the same
    string again, so it fails when the first decoding did. -/
theorem rewriteTag_of_remarshal_error {current e : String}
    (h : remarshalBlockNumberOrHash (.str current) = .error e) :
    rewriteTag rctx current = .error (.other e) := by
  simp [rewriteTag, h]

/-- The block parameter after `rewriteBlockParam` is resolved: the old one
    when it was kept, the new one as proxyd decodes it when it changed. -/
theorem rewriteBlockParam_resolved (hctx : ContextOrdered rctx) {blockNrOrHash : Bool}
    {cur v : Json} {rw : Bool} (h : rewriteBlockParam rctx blockNrOrHash cur = .ok (v, rw)) :
    (rw = false → ResolvedRef rctx cur) ∧ (rw = true → ResolvedRef rctx v.goValue) := by
  unfold rewriteBlockParam at h
  split_ifs at h
  · split at h
    · rename_i e hdec
      split at h
      · rename_i s
        rw [rewriteTag_of_remarshal_error hdec] at h
        cases h
      · cases h
    · rename_i bnh hdec
      obtain ⟨r, hr, hv⟩ := except_map_eq_ok.mp h
      cases hv
      rcases rewriteTagBlockNumberOrHash_spec hctx hr with ⟨hrw, hkeep, hres⟩ | ⟨hrw, x, hx, hnew⟩
      · -- kept: the reference reads as the decoded `bnh`
        refine ⟨fun _ bnh' hdec' => ?_, fun h' => absurd (hrw ▸ h') (by decide)⟩
        rw [← remarshalBlockNumberOrHash, hdec] at hdec'
        cases hdec'
        exact hres
      · refine ⟨fun h' => absurd (hrw ▸ h') (by decide), fun _ => ?_⟩
        rw [hnew, goValue_toJson_withNumber]
        exact resolvedRef_withNumber hctx hx
  · split at h
    · rename_i s
      obtain ⟨r, hr, hv⟩ := except_map_eq_ok.mp h
      cases hv
      rcases rewriteTag_spec hctx hr with ⟨hrw, -, hres⟩ | ⟨hrw, x, hx, hnew⟩
      · exact ⟨fun _ => hres, fun h' => absurd (hrw ▸ h') (by decide)⟩
      · refine ⟨fun h' => absurd (hrw ▸ h') (by decide), fun _ => ?_⟩
        rw [hnew, goValue_str]
        exact resolvedRef_encodeUint64 hctx hx
    · cases h

/-- The reference a positional method reads, `p[pos]` as proxyd decodes the
    params, is resolved. -/
def ParamResolved (rctx : RewriteContext) (pos : Nat) (params : Option Json) : Prop :=
  ∀ es, unmarshalParams params = .ok es → ∀ j, es[pos]? = some j → ResolvedRef rctx j

/-- Padding the params with `latest` keeps the parameters there were. -/
theorem getElem?_pad {p : List Json} {i : Nat} {c : Prop} [Decidable c] {j : Json}
    (h : p[i]? = some j) : (if c then p ++ [.str "latest"] else p)[i]? = some j := by
  split_ifs
  · rw [List.getElem?_append_left (List.getElem?_eq_some_iff.mp h).1, h]
  · exact h

/-- `rewriteParam` forwards only requests whose reference is resolved. -/
theorem rewriteParam_resolved (hctx : ContextOrdered rctx) (params : Option Json) (pos : Nat)
    (required blockNrOrHash : Bool)
    (hres : (rewriteParam rctx params pos required blockNrOrHash).result = .rewriteNone ∨
      (rewriteParam rctx params pos required blockNrOrHash).result = .rewriteOverrideRequest) :
    ParamResolved rctx pos (rewriteParam rctx params pos required blockNrOrHash).params := by
  unfold rewriteParam at hres ⊢
  split
  · rename_i e hp
    rw [hp] at hres
    simp at hres
  · rename_i p hp
    rw [hp] at hres
    dsimp only at hres ⊢
    -- the padded params, in which `pos` is looked up
    generalize hpad : (if p.length = pos ∧ required = false then p ++ [.str "latest"] else p) = p' at hres ⊢
    have hkept : ∀ j, p[pos]? = some j → p'[pos]? = some j := fun j hj => hpad ▸ getElem?_pad hj
    split
    · rename_i hnone
      intro es hes j hj
      rw [Rewrite.none_params, hp] at hes
      cases hes
      rw [hkept j hj] at hnone
      cases hnone
    · rename_i cur hcur
      rw [hcur] at hres
      cases hval : rewriteBlockParam rctx blockNrOrHash cur with
      | error e =>
        simp only [hval, Rewrite.error_result] at hres
        simp at hres
      | ok r =>
        obtain ⟨val, rw⟩ := r
        cases rw with
        | true =>
          -- the rewritten params, decoded again
          intro es hes j hj
          simp only [unmarshalParams, unmarshalSlice] at hes
          split at hes
          · cases hes
          rw [goValues_eq_map, Except.ok.injEq] at hes
          subst hes
          have hlt : pos < p'.length := (List.getElem?_eq_some_iff.mp hcur).1
          rw [List.getElem?_map, List.getElem?_set_self hlt] at hj
          cases hj
          exact (rewriteBlockParam_resolved hctx hval).2 rfl
        | false =>
          -- the params as they were
          intro es hes j hj
          simp only [Rewrite.none_params] at hes
          rw [hp] at hes
          cases hes
          rw [hkept j hj] at hcur
          cases hcur
          exact (rewriteBlockParam_resolved hctx hval).1 rfl

/-! ## Filter ranges -/

/-- The bounds of a filter object that hold a non-empty string are resolved. -/
def BoundsResolved (rctx : RewriteContext) (m : FilterMap) : Prop :=
  ∀ key ∈ ["fromBlock", "toBlock"], ∀ s, m.index key = .str s → s ≠ "" → ResolvedRef rctx (.str s)

theorem rewriteTag_latest : rewriteTag rctx "latest" = .ok (encodeUint64 rctx.latest, true) := by
  have hdec : remarshalBlockNumberOrHash (.str "latest") =
      .ok (blockNumberOrHashWithNumber latestBlockNumber) := rfl
  simp only [rewriteTag, hdec, blockNumberOrHashWithNumber]
  rw [if_neg (by decide), if_neg (by decide), if_neg (by decide), if_pos trivial]

/-- `rewriteTagMap` leaves the other keys alone, leaves a resolved string at
    its key, changes nothing when it reports no change, and always changes a
    `latest` tag. -/
theorem rewriteTagMap_spec (hctx : ContextOrdered rctx) {m m' : FilterMap} {key : String}
    {mod : Bool} (h : rewriteTagMap rctx m key = .ok (m', mod)) :
    (∀ k, k ≠ key → m'.index k = m.index k) ∧
      (∀ s, m'.index key = .str s → s ≠ "" → ResolvedRef rctx (.str s)) ∧
      (mod = false → m' = m) ∧ (m.index key = .str "latest" → mod = true) := by
  unfold rewriteTagMap at h
  split at h
  · -- `nil`: nothing to rewrite
    rename_i hnull
    cases h
    refine ⟨fun _ _ => rfl, fun s hs _ => ?_, fun _ => rfl, fun hl => ?_⟩
    · rw [hnull] at hs; cases hs
    · rw [hnull] at hl; cases hl
  · -- the empty string: nothing to rewrite
    rename_i hemp
    cases h
    refine ⟨fun _ _ => rfl, fun s hs hne => ?_, fun _ => rfl, fun hl => ?_⟩
    · rw [hemp] at hs; cases hs; exact absurd rfl hne
    · rw [hemp] at hl; exact absurd (Json.str.inj hl) (by decide)
  · rename_i current hcur
    obtain ⟨⟨val, rw⟩, htag, h⟩ := except_bind_eq_ok.mp h
    have hsome := FilterMap.isSome_of_index_str hcur
    cases rw with
    | true =>
      cases h
      obtain ⟨hrw, -⟩ | ⟨-, x, hx, hval⟩ := rewriteTag_spec hctx htag
      · cases hrw
      refine ⟨fun k hk => FilterMap.index_assign_of_ne m hk _, fun s hs _ => ?_,
        fun h' => absurd h' (by decide), fun _ => rfl⟩
      rw [FilterMap.index_assign_self hsome] at hs
      cases hs
      rw [hval]
      exact resolvedRef_encodeUint64 hctx hx
    | false =>
      cases h
      obtain ⟨-, -, hres⟩ | ⟨hrw, -⟩ := rewriteTag_spec hctx htag
      · refine ⟨fun _ _ => rfl, fun s hs _ => ?_, fun _ => rfl, fun hl => ?_⟩
        · rw [hcur] at hs; cases hs; exact hres
        · rw [hcur] at hl
          cases hl
          rw [rewriteTag_latest] at htag
          cases htag
      · cases hrw
  · cases h

/-- `rewriteRangeMap` succeeds by rewriting `fromBlock`, then `toBlock`. -/
theorem rewriteRangeMap_eq_ok {hasRange : Bool} {m m' : FilterMap} {mod : Bool}
    (h : rewriteRangeMap rctx hasRange m = .ok (m', mod)) :
    ∃ m₁ mf mt, rewriteTagMap rctx m "fromBlock" = .ok (m₁, mf) ∧
      rewriteTagMap rctx m₁ "toBlock" = .ok (m', mt) ∧ mod = (mf || mt) := by
  unfold rewriteRangeMap at h
  obtain ⟨⟨m₁, mf⟩, h₁, h⟩ := except_bind_eq_ok.mp h
  obtain ⟨⟨m₂, mt⟩, h₂, h⟩ := except_bind_eq_ok.mp h
  -- the range check, if it is made, passed and changed nothing
  have hret : m' = m₂ ∧ mod = (mf || mt) := by
    dsimp only at h
    split_ifs at h
    · obtain ⟨-, -, h⟩ := except_bind_eq_ok.mp h
      cases h
      exact ⟨rfl, rfl⟩
    · cases h
      exact ⟨rfl, rfl⟩
  obtain ⟨rfl, rfl⟩ := hret
  exact ⟨m₁, mf, mt, h₁, h₂, rfl⟩

/-- Both bounds after `rewriteRangeMap` are resolved; no change means the map
    is as it was, and a `latest` bound is always changed. -/
theorem rewriteRangeMap_spec (hctx : ContextOrdered rctx) {hasRange : Bool} {m m' : FilterMap}
    {mod : Bool} (h : rewriteRangeMap rctx hasRange m = .ok (m', mod)) :
    BoundsResolved rctx m' ∧ (mod = false → m' = m) ∧
      (m.index "fromBlock" = .str "latest" ∨ m.index "toBlock" = .str "latest" → mod = true) := by
  obtain ⟨m₁, mf, mt, h₁, h₂, rfl⟩ := rewriteRangeMap_eq_ok h
  obtain ⟨hframe₁, hres₁, hkeep₁, hlatest₁⟩ := rewriteTagMap_spec hctx h₁
  obtain ⟨hframe₂, hres₂, hkeep₂, hlatest₂⟩ := rewriteTagMap_spec hctx h₂
  have hne : ("fromBlock" : String) ≠ "toBlock" := by decide
  refine ⟨?_, fun hmod => ?_, fun hl => ?_⟩
  · intro key hkey s hs hs'
    simp only [List.mem_cons, List.not_mem_nil, or_false] at hkey
    rcases hkey with rfl | rfl
    · -- `fromBlock` was settled by the first call and kept by the second
      rw [hframe₂ _ hne] at hs
      exact hres₁ s hs hs'
    · exact hres₂ s hs hs'
  · simp only [Bool.or_eq_false_iff] at hmod
    rw [hkeep₂ hmod.2, hkeep₁ hmod.1]
  · rcases hl with hl | hl
    · simp [hlatest₁ hl]
    · have hto : m₁.index "toBlock" = .str "latest" := by
        rw [hframe₁ _ (Ne.symm hne), hl]
      simp [hlatest₂ hto]

theorem FilterMap.isSome_of_has {m : FilterMap} {key : String} (h : m.has key = true) :
    m.isSome := by
  cases m with
  | none => simp [FilterMap.has] at h
  | some g => rfl

/-- The defaulting either changes nothing or sets a bound to `latest`. -/
theorem defaultRange_cases (m : FilterMap) :
    defaultRange m = m ∨ (defaultRange m).index "fromBlock" = .str "latest" ∨
      (defaultRange m).index "toBlock" = .str "latest" := by
  unfold defaultRange
  split_ifs with hto hfrom
  · exact .inr (.inr (FilterMap.index_assign_self (FilterMap.isSome_of_has hto.1) _ _))
  · exact .inr (.inl (FilterMap.index_assign_self (FilterMap.isSome_of_has hfrom.1) _ _))
  · exact .inl rfl

/-- The filter objects decoded from the re-marshaled params: each map is read
    back from its printed, key-sorted form. -/
theorem unmarshalMapSlice_toJson {l : List FilterMap} {ms : List FilterMap}
    (h : unmarshalMapSlice (some (.arr (l.map FilterMap.toJson))) = .ok ms) :
    ms = l.map fun m => m.map fun g => toGoMap (goMembers (sortByKey g.entries)) := by
  -- each element decodes on its own, in order
  induction l generalizing ms with
  | nil =>
    have h' : (Except.ok [] : Except String (List FilterMap)) = .ok ms := h
    cases h'
    rfl
  | cons m l ih =>
    simp only [unmarshalMapSlice, List.map_cons, List.mapM_cons] at h ih
    obtain ⟨m', hm', h⟩ := except_bind_eq_ok.mp h
    obtain ⟨ms', hms', h⟩ := except_bind_eq_ok.mp h
    cases h
    rw [ih hms', List.map_cons]
    congr 1
    cases m with
    | none => simpa [FilterMap.toJson] using hm'.symm
    | some g =>
      simp only [FilterMap.toJson] at hm'
      split at hm'
      · cases hm'
      · simpa using hm'.symm

/-- Reading a printed map back gives each key its value as Go prints it. -/
theorem index_reread (m : FilterMap) (key : String) :
    FilterMap.index (m.map fun g => toGoMap (goMembers (sortByKey g.entries))) key =
      (m.index key).goValue := by
  cases m with
  | none => simp [FilterMap.index]
  | some g =>
    have hsort : (sortByKey g.entries).Perm g.entries := List.perm_insertionSort _ _
    simp only [FilterMap.index, Option.map_some, Option.bind_some, GoMap.get_toGoMap,
      lastMember_goMembers, g.lastMember_of_perm hsort]
    cases g.get key <;> simp

/-- The filter object a range method reads, `p[pos]` as proxyd decodes the
    params, has resolved bounds. -/
def FilterResolved (rctx : RewriteContext) (pos : Nat) (params : Option Json) : Prop :=
  ∀ ms, unmarshalMapSlice params = .ok ms → ∀ m, ms[pos]? = some m → BoundsResolved rctx m

/-- `rewriteRange` forwards only filters whose bounds are resolved. -/
theorem rewriteRange_resolved (hctx : ContextOrdered rctx) {params : Option Json} {pos : Nat}
    {rw : Rewrite} (h : rewriteRange rctx params pos = .ok rw)
    (hres : rw.result = .rewriteNone ∨ rw.result = .rewriteOverrideRequest) :
    FilterResolved rctx pos rw.params := by
  unfold rewriteRange at h
  split at h
  · cases h
    simp at hres
  · rename_i p hp
    obtain ⟨m₀, hm₀, h⟩ := except_bind_eq_ok.mp h
    have hget := sliceIndex_eq_ok.mp hm₀
    cases hmap : rewriteRangeMap rctx (m₀.has "fromBlock" || m₀.has "toBlock") (defaultRange m₀) with
    | error e =>
      rw [hmap] at h
      cases h
      simp at hres
    | ok r =>
      obtain ⟨m', mod⟩ := r
      obtain ⟨hbounds, hkeep, hlatest⟩ := rewriteRangeMap_spec hctx hmap
      rw [hmap] at h
      cases mod with
      | true =>
        -- the re-marshaled params, read back at `pos`
        cases h
        intro ms hms m hm
        rw [unmarshalMapSlice_toJson hms] at hm
        have hlt : pos < p.length := (List.getElem?_eq_some_iff.mp hget).1
        rw [List.getElem?_map, List.getElem?_set_self hlt] at hm
        cases hm
        intro key hkey s hs hne
        rw [index_reread, goValue_eq_str_iff] at hs
        exact hbounds key hkey s hs hne
      | false =>
        -- the params as they were: no bound was defaulted, none rewritten
        cases h
        have hdef : defaultRange m₀ = m₀ := by
          rcases defaultRange_cases m₀ with hd | hd | hd
          · exact hd
          · exact absurd (hlatest (.inl hd)) (by decide)
          · exact absurd (hlatest (.inr hd)) (by decide)
        intro ms hms m hm
        rw [Rewrite.none_params, hp] at hms
        cases hms
        rw [hget] at hm
        cases hm
        rw [← hdef, ← hkeep rfl]
        exact hbounds

end Resolved

/-! ## `RewriteRequest` -/

/-- Where a method reads its block reference. -/
inductive BlockRef where
  | param (pos : Nat)
  | filter (pos : Nat)
  | unhandled

/-- The block reference of each method `RewriteRequest` handles. -/
def blockRef (method : String) : BlockRef :=
  match method with
  | "eth_getLogs" | "eth_newFilter" => .filter 0
  | "debug_getRawReceipts" | "consensus_getReceipts" => .param 0
  | "eth_getBalance" | "eth_getCode" | "eth_getTransactionCount" | "eth_call" => .param 1
  | "eth_getStorageAt" | "eth_getProof" => .param 2
  | "eth_getBlockTransactionCountByNumber" | "eth_getUncleCountByBlockNumber"
  | "eth_getBlockByNumber" | "eth_getTransactionByBlockNumberAndIndex"
  | "eth_getUncleByBlockNumberAndIndex" => .param 0
  | _ => .unhandled

/-- The block reference of a method is resolved in the given params. -/
def RefsResolved (rctx : RewriteContext) : BlockRef → Option Json → Prop
  | .param pos, params => ParamResolved rctx pos params
  | .filter pos, params => FilterResolved rctx pos params
  | .unhandled, _ => True

/-- An EIP-1898 object with a second block number member whose name
    differs only in case. -/
def caseVariantBlockRef : Json := .obj [("blockNumber", .str "0x1"), ("BlockNumber", .str "latest")]

end Proxyd.Rpc
