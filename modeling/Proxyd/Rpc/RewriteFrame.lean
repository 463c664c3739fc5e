import Proxyd.Rpc.RewriterSpec
import Proxyd.Lib.Reorder

/-
  Proxyd.Rpc.RewriteFrame

  What `RewriteRequest` does to the rest of a request it rewrites.  Both
  paths decode the whole params and marshal them again: `rewriteParam`
  through `[]interface{}`, `rewriteRange` through `[]map[string]interface{}`.
  So every parameter but the rewritten one comes back as `json.Marshal`
  prints the value `json.Unmarshal` decodes it to (`Json.goValue`): strings,
  booleans and `null` as they were, objects with one member per key, the
  last, in sorted order, and numbers as their nearest `float64` printed
  shortest.  In the filter object of a range method only the bounds change.

  A number is kept as a `float64`, not as a decimal: the printed number
  reads back as the `float64` of the literal (`parseFloat_goNumber`), and a
  literal that is no `float64`, such as `9007199254740993`, comes back as
  another number.
-/

namespace Proxyd.Rpc

open Proxyd.Go Proxyd.Eth Proxyd.Lib

/-- The elements of the params as the text has them; `null` has none. -/
def paramsElems : Option Json → Option (List Json)
  | some (.arr es) => some es
  | some .null => some []
  | _ => none

/-- `es'` holds the elements of `es` decoded and encoded again, at every
    index but `pos`. -/
def ReencodedExcept (pos : Nat) (es es' : List Json) : Prop :=
  ∀ i, i ≠ pos → es'[i]? = es[i]?.map Json.goValue

/-! ## Decoding the params -/

/-- Decoding into `[]interface{}` gives the elements as Go prints them. -/
theorem unmarshalParams_eq_ok {params : Option Json} {p : List Json}
    (h : unmarshalParams params = .ok p) :
    ∃ es, paramsElems params = some es ∧ p = es.map Json.goValue := by
  rcases params with _ | j
  · cases h
  · cases j with
    | null =>
      cases h
      exact ⟨[], rfl, rfl⟩
    | arr es =>
      simp only [unmarshalParams, unmarshalSlice] at h
      split at h
      · cases h
      · cases h
        exact ⟨es, rfl, goValues_eq_map es⟩
    | _ => cases h

/-- Decoding into `[]map[string]interface{}` gives maps that print as the
    elements do in `[]interface{}`. -/
theorem unmarshalMapSlice_eq_ok {params : Option Json} {p : List FilterMap}
    (h : unmarshalMapSlice params = .ok p) :
    ∃ es, paramsElems params = some es ∧ p.map FilterMap.toJson = es.map Json.goValue := by
  rcases params with _ | j
  · cases h
  · cases j with
    | null =>
      cases h
      exact ⟨[], rfl, rfl⟩
    | arr es =>
      refine ⟨es, rfl, (map_eq_map_of_forall₂ ((except_mapM_forall₂ h).imp fun e m hm => ?_)).symm⟩
      -- each element is `null` or an object without a number out of range
      cases e with
      | null =>
        cases hm
        rfl
      | obj ms =>
        simp only at hm
        split at hm
        · cases hm
        · cases hm
          simp [FilterMap.toJson, Json.goValue]
      | _ => cases hm
    | _ => cases h

section Frame

variable {rctx : RewriteContext}

/-! ## Positional parameters -/

/-- Padding the params with a parameter at `pos` leaves every other index. -/
theorem getElem?_pad_of_ne {p : List Json} {pos i : Nat} {c : Prop} [Decidable c] (v : Json)
    (hi : i ≠ pos) : (if p.length = pos ∧ c then p ++ [v] else p)[i]? = p[i]? := by
  split_ifs with hpad
  · rcases lt_or_ge i p.length with hlt | hge
    · exact List.getElem?_append_left hlt
    · have hlen : (p ++ [v]).length ≤ i := by simp; omega
      rw [List.getElem?_eq_none hlen, List.getElem?_eq_none hge]
  · rfl

/-- `rewriteParam` overrides the request by setting the padded params at
    `pos` to the rewritten reference. -/
theorem rewriteParam_eq_override {params : Option Json} {pos : Nat}
    {required blockNrOrHash : Bool}
    (hres : (rewriteParam rctx params pos required blockNrOrHash).result = .rewriteOverrideRequest) :
    ∃ p cur val, unmarshalParams params = .ok p ∧
      (if p.length = pos ∧ required = false then p ++ [.str "latest"] else p)[pos]? = some cur ∧
      rewriteBlockParam rctx blockNrOrHash cur = .ok (val, true) ∧
      (rewriteParam rctx params pos required blockNrOrHash).params = some (.arr
        ((if p.length = pos ∧ required = false then p ++ [.str "latest"] else p).set pos val)) := by
  unfold rewriteParam at hres ⊢
  split
  · rename_i e hp
    rw [hp] at hres
    simp at hres
  · rename_i p hp
    rw [hp] at hres
    dsimp only at hres ⊢
    split
    · rename_i hnone
      rw [hnone] at hres
      simp at hres
    · rename_i cur hcur
      rw [hcur] at hres
      cases hval : rewriteBlockParam rctx blockNrOrHash cur with
      | error e =>
        simp only [hval, Rewrite.error_result] at hres
        simp at hres
      | ok r =>
        obtain ⟨val, rw⟩ := r
        cases rw with
        | true => exact ⟨p, cur, val, hp, hcur, hval, rfl⟩
        | false =>
          simp only [hval, Rewrite.none_result] at hres
          simp at hres

/-- A positional rewrite decodes and encodes again every parameter but the
    block reference at `pos`. -/
theorem rewriteParam_frame {params : Option Json} {pos : Nat}
    {required blockNrOrHash : Bool}
    (hres : (rewriteParam rctx params pos required blockNrOrHash).result = .rewriteOverrideRequest) :
    ∃ es es', paramsElems params = some es ∧
      (rewriteParam rctx params pos required blockNrOrHash).params = some (.arr es') ∧
      ReencodedExcept pos es es' := by
  obtain ⟨p, -, val, hp, -, -, hparams⟩ := rewriteParam_eq_override hres
  obtain ⟨es, hes, rfl⟩ := unmarshalParams_eq_ok hp
  refine ⟨es, _, hes, hparams, fun i hi => ?_⟩
  rw [List.getElem?_set_ne (Ne.symm hi), getElem?_pad_of_ne _ hi, List.getElem?_map]

/-! ## Filter objects -/

/-- `m'` is `m` with at most its bounds `fromBlock` and `toBlock` changed. -/
def BoundsOnly (m m' : FilterMap) : Prop :=
  m'.isSome = m.isSome ∧
    ∀ k, k ≠ "fromBlock" → k ≠ "toBlock" → m'.bind (fun g => g.get k) = m.bind (fun g => g.get k)

theorem BoundsOnly.refl (m : FilterMap) : BoundsOnly m m := ⟨rfl, fun _ _ _ => rfl⟩

theorem BoundsOnly.trans {m₁ m₂ m₃ : FilterMap} (h₁ : BoundsOnly m₁ m₂) (h₂ : BoundsOnly m₂ m₃) :
    BoundsOnly m₁ m₃ :=
  ⟨h₂.1.trans h₁.1, fun k hf ht => (h₂.2 k hf ht).trans (h₁.2 k hf ht)⟩

theorem boundsOnly_assign (m : FilterMap) {key : String} (hkey : key = "fromBlock" ∨ key = "toBlock")
    (v : Json) : BoundsOnly m (m.assign key v) := by
  refine ⟨by cases m <;> rfl, fun k hf ht => ?_⟩
  have hk : key ≠ k := by
    rcases hkey with rfl | rfl
    · exact Ne.symm hf
    · exact Ne.symm ht
  cases m with
  | none => rfl
  | some g => simp [FilterMap.assign, hk]

/-- `rewriteTagMap` keeps the map, or assigns its key in a map that is not `nil`. -/
theorem rewriteTagMap_cases {m m' : FilterMap} {key : String} {mod : Bool}
    (h : rewriteTagMap rctx m key = .ok (m', mod)) :
    (m' = m ∧ mod = false) ∨ (∃ v, m' = m.assign key v ∧ mod = true ∧ m.isSome) := by
  unfold rewriteTagMap at h
  split at h
  · cases h
    exact .inl ⟨rfl, rfl⟩
  · cases h
    exact .inl ⟨rfl, rfl⟩
  · rename_i current hcur
    obtain ⟨⟨val, rw⟩, -, h⟩ := except_bind_eq_ok.mp h
    cases rw with
    | true =>
      cases h
      exact .inr ⟨_, rfl, rfl, FilterMap.isSome_of_index_str hcur⟩
    | false =>
      cases h
      exact .inl ⟨rfl, rfl⟩
  · cases h

theorem rewriteTagMap_boundsOnly {m m' : FilterMap} {key : String}
    {mod : Bool} (hkey : key = "fromBlock" ∨ key = "toBlock")
    (h : rewriteTagMap rctx m key = .ok (m', mod)) : BoundsOnly m m' ∧ (mod = true → m.isSome) := by
  rcases rewriteTagMap_cases h with ⟨rfl, rfl⟩ | ⟨v, rfl, rfl, hsome⟩
  · exact ⟨BoundsOnly.refl _, fun h => absurd h (by decide)⟩
  · exact ⟨boundsOnly_assign m hkey v, fun _ => hsome⟩

theorem defaultRange_boundsOnly (m : FilterMap) : BoundsOnly m (defaultRange m) := by
  unfold defaultRange
  split_ifs
  · exact boundsOnly_assign m (.inr rfl) _
  · exact boundsOnly_assign m (.inl rfl) _
  · exact BoundsOnly.refl m

/-- A range rewrite that changes a bound changes a map that is not `nil`,
    and only at its bounds. -/
theorem rewriteRangeMap_boundsOnly {hasRange : Bool} {m m' : FilterMap}
    (h : rewriteRangeMap rctx hasRange m = .ok (m', true)) : BoundsOnly m m' ∧ m.isSome := by
  obtain ⟨m₁, mf, mt, h₁, h₂, hmod⟩ := rewriteRangeMap_eq_ok h
  obtain ⟨hb₁, hsome₁⟩ := rewriteTagMap_boundsOnly (.inl rfl) h₁
  obtain ⟨hb₂, hsome₂⟩ := rewriteTagMap_boundsOnly (.inr rfl) h₂
  refine ⟨hb₁.trans hb₂, ?_⟩
  cases mf with
  | true => exact hsome₁ rfl
  | false => rw [← hb₁.1]; exact hsome₂ (by simpa using hmod.symm)

/-- `rewriteRange` overrides the request by re-marshaling the decoded maps,
    the one at `pos` rewritten with a bound changed. -/
theorem rewriteRange_eq_override {params : Option Json} {pos : Nat}
    {rw : Rewrite} (h : rewriteRange rctx params pos = .ok rw)
    (hres : rw.result = .rewriteOverrideRequest) :
    ∃ p m₀ m', unmarshalMapSlice params = .ok p ∧ p[pos]? = some m₀ ∧
      rewriteRangeMap rctx (m₀.has "fromBlock" || m₀.has "toBlock") (defaultRange m₀) = .ok (m', true) ∧
      rw.params = some (.arr ((p.set pos m').map FilterMap.toJson)) := by
  unfold rewriteRange at h
  split at h
  · cases h
    simp at hres
  · rename_i p hp
    obtain ⟨m₀, hm₀, h⟩ := except_bind_eq_ok.mp h
    cases hmap : rewriteRangeMap rctx (m₀.has "fromBlock" || m₀.has "toBlock") (defaultRange m₀) with
    | error e =>
      rw [hmap] at h
      cases h
      simp at hres
    | ok r =>
      obtain ⟨m', mod⟩ := r
      rw [hmap] at h
      cases mod with
      | true =>
        cases h
        exact ⟨p, m₀, m', hp, sliceIndex_eq_ok.mp hm₀, hmap, rfl⟩
      | false =>
        cases h
        simp at hres

/-- What a range rewrite leaves of the filter object at `pos`: an object
    again, every key but the bounds with the value of its last member, as
    Go prints it. -/
def BoundsFrame (pos : Nat) (es es' : List Json) : Prop :=
  ∃ ms ms', es[pos]? = some (.obj ms) ∧ es'[pos]? = some (.obj ms') ∧
    ∀ k, k ≠ "fromBlock" → k ≠ "toBlock" → lastMember ms' k = (lastMember ms k).map Json.goValue

/-- A range rewrite decodes and encodes again every parameter, and changes
    the filter object at `pos` only at its bounds. -/
theorem rewriteRange_frame {params : Option Json} {pos : Nat} {rw : Rewrite}
    (h : rewriteRange rctx params pos = .ok rw) (hres : rw.result = .rewriteOverrideRequest) :
    ∃ es es', paramsElems params = some es ∧ rw.params = some (.arr es') ∧
      ReencodedExcept pos es es' ∧ BoundsFrame pos es es' := by
  obtain ⟨p, m₀, m', hp, hm₀, hrange, hparams⟩ := rewriteRange_eq_override h hres
  obtain ⟨es, hes, hmap⟩ := unmarshalMapSlice_eq_ok hp
  obtain ⟨hrw, hsome⟩ := rewriteRangeMap_boundsOnly hrange
  have hframe := (defaultRange_boundsOnly m₀).trans hrw
  refine ⟨es, _, hes, hparams, fun i hi => ?_, ?_⟩
  · rw [List.getElem?_map, List.getElem?_set_ne (Ne.symm hi), ← List.getElem?_map, hmap,
      List.getElem?_map]
  · -- the map at `pos` is not `nil`, so it was an object and is printed as one
    obtain ⟨g₀, rfl⟩ := Option.isSome_iff_exists.mp ((defaultRange_boundsOnly m₀).1 ▸ hsome)
    obtain ⟨g', rfl⟩ := Option.isSome_iff_exists.mp (hframe.1.trans rfl)
    have hold : es[pos]?.map Json.goValue = some (.obj (sortByKey g₀.entries)) := by
      rw [← List.getElem?_map, ← hmap, List.getElem?_map, hm₀]
      rfl
    obtain ⟨e, he, hgo⟩ := Option.map_eq_some_iff.mp hold
    obtain ⟨ms, rfl, hsort⟩ := goValue_eq_obj hgo
    have hlt : pos < p.length := (List.getElem?_eq_some_iff.mp hm₀).1
    refine ⟨ms, sortByKey g'.entries, he, ?_, fun k hf ht => ?_⟩
    · rw [List.getElem?_map, List.getElem?_set_self hlt]
      rfl
    · calc lastMember (sortByKey g'.entries) k
          = g'.get k := lastMember_sortByKey g' k
        _ = g₀.get k := hframe.2 k hf ht
        _ = lastMember (sortByKey g₀.entries) k := (lastMember_sortByKey g₀ k).symm
        _ = (toGoMap (goMembers ms)).get k := by rw [hsort, lastMember_sortByKey]
        _ = (lastMember ms k).map Json.goValue := by rw [GoMap.get_toGoMap, lastMember_goMembers]

end Frame

/-! ## `RewriteRequest` -/

/-- What a rewrite at a method's block reference leaves of the params `es`
    in the new params `es'`.  A method the rewriter does not handle is never
    rewritten. -/
def RefFrame : BlockRef → List Json → List Json → Prop
  | .param pos, es, es' => ReencodedExcept pos es es'
  | .filter pos, es, es' => ReencodedExcept pos es es' ∧ BoundsFrame pos es es'
  | .unhandled, _, _ => False

theorem rewriteRequest_override_frame (rctx : RewriteContext) (req : RPCReq) (rw : Rewrite)
    (h : rewriteRequest rctx req = .ok rw) (hres : rw.result = .rewriteOverrideRequest) :
    ∃ es es', paramsElems req.params = some es ∧ rw.params = some (.arr es') ∧
      RefFrame (blockRef req.method) es es' := by
  -- one case per method; each is the frame of the path the method takes
  unfold blockRef
  split <;> rename_i hm <;> simp only [rewriteRequest, hm, Except.ok.injEq] at h
  all_goals first
    | exact rewriteRange_frame h hres
    | (subst h; exact rewriteParam_frame hres)
    | (subst h; simp at hres)

/-- `eth_getBalance` at `latest = 16`: the address is kept and the tag
    becomes the block number `0x10`. -/
theorem rewriteRequest_override_frame_getBalance :
    ∃ es es', paramsElems (some (.arr [.str "0xabc", .str "latest"])) = some es ∧
      (some (.arr [.str "0xabc", .obj [("blockNumber", .str "0x10")]]) : Option Json) =
        some (.arr es') ∧
      RefFrame (blockRef "eth_getBalance") es es' :=
  rewriteRequest_override_frame ⟨16, 0, 0, 0⟩
    ⟨"2.0", "eth_getBalance", some (.arr [.str "0xabc", .str "latest"]), some (.num "1")⟩
    ⟨.rewriteOverrideRequest, none, some (.arr [.str "0xabc", .obj [("blockNumber", .str "0x10")]])⟩
    rfl rfl

/-- The integer `9007199254740993` in an `eth_call` object is no `float64`:
    the rewritten request carries `9007199254740992`. -/
theorem rewriteRequest_rounds_large_integer :
    (rewriteRequest ⟨16, 0, 0, 0⟩ ⟨"2.0", "eth_call",
        some (.arr [.obj [("gas", .num "9007199254740993")], .str "latest"]), some (.num "1")⟩).map
      (fun rw => (rw.result, rw.params.map Json.render)) =
      .ok (.rewriteOverrideRequest, some "[\x7b\"gas\":9007199254740992\x7d,\x7b\"blockNumber\":\"0x10\"\x7d]") := by
  decide +kernel

end Proxyd.Rpc
