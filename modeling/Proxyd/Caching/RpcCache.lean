import Mathlib
import Proxyd.Caching.Store
import Proxyd.Go.JsonText
import Proxyd.Rpc.Forward
import Proxyd.Lib.Reach

/-
  Proxyd.Caching.RpcCache

  The RPC cache of `cache.go` and `methods.go`: `newRPCCache` over a
  `cacheWithCompression`, its `StaticMethodHandler`s with the key a request
  is stored under and the filters of `debug_getRawReceipts`, and `GetRPC`
  and `PutRPC`.  A result is stored as the text `json.Marshal` prints for it
  (`mustMarshalJSON`) and served as `json.Unmarshal` reads that text into an
  `interface{}` (`unmarshalInterface`).  SHA-256 is third-party: only the
  size of its digest is used.

  Calls to the cache form a transition system (`cacheSystem`) whose state is
  the cache and the puts that have returned `nil`; the faults the redis
  caches inside it meet are the environment's.  Its invariant (`CacheInv`)
  is that every stored entry is the printed result of such a put, under
  that put's key, which its method's filters accepted.  A get therefore
  serves only the decoding of an earlier put of the same method and the
  same digest of the params, and over a memory cache a get right after a
  put serves that put's result as decoded (`getRPC_putRPC_memory`).
-/

namespace Proxyd.Caching

open Proxyd.Lib Proxyd.Go Proxyd.Rpc Proxyd.Eth

/-- `crypto/sha256`: a digest of 32 bytes. -/
structure Sha256 where
  sum : ByteArray → ByteArray
  size_sum : ∀ b, (sum b).size = 32

/-- `fmt.Sprintf("%x", b)`: two lowercase hex digits a byte. -/
def hexBytes (bs : List UInt8) : List Char :=
  bs.flatMap fun b => [Nat.digitChar (b.toNat / 16), Nat.digitChar (b.toNat % 16)]

/-- The bytes hashed for `req.Params`: the params tree rendered again, so
    params that differ only in whitespace or escapes, which Go hashes apart
    as raw bytes, share a digest here; a request without params has none. -/
def paramsBytes : Option Json → ByteArray
  | none => .empty
  | some j => j.render.toUTF8

/-- The digest of a request's params. -/
def paramsDigest (sha : Sha256) (req : RPCReq) : ByteArray := sha.sum (paramsBytes req.params)

/-- `StaticMethodHandler`: its filters, absent where `nil`.  Its cache is
    the one of the `rpcCache` it serves. -/
structure StaticMethodHandler where
  filterGet : Option (RPCReq → Bool)
  filterPut : Option (RPCReq → RPCRes → Bool)

/-- `StaticMethodHandler.key`: `cache:<method>:<hex of the params' SHA-256>`. -/
def StaticMethodHandler.key (sha : Sha256) (req : RPCReq) : String :=
  String.intercalate ":"
    ["cache", req.method, String.ofList (hexBytes (paramsDigest sha req).data.toList)]

/-- `e.filterGet == nil || e.filterGet(req)`: the request may be cached. -/
def StaticMethodHandler.admitsGet (e : StaticMethodHandler) (req : RPCReq) : Bool :=
  e.filterGet.all fun f => f req

/-- `e.filterPut == nil || e.filterPut(req, res)`: the response may be cached. -/
def StaticMethodHandler.admitsPut (e : StaticMethodHandler) (req : RPCReq) (res : RPCRes) : Bool :=
  e.filterPut.all fun f => f req res

/-- The `filterGet` of `debug_getRawReceipts`: only a request for one block,
    by its hash. -/
def rawReceiptsFilterGet (req : RPCReq) : Bool :=
  match unmarshalBlockNumberOrHashSlice req.params with
  | .error _ => false
  | .ok [p] => p.blockHash.isSome
  | .ok _ => false

/-- The `filterPut` of `debug_getRawReceipts`: only a non-empty list of
    receipts. -/
def rawReceiptsFilterPut (_req : RPCReq) (res : RPCRes) : Bool :=
  match res.result with
  | some (.arr rawReceipts) => rawReceipts.length > 0
  | _ => false

/-- `staticHandler`. -/
def staticHandler : StaticMethodHandler := ⟨none, none⟩

/-- `debugGetRawReceiptsHandler`. -/
def debugGetRawReceiptsHandler : StaticMethodHandler :=
  ⟨some rawReceiptsFilterGet, some rawReceiptsFilterPut⟩

/-- The handlers `newRPCCache` registers, by method. -/
def rpcCacheHandlers : List (String × StaticMethodHandler) :=
  [("eth_chainId", staticHandler),
   ("net_version", staticHandler),
   ("eth_getBlockTransactionCountByHash", staticHandler),
   ("eth_getUncleCountByBlockHash", staticHandler),
   ("eth_getBlockByHash", staticHandler),
   ("eth_getTransactionByBlockHashAndIndex", staticHandler),
   ("eth_getUncleByBlockHashAndIndex", staticHandler),
   ("debug_getRawReceipts", debugGetRawReceiptsHandler)]

/-- `mustMarshalJSON`: the bytes `json.Marshal` prints, or the panic when it
    fails, as on a number that is no literal of the grammar (a `NaN` or
    infinite `float64`, or a `json.Number` that is no number). -/
def mustMarshalJSON (j : Json) : Except GoPanic ByteArray :=
  match j.numbers.find? (fun lit => !(parseNumber lit).isSome) with
  | some lit => .error ⟨"json: invalid number literal " ++ quoteString lit⟩
  | none => .ok (String.ofList j.marshal).toUTF8

/-- What `GetRPCMethod` makes of the cache's answer: an error is passed on,
    `""` is a miss, and any other text is decoded into the result. -/
def readCached (req : RPCReq) : Except String ByteArray → Except String (Option RPCRes)
  | .error err => .error err
  | .ok val =>
    if val = .empty then .ok none
    else
      match unmarshalInterface val with
      | .error err => .error err
      | .ok result => .ok (some ⟨req.jsonrpc, result, none, req.id⟩)

section Handler

variable (sha : Sha256) (sn : Snappy)

/-- `GetRPCMethod`. -/
def StaticMethodHandler.getRPCMethod (e : StaticMethodHandler) (c : CacheWithCompression)
    (req : RPCReq) : Except String (Option RPCRes) × CacheWithCompression :=
  if !e.admitsGet req then (.ok none, c)
  else
    let r := c.get sn (StaticMethodHandler.key sha req)
    (readCached req r.1, r.2)

/-- `PutRPCMethod`: a request that could not be served from the cache is
    not stored, nor is a response the filter rejects. -/
def StaticMethodHandler.putRPCMethod (e : StaticMethodHandler) (c : CacheWithCompression)
    (req : RPCReq) (res : RPCRes) : Except GoPanic (Except String Unit × CacheWithCompression) :=
  if !e.admitsGet req then .ok (.ok (), c)
  else if !e.admitsPut req res then .ok (.ok (), c)
  else do
    let value ← mustMarshalJSON (res.result.getD .null)
    return c.put sn (StaticMethodHandler.key sha req) value

/-- `rpcCache` as `newRPCCache` builds it: the handlers are
    `rpcCacheHandlers`, the cache a `cacheWithCompression`. -/
structure RpcCache where
  cache : CacheWithCompression

/-- `newRPCCache`. -/
def newRPCCache (cache : CacheWithCompression) : RpcCache := ⟨cache⟩

/-- `GetRPC`: a method without a handler is not cached. -/
def RpcCache.getRPC (c : RpcCache) (req : RPCReq) : Except String (Option RPCRes) × RpcCache :=
  match rpcCacheHandlers.lookup req.method with
  | none => (.ok none, c)
  | some h =>
    let r := h.getRPCMethod sha sn c.cache req
    (r.1, ⟨r.2⟩)

/-- `PutRPC`. -/
def RpcCache.putRPC (c : RpcCache) (req : RPCReq) (res : RPCRes) :
    Except GoPanic (Except String Unit × RpcCache) :=
  match rpcCacheHandlers.lookup req.method with
  | none => .ok (.ok (), c)
  | some h => (h.putRPCMethod sha sn c.cache req res).map fun r => (r.1, ⟨r.2⟩)

end Handler

/-! ## Keys -/

theorem digitChar_inj {a b : ℕ} (ha : a < 16) (hb : b < 16)
    (h : Nat.digitChar a = Nat.digitChar b) : a = b := by
  have hv := hexDigitVal_digitChar a ha
  rw [h, hexDigitVal_digitChar b hb] at hv
  exact (Option.some.inj hv).symm

theorem length_hexBytes (bs : List UInt8) : (hexBytes bs).length = 2 * bs.length := by
  induction bs with
  | nil => rfl
  | cons b bs ih =>
    simp only [hexBytes, List.flatMap_cons, List.length_append, List.length_cons,
      List.length_nil] at ih ⊢
    omega

theorem hexBytes_inj : ∀ {as bs : List UInt8}, hexBytes as = hexBytes bs → as = bs
  | [], [], _ => rfl
  | [], b :: bs, h => by simp [hexBytes] at h
  | a :: as, [], h => by simp [hexBytes] at h
  | a :: as, b :: bs, h => by
    simp only [hexBytes, List.flatMap_cons, List.cons_append, List.nil_append,
      List.cons.injEq] at h
    obtain ⟨h₁, h₂, h₃⟩ := h
    -- each byte is read back from its two digits
    have e₁ := digitChar_inj (Nat.div_lt_of_lt_mul (by simpa using a.toNat_lt))
      (Nat.div_lt_of_lt_mul (by simpa using b.toNat_lt)) h₁
    have e₂ := digitChar_inj (Nat.mod_lt _ (by decide)) (Nat.mod_lt _ (by decide)) h₂
    have hab : a = b := UInt8.toNat_inj.mp (by omega)
    rw [hab, hexBytes_inj h₃]

theorem key_toList (sha : Sha256) (req : RPCReq) :
    (StaticMethodHandler.key sha req).toList =
      "cache:".toList ++ (req.method.toList ++ ':' :: hexBytes (paramsDigest sha req).data.toList) := by
  simp [StaticMethodHandler.key, String.intercalate_cons_cons, String.toList_append]

/-- The key names the method and the digest of the params: the digest's hex
    has a fixed length, so the method's text ends where it starts. -/
theorem key_inj {sha : Sha256} {req req' : RPCReq}
    (h : StaticMethodHandler.key sha req = StaticMethodHandler.key sha req') :
    req.method = req'.method ∧ paramsDigest sha req = paramsDigest sha req' := by
  have hl := congrArg String.toList h
  rw [key_toList, key_toList] at hl
  have hlen : (':' :: hexBytes (paramsDigest sha req).data.toList).length =
      (':' :: hexBytes (paramsDigest sha req').data.toList).length := by
    have h₁ := sha.size_sum (paramsBytes req.params)
    have h₂ := sha.size_sum (paramsBytes req'.params)
    simp only [List.length_cons, length_hexBytes, Array.length_toList, ByteArray.size_data,
      paramsDigest, h₁, h₂]
  obtain ⟨hm, hd⟩ := List.append_inj' (List.append_cancel_left hl) hlen
  refine ⟨String.toList_inj.mp hm, ByteArray.ext (Array.toList_inj.mp ?_)⟩
  exact hexBytes_inj (List.cons.inj hd).2

/-! ## What a call does -/

/-- The method's handler accepts a put: there is one, and its filters let
    the request and the response through. -/
def Accepted (req : RPCReq) (res : RPCRes) : Prop :=
  ∃ e, rpcCacheHandlers.lookup req.method = some e ∧ e.admitsGet req = true ∧
    e.admitsPut req res = true

theorem mustMarshalJSON_eq_ok {j : Json} {v : ByteArray} (h : mustMarshalJSON j = .ok v) :
    (∀ lit ∈ j.numbers, (parseNumber lit).isSome = true) ∧ v = (String.ofList j.marshal).toUTF8 := by
  unfold mustMarshalJSON at h
  split at h
  · simp at h
  · next hf =>
    refine ⟨fun lit hlit => ?_, (Except.ok.inj h).symm⟩
    have hlit' := List.find?_eq_none.mp hf lit hlit
    cases hp : parseNumber lit <;> simp_all

theorem mustMarshalJSON_of_valid {j : Json} (hn : ∀ lit ∈ j.numbers, (parseNumber lit).isSome = true) :
    mustMarshalJSON j = .ok (String.ofList j.marshal).toUTF8 := by
  have hf : j.numbers.find? (fun lit => !(parseNumber lit).isSome) = none :=
    List.find?_eq_none.mpr fun lit hlit => by simp [hn lit hlit]
  unfold mustMarshalJSON
  rw [hf]

/-- Printed text is never `""`, which a get reads as a miss. -/
theorem toUTF8_marshal_ne_empty {j : Json} (hn : ∀ lit ∈ j.numbers, (parseNumber lit).isSome = true) :
    (String.ofList j.marshal).toUTF8 ≠ .empty := by
  intro h
  obtain ⟨c, cs, hm, -⟩ := marshal_head j hn
  have hd := congrArg ByteArray.utf8Decode? h
  rw [String.toUTF8_eq_toByteArray, String.toByteArray_ofList, List.utf8Decode?_utf8Encode, hm,
    show ByteArray.empty.utf8Decode? = some #[] from rfl] at hd
  simp at hd

/-- `GetRPCMethod` serves a printed value as its decoding, and only a value
    nested at most `maxNestingDepth` deep. -/
theorem readCached_marshal {req : RPCReq} {j : Json} {res : RPCRes}
    (hn : ∀ lit ∈ j.numbers, (parseNumber lit).isSome = true)
    (h : readCached req (.ok (String.ofList j.marshal).toUTF8) = .ok (some res)) :
    res = ⟨req.jsonrpc, decodeInterface j, none, req.id⟩ ∧ j.depth ≤ maxNestingDepth := by
  rw [readCached, if_neg (toUTF8_marshal_ne_empty hn), unmarshalInterface_marshal hn] at h
  by_cases hd : j.depth ≤ maxNestingDepth
  · cases hb : j.badNumber? with
    | some lit => simp [hd, hb] at h
    | none =>
      simp only [hd, hb, if_true, Except.ok.injEq, Option.some.injEq] at h
      exact ⟨h.symm, hd⟩
  · simp [hd] at h

theorem readCached_marshal_ok (req : RPCReq) {j : Json} (hb : j.badNumber? = none)
    (hd : j.depth ≤ maxNestingDepth) :
    readCached req (.ok (String.ofList j.marshal).toUTF8) =
      .ok (some ⟨req.jsonrpc, decodeInterface j, none, req.id⟩) := by
  rw [readCached, if_neg (toUTF8_marshal_ne_empty (numbers_valid_of_badNumber j hb)),
    unmarshalInterface_marshal_ok hb hd]

section Calls

variable {sha : Sha256} {sn : Snappy} {P : String → ByteArray → Prop}

/-- A get that serves a response went through the method's handler and
    decoded what the cache returned under the request's key. -/
theorem getRPC_eq_some {c : RpcCache} {req : RPCReq} {res : RPCRes}
    (h : (c.getRPC sha sn req).1 = .ok (some res)) :
    ∃ e, rpcCacheHandlers.lookup req.method = some e ∧ e.admitsGet req = true ∧
      readCached req (c.cache.get sn (StaticMethodHandler.key sha req)).1 = .ok (some res) := by
  unfold RpcCache.getRPC at h
  split at h
  · simp at h
  · next e he =>
    simp only [StaticMethodHandler.getRPCMethod] at h
    split_ifs at h with hadm
    · simp at h
    · exact ⟨e, he, by simpa using hadm, h⟩

/-- A get only moves the cache's entries. -/
theorem getRPC_holds {c : RpcCache} (hc : c.cache.Holds sn P) (req : RPCReq) :
    (c.getRPC sha sn req).2.cache.Holds sn P := by
  unfold RpcCache.getRPC
  split
  · exact hc
  · simp only [StaticMethodHandler.getRPCMethod]
    split_ifs
    · exact hc
    · exact CacheWithCompression.Holds.get hc _

/-- A put that does not panic either leaves the cache alone and returns
    `nil`, or stores the printed result of an accepted put under its key. -/
theorem putRPC_eq_ok {c c' : RpcCache} {req : RPCReq} {res : RPCRes} {r : Except String Unit}
    (h : c.putRPC sha sn req res = .ok (r, c')) :
    (r = .ok () ∧ c' = c) ∨
      ∃ value, Accepted req res ∧ mustMarshalJSON (res.result.getD .null) = .ok value ∧
        c.cache.put sn (StaticMethodHandler.key sha req) value = (r, c'.cache) := by
  unfold RpcCache.putRPC at h
  split at h
  · simp only [Except.ok.injEq, Prod.mk.injEq] at h
    exact .inl ⟨h.1.symm, h.2.symm⟩
  · next e he =>
    simp only [StaticMethodHandler.putRPCMethod] at h
    split_ifs at h with hget hput
    · simp only [Except.map, Except.ok.injEq, Prod.mk.injEq] at h
      exact .inl ⟨h.1.symm, by rw [← h.2]⟩
    · simp only [Except.map, Except.ok.injEq, Prod.mk.injEq] at h
      exact .inl ⟨h.1.symm, by rw [← h.2]⟩
    · cases hm : mustMarshalJSON (res.result.getD .null) with
      | error p => simp [hm, Except.map, bind, Except.bind] at h
      | ok value =>
        simp only [hm, Except.map, bind, Except.bind, pure, Except.pure, Except.ok.injEq] at h
        refine .inr ⟨value, ⟨e, he, by simpa using hget, by simpa using hput⟩, rfl, ?_⟩
        simp only [Prod.mk.injEq] at h
        obtain ⟨rfl, rfl⟩ := h
        rfl

end Calls

/-- A handler's filters read only the params of a request. -/
theorem admitsGet_congr {e : StaticMethodHandler} {req req' : RPCReq}
    (he : rpcCacheHandlers.lookup req.method = some e) (hp : req'.params = req.params) :
    e.admitsGet req' = e.admitsGet req := by
  have hmem := Lru.mem_of_lookup_eq_some he
  simp only [rpcCacheHandlers, List.mem_cons, Prod.mk.injEq, List.not_mem_nil, or_false] at hmem
  -- every handler is `staticHandler` or the one of `debug_getRawReceipts`
  rcases hmem with ⟨-, rfl⟩ | ⟨-, rfl⟩ | ⟨-, rfl⟩ | ⟨-, rfl⟩ | ⟨-, rfl⟩ | ⟨-, rfl⟩ | ⟨-, rfl⟩ |
    ⟨-, rfl⟩ <;>
    simp [StaticMethodHandler.admitsGet, staticHandler, debugGetRawReceiptsHandler,
      rawReceiptsFilterGet, hp]

theorem key_congr (sha : Sha256) {req req' : RPCReq} (hm : req'.method = req.method)
    (hp : req'.params = req.params) :
    StaticMethodHandler.key sha req' = StaticMethodHandler.key sha req := by
  simp only [StaticMethodHandler.key, paramsDigest, hm, hp]

theorem lookup_rawReceipts :
    rpcCacheHandlers.lookup "debug_getRawReceipts" = some debugGetRawReceiptsHandler := rfl

/-- A put of `debug_getRawReceipts` is accepted only for one block by its
    hash and a non-empty list of receipts. -/
theorem accepted_rawReceipts {req : RPCReq} {res : RPCRes} (hacc : Accepted req res)
    (hm : req.method = "debug_getRawReceipts") :
    rawReceiptsFilterGet req = true ∧ rawReceiptsFilterPut req res = true := by
  obtain ⟨e, he, hget, hput⟩ := hacc
  rw [hm, lookup_rawReceipts, Option.some.injEq] at he
  subst he
  exact ⟨by simpa [StaticMethodHandler.admitsGet, debugGetRawReceiptsHandler] using hget,
    by simpa [StaticMethodHandler.admitsPut, debugGetRawReceiptsHandler] using hput⟩

/-- The decoding of an accepted list of receipts is a non-empty array. -/
theorem decodeInterface_rawReceipts {req : RPCReq} {res : RPCRes}
    (h : rawReceiptsFilterPut req res = true) :
    ∃ r rs, decodeInterface (res.result.getD .null) = some (.arr (r :: rs)) := by
  unfold rawReceiptsFilterPut at h
  split at h
  · next rawReceipts hres =>
    obtain ⟨r, rs, rfl⟩ := List.exists_cons_of_length_pos (by simpa using h)
    exact ⟨r.goValue, goValues rs, by simp [hres, decodeInterface, Json.goValue, goValues]⟩
  · simp at h

/-! ## Runs of calls -/

/-- A call to the RPC cache. -/
inductive CacheCall where
  | getRPC (req : RPCReq)
  | putRPC (req : RPCReq) (res : RPCRes)

/-- What a call returned: a get's response, or a put's error or panic. -/
inductive CacheAnswer where
  | got (ans : Except String (Option RPCRes))
  | put (ans : Except GoPanic (Except String Unit))

/-- The RPC cache, and the `PutRPC` calls that have returned `nil`, in
    order. -/
structure CacheState where
  cache : RpcCache
  puts : List (RPCReq × RPCRes)

section System

variable (sha : Sha256) (sn : Snappy)

/-- One call.  A put that panics does so before it writes, and the cache is
    as it was. -/
def CacheState.call (s : CacheState) : CacheCall → CacheAnswer × CacheState
  | .getRPC req =>
    let r := s.cache.getRPC sha sn req
    (.got r.1, { s with cache := r.2 })
  | .putRPC req res =>
    match s.cache.putRPC sha sn req res with
    | .error p => (.put (.error p), s)
    | .ok (.error err, c) => (.put (.ok (.error err)), { s with cache := c })
    | .ok (.ok (), c) => (.put (.ok (.ok ())), ⟨c, s.puts ++ [(req, res)]⟩)

/-- Calls to an RPC cache over caches that hold nothing yet, no put made. -/
def cacheSystem : LTS CacheState (CacheCall × CacheAnswer) where
  init s := s.cache.cache.cache.Fresh ∧ s.puts = []
  step s l s' := s.call sha sn l.1 = (l.2, s')

/-- An entry stored by a put: under the key of a put that returned `nil`
    and that its method's filters accepted, the text printed for its
    result. -/
def StoredBy (puts : List (RPCReq × RPCRes)) (k : String) (v : ByteArray) : Prop :=
  ∃ p ∈ puts, StaticMethodHandler.key sha p.1 = k ∧ Accepted p.1 p.2 ∧
    mustMarshalJSON (p.2.result.getD .null) = .ok v

/-- Every entry of the cache was stored by a put. -/
def CacheInv (s : CacheState) : Prop := s.cache.cache.Holds sn (StoredBy sha s.puts)

end System

section Runs

variable {sha : Sha256} {sn : Snappy}

theorem StoredBy.mono {puts puts' : List (RPCReq × RPCRes)} (h : puts ⊆ puts') {k : String}
    {v : ByteArray} (hs : StoredBy sha puts k v) : StoredBy sha puts' k v := by
  obtain ⟨p, hp, hk, hacc, hm⟩ := hs
  exact ⟨p, h hp, hk, hacc, hm⟩

theorem CacheInv.getRPC {s : CacheState} (hinv : CacheInv sha sn s) (req : RPCReq) :
    CacheInv sha sn (s.call sha sn (.getRPC req)).2 :=
  getRPC_holds hinv req

/-- A put keeps the invariant: what it stores, it logs. -/
theorem CacheInv.putRPC {s : CacheState} (hinv : CacheInv sha sn s) (req : RPCReq) (res : RPCRes) :
    CacheInv sha sn (s.call sha sn (.putRPC req res)).2 := by
  have hgrow : s.puts ⊆ s.puts ++ [(req, res)] := List.subset_append_left _ _
  simp only [CacheState.call]
  cases hp : s.cache.putRPC sha sn req res with
  | error p => exact hinv
  | ok rc =>
    obtain ⟨r, c⟩ := rc
    rcases putRPC_eq_ok hp with ⟨rfl, rfl⟩ | ⟨value, hacc, hm, hput⟩
    · exact CacheWithCompression.Holds.mono hinv fun _ _ => StoredBy.mono hgrow
    · cases r with
      | error err =>
        -- a failed put writes nothing
        have h := CacheWithCompression.Holds.put_of_error hinv (congrArg Prod.fst hput)
        rwa [hput] at h
      | ok u =>
        have hstored : StoredBy sha (s.puts ++ [(req, res)]) (StaticMethodHandler.key sha req) value :=
          ⟨(req, res), by simp, rfl, hacc, hm⟩
        have h := CacheWithCompression.Holds.put
          (CacheWithCompression.Holds.mono hinv fun _ _ => StoredBy.mono hgrow) hstored
        rwa [hput] at h

theorem cacheInv_invariant : (cacheSystem sha sn).Invariant (CacheInv sha sn) where
  init s hs := by
    obtain ⟨hfresh, hputs⟩ := hs
    exact Cache.Fresh.holds hfresh
  step s l s' hinv hstep := by
    obtain ⟨call, ans⟩ := l
    have hs' : s' = (s.call sha sn call).2 := (congrArg Prod.snd hstep).symm
    subst hs'
    cases call with
    | getRPC req => exact hinv.getRPC req
    | putRPC req res => exact hinv.putRPC req res

/-- What a get serves where the invariant holds: the decoding of the result
    of a logged put of the same method and digest of the params, which the
    method's filters accepted. -/
theorem CacheInv.getRPC_sound {s : CacheState} (hinv : CacheInv sha sn s) {req : RPCReq}
    {res : RPCRes} (h : (s.cache.getRPC sha sn req).1 = .ok (some res)) :
    ∃ e, rpcCacheHandlers.lookup req.method = some e ∧ e.admitsGet req = true ∧
      ∃ p ∈ s.puts, p.1.method = req.method ∧ paramsDigest sha p.1 = paramsDigest sha req ∧
        Accepted p.1 p.2 ∧ (p.2.result.getD .null).depth ≤ maxNestingDepth ∧
        res = ⟨req.jsonrpc, decodeInterface (p.2.result.getD .null), none, req.id⟩ := by
  obtain ⟨e, he, hadm, hread⟩ := getRPC_eq_some h
  refine ⟨e, he, hadm, ?_⟩
  cases hg : (s.cache.cache.get sn (StaticMethodHandler.key sha req)).1 with
  | error err => simp [hg, readCached] at hread
  | ok val =>
    rw [hg] at hread
    rcases CacheWithCompression.Holds.get_ok hinv hg with rfl | ⟨p, hp, hkey, hacc, hm⟩
    · simp [readCached] at hread
    · obtain ⟨hn, rfl⟩ := mustMarshalJSON_eq_ok hm
      obtain ⟨hmeth, hdig⟩ := key_inj hkey
      obtain ⟨rfl, hd⟩ := readCached_marshal hn hread
      exact ⟨p, hp, hmeth, hdig, hacc, hd, rfl⟩

/-- Over a memory cache, a get right after a put of an accepted result
    serves that result as decoded, to any request of the same method and
    params. -/
theorem getRPC_putRPC_memory (lru : Lru String ByteArray) {req : RPCReq} {res : RPCRes}
    {e : StaticMethodHandler} (he : rpcCacheHandlers.lookup req.method = some e)
    (hget : e.admitsGet req = true) (hput : e.admitsPut req res = true)
    (hb : (res.result.getD .null).badNumber? = none)
    (hd : (res.result.getD .null).depth ≤ maxNestingDepth) {req' : RPCReq}
    (hm : req'.method = req.method) (hp : req'.params = req.params) :
    ∃ c, (newRPCCache ⟨.memory lru⟩).putRPC sha sn req res = .ok (.ok (), c) ∧
      (c.getRPC sha sn req').1 =
        .ok (some ⟨req'.jsonrpc, decodeInterface (res.result.getD .null), none, req'.id⟩) := by
  have hn := numbers_valid_of_badNumber _ hb
  refine ⟨⟨((⟨.memory lru⟩ : CacheWithCompression).put sn (StaticMethodHandler.key sha req)
    (String.ofList (res.result.getD .null).marshal).toUTF8).2⟩, ?_, ?_⟩
  · simp [newRPCCache, RpcCache.putRPC, he, StaticMethodHandler.putRPCMethod, hget, hput,
      mustMarshalJSON_of_valid hn, CacheWithCompression.put, Cache.put, Except.map]
  · have hget' : e.admitsGet req' = true := by rw [admitsGet_congr he hp, hget]
    simp only [RpcCache.getRPC, hm, he, StaticMethodHandler.getRPCMethod, hget', Bool.not_true,
      Bool.false_eq_true, if_false, key_congr sha hm hp, CacheWithCompression.get_put_memory,
      readCached_marshal_ok req' hb hd]

end Runs

/-! ## The cache's guarantee -/

/-- Calls to `newRPCCache(newCacheWithCompression(c))`, `c` a memory cache
    or any tree of fallback caches over memory caches and redis caches whose
    calls may fail or miss.  In every reachable state each stored entry was
    stored by a put that returned `nil`, and a get serves only a response to
    its own request whose result is the decoding of the result of such an
    earlier put of the same method and digest of the params (for
    `debug_getRawReceipts`, one block by its hash and a non-empty list of
    receipts).  Over a memory cache, a get right after an accepted put serves
    its result as decoded, to any request of the same method and params,
    when its numbers are in the `float64` range and it nests at most
    `maxNestingDepth` deep. -/
theorem rpcCache_sound (sha : Sha256) (sn : Snappy) :
    (∀ s, (cacheSystem sha sn).Reachable s → CacheInv sha sn s ∧
      ∀ req res, (s.cache.getRPC sha sn req).1 = .ok (some res) →
        res.jsonrpc = req.jsonrpc ∧ res.id = req.id ∧ res.error = none ∧
        ∃ p ∈ s.puts, p.1.method = req.method ∧ paramsDigest sha p.1 = paramsDigest sha req ∧
          Accepted p.1 p.2 ∧ res.result = decodeInterface (p.2.result.getD .null) ∧
          (req.method = "debug_getRawReceipts" →
            rawReceiptsFilterGet req = true ∧ rawReceiptsFilterGet p.1 = true ∧
            ∃ r rs, res.result = some (.arr (r :: rs)))) ∧
    (∀ (lru : Lru String ByteArray) (req : RPCReq) (res : RPCRes) (e : StaticMethodHandler),
      rpcCacheHandlers.lookup req.method = some e → e.admitsGet req = true →
      e.admitsPut req res = true → (res.result.getD .null).badNumber? = none →
      (res.result.getD .null).depth ≤ maxNestingDepth →
      ∀ req' : RPCReq, req'.method = req.method → req'.params = req.params →
        ∃ c, (newRPCCache ⟨.memory lru⟩).putRPC sha sn req res = .ok (.ok (), c) ∧
          (c.getRPC sha sn req').1 =
            .ok (some ⟨req'.jsonrpc, decodeInterface (res.result.getD .null), none, req'.id⟩)) := by
  refine ⟨fun s hs => ?_, fun lru req res e he hget hput hb hd req' hm hp =>
    getRPC_putRPC_memory lru he hget hput hb hd hm hp⟩
  have hinv := (@cacheInv_invariant sha sn).reachable hs
  refine ⟨hinv, fun req res h => ?_⟩
  obtain ⟨e, he, hadm, p, hp, hmeth, hdig, hacc, -, rfl⟩ := hinv.getRPC_sound h
  refine ⟨rfl, rfl, rfl, p, hp, hmeth, hdig, hacc, rfl, fun hraw => ?_⟩
  -- the request went through the filter of `debug_getRawReceipts`, and so did the put
  obtain ⟨hfg, hfp⟩ := accepted_rawReceipts hacc (hmeth.trans hraw)
  rw [hraw, lookup_rawReceipts, Option.some.injEq] at he
  subst he
  exact ⟨by simpa [StaticMethodHandler.admitsGet, debugGetRawReceiptsHandler] using hadm, hfg,
    decodeInterface_rawReceipts hfp⟩

/-- A digest of the right size, standing for SHA-256 where a concrete one is
    needed. -/
def zeroDigest : Sha256 := ⟨fun _ => ⟨Array.replicate 32 0⟩, fun _ => rfl⟩

theorem rpcCache_sound_chainId :
    ∃ c, (newRPCCache ⟨.memory (Lru.new memoryCacheLimit (by decide))⟩).putRPC zeroDigest
        Snappy.literal ⟨"2.0", "eth_chainId", none, some (.num "1")⟩
        ⟨"2.0", some (.str "0x1"), none, some (.num "1")⟩ = .ok (.ok (), c) ∧
      (c.getRPC zeroDigest Snappy.literal ⟨"2.0", "eth_chainId", none, some (.num "7")⟩).1 =
        .ok (some ⟨"2.0", decodeInterface (.str "0x1"), none, some (.num "7")⟩) :=
  (rpcCache_sound zeroDigest Snappy.literal).2 _ _ _ staticHandler rfl rfl rfl rfl (by decide) _
    rfl rfl

/-- A number is cached as a `float64`: over a new memory cache, a result of
    `9007199254740993` comes back as `9007199254740992`. -/
theorem rpcCache_rounds_large_integer :
    ∃ c, (newRPCCache ⟨newMemoryCache⟩).putRPC zeroDigest Snappy.literal
        ⟨"2.0", "eth_chainId", none, some (.num "1")⟩
        ⟨"2.0", some (.num "9007199254740993"), none, some (.num "1")⟩ = .ok (.ok (), c) ∧
      (c.getRPC zeroDigest Snappy.literal ⟨"2.0", "eth_chainId", none, some (.num "1")⟩).1.map
        (Option.map fun r => r.result.map Json.render) = .ok (some (some "9007199254740992")) := by
  obtain ⟨c, hput, hget⟩ := @getRPC_putRPC_memory zeroDigest Snappy.literal
    (Lru.new memoryCacheLimit (by decide))
    ⟨"2.0", "eth_chainId", none, some (.num "1")⟩
    ⟨"2.0", some (.num "9007199254740993"), none, some (.num "1")⟩ staticHandler rfl rfl rfl
    (by decide +kernel) (by decide) ⟨"2.0", "eth_chainId", none, some (.num "1")⟩ rfl rfl
  refine ⟨c, hput, ?_⟩
  rw [hget]
  decide +kernel

end Proxyd.Caching
