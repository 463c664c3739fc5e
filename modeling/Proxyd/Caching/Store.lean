import Mathlib
import Proxyd.Lib.Lru
import Proxyd.Go.Json

/-
  Proxyd.Caching.Store

  The `Cache` implementations of `cache.go` that hold the values:

    * `cache` (`newMemoryCache`): an LRU of `memoryCacheLimit` entries;
    * `redisCache`: the entries of a server each call to which may go
      through, miss or fail, as the environment chooses (`Fault`); its keys
      are the caller's, `namespaced` putting the same prefix before each;
    * `fallbackCache`: the primary cache, and the secondary one whenever the
      primary fails;

  and `cacheWithCompression` over them, which stores each value as snappy
  encodes it.  Snappy is third-party: of it only the length header of its
  block format is modelled, and its decoder is assumed to invert its
  encoder (`Snappy`).

  A property of every stored entry is an invariant of all of them
  (`Cache.Holds`): what a get returns is empty or an entry the cache held,
  and a put of an entry with the property keeps it.  A memory cache returns
  what was just put under the key (`get_put_memory`).
-/

namespace Proxyd.Caching

open Proxyd.Lib Proxyd.Go

/-- `memoryCacheLimit`. -/
def memoryCacheLimit : ℕ := 4096

/-- What one call to a `redisCache` meets, as the environment chooses it. -/
inductive Fault where
  /-- The call goes through. -/
  | pass
  /-- The key is gone (expired or evicted): a get finds nothing, a put is lost. -/
  | miss
  /-- The call fails with an error. -/
  | fail (err : String)
  deriving DecidableEq, Repr

/-- A `Cache`, with the entries it holds. -/
inductive Cache where
  /-- `cache`: an LRU in memory. -/
  | memory (lru : Lru String ByteArray)
  /-- `redisCache`: the server's entries and the faults its next calls
      meet; once none are left, calls go through. -/
  | redis (store : GoMap ByteArray) (faults : List Fault)
  /-- `fallbackCache`. -/
  | fallback (primary secondary : Cache)

/-- `newMemoryCache`. -/
def newMemoryCache : Cache := .memory (Lru.new memoryCacheLimit (by decide))

/-- `Get(ctx, key)`: the value, `""` when there is none, or the error; and
    the cache after the call. -/
def Cache.get : Cache → String → Except String ByteArray × Cache
  | .memory lru, key =>
    let r := lru.get key
    (.ok (r.1.getD .empty), .memory r.2)
  | .redis store faults, key =>
    match faults with
    | .fail err :: fs => (.error err, .redis store fs)
    -- `redis.Nil`
    | .miss :: fs => (.ok .empty, .redis store fs)
    | _ => (.ok ((store.get key).getD .empty), .redis store faults.tail)
  | .fallback p q, key =>
    match p.get key with
    | (.error _, p') => ((q.get key).1, .fallback p' (q.get key).2)
    | (.ok val, p') => (.ok val, .fallback p' q)

/-- `Put(ctx, key, value)`: `nil` or the error, and the cache after the call. -/
def Cache.put : Cache → String → ByteArray → Except String Unit × Cache
  | .memory lru, key, value => (.ok (), .memory (lru.add key value))
  | .redis store faults, key, value =>
    match faults with
    | .fail err :: fs => (.error err, .redis store fs)
    | .miss :: fs => (.ok (), .redis store fs)
    | _ => (.ok (), .redis (store.set key value) faults.tail)
  | .fallback p q, key, value =>
    match p.put key value with
    | (.error _, p') => ((q.put key value).1, .fallback p' (q.put key value).2)
    | (.ok _, p') => (.ok (), .fallback p' q)

/-! ## What a redis call does -/

theorem redis_get_snd (store : GoMap ByteArray) (faults : List Fault) (key : String) :
    ((Cache.redis store faults).get key).2 = .redis store faults.tail := by
  rcases faults with _ | ⟨_ | _ | _, fs⟩ <;> rfl

theorem redis_get_fst {store : GoMap ByteArray} {faults : List Fault} {key : String}
    {val : ByteArray} (h : ((Cache.redis store faults).get key).1 = .ok val) :
    val = .empty ∨ store.get key = some val := by
  rcases faults with _ | ⟨_ | _ | _, fs⟩ <;>
    simp only [Cache.get, Except.ok.injEq, reduceCtorEq] at h <;>
    first
    | exact .inl h.symm
    | (cases hk : store.get key <;> simp_all)

theorem redis_put_snd (store : GoMap ByteArray) (faults : List Fault) (key : String)
    (value : ByteArray) :
    ((Cache.redis store faults).put key value).2 = .redis store faults.tail ∨
      ((Cache.redis store faults).put key value).2 = .redis (store.set key value) faults.tail := by
  rcases faults with _ | ⟨_ | _ | _, fs⟩
  · exact .inr rfl
  · exact .inr rfl
  · exact .inl rfl
  · exact .inl rfl

theorem mem_of_get_eq_some {α : Type} {m : GoMap α} {k : String} {v : α} (h : m.get k = some v) :
    (k, v) ∈ m.entries := by
  simp only [GoMap.get, Option.map_eq_some_iff] at h
  obtain ⟨e, he, rfl⟩ := h
  have hk : e.1 = k := by simpa using List.find?_some he
  rw [← hk]
  exact List.mem_of_find?_eq_some he

theorem mem_set {α : Type} {m : GoMap α} {k : String} {v : α} {e : String × α}
    (h : e ∈ (m.set k v).entries) : e = (k, v) ∨ e ∈ m.entries := by
  simp only [GoMap.set, List.mem_append, List.mem_filter, List.mem_singleton] at h
  rcases h with ⟨h, -⟩ | h
  · exact .inr h
  · exact .inl h

/-! ## Invariants of the stored entries -/

/-- Every entry the cache holds satisfies `P`. -/
def Cache.Holds (P : String → ByteArray → Prop) : Cache → Prop
  | .memory lru => lru.All P
  | .redis store _ => ∀ e ∈ store.entries, P e.1 e.2
  | .fallback p q => p.Holds P ∧ q.Holds P

/-- A cache that holds no entry. -/
def Cache.Fresh (c : Cache) : Prop := c.Holds fun _ _ => False

variable {P Q : String → ByteArray → Prop}

theorem Cache.Holds.mono {c : Cache} (hc : c.Holds P) (hPQ : ∀ k v, P k v → Q k v) :
    c.Holds Q := by
  induction c with
  | memory lru => exact Lru.All.mono hc hPQ
  | redis store faults => exact fun e he => hPQ _ _ (hc e he)
  | fallback p q ihp ihq => exact ⟨ihp hc.1, ihq hc.2⟩

theorem Cache.Fresh.holds {c : Cache} (hc : c.Fresh) : c.Holds P :=
  Cache.Holds.mono hc fun _ _ h => h.elim

/-- A get keeps the invariant: it only moves entries. -/
theorem Cache.Holds.get {c : Cache} (hc : c.Holds P) (key : String) : (c.get key).2.Holds P := by
  induction c with
  | memory lru => exact Lru.All.get hc key
  | redis store faults =>
    rw [redis_get_snd]
    exact hc
  | fallback p q ihp ihq =>
    have hp' := ihp hc.1
    simp only [Cache.get]
    split
    · next p' h =>
      rw [h] at hp'
      exact ⟨hp', ihq hc.2⟩
    · next p' h =>
      rw [h] at hp'
      exact ⟨hp', hc.2⟩

/-- What a get returns is empty or an entry the cache held. -/
theorem Cache.Holds.get_ok {c : Cache} (hc : c.Holds P) {key : String} {val : ByteArray}
    (h : (c.get key).1 = .ok val) : val = .empty ∨ P key val := by
  induction c with
  | memory lru =>
    simp only [Cache.get, Except.ok.injEq] at h
    cases hv : (lru.get key).1 with
    | none => simp [hv] at h; exact .inl h.symm
    | some v =>
      simp only [hv, Option.getD_some] at h
      exact .inr (h ▸ Lru.All.get_fst hc hv)
  | redis store faults =>
    rcases redis_get_fst h with h | h
    · exact .inl h
    · exact .inr (hc _ (mem_of_get_eq_some h))
  | fallback p q ihp ihq =>
    simp only [Cache.get] at h
    split at h
    · exact ihq hc.2 h
    · next p' hp =>
      simp only [Except.ok.injEq] at h
      subst h
      exact ihp hc.1 (by rw [hp])

/-- A put of an entry with the property keeps the invariant. -/
theorem Cache.Holds.put {c : Cache} (hc : c.Holds P) {key : String} {value : ByteArray}
    (hv : P key value) : (c.put key value).2.Holds P := by
  induction c with
  | memory lru => exact Lru.All.add hc hv
  | redis store faults =>
    rcases redis_put_snd store faults key value with h | h <;> rw [h]
    · exact hc
    · intro e he
      rcases mem_set he with rfl | he
      · exact hv
      · exact hc e he
  | fallback p q ihp ihq =>
    have hp' := ihp hc.1
    simp only [Cache.put]
    split
    · next p' h =>
      rw [h] at hp'
      exact ⟨hp', ihq hc.2⟩
    · next p' h =>
      rw [h] at hp'
      exact ⟨hp', hc.2⟩

/-- A put that fails writes nothing: the invariant holds after it, whatever
    the value. -/
theorem Cache.Holds.put_of_error {c : Cache} (hc : c.Holds P) {key : String} {value : ByteArray}
    {err : String} (h : (c.put key value).1 = .error err) : (c.put key value).2.Holds P := by
  induction c generalizing err with
  | memory lru => simp [Cache.put] at h
  | redis store faults =>
    -- only a failing call returns an error, and it leaves the store alone
    rcases faults with _ | ⟨_ | _ | e, fs⟩ <;> simp only [Cache.put, reduceCtorEq] at h
    exact hc
  | fallback p q ihp ihq =>
    simp only [Cache.put] at h ⊢
    split at h
    · next e p' hp =>
      have hp' := ihp hc.1 (by rw [hp])
      rw [hp] at hp'
      exact ⟨hp', ihq hc.2 h⟩
    · simp at h

/-- The memory cache returns the value just put under the key. -/
theorem Cache.get_put_memory (lru : Lru String ByteArray) (key : String) (value : ByteArray) :
    (((Cache.memory lru).put key value).2.get key).1 = .ok value := by
  simp [Cache.put, Cache.get, Lru.get_add_self]

/-! ## Compression -/

/-- `binary.PutUvarint`: seven bits a byte, the lowest first, the high bit
    set on every byte but the last.  `fuel` bounds the bytes; the value
    itself is enough. -/
def putUvarintFuel : ℕ → ℕ → List UInt8
  | 0, x => [x.toUInt8]
  | fuel + 1, x =>
    if x < 0x80 then [x.toUInt8]
    else (x % 0x80 + 0x80).toUInt8 :: putUvarintFuel fuel (x / 0x80)

/-- `binary.PutUvarint(x)`. -/
def putUvarint (x : ℕ) : ByteArray := ⟨(putUvarintFuel x x).toArray⟩

/-- Snappy's block format: `Encode` writes the length of its input as a
    uvarint, then the compressed body (`compress`), and `Decode` inverts it,
    the one fact of the third-party code that is assumed. -/
structure Snappy where
  compress : ByteArray → ByteArray
  decode : ByteArray → Except String ByteArray
  decode_encode : ∀ x, decode (putUvarint x.size ++ compress x) = .ok x

/-- `snappy.Encode`. -/
def Snappy.encode (sn : Snappy) (x : ByteArray) : ByteArray := putUvarint x.size ++ sn.compress x

theorem Snappy.decode_encode' (sn : Snappy) (x : ByteArray) : sn.decode (sn.encode x) = .ok x :=
  sn.decode_encode x

theorem putUvarintFuel_ne_nil (fuel x : ℕ) : putUvarintFuel fuel x ≠ [] := by
  cases fuel with
  | zero => simp [putUvarintFuel]
  | succ fuel =>
    simp only [putUvarintFuel]
    split <;> simp

theorem size_putUvarint_pos (x : ℕ) : 0 < (putUvarint x).size := by
  simpa [putUvarint, ByteArray.size, List.length_pos_iff] using putUvarintFuel_ne_nil x x

/-- An encoded value is never `""`, which a get reads as a miss. -/
theorem Snappy.encode_ne_empty (sn : Snappy) (x : ByteArray) : sn.encode x ≠ .empty := by
  intro h
  have hsize := congrArg ByteArray.size h
  rw [Snappy.encode, ByteArray.size_append] at hsize
  have hpos := size_putUvarint_pos x.size
  have hempty : ByteArray.empty.size = 0 := rfl
  omega

/-- The bytes of a uvarint: every one but the last has its high bit set. -/
theorem putUvarintFuel_split {fuel x : ℕ} (hx : x ≤ fuel) :
    ∃ init last, putUvarintFuel fuel x = init ++ [last] ∧ (∀ b ∈ init, 0x80 ≤ b) ∧ last < 0x80 := by
  induction fuel generalizing x with
  | zero =>
    obtain rfl : x = 0 := by omega
    exact ⟨[], 0, rfl, by simp, by decide⟩
  | succ fuel ih =>
    simp only [putUvarintFuel]
    split
    · next hlt =>
      refine ⟨[], x.toUInt8, rfl, by simp, ?_⟩
      rw [UInt8.lt_iff_toNat_lt]
      simp
      omega
    · next hge =>
      obtain ⟨init, last, heq, hinit, hlast⟩ := ih (x := x / 0x80) (by omega)
      refine ⟨(x % 0x80 + 0x80).toUInt8 :: init, last, by rw [heq]; rfl, ?_, hlast⟩
      intro b hb
      rcases List.mem_cons.mp hb with rfl | hb
      · rw [UInt8.le_iff_toNat_le]
        simp
        omega
      · exact hinit b hb

/-- The bytes after a uvarint: past those with the high bit set, and one more. -/
def skipUvarint (b : ByteArray) : ByteArray :=
  ⟨((b.data.toList.dropWhile (0x80 ≤ ·)).drop 1).toArray⟩

theorem skipUvarint_append (n : ℕ) (rest : ByteArray) : skipUvarint (putUvarint n ++ rest) = rest := by
  obtain ⟨init, last, heq, hinit, hlast⟩ := putUvarintFuel_split (le_refl n)
  have hdrop : (init ++ last :: rest.data.toList).dropWhile (0x80 ≤ ·) = last :: rest.data.toList := by
    rw [List.dropWhile_append, if_pos (by simpa [List.dropWhile_eq_nil_iff] using hinit)]
    exact List.dropWhile_cons_of_neg (by simpa using hlast)
  apply ByteArray.ext
  unfold skipUvarint putUvarint
  rw [ByteArray.data_append]
  dsimp only
  rw [Array.toList_append, List.toList_toArray, heq, List.append_assoc, List.singleton_append, hdrop,
    List.drop_one, List.tail_cons, Array.toArray_toList]

/-- A snappy codec that stores its input as it is after the header: the
    format's literal-only encoding. -/
def Snappy.literal : Snappy where
  compress x := x
  decode b := .ok (skipUvarint b)
  decode_encode x := by simp [skipUvarint_append]

/-- `cacheWithCompression`. -/
structure CacheWithCompression where
  cache : Cache

namespace CacheWithCompression

variable (sn : Snappy)

/-- `Get(ctx, key)`: `""` stays a miss, any other value is decoded. -/
def get (c : CacheWithCompression) (key : String) : Except String ByteArray × CacheWithCompression :=
  let r := c.cache.get key
  (match r.1 with
    | .error err => .error err
    | .ok encodedVal => if encodedVal = .empty then .ok .empty else sn.decode encodedVal,
   ⟨r.2⟩)

/-- `Put(ctx, key, value)`. -/
def put (c : CacheWithCompression) (key : String) (value : ByteArray) :
    Except String Unit × CacheWithCompression :=
  let r := c.cache.put key (sn.encode value)
  (r.1, ⟨r.2⟩)

/-- Every entry is the encoding of a value that satisfies `P`. -/
def Holds (P : String → ByteArray → Prop) (c : CacheWithCompression) : Prop :=
  c.cache.Holds fun k v => ∃ x, v = sn.encode x ∧ P k x

variable {sn}

theorem Holds.mono {c : CacheWithCompression} (hc : c.Holds sn P) (hPQ : ∀ k v, P k v → Q k v) :
    c.Holds sn Q :=
  Cache.Holds.mono hc fun _ _ ⟨x, hx, hp⟩ => ⟨x, hx, hPQ _ _ hp⟩

theorem Holds.get {c : CacheWithCompression} (hc : c.Holds sn P) (key : String) :
    (c.get sn key).2.Holds sn P :=
  Cache.Holds.get hc key

/-- What a get returns is a miss or a value put under its key. -/
theorem Holds.get_ok {c : CacheWithCompression} (hc : c.Holds sn P) {key : String}
    {val : ByteArray} (h : (c.get sn key).1 = .ok val) : val = .empty ∨ P key val := by
  simp only [CacheWithCompression.get] at h
  split at h
  · simp at h
  · next encodedVal hget =>
    split_ifs at h with hempty
    · simp only [Except.ok.injEq] at h
      exact .inl h.symm
    · rcases Cache.Holds.get_ok hc hget with h' | ⟨x, rfl, hx⟩
      · exact absurd h' hempty
      · rw [Snappy.decode_encode', Except.ok.injEq] at h
        exact .inr (h ▸ hx)

theorem Holds.put {c : CacheWithCompression} (hc : c.Holds sn P) {key : String}
    {value : ByteArray} (hv : P key value) : (c.put sn key value).2.Holds sn P :=
  Cache.Holds.put hc ⟨value, rfl, hv⟩

theorem Holds.put_of_error {c : CacheWithCompression} (hc : c.Holds sn P) {key : String}
    {value : ByteArray} {err : String} (h : (c.put sn key value).1 = .error err) :
    (c.put sn key value).2.Holds sn P :=
  Cache.Holds.put_of_error hc h

/-- Over a memory cache, a get returns the value just put under the key. -/
theorem get_put_memory (lru : Lru String ByteArray) (key : String) (value : ByteArray) :
    ((((⟨.memory lru⟩ : CacheWithCompression).put sn key value).2.get sn key).1 = .ok value) := by
  have h := Cache.get_put_memory lru key (sn.encode value)
  simp [put, get, h, sn.encode_ne_empty, Snappy.decode_encode']

end CacheWithCompression

end Proxyd.Caching
