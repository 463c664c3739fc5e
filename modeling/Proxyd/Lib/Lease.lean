import Mathlib.Logic.Function.Basic

/-
  Proxyd.Lib.Lease

  A key-value store whose entries expire, and the lease built on one of its
  keys.  An entry lives while the clock is below its expiry; a read of a dead
  entry finds nothing.  The lease operations are those of a distributed
  lock over one key:

    * `acquire` writes a token only if the key holds no live value
      (`SET key token NX PX ttl`);
    * `renew` pushes the expiry forward only while the key holds the caller's
      token (a compare-and-`PEXPIRE` script);
    * `release` deletes the key only while it holds the caller's token (a
      compare-and-`DEL` script).

  The lemmas say when each operation succeeds and what it leaves; the frame
  lemmas say that a caller whose token is not the live one cannot touch the
  key — the fact that makes a lease exclusive once tokens are never reused.
-/

namespace Proxyd.Lib

/-- A stored value with the clock time at which it expires. -/
structure Expiring (α : Type) where
  value : α
  expiry : Nat
  deriving DecidableEq, Repr

variable {α : Type}

/-- A key read at time `now`: its value while it lives. -/
def liveValue (now : Nat) : Option (Expiring α) → Option α
  | some e => if now < e.expiry then some e.value else none
  | none => none

@[simp] theorem liveValue_none (now : Nat) : liveValue now (none : Option (Expiring α)) = none := rfl

theorem liveValue_some (now : Nat) (e : Expiring α) :
    liveValue now (some e) = if now < e.expiry then some e.value else none := rfl

theorem liveValue_eq_some {now : Nat} {c : Option (Expiring α)} {v : α} :
    liveValue now c = some v ↔ ∃ e, c = some e ∧ e.value = v ∧ now < e.expiry := by
  cases c with
  | none => simp
  | some e =>
    by_cases h : now < e.expiry <;> simp [liveValue_some, h]

/-- A value written at `now` with a positive time to live is live at `now`. -/
@[simp] theorem liveValue_stamp {now ttl : Nat} (h : 0 < ttl) (v : α) :
    liveValue now (some ⟨v, now + ttl⟩) = some v := by
  simp [liveValue_some]; omega

/-- A live value stays live until its expiry. -/
theorem liveValue_later {now d : Nat} {c : Option (Expiring α)} {v : α}
    (h : liveValue now c = some v) (hd : ∀ e, c = some e → now + d < e.expiry) :
    liveValue (now + d) c = some v := by
  obtain ⟨e, rfl, rfl, -⟩ := liveValue_eq_some.mp h
  simp [liveValue_some, hd e rfl]

/-! ## The lease operations -/

/-- Acquire: write `v` for `ttl` only if the key holds no live value. -/
def acquire (now ttl : Nat) (v : α) (c : Option (Expiring α)) : Option (Option (Expiring α)) :=
  match liveValue now c with
  | none => some (some ⟨v, now + ttl⟩)
  | some _ => none

theorem acquire_eq_some {now ttl : Nat} {v : α} {c c' : Option (Expiring α)} :
    acquire now ttl v c = some c' ↔ liveValue now c = none ∧ c' = some ⟨v, now + ttl⟩ := by
  unfold acquire
  cases liveValue now c <;> simp [eq_comm]

variable [DecidableEq α]

/-- Renew: extend the key by `ttl` only while it holds `v`. -/
def renew (now ttl : Nat) (v : α) (c : Option (Expiring α)) : Option (Option (Expiring α)) :=
  if liveValue now c = some v then some (some ⟨v, now + ttl⟩) else none

/-- Release: delete the key only while it holds `v`. -/
def release (now : Nat) (v : α) (c : Option (Expiring α)) : Option (Option (Expiring α)) :=
  if liveValue now c = some v then some none else none

theorem renew_eq_some {now ttl : Nat} {v : α} {c c' : Option (Expiring α)} :
    renew now ttl v c = some c' ↔ liveValue now c = some v ∧ c' = some ⟨v, now + ttl⟩ := by
  unfold renew
  split <;> simp_all [eq_comm]

theorem release_eq_some {now : Nat} {v : α} {c c' : Option (Expiring α)} :
    release now v c = some c' ↔ liveValue now c = some v ∧ c' = none := by
  unfold release
  split <;> simp_all [eq_comm]

/-- A caller whose token is not the live one cannot renew the key. -/
theorem renew_of_live_ne {now ttl : Nat} {v w : α} {c : Option (Expiring α)}
    (h : liveValue now c = some w) (hne : w ≠ v) : renew now ttl v c = none := by
  simp [renew, h, hne]

/-- A caller whose token is not the live one cannot release the key. -/
theorem release_of_live_ne {now : Nat} {v w : α} {c : Option (Expiring α)}
    (h : liveValue now c = some w) (hne : w ≠ v) : release now v c = none := by
  simp [release, h, hne]

end Proxyd.Lib
