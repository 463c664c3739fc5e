import Proxyd.Lib.LinkedMap
import Mathlib.Algebra.Field.Rat

/-
  Proxyd.Window.AvgSlidingWindow

  `AvgSlidingWindow` of `pkg/avg-sliding-window`: data points summed into
  buckets keyed by their time rounded to `bucketSize`, the buckets kept in a
  linked hash map in the order they were first made, and running totals
  `qty` and `sum` beside them.  `advance` reads the keys in that order and
  evicts buckets until the first one still inside the window.

  Times are nanoseconds since Go's zero time and durations nanoseconds, as
  integers.  The clock is read by each call: it is an argument `now` here,
  the same for every read within one call.  Values are taken in a field, so
  sums are exact; `qty` and a bucket's `qty` are `uint`s, 64 bits wide.

  `Clear` resets the totals and leaves the buckets, so a later eviction of
  a bucket made before it takes that bucket's points off totals that no
  longer hold them, and the count wraps below zero.  An `AddWithTime` with
  a time earlier than a bucket already made appends a bucket behind a
  newer one, and eviction, which stops at the first fresh key, keeps it
  after it has left the window.
-/

namespace Proxyd.Window

open Proxyd.Lib

/-- `bucket`. -/
structure Bucket (α : Type) where
  sum : α
  qty : UInt64

/-- `AvgSlidingWindow`, without its clock: each call is given the time it reads. -/
structure AvgSlidingWindow (α : Type) where
  bucketSize : ℤ
  windowLength : ℤ
  buckets : LinkedMap ℤ (Bucket α)
  qty : UInt64
  sum : α

/-- `t.Round(d)`: to the nearest multiple of `d` since the zero time,
    halfway values up; unchanged for `d <= 0`. -/
def round (t d : ℤ) : ℤ :=
  if d ≤ 0 then t
  else
    let r := t % d
    if r + r < d then t - r else t + (d - r)

variable {α : Type} [Field α]

/-- `NewSlidingWindow` with the options `WithBucketSize(bucketSize)` and
    `WithWindowLength(windowLength)`; a zero takes the default. -/
def newSlidingWindow (bucketSize windowLength : ℤ) : AvgSlidingWindow α where
  bucketSize := if bucketSize = 0 then 1000000000 else bucketSize
  windowLength := if windowLength = 0 then 5 * 60 * 1000000000 else windowLength
  buckets := LinkedMap.empty
  qty := 0
  sum := 0

namespace AvgSlidingWindow

/-- `inWindow(t)` with the clock at `now`. -/
def inWindow (sw : AvgSlidingWindow α) (now t : ℤ) : Bool :=
  let now := round now sw.bucketSize
  let windowStart := now - sw.windowLength
  decide (windowStart < t) && !decide (t > now)

/-- The loop of `advance` over the keys it read when it started.  `Get`
    finds each of them, since the loop removes only keys it has passed. -/
def evict (windowStart : ℤ) : List ℤ → AvgSlidingWindow α → AvgSlidingWindow α
  | [], sw => sw
  | k :: keys, sw =>
    if k > windowStart then sw
    else
      match sw.buckets.get k with
      | none => evict windowStart keys sw
      | some b =>
        let buckets := sw.buckets.remove k
        if buckets.size > 0 then
          evict windowStart keys { sw with buckets, qty := sw.qty - b.qty, sum := sw.sum - b.sum }
        else
          evict windowStart keys { sw with buckets, qty := 0, sum := 0 }

/-- `advance` with the clock at `now`. -/
def advance (sw : AvgSlidingWindow α) (now : ℤ) : AvgSlidingWindow α :=
  let now := round now sw.bucketSize
  let windowStart := now - sw.windowLength
  evict windowStart sw.buckets.keys sw

/-- `AddWithTime(t, val)` with the clock at `now`. -/
def addWithTime (sw : AvgSlidingWindow α) (now t : ℤ) (val : α) : AvgSlidingWindow α :=
  let sw := sw.advance now
  let key := round t sw.bucketSize
  if !sw.inWindow now key then sw
  else
    let b := (sw.buckets.get key).getD ⟨0, 0⟩
    let bsum := b.sum
    let b := { b with qty := b.qty + 1, sum := bsum + val }
    let wsum := sw.sum
    { sw with qty := sw.qty + 1, sum := wsum - bsum + b.sum, buckets := sw.buckets.put key b }

/-- `Add(val)` with the clock at `now`. -/
def add (sw : AvgSlidingWindow α) (now : ℤ) (val : α) : AvgSlidingWindow α :=
  sw.addWithTime now now val

/-- `Incr()` with the clock at `now`. -/
def incr (sw : AvgSlidingWindow α) (now : ℤ) : AvgSlidingWindow α :=
  sw.add now 1

/-- `Avg()` with the clock at `now`. -/
def avg (sw : AvgSlidingWindow α) (now : ℤ) : α × AvgSlidingWindow α :=
  let sw := sw.advance now
  if sw.qty = 0 then (0, sw) else (sw.sum / (sw.qty.toNat : α), sw)

/-- `Sum()` with the clock at `now`. -/
def getSum (sw : AvgSlidingWindow α) (now : ℤ) : α × AvgSlidingWindow α :=
  let sw := sw.advance now
  (sw.sum, sw)

/-- `Count()` with the clock at `now`. -/
def count (sw : AvgSlidingWindow α) (now : ℤ) : UInt64 × AvgSlidingWindow α :=
  let sw := sw.advance now
  (sw.qty, sw)

/-- `Clear()`. -/
def clear (sw : AvgSlidingWindow α) : AvgSlidingWindow α :=
  { sw with qty := 0, sum := 0 }

end AvgSlidingWindow

/-- With the default bucket of a second and window of five minutes: points
    at `0 s` and `1 s`, a `Clear`, and the clock at `300 s`, when the first
    bucket leaves the window.  Its eviction takes one point off a count of
    zero, and `Count` returns `2^64 - 1`.  And a point at `5 s` added after
    one at `10 s` is kept once the window has passed it: at `306 s`
    `Count` returns `2`, where one point is in the window. -/
theorem count_after_clear_wraps :
    ((((newSlidingWindow 0 0 : AvgSlidingWindow ℚ).add 0 1).add 1000000000 1).clear.count 300000000000).1 =
        18446744073709551615 ∧
      ((((newSlidingWindow 0 0 : AvgSlidingWindow ℚ).addWithTime 10000000000 10000000000 1).addWithTime
        10000000000 5000000000 1).count 306000000000).1 = 2 :=
  ⟨by decide, by decide⟩

end Proxyd.Window
