import Proxyd.Rpc.Forward

/-
  Proxyd.Io.LimitReader

  `LimitReader` of `reader.go` under `io.ReadAll`, and the two size checks
  built on it: the request body of `Server.HandleRPC` and the response body
  of `Backend.doForward`.

  The underlying reader is any `Chunking` of its content: at each call it
  delivers at least one byte and at most the room it is given, and it
  returns `io.EOF` either with its last bytes or on a call of its own after
  them (`strings.Reader` does the latter).  `io.ReadAll` offers some
  positive room at each call (`Rooms`), calls `Read` until it returns an
  error, and turns `io.EOF` into success.  Its loop runs on fuel here; one
  call per byte and one more are enough (`limitReadAll_eq`).

  Unlike the standard library's, this `LimitedReader.Read` refuses every
  call once `N` is spent, before it asks the underlying reader.  Content
  exactly as long as the limit is therefore read without error only when
  `io.EOF` comes with its last bytes: when it would come on a call of its
  own, that call is refused and the whole content comes back with
  `ErrLimitReaderOverLimit`.
-/

namespace Proxyd.Io

open Proxyd.Rpc

/-- The errors a `Read` returns here. -/
inductive ReadError where
  /-- `io.EOF`. -/
  | eof
  /-- `ErrLimitReaderOverLimit`. -/
  | limitReaderOverLimit
  deriving DecidableEq, Repr

/-- `err.Error()`. -/
def ReadError.text : ReadError → String
  | .eof => "EOF"
  | .limitReaderOverLimit => "over read limit"

/-- How an underlying `io.Reader` delivers its content: at its `i`-th call,
    with room for `room` bytes, it delivers `take i room` of them, at least
    one and at most `room`; `eofWithLast` says whether `io.EOF` comes with
    its last bytes or on a call of its own. -/
structure Chunking where
  take : ℕ → ℕ → ℕ
  take_le : ∀ i room, take i room ≤ room
  take_pos : ∀ i room, 0 < room → 0 < take i room
  eofWithLast : Bool

/-- The room `io.ReadAll` offers at each of its calls, `b[len(b):cap(b)]`:
    never empty, since it grows the buffer whenever the buffer is full. -/
structure Rooms where
  room : ℕ → ℕ
  room_pos : ∀ j, 0 < room j

/-- The underlying reader's `Read` at its `i`-th call, with `rest` not yet
    delivered: the bytes and the error it returns, and what it has left. -/
def Chunking.read (c : Chunking) (i : ℕ) (rest : List UInt8) (room : ℕ) :
    (List UInt8 × Option ReadError) × List UInt8 :=
  if rest = [] then (([], some .eof), [])
  else
    let k := c.take i room
    ((rest.take k, if c.eofWithLast ∧ rest.length ≤ k then some .eof else none), rest.drop k)

/-- `LimitedReader`, with the state of the reader under it: the content not
    yet delivered and the calls answered so far.  `N` is an `int64` in the
    source; it starts at the limit `n ≥ 0` and never drops below `0`. -/
structure LimitedReader where
  rest : List UInt8
  calls : ℕ
  n : ℕ

/-- `LimitReader(r, n)`. -/
def limitReader (content : List UInt8) (n : ℕ) : LimitedReader := ⟨content, 0, n⟩

/-- `LimitedReader.Read`: the bytes and the error it returns, and the reader after. -/
def LimitedReader.read (c : Chunking) (l : LimitedReader) (room : ℕ) :
    (List UInt8 × Option ReadError) × LimitedReader :=
  if l.n = 0 then (([], some .limitReaderOverLimit), l)
  else
    -- `p = p[0:l.N]` when the buffer is longer than what is left
    let ((p, err), rest) := c.read l.calls l.rest (if room > l.n then l.n else room)
    ((p, err), ⟨rest, l.calls + 1, l.n - p.length⟩)

/-- `io.ReadAll`, on `fuel` calls; `j` counts its calls and `b` is what it has read. -/
def readAll (c : Chunking) (rooms : Rooms) :
    ℕ → ℕ → LimitedReader → List UInt8 → Option (List UInt8 × Option ReadError)
  | 0, _, _, _ => none
  | fuel + 1, j, l, b =>
    let ((p, err), l) := l.read c (rooms.room j)
    match err with
    | none => readAll c rooms fuel (j + 1) l (b ++ p)
    | some .eof => some (b ++ p, none)
    | some e => some (b ++ p, some e)

/-- `io.ReadAll(LimitReader(r, n))`, on one call per byte of content and one more. -/
def limitReadAll (c : Chunking) (rooms : Rooms) (content : List UInt8) (n : ℕ) :
    Option (List UInt8 × Option ReadError) :=
  readAll c rooms (content.length + 1) 0 (limitReader content n) []

/-- `ErrInternal`. -/
def errInternal : RPCErr := ⟨-32000, "internal error", "", 500⟩

/-- `ErrRequestBodyTooLarge`. -/
def errRequestBodyTooLarge : RPCErr := ⟨-32000 - 21, "request body too large", "", 413⟩

/-- `ErrBackendResponseTooLarge`. -/
def errBackendResponseTooLarge : RPCErr := ⟨-32000 - 20, "backend response too large", "", 500⟩

/-- The body read at the head of `Server.HandleRPC`: over the limit, the
    client is answered `ErrRequestBodyTooLarge`, on any other error
    `ErrInternal`. -/
def handleRPCBody (c : Chunking) (rooms : Rooms) (maxBodySize : ℕ) (body : List UInt8) :
    Option (Except RPCErr (List UInt8)) :=
  (limitReadAll c rooms body maxBodySize).map fun
    | (_, some .limitReaderOverLimit) => .error errRequestBodyTooLarge
    | (_, some _) => .error errInternal
    | (body, none) => .ok body

/-- The response read of `Backend.doForward`: over the limit,
    `ErrBackendResponseTooLarge`; any other error is wrapped. -/
def doForwardBody (c : Chunking) (rooms : Rooms) (maxResponseSize : ℕ) (resB : List UInt8) :
    Option (Except ForwardError (List UInt8)) :=
  (limitReadAll c rooms resB maxResponseSize).map fun
    | (_, some .limitReaderOverLimit) => .error (.rpc errBackendResponseTooLarge)
    | (_, some e) => .error (.other ("error reading response body " ++ e.text))
    | (resB, none) => .ok resB

/-! ## One call of `LimitedReader.Read` -/

namespace LimitedReader

variable (c : Chunking) {l : LimitedReader}

/-- Once `N` is spent, every call is refused and nothing changes. -/
theorem read_of_n_eq_zero (h : l.n = 0) (room : ℕ) :
    l.read c room = (([], some .limitReaderOverLimit), l) := by
  simp [read, h]

/-- With `N` left and nothing left below, the underlying reader's `io.EOF`. -/
theorem read_of_rest_nil (hn : 0 < l.n) (hr : l.rest = []) (room : ℕ) :
    l.read c room = (([], some .eof), ⟨[], l.calls + 1, l.n⟩) := by
  simp [read, Chunking.read, hn.ne', hr]

/-- With `N` left and content left, the next chunk: at least one byte and
    at most `N` of them, with `io.EOF` when it is the last and the reader
    signals so. -/
theorem read_chunk (hn : 0 < l.n) (hr : l.rest ≠ []) {room : ℕ} (hroom : 0 < room) :
    ∃ k, 0 < k ∧ k ≤ l.n ∧
      l.read c room = ((l.rest.take k, if c.eofWithLast ∧ l.rest.length ≤ k then some .eof else none),
        ⟨l.rest.drop k, l.calls + 1, l.n - min k l.rest.length⟩) := by
  -- the room passed down: the buffer, cut to `N`
  have hpos : 0 < (if room > l.n then l.n else room) := by split_ifs <;> omega
  have hle : (if room > l.n then l.n else room) ≤ l.n := by split_ifs <;> omega
  refine ⟨c.take l.calls _, c.take_pos _ _ hpos, (c.take_le _ _).trans hle, ?_⟩
  simp [read, Chunking.read, hn.ne', hr]

end LimitedReader

/-! ## What `io.ReadAll` returns -/

/-- When `io.ReadAll` over the limited reader ends without error: the
    content is shorter than the limit, or exactly as long and `io.EOF` comes
    with its last bytes. -/
def Fits (c : Chunking) (content : List UInt8) (n : ℕ) : Prop :=
  content.length < n ∨ (content.length = n ∧ 0 < n ∧ c.eofWithLast = true)

instance (c : Chunking) (content : List UInt8) (n : ℕ) : Decidable (Fits c content n) :=
  inferInstanceAs (Decidable (_ ∨ _))

/-- What `io.ReadAll` over the limited reader returns: the whole content,
    or its first `n` bytes with `ErrLimitReaderOverLimit`. -/
def limitOutcome (c : Chunking) (content : List UInt8) (n : ℕ) : List UInt8 × Option ReadError :=
  if Fits c content n then (content, none) else (content.take n, some .limitReaderOverLimit)

section Outcome

variable (c : Chunking) {rest : List UInt8} {n : ℕ}

theorem limitOutcome_zero (rest : List UInt8) : limitOutcome c rest 0 = ([], some .limitReaderOverLimit) := by
  simp [limitOutcome, Fits]

theorem limitOutcome_nil (hn : 0 < n) : limitOutcome c [] n = ([], none) := by
  simp [limitOutcome, Fits, hn]

theorem limitOutcome_of_length_le (he : c.eofWithLast = true) (hn : 0 < n) (hlen : rest.length ≤ n) :
    limitOutcome c rest n = (rest, none) := by
  have hfits : Fits c rest n := by
    rcases hlen.lt_or_eq with hlt | heq
    · exact .inl hlt
    · exact .inr ⟨heq, hn, he⟩
  simp [limitOutcome, hfits]

/-- Delivering `k` bytes of the content, as long as the last of them do not
    come with `io.EOF`, leaves what is read in the end unchanged: the
    content left and the limit left fit exactly when the whole did. -/
theorem fits_drop_iff {k : ℕ} (hkn : k ≤ n) (hne : ¬ (c.eofWithLast = true ∧ rest.length ≤ k)) :
    Fits c (rest.drop k) (n - min k rest.length) ↔ Fits c rest n := by
  simp only [Fits, List.length_drop]
  by_cases hlen : rest.length ≤ k
  · -- the chunk is the rest: the reader has not signalled `io.EOF` with it
    have he : c.eofWithLast = false := by simpa [hlen] using hne
    simp only [Nat.min_eq_right hlen, he, Bool.false_eq_true, and_false, or_false]
    omega
  · rw [Nat.min_eq_left (by omega)]
    cases c.eofWithLast <;> simp only [Bool.false_eq_true, and_false, or_false, and_true] <;> omega

theorem limitOutcome_chunk {k : ℕ} (hkn : k ≤ n) (hne : ¬ (c.eofWithLast = true ∧ rest.length ≤ k)) :
    rest.take k ++ (limitOutcome c (rest.drop k) (n - min k rest.length)).1 = (limitOutcome c rest n).1 ∧
      (limitOutcome c (rest.drop k) (n - min k rest.length)).2 = (limitOutcome c rest n).2 := by
  have hfits := fits_drop_iff c hkn hne
  by_cases h : Fits c rest n
  · simp [limitOutcome, h, hfits.mpr h]
  · simp only [limitOutcome, h, hfits.not.mpr h, if_false, and_true]
    by_cases hlen : rest.length ≤ k
    · -- nothing is left below; the whole content is within the limit
      rw [List.drop_eq_nil_of_le hlen, List.take_nil, List.append_nil,
        List.take_of_length_le hlen, List.take_of_length_le (hlen.trans hkn)]
    · rw [Nat.min_eq_left (by omega), ← List.take_add, Nat.add_sub_cancel' hkn]

end Outcome

/-- The run lemma of `io.ReadAll`: from any reader state, with fuel for one
    call per byte left and one more, it appends the outcome of what is left
    to what it has read. -/
theorem readAll_eq (c : Chunking) (rooms : Rooms) (fuel : ℕ) :
    ∀ (j : ℕ) (l : LimitedReader) (b : List UInt8), l.rest.length < fuel →
      readAll c rooms fuel j l b = some (b ++ (limitOutcome c l.rest l.n).1, (limitOutcome c l.rest l.n).2) := by
  induction fuel with
  | zero => intro j l b h; omega
  | succ fuel ih =>
    intro j l b hfuel
    rcases Nat.eq_zero_or_pos l.n with hn | hn
    · -- `N` is spent: refused
      simp [readAll, LimitedReader.read_of_n_eq_zero c hn, hn, limitOutcome_zero]
    rcases eq_or_ne l.rest [] with hr | hr
    · simp [readAll, LimitedReader.read_of_rest_nil c hn hr, hr, limitOutcome_nil c hn]
    obtain ⟨k, hk, hkn, hread⟩ := l.read_chunk c hn hr (rooms.room_pos j)
    by_cases hlast : c.eofWithLast = true ∧ l.rest.length ≤ k
    · -- `io.EOF` with the last bytes ends the loop without error
      have hout := limitOutcome_of_length_le c hlast.1 hn (hlast.2.trans hkn)
      simp [readAll, hread, hlast, hout, List.take_of_length_le hlast.2]
    · -- no error: the loop goes on with what is left
      have hlen : (l.rest.drop k).length < fuel := by
        have := List.length_pos_iff.mpr hr
        simp only [List.length_drop]
        omega
      obtain ⟨h1, h2⟩ := limitOutcome_chunk c hkn hlast
      simp [readAll, hread, hlast, ih (j + 1) ⟨_, _, _⟩ _ hlen, ← h1, h2]

/-- `io.ReadAll(LimitReader(r, n))` returns, for every chunking and every
    room it offers, the outcome of the content. -/
theorem limitReadAll_eq (c : Chunking) (rooms : Rooms) (content : List UInt8) (n : ℕ) :
    limitReadAll c rooms content n = some (limitOutcome c content n) := by
  have h := readAll_eq c rooms (content.length + 1) 0 (limitReader content n) [] (Nat.lt_succ_self _)
  rw [limitReadAll, h]
  simp [limitReader]

/-! ## The two size checks -/

section Checks

variable (c : Chunking) (rooms : Rooms)

theorem handleRPCBody_eq (maxBodySize : ℕ) (body : List UInt8) :
    handleRPCBody c rooms maxBodySize body =
      some (if Fits c body maxBodySize then .ok body else .error errRequestBodyTooLarge) := by
  by_cases h : Fits c body maxBodySize <;> simp [handleRPCBody, limitReadAll_eq, limitOutcome, h]

theorem doForwardBody_eq (maxResponseSize : ℕ) (resB : List UInt8) :
    doForwardBody c rooms maxResponseSize resB =
      some (if Fits c resB maxResponseSize then .ok resB else .error (.rpc errBackendResponseTooLarge)) := by
  by_cases h : Fits c resB maxResponseSize <;> simp [doForwardBody, limitReadAll_eq, limitOutcome, h]

/-- For every content, chunking, room and limit, `io.ReadAll` over the
    limited reader returns the whole content with no error exactly when it
    fits, and otherwise its first `n` bytes with `ErrLimitReaderOverLimit`;
    the request body and the response body are refused as too large exactly
    when they do not fit. -/
theorem limitReader_boundary (content : List UInt8) (n : ℕ) :
    limitReadAll c rooms content n =
        some (if Fits c content n then (content, none) else (content.take n, some .limitReaderOverLimit)) ∧
      handleRPCBody c rooms n content =
        some (if Fits c content n then .ok content else .error errRequestBodyTooLarge) ∧
      doForwardBody c rooms n content =
        some (if Fits c content n then .ok content else .error (.rpc errBackendResponseTooLarge)) :=
  ⟨limitReadAll_eq c rooms content n, handleRPCBody_eq c rooms n content, doForwardBody_eq c rooms n content⟩

end Checks

/-- `strings.Reader`: it fills the room it is given, and returns `io.EOF` on
    a call of its own. -/
def stringsReader : Chunking where
  take _ room := room
  take_le _ _ := le_rfl
  take_pos _ _ h := h
  eofWithLast := false

/-- The limits of `TestLimitReader`, read with a 512-byte room: over the
    limit, the first bytes and `ErrLimitReaderOverLimit`. -/
theorem limitReader_boundary_hello :
    limitReadAll stringsReader ⟨fun _ => 512, fun _ => by decide⟩ [104, 101, 108, 108, 111] 3 =
      some ([104, 101, 108], some .limitReaderOverLimit) := by
  rw [(limitReader_boundary stringsReader _ _ 3).1]
  decide

/-- A body exactly as long as `maxBodySize`, read from a `strings.Reader`
    into the 512-byte buffer `io.ReadAll` starts with, is read whole but
    refused as too large: the call that would return `io.EOF` is refused
    first.  A response exactly as long as `maxResponseSize` is refused the
    same way, and the same bytes pass under a limit one larger. -/
theorem handleRPCBody_exact_limit :
    limitReadAll stringsReader ⟨fun _ => 512, fun _ => by decide⟩ [104, 101, 108] 3 =
        some ([104, 101, 108], some .limitReaderOverLimit) ∧
      handleRPCBody stringsReader ⟨fun _ => 512, fun _ => by decide⟩ 3 [104, 101, 108] =
        some (.error errRequestBodyTooLarge) ∧
      doForwardBody stringsReader ⟨fun _ => 512, fun _ => by decide⟩ 3 [104, 101, 108] =
        some (.error (.rpc errBackendResponseTooLarge)) ∧
      handleRPCBody stringsReader ⟨fun _ => 512, fun _ => by decide⟩ 4 [104, 101, 108] =
        some (.ok [104, 101, 108]) := by
  have hfits : ¬ Fits stringsReader [104, 101, 108] 3 := by decide
  have hfits4 : Fits stringsReader [104, 101, 108] 4 := by decide
  refine ⟨?_, ?_, ?_, ?_⟩
  · simp [limitReadAll_eq, limitOutcome, hfits]
  · simp [handleRPCBody_eq, hfits]
  · simp [doForwardBody_eq, hfits]
  · simp [handleRPCBody_eq, hfits4]

end Proxyd.Io
