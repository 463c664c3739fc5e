import Proxyd.Rpc.Types

/-
  Proxyd.Ws.ClientPump

  `WSProxier.clientPump` of `backend.go`: the loop that reads the client's
  WebSocket frames and either forwards them to the backend or answers them.
  A text or binary frame is parsed with `ParseRPCReq` (`prepareClientMsg`);
  an unparsable or non-whitelisted request is answered with an error,
  `eth_accounts` with `[]`, and every other request is forwarded as the raw
  frame the client sent.

  The pump is a state machine over the client's events, with the writes it
  made as its state.  A write that fails ends the pump; the writes are then
  a prefix of the ones modelled here, and the invariants below, which hold
  for every write made, hold for every prefix.
-/

namespace Proxyd.Ws

open Proxyd.Go Proxyd.Rpc

/-- `websocket.TextMessage` and `websocket.BinaryMessage`. -/
def textMessage : Int := 1
def binaryMessage : Int := 2

/-- What the pump reads from the client: a frame with its type and its
    payload (as JSON, `none` when it is not JSON), or a read error. -/
inductive ClientEvent where
  | frame (msgType : Int) (msg : Option Json)
  | readError

/-- What the pump writes: a frame to the backend (the payload it read), an
    answer to the client, or the close frame sent after a read error. -/
inductive WsWrite where
  | toBackend (msgType : Int) (msg : Option Json)
  | toClient (msgType : Int) (res : RPCRes)
  | closeBackend

/-- `prepareClientMsg`: the parsed request, and the error that stops it. -/
def prepareClientMsg (methodWhitelist : List String) (msg : Option Json) :
    Option RPCReq × Option RPCErr :=
  match parseRPCReq msg with
  | .error err => (none, some err)
  | .ok req =>
    if req.method ∈ methodWhitelist then (some req, none) else (some req, some errMethodNotWhitelisted)

/-- The write one frame gives. -/
def clientFrameWrite (methodWhitelist : List String) (msgType : Int) (msg : Option Json) : WsWrite :=
  -- control messages are routed to the backend as they are
  if msgType ≠ textMessage ∧ msgType ≠ binaryMessage then .toBackend msgType msg
  else
    match prepareClientMsg methodWhitelist msg with
    | (req, some err) => .toClient msgType (newRPCErrorRes (req.bind (·.id)) err)
    | (some req, none) =>
      if req.method = "eth_accounts" then .toClient msgType (newRPCRes req.id (.arr []))
      else .toBackend msgType msg
    | (none, none) => .toClient msgType (newRPCErrorRes none errParseErr)

/-- `clientPump` over the client's events: the writes, in order.  A read
    error sends the backend a close frame and ends the pump. -/
def clientPump (methodWhitelist : List String) : List ClientEvent → List WsWrite
  | [] => []
  | .readError :: _ => [.closeBackend]
  | .frame msgType msg :: evs => clientFrameWrite methodWhitelist msgType msg :: clientPump methodWhitelist evs

/-! ## What the pump forwards, as proxyd reads it -/

/-- A data frame forwarded to the backend carries a request whose method, as
    `ParseRPCReq` reads it, is whitelisted and is not `eth_accounts`. -/
def ForwardedAsParsed (methodWhitelist : List String) : WsWrite → Prop
  | .toBackend msgType msg =>
    (msgType = textMessage ∨ msgType = binaryMessage) →
      ∃ req, parseRPCReq msg = .ok req ∧ req.method ∈ methodWhitelist ∧ req.method ≠ "eth_accounts"
  | _ => True

/-- One frame: what it forwards is whitelisted as proxyd reads it. -/
theorem clientFrameWrite_forwardedAsParsed (methodWhitelist : List String) (msgType : Int)
    (msg : Option Json) : ForwardedAsParsed methodWhitelist (clientFrameWrite methodWhitelist msgType msg) := by
  unfold clientFrameWrite
  split_ifs with hctl
  · -- a control frame is not a data frame
    intro hdata
    rcases hdata with h | h <;> simp_all
  · unfold prepareClientMsg
    cases hparse : parseRPCReq msg with
    | error err => trivial
    | ok req =>
      by_cases hw : req.method ∈ methodWhitelist
      · by_cases hacc : req.method = "eth_accounts"
        · -- answered locally
          simp only [if_pos hw, if_pos hacc]
          trivial
        · simp only [if_pos hw, if_neg hacc]
          exact fun _ => ⟨req, hparse, hw, hacc⟩
      · simp [hw, ForwardedAsParsed]

/-- The values of the members a strict backend may take as the method: those
    under the exact key `method`, one per duplicate. -/
def strictMethods : Option Json → List Json
  | some (.obj ms) => (ms.filter (·.1 = "method")).map (·.2)
  | _ => []

/-- A data frame forwarded to the backend names, under the exact key
    `method`, a whitelisted method other than `eth_accounts`, whichever
    duplicate the backend keeps. -/
def ForwardedStrictly (methodWhitelist : List String) : WsWrite → Prop
  | .toBackend msgType msg =>
    (msgType = textMessage ∨ msgType = binaryMessage) →
      strictMethods msg ≠ [] ∧ ∀ v ∈ strictMethods msg,
        ∃ m, v = .str m ∧ m ∈ methodWhitelist ∧ m ≠ "eth_accounts"
  | _ => True

/-- A request whose `Method` key differs from `method` only in case hides the
    method a strict backend runs: the pump forwards a non-whitelisted method. -/
theorem clientPump_forwards_case_variant :
    clientPump ["eth_chainId"]
        [.frame textMessage (some (.obj [("jsonrpc", .str "2.0"), ("id", .num "1"),
          ("method", .str "debug_traceTransaction"), ("Method", .str "eth_chainId")]))] =
      [.toBackend textMessage (some (.obj [("jsonrpc", .str "2.0"), ("id", .num "1"),
          ("method", .str "debug_traceTransaction"), ("Method", .str "eth_chainId")]))] ∧
    ¬ ForwardedStrictly ["eth_chainId"] (.toBackend textMessage (some (.obj [("jsonrpc", .str "2.0"),
          ("id", .num "1"), ("method", .str "debug_traceTransaction"), ("Method", .str "eth_chainId")]))) := by
  refine ⟨rfl, fun h => ?_⟩
  obtain ⟨-, hall⟩ := h (.inl rfl)
  obtain ⟨m, hm, hw, -⟩ := hall (.str "debug_traceTransaction") (by simp [strictMethods])
  cases hm
  exact absurd hw (by decide)

end Proxyd.Ws
