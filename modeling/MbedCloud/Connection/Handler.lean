import MbedCloud.Lib.Word

/-!
# The connection handler

`M2MConnectionHandlerPimpl`: the state of a connection, the queue of data to send, and what is handed to
the socket, the security layer and the observer. The results of these are arguments of each call, and the
observer does not call back. TCP is compiled in, and `_security_impl` is there (`init_socket` uses it
without a check). Left out is the flag that suppresses events, since events may come at any time.
-/

namespace MbedCloud.Connection

/-- `SocketState`. -/
inductive SocketState
  | disconnected | closeBeingCalled | dnsResolving | initializeConnection | connectBeingCalled
  | connecting | connected | handshaking | unsecureConnection | secureConnection
  deriving DecidableEq

/-- Not below `ESocketStateUnsecureConnection`. -/
def SocketState.established : SocketState → Bool
  | .unsecureConnection | .secureConnection => true
  | _ => false

/-- `M2MSecurity::SecurityModeType`. -/
inductive SecurityMode
  | securityNotSet | psk | certificate | noSecurity
  deriving DecidableEq

/-- The errors of `M2MConnectionHandler::ConnectionError` that are reported. -/
inductive SocketError
  | sslConnectionError | socketReadError | socketSendError | socketAbort | dnsResolvingError
  | sslHandshakeError | sslPeerClosed
  deriving DecidableEq

/-- What the security object has for the server: the mode in its instance, if there is one. -/
abbrev Server := Option SecurityMode

def secure : Server → Bool
  | some .psk | some .certificate => true
  | _ => false

/-- `send_data_queue_s`. The history variable `server` is that of the latest
`resolve_server_address` when the data was queued. -/
structure Item where
  data : Bytes
  offset : Nat
  server : Server
  deriving DecidableEq

inductive Output
  /-- Handed to `pal_send` or `pal_sendTo`. -/
  | plain (item : Item)
  /-- Handed to `send_message`, with a session of the security layer or without. -/
  | secured (item : Item) (session : Bool)
  | addressReady
  | dataSent
  | dataAvailable (data : Bytes)
  /-- `socket_error`; all calls ask for a retry. -/
  | socketError (error : SocketError)
  deriving DecidableEq

structure Handler where
  tcp : Bool
  state : SocketState
  server : Server
  secureConnection : Bool
  /-- The security layer: its `connect` has returned 0, and there was no `reset` since. -/
  session : Bool
  handshakeRetry : Nat
  queue : List Item
  log : List Output
  deriving DecidableEq

def init (tcp : Bool) : Handler := ⟨tcp, .disconnected, none, false, false, 0, [], []⟩

def Handler.emit (h : Handler) (o : Output) : Handler := { h with log := h.log ++ [o] }

def closeSocket (h : Handler) : Handler := { h with state := .disconnected, session := false, queue := [] }

/-! ## Connecting -/

/-- `resolve_server_address`; the resolver may not be started. -/
def resolveServerAddress (server : Server) (started : Bool) (h : Handler) : Handler :=
  let h := { h with
    state := .dnsResolving
    server := server
    secureConnection := h.secureConnection || secure server }
  if started then h else h.emit (.socketError .dnsResolvingError)

/-- The results of `pal_connect`. -/
inductive ConnectStatus
  | inProgress | success | failed
  deriving DecidableEq

/-- The results in `socket_connect_handler`: the error for the address, whether the socket is created
and bound, the connection, the initialisation of the security layer, and whether an event is sent. -/
structure Connect where
  address : Option SocketError
  created : Bool
  bound : Bool
  connect : ConnectStatus
  init : Bool
  eventSent : Bool
  deriving DecidableEq

/-- The case `ESocketStateConnected`. -/
def connectedCase (p : Connect) (h : Handler) : Handler :=
  if h.server.isSome && h.secureConnection then
    if p.init then
      let h := { h with session := false, state := .handshaking }
      if p.eventSent then h else h.emit (.socketError .socketReadError)
    else (closeSocket h).emit (.socketError .sslConnectionError)
  else Handler.emit { h with state := .unsecureConnection } .addressReady

/-- The cases `ESocketStateConnectBeingCalled` and `ESocketStateConnecting`. -/
def connectingCase (p : Connect) (h : Handler) : Handler :=
  if h.tcp then
    match p.connect with
    | .inProgress => { h with state := .connecting }
    | .success => connectedCase p { h with state := .connected }
    | .failed => (closeSocket h).emit (.socketError .socketAbort)
  else connectedCase p { h with state := .connected }

def socketConnectHandler (p : Connect) (h : Handler) : Handler :=
  match h.state with
  | .initializeConnection =>
    let h := closeSocket h
    match p.address with
    | some e => h.emit (.socketError e)
    | none =>
      if !p.created then h.emit (.socketError .socketAbort)
      else if !p.bound then h
      else connectingCase p { h with state := .connectBeingCalled }
  | .connectBeingCalled | .connecting => connectingCase p h
  | .connected => connectedCase p h
  | _ => h

def handleDnsResult (success : Bool) (p : Connect) (h : Handler) : Handler :=
  if h.state ≠ .dnsResolving then h
  else if success then socketConnectHandler p { h with state := .initializeConnection }
  else h.emit (.socketError .dnsResolvingError)

/-- The results of the security layer's `connect`. -/
inductive Handshake
  | done | closeNotify | wantsRead | failed
  deriving DecidableEq

/-- `MBED_CONF_MBED_CLIENT_TLS_MAX_RETRY`. -/
def tlsMaxRetry : Nat := 60

def receiveHandshakeHandler (r : Handshake) (h : Handler) : Handler :=
  match r with
  | .done => Handler.emit { h with handshakeRetry := 0, session := true, state := .secureConnection } .addressReady
  | .closeNotify => closeSocket (Handler.emit { h with handshakeRetry := 0 } (.socketError .sslPeerClosed))
  | .failed => closeSocket (Handler.emit { h with handshakeRetry := 0 } (.socketError .sslHandshakeError))
  | .wantsRead =>
    if h.handshakeRetry > tlsMaxRetry then closeSocket (Handler.emit { h with handshakeRetry := 0 } (.socketError .socketAbort))
    else { h with handshakeRetry := h.handshakeRetry + 1 }

/-! ## Sending -/

def lengthBytes (n : Nat) : Bytes := [n / 16777216, n / 65536, n / 256, n].map UInt8.ofNat

/-- `send_data`, for data and an address that are not `NULL` or else `data = []`; `data_len` of the item
has 16 bits. -/
def sendData (data : Bytes) (allocated eventSent : Bool) (h : Handler) : Bool × Handler :=
  if data = [] || !h.state.established || !allocated || !eventSent then (false, h)
  else
    let bytes := if h.tcp && !h.secureConnection then lengthBytes (u16 data.length) ++ data else data
    (true, { h with queue := h.queue ++ [⟨bytes.take (u16 bytes.length), 0, h.server⟩] })

/-- The results of `send_message`, `pal_send` and `pal_sendTo`; `wantsRead` and `closeNotify` are of the
security layer alone, and its result 0 is `failed`. -/
inductive Sent
  | bytes (n : Nat) | wait | wantsRead | closeNotify | failed
  deriving DecidableEq

/-- What becomes of an item that is sent. -/
inductive Sending
  | later (item : Item) | done | failed (error : SocketError)
  deriving DecidableEq

/-- The loop that hands an item over; without a further result the socket is not ready. -/
def sendItem (handed : Item → Output) (item : Item) : List Sent → List Output × Sending
  | [] => if item.offset < item.data.length then ([handed item], .later item) else ([], .done)
  | r :: rs =>
    if item.offset < item.data.length then
      match r with
      | .bytes n =>
        let (out, sending) := sendItem handed { item with offset := item.offset + n } rs
        (handed item :: out, sending)
      | .wantsRead =>
        let (out, sending) := sendItem handed item rs
        (handed item :: out, sending)
      | .wait => ([handed item], .later item)
      | .closeNotify => ([handed item], .failed .sslPeerClosed)
      | .failed => ([handed item], .failed .socketSendError)
    else ([], .done)

def sendSocketData (rs : List Sent) (h : Handler) : Handler :=
  match h.queue with
  | [] => h
  | item :: rest =>
    if item.data = [] || !h.state.established then h
    else
      let handed := if h.state = .secureConnection then (Output.secured · h.session) else .plain
      let (out, sending) := sendItem handed item rs
      let h := { h with queue := rest, log := h.log ++ out }
      match sending with
      | .later item => { h with queue := item :: rest }
      | .done => h.emit .dataSent
      | .failed e => closeSocket (h.emit (.socketError e))

/-! ## Receiving -/

/-- The results of the security layer's `read`, `pal_recv` and `pal_receiveFrom`; `closeNotify` is of the
security layer alone. -/
inductive Received
  | bytes (data : Bytes) | wait | closeNotify | failed
  deriving DecidableEq

/-- `BUFFER_LENGTH`. -/
def bufferLength : Nat := 1152

def lengthOf (b0 b1 b2 b3 : UInt8) : Nat := b0.toNat * 16777216 + b1.toNat * 65536 + b2.toNat * 256 + b3.toNat

/-- What plain TCP hands to the observer of the bytes in the buffer: nothing if the length does not fit. -/
def shimmedOut : Bytes → List Output
  | b0 :: b1 :: b2 :: b3 :: bs =>
    let len := lengthOf b0 b1 b2 b3
    if 0 < len ∧ len ≤ bs.length then [.dataAvailable (bs.take len)] else []
  | _ => []

/-- `receive_handler` for the results of its reads; without a further one the socket has no data. -/
def receiveHandler (h : Handler) : List Received → Handler
  | [] | .wait :: _ => h
  | .closeNotify :: _ => h.emit (.socketError .sslPeerClosed)
  | .failed :: _ => closeSocket (h.emit (.socketError .socketReadError))
  | .bytes data :: rs =>
    if h.tcp && decide (h.state ≠ .secureConnection) then
      if data.length < 4 then closeSocket (h.emit (.socketError .socketReadError))
      else receiveHandler { h with log := h.log ++ shimmedOut data } rs
    else if data = [] then if h.state = .secureConnection then h else h.emit (.dataAvailable [])
    else receiveHandler (h.emit (.dataAvailable data)) rs

/-! ## Events -/

inductive Call
  | resolve (server : Server) (started : Bool)
  | dns (success : Bool) (p : Connect)
  | callback (p : Connect) (handshake : Handshake) (received : List Received) (sent : List Sent)
  | sendData (data : Bytes) (allocated eventSent : Bool)
  | send (sent : List Sent)
  | connect (p : Connect)
  | close

/-- The calls and the events of `event_handler`. -/
def step (h : Handler) : Call → Handler
  | .resolve server started => resolveServerAddress server started h
  | .dns success p => handleDnsResult success p h
  | .callback p handshake received sent =>
    let h :=
      if h.state = .handshaking then receiveHandshakeHandler handshake h
      else if h.state.established then receiveHandler h received
      else socketConnectHandler p h
    if h.state.established then sendSocketData sent h else h
  | .sendData data allocated eventSent => (sendData data allocated eventSent h).2
  | .send sent => sendSocketData sent h
  | .connect p => socketConnectHandler p h
  | .close => closeSocket h

def run (h : Handler) (calls : List Call) : Handler := calls.foldl step h

end MbedCloud.Connection

