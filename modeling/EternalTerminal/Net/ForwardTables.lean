import Mathlib.Data.List.AList
import Mathlib.Data.Finset.Card
import EternalTerminal.Net.ForwardWorker
import EternalTerminal.Net.OutboundLane
import EternalTerminal.Net.Socks

/-!
# Net — the socket tables of the forwarding worker

The worker keeps its sockets in four tables: accepted ones that wait for the peer's answer (`pending`), ids that
are being connected for the peer (`connecting`), and the open sockets of both roles (`sources`, `destinations`).
Local accepts, connector threads and packets of the peer move entries between them; the peer chooses the tokens,
ids and data of its packets freely.

What the system answers (whether an emission, a connection or the set-up of a socket succeeds) is an input.
A worker whose call fails stops, and closes what it has.

`run` handles one event under the source's functions; `apply` also stops a worker whose call failed.
-/

namespace EternalTerminal
open Machine

def maxActiveSockets : Nat := 256
def maxUnassignedFds : Nat := 128

/-- `UNASSIGNED_FD_TIMEOUT`, in nanoseconds. -/
def unassignedFdTimeout : Nat := 30 * 10 ^ 9

/-! ### Destinations -/

/-- `std::io::Error`. -/
structure IoError where
  kind : ErrorKind
  message : String

/-- What a destination connects to. -/
inductive Endpoint where
  | tcp (host : String) (port : Nat)
  | unix (path : String)

namespace Endpoint

def hasNul (name : String) : Bool := name.toList.contains (Char.ofNat 0)

/-- A host and a port, or an absolute path. -/
def parseDestination : Option SocketEndpoint → Except IoError Endpoint
  | none => .error ⟨.invalidInput, "endpoint is missing"⟩
  | some endpoint =>
    match endpoint.port with
    | some port =>
      if port < 1 ∨ 65535 < port then .error ⟨.invalidInput, "endpoint port is invalid"⟩
      else .ok (.tcp ((endpoint.name.filter fun name => !hasNul name).getD "localhost") port.toNat)
    | none =>
      match endpoint.name.filter fun name => name.startsWith "/" && !hasNul name with
      | some name => .ok (.unix name)
      | none => .error ⟨.invalidInput, "Unix endpoint path must be absolute"⟩

/-- `sessionUser`: the process already runs as the session's user, or there is none. -/
def canConnectInline (sessionUser : Bool) : Endpoint → Bool
  | .tcp host _ =>
    sessionUser && (host.isEmpty || host.toLower == "localhost" || host == "127.0.0.1" || host == "::1")
  | .unix _ => false

end Endpoint

/-- The session binds recorded for an agent socket. -/
structure PendingSessionBinds where
  path : String
  binds : List Bytes

def bindsForDestination (recordedPath : String) (recordedBinds : List Bytes) (isTcp : Bool)
    (destinationName : Option String) : Option PendingSessionBinds :=
  if isTcp || recordedBinds.isEmpty || recordedPath.isEmpty then none
  else
    match destinationName with
    | none => none
    | some name => if name = recordedPath then some ⟨recordedPath, recordedBinds⟩ else none

/-! ### Messages -/

/-- A request to connect, as it decodes. -/
structure PortForwardDestinationRequest where
  destination : Option SocketEndpoint
  fd : Option Int
  window : Option PortForwardWindow

/-- The answer to a request, as it decodes. -/
structure PortForwardDestinationResponse where
  clientfd : Option Int
  socketid : Option Int
  error : Option String
  window : Option PortForwardWindow

/-- What a worker sends. -/
inductive ForwardMessage where
  | request (message : PortForwardDestinationRequest)
  | response (message : PortForwardDestinationResponse)
  | data (message : PortForwardData)

/-- The socket id a message hands out. -/
def ForwardMessage.handsOut : ForwardMessage → Option Int
  | .response message => message.socketid
  | _ => none

/-- A packet as it decodes; `none` when it does not.  A data packet comes with the bytes before its buffer, if it
has the form of the fast parser. -/
inductive ForwardPacket where
  | request (message : Option PortForwardDestinationRequest)
  | response (message : Option PortForwardDestinationResponse)
  | data (message : Option (PortForwardData × Option Bytes))
  | unsupported

/-! ### The tables -/

/-- An accepted socket that waits for its destination. -/
structure PendingAccept where
  early : Bytes
  socksVersion : Option UInt8
  halfCloseOnEof : Bool
  stdio : Bool
  deadline : Nat
  /-- Which accept this is, of all that came; not part of the source. -/
  serial : Nat

/-- A thread that connects to a destination and reports once. -/
structure Connector where
  clientFd : Int
  socketId : Int

/-- A table by descriptor or socket id. -/
abbrev FdMap (V : Type) := AList fun _ : Int => V

/-- `forward_worker_state.rs`: the tables of a worker, with what it emitted and attached. -/
structure ForwardTables where
  pending : FdMap PendingAccept
  connecting : Finset Int
  sources : FdMap SocketIo
  destinations : FdMap SocketIo
  held : List (SocketKey × Bytes)
  pendingWindows : FdMap (Option FlowWindow)
  pendingAgentBinds : FdMap PendingSessionBinds
  /-- The connectors that have not reported. -/
  connectors : List Connector
  nextSocketId : Int
  sessionUser : Bool
  stdioOpen : Bool
  sshAgentSocketPath : String
  sshAgentSessionBinds : List Bytes
  engine : Bool
  freshSources : List Int
  stopped : Bool
  -- history: how many accepts came, which of them a response was attached to, and what was emitted
  accepts : Nat
  attached : List Nat
  emitted : List ForwardMessage

/-- What the system answers during one call: the failures of the emission, the set-up and the session binds, and the
result of an inline connection. -/
structure ForwardWorld where
  emission : Option ForwardError := none
  activation : Option IoError := none
  bindsFailed : Bool := false
  connection : Option IoError := none

namespace ForwardTables

def new (sessionUser : Bool) : ForwardTables where
  pending := ∅
  connecting := ∅
  sources := ∅
  destinations := ∅
  held := []
  pendingWindows := ∅
  pendingAgentBinds := ∅
  connectors := []
  nextSocketId := 1
  sessionUser := sessionUser
  stdioOpen := true
  sshAgentSocketPath := ""
  sshAgentSessionBinds := []
  engine := false
  freshSources := []
  stopped := false
  accepts := 0
  attached := []
  emitted := []

def totalSockets (t : ForwardTables) : Nat :=
  t.pending.keys.length + t.connecting.card + t.sources.keys.length + t.destinations.keys.length

/-- The destination ids in the responses emitted so far. -/
def handedOut (t : ForwardTables) : List Int := t.emitted.filterMap ForwardMessage.handsOut

/-- What a call answers, and the tables after it. -/
abbrev Outcome := Except ForwardError Unit × ForwardTables

def emit (t : ForwardTables) (world : ForwardWorld) (message : ForwardMessage) : Outcome :=
  match world.emission with
  | some error => (.error error, t)
  | none => (.ok (), { t with emitted := t.emitted ++ [message] })

def clearStdio (t : ForwardTables) : ForwardTables := { t with stdioOpen := false }

/-- A pending accept is closed. -/
def unpark (t : ForwardTables) (accept : PendingAccept) : ForwardTables := if accept.stdio then t.clearStdio else t

def socket (t : ForwardTables) (key : SocketKey) : Option SocketIo :=
  match key.1 with
  | .source => t.sources.lookup key.2
  | .destination => t.destinations.lookup key.2

/-- The entry of a socket that was handled: it stays, or it is removed. -/
def assign (m : FdMap SocketIo) (socketId : Int) : Option SocketIo → FdMap SocketIo
  | some socket => m.insert socketId socket
  | none => m.erase socketId

def setSocket (t : ForwardTables) (key : SocketKey) (socket : Option SocketIo) : ForwardTables :=
  match key.1 with
  | .source => { t with sources := assign t.sources key.2 socket }
  | .destination => { t with destinations := assign t.destinations key.2 socket }

def activate (t : ForwardTables) (world : ForwardWorld) (key : SocketKey) (peerWindow : Option FlowWindow)
    (bindReplies : Option AgentSessionBindReplies) : Outcome :=
  match world.activation with
  | some error => (.error (.io error.kind error.message), t)
  | none => (.ok (), t.setSocket key (some (SocketIo.new key.1 key.2 peerWindow bindReplies)))

def accepted (t : ForwardTables) (world : ForwardWorld) (clientFd : Int) (destination : SocketEndpoint)
    (accept : PendingAccept) : Outcome :=
  if maxActiveSockets ≤ t.totalSockets ∨ maxUnassignedFds ≤ t.pending.keys.length then (.ok (), t.unpark accept)
  else
    { t with pending := t.pending.insert clientFd accept }.emit world
      (.request ⟨some destination, some clientFd, some advertisedWindow⟩)

/-- The answer to the peer: the id, or the error. -/
def respond (t : ForwardTables) (world : ForwardWorld) (clientFd socketId : Int) (error : Option String)
    (peerAdvertised : Option FlowWindow) : Outcome :=
  t.emit world (.response
    { clientfd := some clientFd
      socketid := if error.isNone then some socketId else none
      window := if error.isNone && peerAdvertised.isSome then some advertisedWindow else none
      error := error })

def connected (t : ForwardTables) (world : ForwardWorld) (clientFd socketId : Int) (failure : Option IoError)
    (peerAdvertised : Option FlowWindow) : Outcome :=
  let pendingBinds := t.pendingAgentBinds.lookup socketId
  let t := { t with
    connecting := t.connecting.erase socketId
    pendingAgentBinds := t.pendingAgentBinds.erase socketId }
  match failure with
  | some error => t.respond world clientFd socketId (some error.message) peerAdvertised
  | none =>
    if pendingBinds.isSome && world.bindsFailed then
      t.respond world clientFd socketId (some "could not send ssh agent session binding") peerAdvertised
    else
      match t.activate world (.destination, socketId) peerAdvertised
          (pendingBinds.map fun pending => .new pending.binds.length) with
      | (.error error, t) => (.error error, t)
      | (.ok (), t) => t.respond world clientFd socketId none peerAdvertised

def allocateSocketId (t : ForwardTables) : Except ForwardError Int × ForwardTables :=
  if t.nextSocketId < i32Max then (.ok t.nextSocketId, { t with nextSocketId := t.nextSocketId + 1 })
  else (.error (.protocol "forwarding socket id exhausted"), t)

def recordedBindsFor (t : ForwardTables) : Endpoint → Option PendingSessionBinds
  | .tcp _ _ => bindsForDestination t.sshAgentSocketPath t.sshAgentSessionBinds true none
  | .unix path => bindsForDestination t.sshAgentSocketPath t.sshAgentSessionBinds false (some path)

/-- A connector is started for the id. -/
def spawnConnector (t : ForwardTables) (clientFd socketId : Int) (destination : Endpoint)
    (peerAdvertised : Option FlowWindow) : ForwardTables :=
  { t with
    connecting := insert socketId t.connecting
    pendingWindows := t.pendingWindows.insert socketId peerAdvertised
    pendingAgentBinds :=
      match t.recordedBindsFor destination with
      | some pending => t.pendingAgentBinds.insert socketId pending
      | none => t.pendingAgentBinds
    connectors := t.connectors ++ [⟨clientFd, socketId⟩] }

def requestDestination (t : ForwardTables) (world : ForwardWorld) (request : PortForwardDestinationRequest) : Outcome :=
  match request.fd.filter (0 < ·) with
  | none => (.error (.protocol "destination request fd is invalid"), t)
  | some clientFd =>
    let peerAdvertised := decodeWindow request.window
    match Endpoint.parseDestination request.destination with
    | .error error => t.connected world clientFd 0 (some error) peerAdvertised
    | .ok destination =>
      if maxActiveSockets ≤ t.totalSockets then
        t.connected world clientFd 0 (some ⟨.other, "forwarding socket limit reached"⟩) peerAdvertised
      else
        match t.allocateSocketId with
        | (.error error, t) => (.error error, t)
        | (.ok socketId, t) =>
          if destination.canConnectInline t.sessionUser && (t.recordedBindsFor destination).isNone then
            t.connected world clientFd socketId world.connection peerAdvertised
          else (.ok (), t.spawnConnector clientFd socketId destination peerAdvertised)

def rejectStaleDestination (t : ForwardTables) (world : ForwardWorld) (response : PortForwardDestinationResponse) : Outcome :=
  if response.error.isSome then (.ok (), t)
  else
    match response.socketid.filter (0 < ·) with
    | none => (.ok (), t)
    | some socketId => t.emit world (.data (sendData .source socketId [] true none))

/-- The data that came before the response is sent. -/
def sendEarly (t : ForwardTables) (world : ForwardWorld) (socketId : Int) (early : Bytes) : Outcome :=
  if early.isEmpty then (.ok (), t) else t.emit world (.data (sendData .source socketId early false none))

/-- The end of `destination_response`: the new source takes over what the accept asked for. -/
def sourceActive (t : ForwardTables) (socketId : Int) (accept : PendingAccept) : ForwardTables :=
  let active := (t.socket (.source, socketId)).map fun s => { s with halfCloseOnEof := accept.halfCloseOnEof }
  { t.setSocket (.source, socketId) active with
    freshSources := if t.engine then t.freshSources ++ [socketId] else t.freshSources
    attached := t.attached ++ [accept.serial] }

/-- The rest of `destination_response` for an accept that is no longer pending. -/
def attach (t : ForwardTables) (world : ForwardWorld) (socketId : Int) (accept : PendingAccept)
    (peerAdvertised : Option FlowWindow) : Outcome :=
  match t.sendEarly world socketId accept.early with
  | (.error error, t) => (.error error, t)
  | (.ok (), t) =>
    match t.activate world (.source, socketId) peerAdvertised none with
    | (.error error, t) => (.error error, t)
    | (.ok (), t) => (.ok (), t.sourceActive socketId accept)

def destinationResponse (t : ForwardTables) (world : ForwardWorld) (response : PortForwardDestinationResponse) : Outcome :=
  match response.clientfd with
  | none => (.ok (), t)
  | some clientFd =>
    match t.pending.lookup clientFd with
    | none => t.rejectStaleDestination world response
    | some accept =>
      let t := { t with pending := t.pending.erase clientFd }
      if response.error.isSome then (.ok (), t.unpark accept)
      else
        match response.socketid.filter (0 < ·) with
        | none => (.ok (), t.unpark accept)
        | some socketId => t.attach world socketId accept (decodeWindow response.window)

/-- What an operation on one socket leaves behind; it fails when it cannot emit. -/
def handle (t : ForwardTables) (world : ForwardWorld) (key : SocketKey) (h : Handled) : Outcome :=
  match world.emission, h.emitted ++ h.credits with
  | some error, _ :: _ => (.error error, t)
  | _, messages =>
    (.ok (), { t.setSocket key h.socket with
      held := t.held ++ h.held.map fun buffer => (key, buffer)
      emitted := t.emitted ++ messages.map .data })

def handlePacket (t : ForwardTables) (world : ForwardWorld) : ForwardPacket → Outcome
  | .request none => (.error (.protocol "malformed destination request"), t)
  | .request (some request) => t.requestDestination world request
  | .response none => (.error (.protocol "malformed destination response"), t)
  | .response (some response) => t.destinationResponse world response
  | .data none => (.error (.protocol "malformed forwarding data"), t)
  | .data (some (d, header)) => t.handle world d.key (handleData d.key.1 d.key.2 header (t.socket d.key) d)
  | .unsupported => (.error (.protocol "unsupported forwarding packet"), t)

/-- The tokens of the accepts whose response is overdue. -/
def expired (t : ForwardTables) (now : Nat) : List Int :=
  t.pending.keys.filter fun clientFd => (t.pending.lookup clientFd).any fun accept => accept.deadline ≤ now

/-- The body of the loop of `expire_parked`. -/
def expire (t : ForwardTables) (clientFd : Int) : ForwardTables :=
  match t.pending.lookup clientFd with
  | some accept => { t with pending := t.pending.erase clientFd }.unpark accept
  | none => t

def expireParked (t : ForwardTables) (now : Nat) : ForwardTables := (t.expired now).foldl expire t

def flushHeld (t : ForwardTables) : ForwardTables :=
  let r := EternalTerminal.flushHeld socket (fun t key s => t.setSocket key (some s)) t t.held
  { r.1 with held := r.2 }

/-- The worker stops and closes what it has. -/
def finish (t : ForwardTables) : ForwardTables :=
  { t with pending := ∅, sources := ∅, destinations := ∅, held := [], stopped := true }

/-! ### Events -/

end ForwardTables

/-- What happens to a worker. -/
inductive ForwardEvent where
  | accepted (world : ForwardWorld) (clientFd : Int) (destination : SocketEndpoint) (early : Bytes)
      (socksVersion : Option UInt8) (halfCloseOnEof stdio : Bool) (now : Nat)
  /-- The connector at this place of the list reports. -/
  | connected (world : ForwardWorld) (index : Nat) (failure : Option IoError)
  | packet (world : ForwardWorld) (packet : ForwardPacket)
  | service (world : ForwardWorld) (key : SocketKey) (event : ReadySocket) (writes : List WriteResult)
      (turns : List ReadTurn)
  | flushQueuedWrite (world : ForwardWorld) (key : SocketKey) (writes : List WriteResult)
  | flushDueCredits (world : ForwardWorld) (key : SocketKey)
  | flushHeld
  | expireParked (now : Nat)
  | setSshAgentSessionBinds (path : String) (binds : List Bytes)
  | takeOver
  | stop

namespace ForwardTables

def connectorReports (t : ForwardTables) (world : ForwardWorld) (index : Nat) (failure : Option IoError) : Outcome :=
  match t.connectors[index]? with
  | none => (.ok (), t)
  | some connector =>
    let advertised := (t.pendingWindows.lookup connector.socketId).join
    { t with
      connectors := t.connectors.eraseIdx index
      pendingWindows := t.pendingWindows.erase connector.socketId }.connected world connector.clientFd
        connector.socketId failure advertised

def run (t : ForwardTables) : ForwardEvent → Outcome
  | .accepted world clientFd destination early socksVersion halfCloseOnEof stdio now =>
    { t with accepts := t.accepts + 1 }.accepted world clientFd destination
      ⟨early, socksVersion, halfCloseOnEof, stdio, now + unassignedFdTimeout, t.accepts⟩
  | .connected world index failure => t.connectorReports world index failure
  | .packet world packet => t.handlePacket world packet
  | .service world key event writes turns =>
    t.handle world key (serviceEvent key.1 key.2 (t.socket key) event writes turns)
  | .flushQueuedWrite world key writes =>
    t.handle world key (EternalTerminal.flushQueuedWrite key.1 key.2 (t.socket key) writes)
  | .flushDueCredits world key => t.handle world key (EternalTerminal.flushDueCredits key.1 key.2 (t.socket key))
  | .flushHeld => (.ok (), t.flushHeld)
  | .expireParked now => (.ok (), t.expireParked now)
  | .setSshAgentSessionBinds path binds =>
    (.ok (), { t with sshAgentSocketPath := path, sshAgentSessionBinds := binds })
  | .takeOver => (.ok (), { t with engine := true })
  | .stop => (.error .unavailable, t)

/-- A worker that has not stopped handles an event, and stops if it fails. -/
def apply (t : ForwardTables) (e : ForwardEvent) : Option ForwardTables :=
  if t.stopped then none
  else
    match t.run e with
    | (.ok (), t) => some t
    | (.error _, t) => some t.finish

end ForwardTables

def ForwardTables.Step (t t' : ForwardTables) : Prop := ∃ e, t.apply e = some t'

end EternalTerminal
