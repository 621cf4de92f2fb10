import EternalTerminal.Core.OutputInterrupt
import EternalTerminal.Lib.Interference
import EternalTerminal.Server.Registry

/-!
# Server — the router's poll loop

`router_loop.rs` on Unix.  The router polls its listener, the connections whose registration is still being read and
the registered terminals, and then `service` acts on what poll reported.  Meanwhile the terminals connect, write, read
and close, and the sessions use the registry and the streams.

`service` is a program (`Lib/Interference`): each of its operations is one system call or one section under the
registry's lock, and anything may happen between two of them.  Two operations are coarser than that, and see the same
as some interleaving of their parts would:

* `read` is all of `read_decoder`.  Only the router reads such a stream, so the reads of one call get what a single
  look at the moment of the last one gets.
* `register` holds the registry's lock, and `peer_closed` reads one stream.

Calls that are interrupted change nothing and are left out.  The fields of `RouterPoll` are part of the shared state
(`store`), where only the router writes them.
-/

namespace EternalTerminal
open Bytes Protobuf

def terminalUserInfo : UInt8 := 8
def registrationStatus : UInt8 := 254
def startupStatus : UInt8 := 255

def maxStatusMessage : Nat := 8 * 1024
def maxStartupStatusLen : Nat := headerLen + 1 + maxStatusMessage
def maxRegistrationLen : Nat := 4096
def maxPendingRegistrations : Nat := 64

/-- `REGISTRATION_TIMEOUT`, in nanoseconds. -/
def registrationTimeout : Nat := 5 * 10 ^ 9

/-! ### Local packets -/

/-- What `write_local_packet` puts on the stream. -/
def localFrame (packet : Packet) : Bytes :=
  leBytes 8 packet.wireLen ++ (if packet.encrypted then 1 else 0) :: packet.header :: packet.payload

/-- `prost`'s reader of the message, which refuses a wrong wire type also in the fields that are not used. -/
def TerminalUserInfo.decode (bytes : Bytes) : Option TerminalUserInfo := do
  let fields ← decodeFields bytes
  let id ← optionalString 1 fields
  let passkey ← optionalString 2 fields
  let _uid ← optionalVarint 3 fields
  let _gid ← optionalVarint 4 fields
  let fd ← optionalVarint 5 fields
  let ptyactive ← optionalVarint 6 fields
  let hadreversetunnels ← optionalVarint 7 fields
  let disconnectTimeoutSeconds ← optionalVarint 8 fields
  let upstreamRouterStream ← optionalVarint 1000 fields
  return {
    id, passkey
    fd := fd.map int64OfVarint
    ptyactive := ptyactive.map (· != 0)
    hadreversetunnels := hadreversetunnels.map (· != 0)
    disconnectTimeoutSeconds := disconnectTimeoutSeconds.map int32OfVarint
    upstreamRouterStream := upstreamRouterStream.map (· != 0) }

def statusPacket (header : UInt8) (result : Except Bytes Unit) : Packet :=
  .new header (match result with
    | .ok () => [0]
    | .error message => 1 :: message.take maxStatusMessage)

def registrationStatusPacket : Except Bytes RouterFraming → Packet
  | .ok .packets => statusPacket registrationStatus (.ok ())
  | .ok .upstream => .new registrationStatus [0, 1]
  | .error message => statusPacket registrationStatus (.error message)

/-- `parse_status`, with the text of its error; `fromUtf8Lossy` is the standard library's. -/
def parseStatus (fromUtf8Lossy : Bytes → Bytes) (packet : Packet) (expectedHeader : UInt8) : Except Bytes Unit :=
  if packet.encrypted || packet.header != expectedHeader then .error (ascii "unexpected local status packet")
  else
    match packet.payload with
    | [0] => .ok ()
    | 1 :: message =>
      if message.length ≤ maxStatusMessage then .error (fromUtf8Lossy message)
      else .error (ascii "malformed local status packet")
    | _ => .error (ascii "malformed local status packet")

/-! ### Sockets -/

/-- The peer's end of a socket. -/
inductive PeerEnd where
  | connected
  | closed
  /-- It closed with unread data in its receive queue, and no call has returned that error. -/
  | reset
  deriving DecidableEq

/-- The router's end of a connection. -/
structure LocalSocket where
  /-- Sent by the peer and not read yet. -/
  incoming : Bytes
  peer : PeerEnd
  /-- Written to the peer, which has not read it. -/
  unread : Bytes

/-- What a receive answers. -/
inductive Received where
  | bytes (bytes : Bytes)
  | eof
  | wouldBlock
  | failed

/-- What `poll` reports. -/
structure PollFlags where
  input : Bool := false
  hup : Bool := false
  err : Bool := false

def PollFlags.any (flags : PollFlags) : Bool := flags.input || flags.hup || flags.err

namespace LocalSocket

def connected : LocalSocket := ⟨[], .connected, []⟩

/-- The peer has closed. -/
def closed (sock : LocalSocket) : Bool := sock.peer != .connected

/-- What a call finds when no bytes are left; an error is returned once. -/
def recvEmpty (sock : LocalSocket) : Received × LocalSocket :=
  match sock.peer with
  | .reset => (.failed, { sock with peer := .closed })
  | .closed => (.eof, sock)
  | .connected => (.wouldBlock, sock)

/-- `recv` with `PEEK`, into one byte. -/
def peek (sock : LocalSocket) : Received × LocalSocket :=
  if sock.incoming = [] then sock.recvEmpty else (.bytes (sock.incoming.take 1), sock)

/-- What `poll` reports when `IN` is asked for as well. -/
def poll (sock : LocalSocket) : PollFlags where
  input := sock.incoming ≠ [] || sock.closed
  hup := sock.closed
  err := sock.peer = .reset

def peerClosed (sock : LocalSocket) : Bool :=
  if sock.poll.err then true
  else if !(sock.poll.input || sock.poll.hup) then false
  else
    match sock.peek.1 with
    | .eof => true
    | .bytes _ => false
    | _ => sock.poll.hup

end LocalSocket

/-- What a read of a decoder comes to. -/
inductive RouterReadOutcome where
  | pending
  | packet (packet : Packet)
  | reject

def RouterReadOutcome.isPacket : RouterReadOutcome → Bool
  | .packet _ => true
  | _ => false

/-- A read that finds no bytes, in `read_decoder`. -/
def readEnd (decoder : LocalPacketDecoder) (sock : LocalSocket) : RouterReadOutcome × LocalPacketDecoder × LocalSocket :=
  match sock.recvEmpty with
  | (.eof, sock) =>
    match decoder.finish with
    | .ok () => (.pending, .new, sock)
    | .error _ => (.reject, .new, sock)
  | (.wouldBlock, sock) => (.pending, decoder, sock)
  | (_, sock) => (.reject, decoder, sock)

/-- `read_decoder`: it reads until the decoder has its packet, or until the socket has nothing more. -/
def readDecoder (decoder : LocalPacketDecoder) (sock : LocalSocket) :
    RouterReadOutcome × LocalPacketDecoder × LocalSocket :=
  let needed := min decoder.requiredBytes 8192
  if needed = 0 then (.reject, decoder, sock)
  else if sock.incoming = [] then readEnd decoder sock
  else
    let rest := { sock with incoming := sock.incoming.drop needed }
    match decoder.feed (sock.incoming.take needed) with
    | (.ok (some packet), decoder) => (.packet packet, decoder, rest)
    | (.ok none, decoder) => readDecoder decoder rest
    | (.error _, decoder) => (.reject, decoder, rest)
termination_by sock.incoming.length
decreasing_by
  rename_i hneeded hempty
  have hpos : 0 < sock.incoming.length := List.length_pos_iff.mpr hempty
  simp only [List.length_drop]
  omega

/-! ### The router's state -/

/-- A connection that has not registered. -/
structure PendingConnection where
  stream : Nat
  decoder : LocalPacketDecoder
  accepted : Nat
  peer : PeerIdentity

/-- A terminal that is watched. -/
structure WatchedRegistration where
  stream : Nat
  identity : RegistrationIdentity
  startup : Option LocalPacketDecoder

/-- `router_loop.rs`: what the router polls. -/
structure RouterPoll where
  /-- There is a receiver of the lifecycle events. -/
  lifecycle : Bool
  pending : List PendingConnection
  watched : List WatchedRegistration

/-- Why a connection is turned away. -/
inductive RouterReject where
  | malformedFrame
  | encrypted
  | wrongPacketType
  | malformedUserInfo
  | invalidRegistration
  | duplicate
  | registryUnavailable
  | timeout
  deriving DecidableEq

/-- As `{:?}` prints it. -/
def RouterReject.name : RouterReject → String
  | malformedFrame => "MalformedFrame"
  | encrypted => "Encrypted"
  | wrongPacketType => "WrongPacketType"
  | malformedUserInfo => "MalformedUserInfo"
  | invalidRegistration => "InvalidRegistration"
  | duplicate => "Duplicate"
  | registryUnavailable => "RegistryUnavailable"
  | timeout => "Timeout"

/-- What the router tells its owner (`RouterEvent`) and the runtime (`LifecycleEvent`). -/
inductive RouterNotice where
  | registered (id : Bytes)
  | disconnected (id : Bytes)
  | rejected (reason : RouterReject)
  | terminalDisconnected (identity : RegistrationIdentity)
  | terminalResumed

/-- Why the router stops. -/
inductive RouterError where
  | io (error : RegistrationError)
  /-- An index out of range. -/
  | panicked
  deriving DecidableEq

/-- One operation of the router on what it shares. -/
inductive RouterOp where
  | peek (stream : Nat)
  | read (stream : Nat) (decoder : LocalPacketDecoder)
  | reportStartup (identity : RegistrationIdentity) (result : Except Bytes Unit)
  | removeIfCurrent (identity : RegistrationIdentity)
  | accept
  | register (userInfo : TerminalUserInfo) (stream : Nat) (peer : PeerIdentity)
  | write (stream : Nat) (packet : Packet)
  | emit (notice : RouterNotice)
  | now
  /-- The fields of the router change. -/
  | store (router : RouterPoll)

def RouterOp.Res : RouterOp → Type
  | peek _ => Received
  | read _ _ => RouterReadOutcome × LocalPacketDecoder
  | reportStartup _ _ => Except RegistrationError Unit
  | removeIfCurrent _ => Bool
  | accept => Option (Nat × PeerIdentity)
  | register _ _ _ => Except RegistrationError RegisteredTerminal
  | write _ _ => Bool
  | emit _ => Unit
  | now => Nat
  | store _ => Unit

/-- A call of the router. -/
abbrev RouterProgram := Program RouterOp RouterOp.Res

/-- A fallible call of the router. -/
abbrev RouterCall (α : Type) := RouterProgram (Except RouterError α)

/-- The `?` of the source. -/
def RouterCall.andThen {α β : Type} (p : RouterCall α) (f : α → RouterCall β) : RouterCall β :=
  p.bind fun
    | .ok a => f a
    | .error error => .ret (.error error)

/-- `Vec::swap_remove`, what is left. -/
def swapRemove {α : Type} (l : List α) (index : Nat) : List α :=
  match l.getLast? with
  | none => []
  | some last => (l.set index last).dropLast

/-! ### Servicing the watched terminals -/

namespace RouterPoll

/-- The probes at the start of `service`: they add to what poll reported. -/
def probeWatched : List PollFlags → List WatchedRegistration → RouterProgram (List PollFlags)
  | flags :: readiness, w :: watched =>
    .call (.peek w.stream) fun received =>
      (probeWatched readiness watched).bind fun rest =>
        .ret ((match received with
          | .eof => { flags with hup := true }
          | .failed => { flags with err := true }
          | _ => flags) :: rest)
  | readiness, _ => .ret readiness

def disconnectWatched (router : RouterPoll) (index : Nat) : RouterCall RouterPoll :=
  match router.watched[index]? with
  | none => .ret (.error .panicked)
  | some w =>
    let router := { router with watched := swapRemove router.watched index }
    .call (.store router) fun _ => .call (.removeIfCurrent w.identity) fun (removed : Bool) =>
      if removed then
        .call (.emit (.disconnected w.identity.id)) fun _ =>
          if router.lifecycle then
            .call (.emit (.terminalDisconnected w.identity)) fun _ => .ret (.ok router)
          else .ret (.ok router)
      else .ret (.ok router)

/-- The fields after a change to the decoder of a watched terminal. -/
def withStartup (router : RouterPoll) (index : Nat) (w : WatchedRegistration) (startup : Option LocalPacketDecoder) :
    RouterPoll :=
  { router with watched := router.watched.set index { w with startup } }

variable (fromUtf8Lossy : Bytes → Bytes)

/-- The part of `service_watched` that reads a startup status. -/
def readStartup (router : RouterPoll) (index : Nat) (w : WatchedRegistration) (decoder : LocalPacketDecoder) :
    RouterCall RouterPoll :=
  .call (.read w.stream decoder) fun (outcome, decoder) =>
    let router := router.withStartup index w (some decoder)
    let settled := router.withStartup index w none
    .call (.store router) fun _ =>
      match outcome with
      | .packet packet =>
        .call (.reportStartup w.identity (parseStatus fromUtf8Lossy packet startupStatus)) fun
          | .ok () => .call (.store settled) fun _ => .ret (.ok settled)
          | .error error => .ret (.error (.io error))
      | .reject =>
        .call (.reportStartup w.identity (.error (ascii "malformed terminal startup status"))) fun _ =>
          .call (.store settled) fun _ => .ret (.ok settled)
      | .pending => .ret (.ok router)

/-- The body of the loop of `service_watched`. -/
def serviceWatchedAt (readiness : List PollFlags) (index : Nat) (router : RouterPoll) : RouterCall RouterPoll :=
  let flags := readiness.getD index {}
  match router.watched[index]? with
  | none => .ret (.error .panicked)
  | some w =>
    RouterCall.andThen
      (match w.startup with
        | some decoder => if flags.input then readStartup fromUtf8Lossy router index w decoder else .ret (.ok router)
        | none => .ret (.ok router))
      fun router => if flags.hup || flags.err then disconnectWatched router index else .ret (.ok router)

/-- The loop of `service_watched`, over the indices below a bound, the last one first. -/
def serviceWatched (readiness : List PollFlags) : Nat → RouterPoll → RouterCall RouterPoll
  | 0, router => .ret (.ok router)
  | index + 1, router =>
    RouterCall.andThen (serviceWatchedAt fromUtf8Lossy readiness index router) (serviceWatched readiness index)

/-! ### Servicing the listener and the pending connections -/

/-- `accept_ready`, with room for `room` more connections.  `accept` finds a connection, or none, also where it is out
of descriptors. -/
def acceptReady : Nat → RouterPoll → RouterCall RouterPoll
  | 0, router => .ret (.ok router)
  | room + 1, router =>
    .call .accept fun
      | none => .ret (.ok router)
      | some (stream, peer) =>
        .call .now fun now =>
          let connection := ⟨stream, .withLimit maxRegistrationLen, now, peer⟩
          let router := { router with pending := router.pending ++ [connection] }
          .call (.store router) fun _ => acceptReady room router

def mapError : RegistrationError → RouterReject
  | .invalid => .invalidRegistration
  | .duplicate => .duplicate
  | .unavailable => .registryUnavailable
  | .timeout => .registryUnavailable
  | .io => .registryUnavailable

/-- The checks of `process` before it registers. -/
def userInfoOf (packet : Packet) : Except RouterReject TerminalUserInfo :=
  if packet.encrypted then .error .encrypted
  else if packet.header ≠ terminalUserInfo then .error .wrongPacketType
  else
    match TerminalUserInfo.decode packet.payload with
    | none => .error .malformedUserInfo
    | some userInfo => .ok userInfo

/-- The refusal of a terminal that waits for its status. -/
def rejectionStatus (reason : RouterReject) : Packet :=
  registrationStatusPacket (.error (ascii ("registration rejected: " ++ reason.name)))

/-- The end of `complete_registration` when the terminal is registered. -/
def acknowledge (terminal : RegisteredTerminal) : RouterCall (Option RegisteredTerminal) :=
  if terminal.startupAck then
    .call (.write terminal.watcher (registrationStatusPacket (.ok terminal.routerFraming))) fun
      | true => .ret (.ok (some terminal))
      | false =>
        .call (.removeIfCurrent terminal.identity) fun _ =>
          .call (.emit (.rejected .registryUnavailable)) fun _ => .ret (.ok none)
  else .ret (.ok (some terminal))

/-- `complete_registration` with `process`. -/
def completeRegistration (connection : PendingConnection) (packet : Packet) :
    RouterCall (Option RegisteredTerminal) :=
  match userInfoOf packet with
  | .error reason => .call (.emit (.rejected reason)) fun _ => .ret (.ok none)
  | .ok userInfo =>
    .call (.register userInfo connection.stream connection.peer) fun
      | .ok terminal => acknowledge terminal
      | .error error =>
        let refused : RouterCall (Option RegisteredTerminal) :=
          .call (.emit (.rejected (mapError error))) fun _ => .ret (.ok none)
        if userInfo.fd = some (-6) then
          .call (.write connection.stream (rejectionStatus (mapError error))) fun _ => refused
        else refused

def startupWatch (terminal : RegisteredTerminal) : Option LocalPacketDecoder :=
  if terminal.startupAck && !terminal.resumed then some (.withLimit maxStartupStatusLen) else none

/-- The end of a registration in `service`. -/
def watch (router : RouterPoll) (terminal : RegisteredTerminal) : RouterCall RouterPoll :=
  let router := { router with
    watched := router.watched ++ [⟨terminal.watcher, terminal.identity, startupWatch terminal⟩] }
  .call (.store router) fun _ => .call (.emit (.registered terminal.identity.id)) fun _ =>
    if terminal.resumed && router.lifecycle then .call (.emit .terminalResumed) fun _ => .ret (.ok router)
    else .ret (.ok router)

/-- The body of the loop over the connections poll reported. -/
def serviceReadyAt (index : Nat) (router : RouterPoll) : RouterCall RouterPoll :=
  match router.pending[index]? with
  | none => .ret (.error .panicked)
  | some connection =>
    .call (.read connection.stream connection.decoder) fun (outcome, decoder) =>
      let removed := { router with pending := swapRemove router.pending index }
      match outcome with
      | .pending =>
        let router := { router with pending := router.pending.set index { connection with decoder } }
        .call (.store router) fun _ => .ret (.ok router)
      | .packet packet =>
        .call (.store removed) fun _ =>
          RouterCall.andThen (completeRegistration connection packet) fun
            | some terminal => watch removed terminal
            | none => .ret (.ok removed)
      | .reject =>
        .call (.store removed) fun _ => .call (.emit (.rejected .malformedFrame)) fun _ => .ret (.ok removed)

def serviceReady : List Nat → RouterPoll → RouterCall RouterPoll
  | [], router => .ret (.ok router)
  | index :: rest, router => RouterCall.andThen (serviceReadyAt index router) (serviceReady rest)

/-- The pending connections that poll reported, the last one first. -/
def readyPending (readiness : List PollFlags) : List Nat :=
  ((List.range readiness.length).filter fun index => (readiness.getD index {}).any).reverse

/-! ### The loop -/

def service (router : RouterPoll) (readiness : List PollFlags) : RouterCall Unit :=
  let watchedStart := 1 + router.pending.length
  if readiness.length < watchedStart then .ret (.error .panicked)
  else
    (probeWatched (readiness.drop watchedStart) router.watched).bind fun watchedReadiness =>
      RouterCall.andThen (serviceWatched fromUtf8Lossy watchedReadiness router.watched.length router) fun router =>
        RouterCall.andThen
          (if (readiness.headD {}).input then
            acceptReady (maxPendingRegistrations - router.pending.length) router
          else .ret (.ok router))
          fun router =>
            RouterCall.andThen (serviceReady (readyPending ((readiness.take watchedStart).drop 1)) router)
              fun _ => .ret (.ok ())

/-- `expire_pending`: what is left, and how many expired. -/
def expire (router : RouterPoll) (now : Nat) : RouterPoll × Nat :=
  let pending := router.pending.filter fun connection => now - connection.accepted < registrationTimeout
  ({ router with pending }, router.pending.length - pending.length)

end RouterPoll

end EternalTerminal
