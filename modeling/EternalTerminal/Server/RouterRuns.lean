import EternalTerminal.Server.RouterPoll

/-!
# Server — the router among terminals and sessions

A run: terminals connect, write, read and close at any moment, the sessions use the registry and the streams of
registrations whose startup status was reported or is not expected, and the router expires, polls and services.

`RouterWorld.careful` names the one step that goes wrong: a registration that takes the place of a terminal that hung
up after it had sent its whole startup status.  The router reads that status in its next round, reports it for a
registration that is gone, and stops.
-/

namespace EternalTerminal
open Program

/-- All that a call of the router may see. -/
structure RouterWorld where
  router : RouterPoll
  sockets : Nat → LocalSocket
  nextSocket : Nat
  /-- The connections the listener has not accepted yet. -/
  backlog : List (Nat × PeerIdentity)
  registry : RegistryState
  nextIdentity : Nat
  now : Nat
  notices : List RouterNotice

namespace RouterWorld

def setSocket (s : RouterWorld) (stream : Nat) (sock : LocalSocket) : RouterWorld :=
  { s with sockets := Function.update s.sockets stream sock }

/-- `register`, with the answers `peer_closed` would get. -/
def register (s : RouterWorld) (userInfo : TerminalUserInfo) (stream : Nat) (peer : PeerIdentity) :
    Except RegistrationError RegisteredTerminal × RegistryState :=
  s.registry.register userInfo stream peer s.nextIdentity (fun stream => (s.sockets stream).peerClosed) s.now

/-- What an operation may answer, with the state it leaves. -/
def answers (s : RouterWorld) : (op : RouterOp) → List (op.Res × RouterWorld)
  | .peek stream =>
    let (received, sock) := (s.sockets stream).peek
    [(received, s.setSocket stream sock)]
  | .read stream decoder =>
    let (outcome, decoder, sock) := readDecoder decoder (s.sockets stream)
    [((outcome, decoder), s.setSocket stream sock)]
  | .reportStartup identity result =>
    let (result, registry) := s.registry.reportStartup identity result
    [(result, { s with registry })]
  | .removeIfCurrent identity =>
    let (removed, registry) := s.registry.removeIfCurrent identity s.now
    [(removed, { s with registry })]
  | .accept =>
    match s.backlog with
    | [] => [(none, s)]
    -- without descriptors left, a connection stays where it is
    | connection :: backlog => [(some connection, { s with backlog }), (none, s)]
  | .register userInfo stream peer =>
    let (result, registry) := s.register userInfo stream peer
    [(result, { s with registry, nextIdentity := s.nextIdentity + 1 })]
  | .write stream packet =>
    let sock := s.sockets stream
    (if sock.closed then []
      else [(true, s.setSocket stream { sock with unread := sock.unread ++ localFrame packet })]) ++ [(false, s)]
  | .emit notice => [((), { s with notices := s.notices ++ [notice] })]
  | .now => [(s.now, s)]
  | .store router => [((), { s with router })]

/-! ### The others -/

end RouterWorld

/-- What terminals and sessions do. -/
inductive TerminalEvent where
  | connect (peer : PeerIdentity)
  | write (stream : Nat) (bytes : Bytes)
  | receive (stream len : Nat)
  | close (stream : Nat)
  /-- A session writes to a terminal. -/
  | sessionWrite (stream : Nat) (bytes : Bytes)
  /-- A session reads from the terminal of its registration. -/
  | sessionRead (identity : RegistrationIdentity) (len : Nat)
  /-- A session gives its registration up. -/
  | removeIfCurrent (identity : RegistrationIdentity)
  | tick (elapsed : Nat)

namespace StoredRegistration

/-- A startup status is expected, and was not reported yet. -/
def awaited (stored : StoredRegistration) : Bool :=
  match stored.startup with
  | .pending => !stored.info.ptyActive
  | _ => false

end StoredRegistration

namespace RouterWorld

/-- A step of a terminal or of a session. -/
def disturb (s : RouterWorld) : TerminalEvent → Option RouterWorld
  | .connect peer =>
    some { s with
      sockets := Function.update s.sockets s.nextSocket .connected
      nextSocket := s.nextSocket + 1
      backlog := s.backlog ++ [(s.nextSocket, peer)] }
  | .write stream bytes =>
    let sock := s.sockets stream
    if sock.closed then none else some (s.setSocket stream { sock with incoming := sock.incoming ++ bytes })
  | .receive stream len =>
    let sock := s.sockets stream
    if sock.closed then none else some (s.setSocket stream { sock with unread := sock.unread.drop len })
  | .close stream =>
    let sock := s.sockets stream
    if sock.closed then none
    else some (s.setSocket stream { sock with peer := if sock.unread.isEmpty then .closed else .reset })
  | .sessionWrite stream bytes =>
    let sock := s.sockets stream
    if sock.closed then none else some (s.setSocket stream { sock with unread := sock.unread ++ bytes })
  | .sessionRead identity len =>
    (s.registry.current identity).bind fun stored =>
      let sock := s.sockets stored.stream
      if stored.awaited then none
      else some (s.setSocket stored.stream { sock with incoming := sock.incoming.drop len })
  | .removeIfCurrent identity =>
    if (s.registry.current identity).any (·.awaited) then none
    else some { s with registry := (s.registry.removeIfCurrent identity s.now).2 }
  | .tick elapsed => some { s with now := s.now + elapsed }

def Disturbs (s t : RouterWorld) : Prop := ∃ e, s.disturb e = some t

/-! ### The registrations that go wrong -/

/-- The watched terminals whose place a registration takes. -/
def replaced (s : RouterWorld) (userInfo : TerminalUserInfo) (stream : Nat) (peer : PeerIdentity) :
    List WatchedRegistration :=
  s.router.watched.filter fun w =>
    s.registry.contains w.identity && !(s.register userInfo stream peer).2.contains w.identity

/-- The bytes that are left to be read from a terminal complete the startup status the router waits for. -/
def leavesStatus (s : RouterWorld) (w : WatchedRegistration) : Bool :=
  w.startup.any fun decoder => (readDecoder decoder (s.sockets w.stream)).1.isPacket

/-- The operation takes the place of no terminal that left its startup status to be read. -/
def careful (s : RouterWorld) : RouterOp → Bool
  | .register userInfo stream peer => (s.replaced userInfo stream peer).all fun w => !s.leavesStatus w
  | _ => true

/-- The world of a router whose operations are all careful. -/
def carefulWorld : World RouterOp RouterOp.Res RouterWorld where
  answers op s := if s.careful op then s.answers op else []
  rely := Relation.ReflTransGen Disturbs
  refl _ := .refl
  trans := .trans

end RouterWorld

/-! ### Runs -/

/-- Where the router is. -/
inductive RouterThread where
  | idle
  /-- `poll` has returned. -/
  | polled (readiness : List PollFlags)
  | serving (program : RouterCall Unit)
  /-- `service` has failed. -/
  | stopped (error : RouterError)

/-- The router among the others. -/
structure RouterSystem where
  world : RouterWorld
  thread : RouterThread

/-- A step of the router or of another. -/
inductive RouterStep where
  | disturb (event : TerminalEvent)
  | expire
  | poll
  | service
  /-- The operation in progress gets the answer of this number, or the call ends. -/
  | answer (choice : Nat)

namespace RouterSystem

def start (lifecycle : Bool) (now : Nat) : RouterSystem where
  world :=
    { router := ⟨lifecycle, [], []⟩
      sockets := fun _ => .connected
      nextSocket := 0
      backlog := []
      registry := .new
      nextIdentity := 0
      now
      notices := [] }
  thread := .idle

/-- What poll reports of the listener, the pending connections and the watched terminals. -/
def readiness (s : RouterWorld) : List PollFlags :=
  { input := !s.backlog.isEmpty } ::
    (s.router.pending.map fun connection => (s.sockets connection.stream).poll) ++
    s.router.watched.map fun w =>
      let flags := (s.sockets w.stream).poll
      { flags with input := flags.input && w.startup.isSome }

def answer (s : RouterSystem) (choice : Nat) : Option RouterSystem :=
  match s.thread with
  | .serving (.ret (.ok ())) => some { s with thread := .idle }
  | .serving (.ret (.error error)) => some { s with thread := .stopped error }
  | .serving (.call op next) =>
    ((s.world.answers op)[choice]?).map fun r => ⟨r.2, .serving (next r.1)⟩
  | _ => none

def apply (fromUtf8Lossy : Bytes → Bytes) (s : RouterSystem) : RouterStep → Option RouterSystem
  | .disturb event => (s.world.disturb event).map fun world => { s with world }
  | .expire =>
    match s.thread with
    | .idle =>
      let (router, expired) := s.world.router.expire s.world.now
      some { s with world := { s.world with
        router
        notices := s.world.notices ++ List.replicate expired (.rejected .timeout) } }
    | _ => none
  | .poll =>
    match s.thread with
    | .idle => some { s with thread := .polled (readiness s.world) }
    | _ => none
  | .service =>
    match s.thread with
    | .polled readiness => some { s with thread := .serving (s.world.router.service fromUtf8Lossy readiness) }
    | _ => none
  | .answer choice => s.answer choice

def Step (fromUtf8Lossy : Bytes → Bytes) (s t : RouterSystem) : Prop := ∃ e, s.apply fromUtf8Lossy e = some t

/-- The step is no registration that goes wrong. -/
def careful (s : RouterSystem) : RouterStep → Bool
  | .answer _ =>
    match s.thread with
    | .serving (.call op _) => s.world.careful op
    | _ => true
  | _ => true

/-- A step that is careful. -/
def CarefulStep (fromUtf8Lossy : Bytes → Bytes) (s t : RouterSystem) : Prop :=
  ∃ e, s.careful e = true ∧ s.apply fromUtf8Lossy e = some t

end RouterSystem

end EternalTerminal
