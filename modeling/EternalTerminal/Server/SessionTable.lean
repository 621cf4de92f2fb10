import EternalTerminal.Server.Registry

/-!
# Server — the session table

`session_table.rs`, `session_slot.rs` and the expiry sweep of `runtime_lifecycle.rs`: the slot of each id, which a
client claims, and the `SessionStart` that holds a claimed slot until it activates it or is dropped.

The table and the registry have a lock each.  `claim` and the sweep hold the table's lock while they take the
registry's several times, so a run (`SessionRun`) has a `holder`: the section under the table's lock that is not over
yet.  In between, other threads may change the registry, but not the table.
-/

namespace EternalTerminal

/-- Errors of the table. -/
inductive SessionTableError where
  | unavailable
  | shuttingDown
  | obsoleteRegistration
  | timeout
  | invalidTransition
  | startingBusy
  | io
  deriving DecidableEq

/-- A session, by its number, or the socket of one that starts. -/
inductive SessionConnection where
  | starting (socket : Nat)
  | active (session : Nat)
  deriving DecidableEq

/-- The state of an id. -/
inductive Slot where
  | registered (registration : Registration)
  | starting (registration : Registration) (socket : Nat)
  | active (registration : Registration) (session : Nat)
  deriving DecidableEq

namespace Slot

def registration : Slot → Registration
  | registered registration | starting registration _ | active registration _ => registration

def intoConnection : Slot → Option SessionConnection
  | registered _ => none
  | starting _ socket => some (.starting socket)
  | active _ session => some (.active session)

def isRegistered : Slot → Bool
  | registered _ => true
  | _ => false

def isStarting : Slot → Bool
  | starting _ _ => true
  | _ => false

end Slot

/-- What the table locks. -/
structure TableState where
  slots : IdMap Slot
  shutdown : Bool

/-- An uncommitted start.  The source has the registration only; `socket` is the number of the socket its claim put
into the slot, which tells starts apart. -/
structure SessionStart where
  registration : Registration
  socket : Nat
  /-- Its activation failed, so that only the drop is left. -/
  failed : Bool
  deriving DecidableEq

/-- What a claim answers. -/
inductive SessionClaim where
  | new (start : SessionStart) (replaced : Option SessionConnection)
  | returning (session : Nat)
  deriving DecidableEq

/-- What one pass of the loop in `claim` comes to. -/
inductive ClaimTurn where
  | again (state : TableState) (replaced : Option SessionConnection)
  | done (state : TableState) (result : Except SessionTableError SessionClaim)

/-- What the sweep decides about a registration under the table's lock. -/
inductive ExpiryDecision where
  | stop
  | skip
  | expire (removeSlot : Bool)
  deriving DecidableEq

namespace TableState

def new : TableState := ⟨∅, false⟩

/-- The conditions at the head of the loop. -/
def claimCheck (state : TableState) (registration : Registration) (registry : RegistryState) :
    Except SessionTableError Unit :=
  if state.shutdown then .error .shuttingDown
  else if registry.contains registration.toIdentity then .ok ()
  else .error .obsoleteRegistration

/-- The rest of a pass.  The socket is there: the pass that takes it returns. -/
def claimTurn (state : TableState) (registration : Registration) (socket : Nat)
    (replaced : Option SessionConnection) : ClaimTurn :=
  match state.slots.lookup registration.id with
  | none =>
    .again { state with slots := state.slots.insert registration.id (.registered registration) } replaced
  | some slot =>
    if !slot.registration.sameGeneration registration then
      .again { state with slots := state.slots.insert registration.id (.registered registration) }
        slot.intoConnection
    else
      match slot with
      | .registered stored =>
        .done { state with slots := state.slots.insert registration.id (.starting stored socket) }
          (.ok (.new ⟨stored, socket, false⟩ replaced))
      | .starting _ _ => .done state (.error .startingBusy)
      | .active _ session => .done state (.ok (.returning session))

/-- `remove_registration_with`, which also tells its callback whether the slot is not active. -/
def removeRegistrationWith (state : TableState) (identity : RegistrationIdentity) :
    Option (Bool × Option SessionConnection) × TableState :=
  match state.slots.lookup identity.id with
  | none => (none, state)
  | some slot =>
    if !identity.matches slot.registration then (none, state)
    else
      let shutdownRaw := match slot with
        | .active _ _ => false
        | _ => true
      (some (shutdownRaw, slot.intoConnection), { state with slots := state.slots.erase identity.id })

def beginShutdown (state : TableState) : List SessionConnection × TableState :=
  (state.slots.entries.filterMap fun entry => entry.2.intoConnection, ⟨∅, true⟩)

/-- The slot of the id is starting and of the registration's generation. -/
def startingAs (state : TableState) (registration : Registration) : Bool :=
  match state.slots.lookup registration.id with
  | none => false
  | some slot => slot.isStarting && slot.registration.sameGeneration registration

/-- The checks of `expire_unclaimed_resumes` under the table's lock; `authenticated` is the answer of
`has_authenticated_registration`. -/
def expiryDecision (state : TableState) (registration : Registration) (authenticated : Bool) : ExpiryDecision :=
  if state.shutdown then .stop
  else
    let currentSlot := (state.slots.lookup registration.id).filter fun slot =>
      registration.toIdentity.matches slot.registration
    if currentSlot.any (!·.isRegistered) then .skip
    else if authenticated then .skip
    else .expire currentSlot.isSome

end TableState

namespace SessionStart

def activate (start : SessionStart) (state : TableState) (session : Nat) : Except SessionTableError TableState :=
  if state.shutdown then .error .shuttingDown
  else if !state.startingAs start.registration then .error .invalidTransition
  else .ok { state with slots := state.slots.insert start.registration.id (.active start.registration session) }

/-- The drop of a start that is not committed. -/
def drop (start : SessionStart) (state : TableState) : TableState :=
  if state.startingAs start.registration then
    { state with slots := state.slots.insert start.registration.id (.registered start.registration) }
  else state

end SessionStart

/-- Whether the sweep looks at a resumed terminal at all. -/
def expiryDue (disconnectTimeoutSeconds : Int) (registration : Registration) (registeredAt now : Nat) : Bool :=
  let seconds := registration.disconnectTimeoutSeconds.getD disconnectTimeoutSeconds
  !(seconds ≤ 0 || now - registeredAt < max (seconds.toNat * 10 ^ 9) recoveryGrace)

/-! ### Runs -/

/-- A sweep that is not over: the terminals it has not looked at yet. -/
structure ExpirySweep where
  now : Nat
  rest : List (Registration × Nat)

/-- The registry call a sweep makes next under the table's lock; after the last one it removes the slot. -/
inductive ExpiryStage where
  | clone
  | remove
  | finish
  deriving DecidableEq

/-- The section that holds the table's lock. -/
inductive TableHolder where
  /-- A claim; `current` after its checks passed, before it looks at the slot. -/
  | claim (registration : Registration) (socket : Nat) (replaced : Option SessionConnection) (current : Bool)
  | expire (sweep : ExpirySweep) (registration : Registration) (removeSlot : Bool) (stage : ExpiryStage)

/-- The table and the registry, with the starts, sweeps and lock holder. -/
structure SessionRun where
  registry : RegistryState
  table : TableState
  starts : List SessionStart
  holder : Option TableHolder
  sweeps : List ExpirySweep
  disconnectTimeoutSeconds : Int
  nextIdentity : Nat
  nextSocket : Nat

/-- A step of some thread. -/
inductive SessionEvent where
  | register (userInfo : TerminalUserInfo) (stream : Nat) (peer : PeerIdentity) (peerClosed : Bool) (now : Nat)
  | removeIfCurrent (identity : RegistrationIdentity) (now : Nat)
  | claim (registration : Registration)
  | claimCheck
  | claimTurn
  | activate (socket session : Nat)
  | drop (socket : Nat)
  | removeRegistrationWith (identity : RegistrationIdentity)
  | beginShutdown
  /-- A sweep reads the resumed terminals, in the order of the map. -/
  | expireBegin (now : Nat) (order : List (Registration × Nat))
  /-- A sweep goes on to its next terminal. -/
  | expireNext (index : Nat) (authenticated : Bool)
  | expireClone (cloned : Bool)
  | expireRemove (now : Nat)
  | expireFinish
  deriving DecidableEq

/-- The parts of `expire_unclaimed_resumes`. -/
def SessionEvent.isExpiry : SessionEvent → Bool
  | expireBegin _ _ | expireNext _ _ | expireClone _ | expireRemove _ | expireFinish => true
  | _ => false

/-- The start a claim hands out. -/
def startOf : Except SessionTableError SessionClaim → List SessionStart
  | .ok (.new start _) => [start]
  | _ => []

namespace SessionRun

def start (disconnectTimeoutSeconds : Int) : SessionRun where
  registry := .new
  table := .new
  starts := []
  holder := none
  sweeps := []
  disconnectTimeoutSeconds
  nextIdentity := 0
  nextSocket := 0

def openStart (s : SessionRun) (socket : Nat) : Option SessionStart := s.starts.find? (·.socket = socket)

def without (s : SessionRun) (socket : Nat) : List SessionStart := s.starts.filter (·.socket ≠ socket)

/-- The sweep leaves the table's lock and goes on. -/
def resume (s : SessionRun) (sweep : ExpirySweep) : SessionRun :=
  { s with holder := none, sweeps := sweep :: s.sweeps }

/-- The next pass of the loop of a sweep, up to its decision under the table's lock. -/
def expireNext (s : SessionRun) (index : Nat) (authenticated : Bool) : Option SessionRun :=
  match s.sweeps[index]? with
  | none => none
  | some ⟨_, []⟩ => some { s with sweeps := s.sweeps.eraseIdx index }
  | some ⟨now, (registration, registeredAt) :: rest⟩ =>
    let sweeps := s.sweeps.eraseIdx index
    if !expiryDue s.disconnectTimeoutSeconds registration registeredAt now then
      some { s with sweeps := ⟨now, rest⟩ :: sweeps }
    else if s.holder.isSome then none
    else
      match s.table.expiryDecision registration authenticated with
      | .stop => some { s with sweeps := sweeps }
      | .skip => some { s with sweeps := ⟨now, rest⟩ :: sweeps }
      | .expire removeSlot =>
        some { s with holder := some (.expire ⟨now, rest⟩ registration removeSlot .clone), sweeps := sweeps }

/-- One step of some thread.  `none`: the step is not possible here, because the lock is held or nobody is there to
take it.  A registration that is claimed exists, and `remove_registration_with` is called only for a registration that
has left the registry. -/
def apply (s : SessionRun) : SessionEvent → Option SessionRun
  | .register userInfo stream peer peerClosed now =>
    some { s with
      registry := (s.registry.register userInfo stream peer s.nextIdentity (fun _ => peerClosed) now).2
      nextIdentity := s.nextIdentity + 1 }
  | .removeIfCurrent identity now => some { s with registry := (s.registry.removeIfCurrent identity now).2 }
  | .claim registration =>
    if s.holder.isNone ∧ registration.identity < s.nextIdentity then
      some { s with
        holder := some (.claim registration s.nextSocket none false)
        nextSocket := s.nextSocket + 1 }
    else none
  | .claimCheck =>
    match s.holder with
    | some (.claim registration socket replaced false) =>
      match s.table.claimCheck registration s.registry with
      | .error _ => some { s with holder := none }
      | .ok () => some { s with holder := some (.claim registration socket replaced true) }
    | _ => none
  | .claimTurn =>
    match s.holder with
    | some (.claim registration socket replaced true) =>
      match s.table.claimTurn registration socket replaced with
      | .again table replaced =>
        some { s with table := table, holder := some (.claim registration socket replaced false) }
      | .done table result =>
        some { s with table := table, starts := startOf result ++ s.starts, holder := none }
    | _ => none
  | .activate socket session =>
    match s.openStart socket with
    | none => none
    | some start =>
      if s.holder.isSome || start.failed then none
      else
        match start.activate s.table session with
        | .error _ => some { s with starts := { start with failed := true } :: s.without socket }
        | .ok table => some { s with table := table, starts := s.without socket }
  | .drop socket =>
    match s.openStart socket with
    | none => none
    | some start =>
      if s.holder.isSome then none
      else some { s with table := start.drop s.table, starts := s.without socket }
  | .removeRegistrationWith identity =>
    if s.holder.isNone ∧ s.registry.contains identity = false then
      some { s with table := (s.table.removeRegistrationWith identity).2 }
    else none
  | .beginShutdown => if s.holder.isNone then some { s with table := s.table.beginShutdown.2 } else none
  | .expireBegin now order =>
    if order.Perm s.registry.resumed then some { s with sweeps := ⟨now, order⟩ :: s.sweeps } else none
  | .expireNext index authenticated => s.expireNext index authenticated
  | .expireClone cloned =>
    match s.holder with
    | some (.expire sweep registration removeSlot .clone) =>
      match s.registry.cloneStream registration cloned with
      | .ok _ => some { s with holder := some (.expire sweep registration removeSlot .remove) }
      | .error .unavailable => some (s.resume sweep)
      -- the error ends the sweep
      | .error _ => some { s with holder := none }
    | _ => none
  | .expireRemove now =>
    match s.holder with
    | some (.expire sweep registration removeSlot .remove) =>
      match s.registry.removeIfCurrent registration.toIdentity now with
      | (true, registry) =>
        some { s with registry := registry, holder := some (.expire sweep registration removeSlot .finish) }
      | (false, registry) => some { s.resume sweep with registry := registry }
    | _ => none
  | .expireFinish =>
    match s.holder with
    | some (.expire sweep registration removeSlot .finish) =>
      if removeSlot then
        some { s.resume sweep with
          table := { s.table with slots := s.table.slots.erase registration.id } }
      else some (s.resume sweep)
    | _ => none

end SessionRun

/-- One step that is possible. -/
inductive SessionStep : SessionRun → SessionRun → Prop where
  | step (s : SessionRun) (e : SessionEvent) (s' : SessionRun) (h : s.apply e = some s') : SessionStep s s'

end EternalTerminal
