import Mathlib.Data.List.AList
import EternalTerminal.Net.RouterStream

/-!
# Server — the terminal registry

`registry.rs` and `registry_validation.rs` on Unix: the registrations of the terminals, by id.  Every registration
that passes `validate` is a new *generation*; the source compares generations by the address of an `Arc<()>`, the
model by a number that no earlier registration got.  A registration stays until it is removed (`removeIfCurrent`,
which leaves any other generation alone) or until the same id registers again after its peer closed (`register`).

Each function is one section under the registry's lock.  Instants are in nanoseconds.
-/

namespace EternalTerminal
open AList

/-- A hash map from ids.  The iteration order of the source's map is not fixed; where it matters, it is an input. -/
abbrev IdMap (V : Type) := AList fun _ : Bytes => V

def idLen : Nat := 16
def passkeyLen : Nat := 32

/-- `RECOVERY_GRACE` of `et_core`. -/
def recoveryGrace : Nat := 60 * 10 ^ 9

def isAsciiAlphanumeric (byte : UInt8) : Bool :=
  (48 ≤ byte && byte ≤ 57) || (65 ≤ byte && byte ≤ 90) || (97 ≤ byte && byte ≤ 122)

def passkeyToKey (passkey : Bytes) : Option Bytes :=
  if passkey.length ≠ passkeyLen || !passkey.all isAsciiAlphanumeric then none else some passkey

/-- The fields of the message that are read on Unix: the user and the group come from the kernel. -/
structure TerminalUserInfo where
  id : Option Bytes := none
  passkey : Option Bytes := none
  fd : Option Int := none
  ptyactive : Option Bool := none
  hadreversetunnels : Option Bool := none
  disconnectTimeoutSeconds : Option Int := none
  upstreamRouterStream : Option Bool := none
  deriving DecidableEq

/-- The credentials of a local peer. -/
structure PeerIdentity where
  uid : Nat
  gid : Nat
  deriving DecidableEq

/-- What a terminal registered with. -/
structure Registration where
  id : Bytes
  key : Bytes
  uid : Nat
  gid : Nat
  startupAck : Bool
  routerFraming : RouterFraming
  ptyActive : Bool
  hadReverseTunnels : Bool
  disconnectTimeoutSeconds : Option Int
  /-- The generation. -/
  identity : Nat
  deriving DecidableEq

/-- An id and its generation. -/
structure RegistrationIdentity where
  id : Bytes
  identity : Nat
  deriving DecidableEq

namespace Registration

/-- What `RegistrationIdentity` keeps of a registration. -/
def toIdentity (registration : Registration) : RegistrationIdentity := ⟨registration.id, registration.identity⟩

def sameGeneration (registration other : Registration) : Bool :=
  registration.id = other.id && registration.identity = other.identity

end Registration

def RegistrationIdentity.matches (identity : RegistrationIdentity) (registration : Registration) : Bool :=
  identity.id = registration.id && identity.identity = registration.identity

theorem Registration.sameGeneration_iff {a b : Registration} :
    a.sameGeneration b = true ↔ a.toIdentity = b.toIdentity := by
  simp [Registration.sameGeneration, Registration.toIdentity]

theorem RegistrationIdentity.matches_iff {identity : RegistrationIdentity} {registration : Registration} :
    identity.matches registration = true ↔ identity = registration.toIdentity := by
  cases identity
  simp [RegistrationIdentity.matches, Registration.toIdentity]

/-- Errors of the registry. -/
inductive RegistrationError where
  | invalid
  | duplicate
  | unavailable
  | timeout
  | io
  deriving DecidableEq

/-- `validate`; `identity` is the `Arc` the registration gets. -/
def validate (userInfo : TerminalUserInfo) (peer : PeerIdentity) (identity : Nat) :
    Except RegistrationError Registration :=
  match userInfo.id with
  | none => .error .invalid
  | some id =>
    if id.length ≠ idLen || !id.all isAsciiAlphanumeric then .error .invalid
    else
      match userInfo.passkey.bind passkeyToKey with
      | none => .error .invalid
      | some key =>
        let startupAck := userInfo.fd = some (-6)
        .ok {
          id, key
          uid := peer.uid
          gid := peer.gid
          startupAck
          -- old terminals ask for the status without announcing the raw stream
          routerFraming :=
            if startupAck && userInfo.upstreamRouterStream ≠ some true then .packets else .upstream
          ptyActive := userInfo.ptyactive.getD false
          hadReverseTunnels := userInfo.hadreversetunnels.getD false
          disconnectTimeoutSeconds := userInfo.disconnectTimeoutSeconds
          identity }

theorem validate_identity {userInfo : TerminalUserInfo} {peer : PeerIdentity} {identity : Nat}
    {registration : Registration} (h : validate userInfo peer identity = .ok registration) :
    registration.identity = identity := by
  unfold validate at h
  split at h
  · cases h
  split at h
  · cases h
  split at h
  · cases h
  · cases h
    rfl

/-- The startup status of a terminal. -/
inductive StartupState where
  | legacy
  | pending
  | complete (result : Except Bytes Unit)

/-- A registration with its stream. -/
structure StoredRegistration where
  info : Registration
  /-- The number of the stream. -/
  stream : Nat
  startup : StartupState
  registeredAt : Nat

/-- What `register` answers. -/
structure RegisteredTerminal where
  identity : RegistrationIdentity
  /-- A clone of the stream: the same socket. -/
  watcher : Nat
  startupAck : Bool
  routerFraming : RouterFraming
  resumed : Bool

/-- What the registry locks. -/
structure RegistryState where
  registrations : IdMap StoredRegistration
  /-- The ids removed in this process, with the time of the removal. -/
  removed : IdMap Nat

namespace RegistryState
variable {result : Except Bytes Unit} {other : RegistrationIdentity}

def new : RegistryState := ⟨∅, ∅⟩

/-- The entry `register` stores, and what it hands to the router. -/
def storedOf (registration : Registration) (stream now : Nat) : StoredRegistration where
  info := registration
  stream
  startup := if registration.startupAck then .pending else .legacy
  registeredAt := now

def terminalOf (registration : Registration) (stream : Nat) : RegisteredTerminal where
  identity := registration.toIdentity
  watcher := stream
  startupAck := registration.startupAck
  routerFraming := registration.routerFraming
  resumed := registration.ptyActive

/-- `register`, with the answer of `peer_closed` for the stream that is registered already. -/
def register (s : RegistryState) (userInfo : TerminalUserInfo) (stream : Nat) (peer : PeerIdentity) (identity : Nat)
    (peerClosed : Nat → Bool) (now : Nat) : Except RegistrationError RegisteredTerminal × RegistryState :=
  match validate userInfo peer identity with
  | .error error => (.error error, s)
  | .ok registration =>
    match s.registrations.lookup registration.id with
    | none =>
      (.ok (terminalOf registration stream),
        { s with registrations := s.registrations.insert registration.id (storedOf registration stream now) })
    | some stored =>
      if !peerClosed stored.stream then (.error .duplicate, s)
      else
        (.ok (terminalOf registration stream),
          { s with registrations := s.registrations.insert registration.id (storedOf registration stream now) })

/-- The registration under the id of `identity`, if it is of that generation. -/
def current (s : RegistryState) (identity : RegistrationIdentity) : Option StoredRegistration :=
  (s.registrations.lookup identity.id).filter fun stored => identity.matches stored.info

def contains (s : RegistryState) (identity : RegistrationIdentity) : Bool := (s.current identity).isSome

def reportStartup (s : RegistryState) (identity : RegistrationIdentity) (result : Except Bytes Unit) :
    Except RegistrationError Unit × RegistryState :=
  match s.current identity with
  | none => (.error .unavailable, s)
  | some stored =>
    match stored.startup with
    | .pending =>
      (.ok (),
        { s with
          registrations := s.registrations.insert identity.id { stored with startup := .complete result } })
    | _ => (.error .invalid, s)

/-- `prune_removed`. -/
def pruneRemoved (removed : IdMap Nat) (now : Nat) : IdMap Nat where
  entries := removed.entries.filter fun entry => now - entry.2 ≤ recoveryGrace
  nodupKeys := removed.nodupKeys.sublist List.filter_sublist

def removeIfCurrent (s : RegistryState) (identity : RegistrationIdentity) (now : Nat) : Bool × RegistryState :=
  if s.contains identity then
    (true,
      { registrations := s.registrations.erase identity.id
        removed := (pruneRemoved s.removed now).insert identity.id now })
  else (false, s)

/-- The terminals that came back with a live pty. -/
def resumed (s : RegistryState) : List (Registration × Nat) :=
  (s.registrations.entries.map fun entry => entry.2).filter (·.info.ptyActive)
    |>.map fun stored => (stored.info, stored.registeredAt)

/-- `clone_stream`; `cloned` is whether `try_clone` succeeds. -/
def cloneStream (s : RegistryState) (registration : Registration) (cloned : Bool) : Except RegistrationError Nat :=
  match s.current registration.toIdentity with
  | none => .error .unavailable
  | some stored => if cloned then .ok stored.stream else .error .io

/-! ### What the registry holds of a generation -/

variable {s s' : RegistryState} {identity : RegistrationIdentity} {stored : StoredRegistration}

theorem current_eq_some :
    s.current identity = some stored ↔
      s.registrations.lookup identity.id = some stored ∧ stored.info.toIdentity = identity := by
  rw [current, Option.filter_eq_some_iff, RegistrationIdentity.matches_iff, eq_comm (a := identity)]

theorem contains_iff : s.contains identity = true ↔ ∃ stored, s.current identity = some stored :=
  Option.isSome_iff_exists

/-- One generation of an id is current at a time. -/
theorem contains_unique (h : s.contains identity = true)
    (hoth : s.contains other = true) (hid : identity.id = other.id) : identity = other := by
  obtain ⟨stored, hs⟩ := contains_iff.mp h
  obtain ⟨stored', hs'⟩ := contains_iff.mp hoth
  rw [current_eq_some] at hs hs'
  rw [← hid, hs.1] at hs'
  cases hs'.1
  exact hs.2.symm.trans hs'.2

variable {id : Bytes} {now : Nat} {new : StoredRegistration}

/-- A map that differs from the registrations only under one id. -/
theorem current_insert (hid : identity.id ≠ id) :
    current { s with registrations := s.registrations.insert id new } identity = s.current identity := by
  rw [current, lookup_insert_ne hid]
  rfl

theorem current_insert_self :
    current { s with registrations := s.registrations.insert identity.id new } identity =
      if identity = new.info.toIdentity then some new else none := by
  rw [current, lookup_insert, Option.filter_some]
  simp only [RegistrationIdentity.matches_iff]

/-- **What `register` does**: it fails and changes nothing, or it stores a registration of the new generation under its
id, where there was none or one whose peer is closed. -/
theorem register_spec (s : RegistryState) (userInfo : TerminalUserInfo) (stream : Nat) (peer : PeerIdentity)
    (identity : Nat) (peerClosed : Nat → Bool) (now : Nat) :
    (∃ error, s.register userInfo stream peer identity peerClosed now = (.error error, s)) ∨
    ∃ registration, validate userInfo peer identity = .ok registration ∧
      (∀ stored, s.registrations.lookup registration.id = some stored → peerClosed stored.stream = true) ∧
      s.register userInfo stream peer identity peerClosed now =
        (.ok (terminalOf registration stream),
          { s with registrations := s.registrations.insert registration.id (storedOf registration stream now) }) := by
  unfold register
  split
  next error _ =>
    exact .inl ⟨error, rfl⟩
  rename_i registration hvd
  cases hlk : s.registrations.lookup registration.id with
  | none => exact .inr ⟨registration, hvd, fun stored h => by simp [hlk] at h, rfl⟩
  | some stored =>
    by_cases hcl : peerClosed stored.stream = true
    · refine .inr ⟨registration, hvd, fun stored' h => ?_, by simp [hcl]⟩
      cases hlk.symm.trans h
      exact hcl
    · exact .inl ⟨.duplicate, by simp [hcl]⟩

/-- `removeIfCurrent` takes away what it names and nothing else. -/
theorem current_removeIfCurrent (s : RegistryState) (identity other : RegistrationIdentity) (now : Nat) :
    (s.removeIfCurrent identity now).2.current other = if other = identity then none else s.current other := by
  rw [removeIfCurrent]
  by_cases hcon : s.contains identity = true
  · rw [if_pos hcon]
    by_cases hid : other.id = identity.id
    · rw [current, hid, lookup_erase, Option.filter_none]
      split
      · rfl
      rename_i hoth
      -- the generation that is current under the id is the one removed
      cases hcur : s.current other with
      | none => rfl
      | some stored =>
        exact absurd (contains_unique (contains_iff.mpr ⟨stored, hcur⟩) hcon hid) hoth
    · rw [current, lookup_erase_ne hid, if_neg fun h : other = identity => hid (congrArg _ h)]
      rfl
  · rw [if_neg hcon]
    split
    next hoth =>
      rw [hoth]
      simpa [contains] using hcon
    · rfl

/-- Registering leaves the generations there are as they are, or takes them away: it makes none of them current. -/
theorem contains_of_register {userInfo : TerminalUserInfo} {stream : Nat} {peer : PeerIdentity} {fresh : Nat}
    {peerClosed : Nat → Bool} (hold : identity.identity < fresh)
    (h : (s.register userInfo stream peer fresh peerClosed now).2.contains identity = true) :
    s.contains identity = true := by
  rcases register_spec s userInfo stream peer fresh peerClosed now with
    ⟨error, herr⟩ | ⟨registration, hvd, -, hok⟩
  · rwa [herr] at h
  · rw [hok] at h
    by_cases hid : identity.id = registration.id
    · rw [contains, ← hid, current_insert_self] at h
      split at h
      next hsame =>
        rw [hsame] at hold
        exact absurd (validate_identity hvd) (Nat.ne_of_lt hold)
      · cases h
    · rwa [contains, current_insert hid] at h

theorem contains_of_removeIfCurrent
    (h : (s.removeIfCurrent other now).2.contains identity = true) : s.contains identity = true := by
  rw [contains, current_removeIfCurrent] at h
  split at h
  · cases h
  · exact h

/-- `removeIfCurrent` adds nothing. -/
theorem lookup_of_removeIfCurrent (h : (s.removeIfCurrent identity now).2.registrations.lookup id = some stored) :
    s.registrations.lookup id = some stored := by
  rw [removeIfCurrent] at h
  split at h
  · by_cases hid : id = identity.id
    · rw [hid, lookup_erase] at h
      cases h
    · rwa [lookup_erase_ne hid] at h
  · exact h

/-- **What `reportStartup` does** for a registration that is current and pending. -/
theorem reportStartup_pending (hcur : s.current identity = some stored)
    (hpend : stored.startup = .pending) : (s.reportStartup identity result).1 = .ok () := by
  rw [reportStartup, hcur]
  dsimp only
  rw [hpend]

/-- `reportStartup` touches no other generation. -/
theorem current_reportStartup (hoth : other ≠ identity) :
    (s.reportStartup identity result).2.current other = s.current other := by
  unfold reportStartup
  split
  · rfl
  rename_i stored hcur
  split
  · by_cases hid : other.id = identity.id
    · have hsto := (current_eq_some.mp hcur).2
      have hnone : s.current other = none := by
        cases hsome : s.current other with
        | none => rfl
        | some stored' =>
          exact absurd (contains_unique (contains_iff.mpr ⟨stored', hsome⟩) (contains_iff.mpr ⟨stored, hcur⟩) hid)
            hoth
      rw [hnone, ← hid, current_insert_self, if_neg]
      exact fun h => hoth (h.trans hsto)
    · exact current_insert hid
  · rfl

/-- What `reportStartup` leaves under an id is of the same registration. -/
theorem lookup_of_reportStartup (h : (s.reportStartup identity result).2.registrations.lookup id = some stored) :
    ∃ old, s.registrations.lookup id = some old ∧ old.stream = stored.stream ∧ old.info = stored.info := by
  unfold reportStartup at h
  split at h
  · exact ⟨stored, h, rfl, rfl⟩
  rename_i old hcur
  split at h
  · by_cases hid : id = identity.id
    · rw [hid, lookup_insert] at h
      cases h
      exact ⟨old, hid ▸ (current_eq_some.mp hcur).1, rfl, rfl⟩
    · rw [lookup_insert_ne hid] at h
      exact ⟨stored, h, rfl, rfl⟩
  · exact ⟨stored, h, rfl, rfl⟩

end RegistryState

end EternalTerminal
