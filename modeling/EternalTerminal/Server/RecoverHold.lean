import EternalTerminal.Net.ConnectionWrites

/-!
# Server — packets held during a recovery

While a recovery runs, `queue_if_recovering` puts packets into `recover_hold` instead of waiting for the connection;
`flush_recover_hold_with` writes them once there is a connection again.  A flush takes all that is held as a batch,
waits for its locks, and writes the batch packet by packet, while other senders go on queueing; what a failed write
leaves of the batch goes back in front of what was queued meanwhile.

What happens beside the flush is an argument: the packets that senders queue at each point, whether a lock is got in
time, the connection that is behind it, the answers to each write.  A poisoned lock is left out.

Main results: `hold_kept_iff`, `hold_lost_on_timeout`.
-/

namespace EternalTerminal
open Machine List

/-- A header and a payload. -/
abbrev HeldPacket : Type := UInt8 × Bytes

/-- The payload bytes of packets. -/
def heldBytes (packets : List HeldPacket) : Nat := (packets.map fun packet => packet.2.length).sum

@[simp] theorem heldBytes_nil : heldBytes [] = 0 := rfl

@[simp] theorem heldBytes_cons (packet : HeldPacket) (packets : List HeldPacket) :
    heldBytes (packet :: packets) = packet.2.length + heldBytes packets := rfl

@[simp] theorem heldBytes_append (packets₁ packets₂ : List HeldPacket) :
    heldBytes (packets₁ ++ packets₂) = heldBytes packets₁ + heldBytes packets₂ := by
  simp [heldBytes]

/-- `u64` arithmetic. -/
def wrappingSub (a b : Nat) : Nat := (2 ^ 64 - b % 2 ^ 64 + a) % 2 ^ 64

def wrappingAdd (a b : Nat) : Nat := (a + b) % 2 ^ 64

variable {a b : Nat}

/-- A subtraction that does not go below zero does not wrap. -/
theorem wrappingSub_eq (hb : b ≤ a) (ha : a < 2 ^ 64) : wrappingSub a b = a - b := by
  unfold wrappingSub
  omega

theorem wrappingAdd_eq (h : a + b < 2 ^ 64) : wrappingAdd a b = a + b := by
  exact Nat.mod_eq_of_lt h

/-- `recover_hold` and `recover_hold_bytes`, a `u64`. -/
structure RecoverHold where
  hold : List HeldPacket
  bytes : Nat
  deriving DecidableEq

namespace RecoverHold

def new : RecoverHold := ⟨[], 0⟩

def fetchSub (s : RecoverHold) (count : Nat) : RecoverHold := { s with bytes := wrappingSub s.bytes count }

def fetchAdd (s : RecoverHold) (count : Nat) : RecoverHold := { s with bytes := wrappingAdd s.bytes count }

end RecoverHold

/-- A call of `queue_if_recovering`: the two loads of the flag, and the connection behind its lock. -/
structure QueueAttempt where
  recovering : Bool
  stillRecovering : Bool
  connection : SendingConnection
  packet : HeldPacket

/-- Whether the packet is in the hold; an error when it finds no room there. -/
def RecoverHold.queueIfRecovering (s : RecoverHold) (attempt : QueueAttempt) : Except Unit Bool × RecoverHold :=
  if !attempt.recovering || !attempt.stillRecovering then (.ok false, s)
  else if maxBackupPackets + maxDisconnectPackets ≤ s.hold.length then (.error (), s)
  else
    let payloadBytes := attempt.packet.2.length
    match i64OfUsize (saturatingAddU64 s.bytes payloadBytes) with
    | none => (.error (), s)
    | some requested =>
      if maxRecoveryBackupBytes < requested ∨ attempt.connection.writer.hasCapacity requested = false then
        (.error (), s)
      else (.ok true, { s with hold := s.hold ++ [attempt.packet] }.fetchAdd payloadBytes)

/-! ### The flush -/

/-- One write of a flush. -/
structure FlushWrite where
  before : SendingConnection
  packet : HeldPacket
  result : Except WritePacketError Unit
  after : SendingConnection

/-- The writer has the packet, as the write says. -/
def FlushWrite.owned (w : FlushWrite) : Bool :=
  match w.result with
  | .error (.beforeReplay _) => false
  | .error (.replayOwned _) | .ok _ => true

/-- A flush under way: the hold, the writes so far, and what was queued beside it. -/
structure FlushRun where
  state : RecoverHold
  log : List FlushWrite
  accepted : List HeldPacket

/-- What happens around one write: packets queued before it, and its answers. -/
structure WriteAnswers where
  arriving : List QueueAttempt
  probe : ProbeAnswer
  now : Nat
  rounds : List FinishRound

/-- What happens in one round of the outer loop. -/
structure FlushRound where
  /-- Queued while the batch waits for its locks. -/
  arriving : List QueueAttempt
  writeSerial : Bool
  connection : Option SendingConnection
  writes : List WriteAnswers
  /-- Queued after the last write, before the hold is locked again. -/
  late : List QueueAttempt

/-- Where a flush returns. -/
inductive FlushReturn where
  | empty
  | serialTimeout
  | connectionTimeout
  | writeFailed (error : WritePacketError)

/-- How the loop over a batch ends. -/
inductive BatchEnd where
  | written
  | failed (error : WritePacketError) (packet : HeldPacket) (remaining : List HeldPacket)
  /-- The answers end before the batch does. -/
  | running

namespace FlushRun

def arriveOne (r : FlushRun) (attempt : QueueAttempt) : FlushRun :=
  match r.state.queueIfRecovering attempt with
  | (.ok true, state) => { r with state := state, accepted := r.accepted ++ [attempt.packet] }
  | (_, state) => { r with state := state }

def arrive (r : FlushRun) (attempts : List QueueAttempt) : FlushRun := attempts.foldl arriveOne r

/-- The bytes of a packet that the writer has are no longer held. -/
def release (r : FlushRun) (packet : HeldPacket) : FlushRun :=
  { r with state := r.state.fetchSub packet.2.length }

/-- All that is held becomes the batch. -/
def takeBatch (r : FlushRun) : FlushRun := { r with state := { r.state with hold := [] } }

/-- Packets go back in front of what was queued meanwhile. -/
def restore (r : FlushRun) (packets : List HeldPacket) : FlushRun :=
  { r with state := { r.state with hold := packets ++ r.state.hold } }

end FlushRun

section Flush

/-- The closure that writes one packet. -/
abbrev HeldWriter : Type :=
  WriteAnswers → SendingConnection → UInt8 → Bytes → Except WritePacketError Unit × SendingConnection

/-- The closure of `flush_recover_hold`. -/
def writePacketOwned (S : Sodium) (platform : Platform) : HeldWriter := fun answers c header payload =>
  c.writePacketOwnedUntil S platform header payload none answers.probe answers.now answers.rounds

variable (write : HeldWriter)

/-- One packet of the batch. -/
def FlushRun.writeOne (r : FlushRun) (c : SendingConnection) (packet : HeldPacket) (answers : WriteAnswers) :
    FlushRun × FlushWrite :=
  let r := r.arrive answers.arriving
  let written := write answers c packet.1 packet.2
  let entry : FlushWrite := ⟨c, packet, written.1, written.2⟩
  ({ r with log := r.log ++ [entry] }, entry)

/-- The inner loop. -/
def writeBatch : FlushRun → SendingConnection → List HeldPacket → List WriteAnswers → BatchEnd × FlushRun
  | r, _, [], _ => (.written, r)
  | r, _, _ :: _, [] => (.running, r)
  | r, c, packet :: remaining, answers :: more =>
    let (r, entry) := r.writeOne write c packet answers
    match entry.result with
    | .error error => (.failed error packet remaining, r)
    | .ok _ => writeBatch (r.release packet) entry.after remaining more

/-- What a failed write leaves of the batch is held again. -/
def FlushRun.writeFailed (r : FlushRun) (error : WritePacketError) (packet : HeldPacket)
    (remaining : List HeldPacket) : FlushRun :=
  match error with
  | .beforeReplay _ => r.restore (packet :: remaining)
  -- the writer has the packet: only the rest of the batch is still to be written
  | .replayOwned _ => (r.release packet).restore remaining

/-- The outer loop; `none` while it is still running after these rounds. -/
def flushRecoverHoldWith : List FlushRound → FlushRun → Option (FlushReturn × FlushRun)
  | rounds, r =>
    if r.state.hold.isEmpty then some (.empty, r)
    else match rounds with
      | [] => none
      | round :: rounds =>
        let batch := r.state.hold
        let r := r.takeBatch.arrive round.arriving
        if !round.writeSerial then some (.serialTimeout, r)
        else match round.connection with
          | none => some (.connectionTimeout, r)
          | some c =>
            match writeBatch write r c batch round.writes with
            | (.running, _) => none
            | (.written, r) => flushRecoverHoldWith rounds (r.arrive round.late)
            | (.failed error packet remaining, r) =>
              some (.writeFailed error, (r.arrive round.late).writeFailed error packet remaining)

/-- Both locks are got in every round that takes a batch. -/
def LocksGot : List FlushRound → FlushRun → Prop
  | [], _ => True
  | round :: rounds, r =>
    r.state.hold = [] ∨ round.writeSerial = true ∧ ∃ c, round.connection = some c ∧ ∀ written,
      writeBatch write (r.takeBatch.arrive round.arriving) c r.state.hold round.writes = (.written, written) →
        LocksGot rounds (written.arrive round.late)

end Flush

/-! ### Every packet has a place -/

/-- The counter is that of the hold. -/
structure RecoverHold.Counted (s : RecoverHold) : Prop where
  bytes_eq : s.bytes = heldBytes s.hold
  range : s.bytes < 2 ^ 64

/-- The packets that the writer has. -/
def ownedPackets (log : List FlushWrite) : List HeldPacket := (log.filter FlushWrite.owned).map FlushWrite.packet

theorem ownedPackets_concat (log : List FlushWrite) (w : FlushWrite) :
    ownedPackets (log ++ [w]) = ownedPackets log ++ if w.owned then [w.packet] else [] := by
  cases h : w.owned <;> simp [ownedPackets, h]

/-- Of `start` and what was queued since, the writer has the first packets, the flush the next and the hold the others;
`unreleased` bytes of the writer's packets are still counted. -/
structure FlushInv (write : HeldWriter) (start out : List HeldPacket) (unreleased : Nat) (r : FlushRun) : Prop where
  packets : start ++ r.accepted = ownedPackets r.log ++ out ++ r.state.hold
  bytes : r.state.bytes = unreleased + heldBytes out + heldBytes r.state.hold
  range : r.state.bytes < 2 ^ 64
  genuine : ∀ w ∈ r.log, ∃ answers, write answers w.before w.packet.1 w.packet.2 = (w.result, w.after)

/-- Nothing is lost, and nothing but the hold is counted. -/
def Conserved (start : List HeldPacket) (r : FlushRun) : Prop :=
  start ++ r.accepted = ownedPackets r.log ++ r.state.hold ∧ r.state.bytes = heldBytes r.state.hold

/-- What a call of `queue_if_recovering` leaves, with the packet or without it. -/
theorem RecoverHold.queueIfRecovering_cases (s : RecoverHold) (attempt : QueueAttempt) :
    ((s.queueIfRecovering attempt).1 ≠ .ok true ∧ (s.queueIfRecovering attempt).2 = s) ∨
      (s.queueIfRecovering attempt = (.ok true, ⟨s.hold ++ [attempt.packet], s.bytes + attempt.packet.2.length⟩) ∧
        s.bytes + attempt.packet.2.length < 2 ^ 64) := by
  unfold queueIfRecovering
  split
  · exact .inl ⟨nofun, rfl⟩
  split
  · exact .inl ⟨nofun, rfl⟩
  dsimp only
  split
  · exact .inl ⟨nofun, rfl⟩
  rename_i requested hrequested
  split
  · exact .inl ⟨nofun, rfl⟩
  rename_i hroom
  rw [not_or, Int.not_lt] at hroom
  -- a sum within the cap did not saturate
  have hsum : s.bytes + attempt.packet.2.length < 2 ^ 64 := by
    have hle := hroom.1
    unfold i64OfUsize saturatingAddU64 usizeMax at hrequested
    obtain ⟨-, rfl⟩ := Option.ite_some_none_eq_some.mp hrequested
    unfold maxRecoveryBackupBytes at hle
    omega
  refine .inr ⟨?_, hsum⟩
  rw [RecoverHold.fetchAdd, wrappingAdd_eq hsum]

namespace FlushInv
variable {write : HeldWriter} {start out : List HeldPacket} {unreleased : Nat} {r : FlushRun}

theorem arriveOne (h : FlushInv write start out unreleased r) (attempt : QueueAttempt) :
    FlushInv write start out unreleased (r.arriveOne attempt) := by
  unfold FlushRun.arriveOne
  rcases r.state.queueIfRecovering_cases attempt with ⟨hres, hst⟩ | ⟨heq, hrng⟩
  · split
    next state heq =>
      rw [heq] at hres
      exact absurd rfl hres
    next state heq =>
      rw [heq] at hst
      dsimp only at hst
      rw [hst]
      exact h
  · rw [heq]
    refine ⟨?_, ?_, hrng, h.genuine⟩
    · rw [← append_assoc, h.packets, append_assoc]
    · dsimp only
      rw [h.bytes, heldBytes_append, heldBytes_cons, heldBytes_nil]
      omega

theorem arrive (h : FlushInv write start out unreleased r) (attempts : List QueueAttempt) :
    FlushInv write start out unreleased (r.arrive attempts) := by
  induction attempts generalizing r with
  | nil => exact h
  | cons attempt attempts ih => exact ih (h.arriveOne attempt)

/-- All that is held is taken. -/
theorem takeBatch (h : FlushInv write start [] 0 r) : FlushInv write start r.state.hold 0 r.takeBatch := by
  refine ⟨?_, ?_, h.range, h.genuine⟩
  · show start ++ r.accepted = ownedPackets r.log ++ r.state.hold ++ []
    rw [h.packets, append_nil, append_nil]
  · show r.state.bytes = 0 + heldBytes r.state.hold + heldBytes []
    rw [h.bytes]
    simp

/-- The bytes of the packet that the writer took last are taken off. -/
theorem release {packet : HeldPacket} (h : FlushInv write start out packet.2.length r) :
    FlushInv write start out 0 (r.release packet) := by
  have hbs := h.bytes
  have hle : packet.2.length ≤ r.state.bytes := by omega
  have hst : (r.release packet).state.bytes = r.state.bytes - packet.2.length := by
    rw [FlushRun.release, RecoverHold.fetchSub, wrappingSub_eq hle h.range]
  refine ⟨h.packets, ?_, ?_, h.genuine⟩
  · rw [hst, hbs]
    show packet.2.length + heldBytes out + heldBytes r.state.hold - packet.2.length =
      0 + heldBytes out + heldBytes r.state.hold
    omega
  · rw [hst]
    exact Nat.lt_of_le_of_lt (Nat.sub_le _ _) h.range

/-- What the flush has goes back in front. -/
theorem restore (h : FlushInv write start out 0 r) : FlushInv write start [] 0 (r.restore out) := by
  refine ⟨?_, ?_, h.range, h.genuine⟩
  · show start ++ r.accepted = ownedPackets r.log ++ [] ++ (out ++ r.state.hold)
    rw [h.packets, append_nil, append_assoc]
  · show r.state.bytes = 0 + heldBytes [] + heldBytes (out ++ r.state.hold)
    rw [h.bytes, heldBytes_append]
    simp

/-- **One write** moves the packet to the writer when the writer has it, and else leaves it with the flush. -/
theorem writeOne {packet : HeldPacket} (h : FlushInv write start (packet :: out) 0 r) (c : SendingConnection)
    (answers : WriteAnswers) :
    ((r.writeOne write c packet answers).2.owned = true →
        FlushInv write start out packet.2.length (r.writeOne write c packet answers).1) ∧
      ((r.writeOne write c packet answers).2.owned = false →
        FlushInv write start (packet :: out) 0 (r.writeOne write c packet answers).1) := by
  have harr := h.arrive answers.arriving
  unfold FlushRun.writeOne
  generalize r.arrive answers.arriving = arrived at harr ⊢
  have hgenuine : ∀ w ∈ arrived.log ++ [⟨c, packet, (write answers c packet.1 packet.2).1,
      (write answers c packet.1 packet.2).2⟩],
      ∃ answers, write answers w.before w.packet.1 w.packet.2 = (w.result, w.after) := by
    exact forall_mem_append.mpr ⟨harr.genuine, forall_mem_singleton.mpr ⟨answers, rfl⟩⟩
  refine ⟨fun hown => ⟨?_, ?_, harr.range, hgenuine⟩, fun hown => ⟨?_, ?_, harr.range, hgenuine⟩⟩
  · rw [ownedPackets_concat, hown]
    have hpkts := harr.packets
    simpa using hpkts
  · have hbs := harr.bytes
    rw [heldBytes_cons] at hbs
    dsimp only
    omega
  · rw [ownedPackets_concat, hown]
    have hpkts := harr.packets
    simpa using hpkts
  · exact harr.bytes

/-- The batch is written, or a failed write leaves the rest of it. -/
theorem writeBatch {batch : List HeldPacket} (h : FlushInv write start batch 0 r) (c : SendingConnection)
    (answers : List WriteAnswers) :
    match EternalTerminal.writeBatch write r c batch answers with
    | (.running, _) => True
    | (.written, r') => FlushInv write start [] 0 r'
    | (.failed (.beforeReplay _) packet remaining, r') => FlushInv write start (packet :: remaining) 0 r'
    | (.failed (.replayOwned _) packet remaining, r') => FlushInv write start remaining packet.2.length r' := by
  induction batch generalizing r c answers with
  | nil => exact h
  | cons packet remaining ih =>
    cases answers with
    | nil => trivial
    | cons answer answers =>
      obtain ⟨hown, href⟩ := h.writeOne c answer
      rw [EternalTerminal.writeBatch]
      generalize r.writeOne write c packet answer = wrote at hown href ⊢
      obtain ⟨r', before, written, result, after⟩ := wrote
      match result, hown, href with
      | .error (.beforeReplay _), _, href => exact href rfl
      | .error (.replayOwned _), hown, _ => exact hown rfl
      | .ok _, hown, _ => exact ih (hown rfl).release after answers

end FlushInv

variable {write : HeldWriter} {start : List HeldPacket} {r : FlushRun}

/-- **A flush that returns** has nothing in its hands, or did not get a lock with a batch in them. -/
theorem flushInv_of_flush {rounds : List FlushRound} {r' : FlushRun}
    {point : FlushReturn} (h : FlushInv write start [] 0 r)
    (hflu : flushRecoverHoldWith write rounds r = some (point, r')) :
    (LocksGot write rounds r ∧ FlushInv write start [] 0 r') ∨
      (¬LocksGot write rounds r ∧ ∃ batch, batch ≠ [] ∧ FlushInv write start batch 0 r') := by
  induction rounds generalizing r with
  | nil =>
    unfold flushRecoverHoldWith at hflu
    split at hflu
    · cases hflu
      exact .inl ⟨trivial, h⟩
    · cases hflu
  | cons round rounds ih =>
    unfold flushRecoverHoldWith at hflu
    split at hflu
    next hempty =>
      cases hflu
      exact .inl ⟨.inl (List.isEmpty_iff.mp hempty), h⟩
    rename_i hheld
    have hbatch : r.state.hold ≠ [] := fun hnil => hheld (List.isEmpty_iff.mpr hnil)
    have htak := h.takeBatch.arrive round.arriving
    dsimp only at hflu
    split at hflu
    next hserial =>
      cases hflu
      refine .inr ⟨fun hgot => ?_, _, hbatch, htak⟩
      simp [(hgot.resolve_left hbatch).1] at hserial
    rename_i hserial
    rw [Bool.not_eq_true', Bool.not_eq_false] at hserial
    split at hflu
    next hnone =>
      cases hflu
      refine .inr ⟨fun hgot => ?_, _, hbatch, htak⟩
      obtain ⟨-, c, hc, -⟩ := hgot.resolve_left hbatch
      cases hnone.symm.trans hc
    rename_i c hconn
    have hwr := htak.writeBatch c round.writes
    split at hflu
    · cases hflu
    next written heq =>
      rw [heq] at hwr
      refine (ih (FlushInv.arrive hwr round.late) hflu).imp (And.imp_left fun hgot => ?_)
        (And.imp_left fun hnot hgot => ?_)
      · refine .inr ⟨hserial, c, hconn, fun r' hr' => ?_⟩
        cases heq.symm.trans hr'
        exact hgot
      · obtain ⟨-, c', hc', hnext⟩ := hgot.resolve_left hbatch
        cases hconn.symm.trans hc'
        exact hnot (hnext _ heq)
    rename_i error packet remaining failed heq
    cases hflu
    rw [heq] at hwr
    refine .inl ⟨.inr ⟨hserial, c, hconn, fun r' hr' => nomatch heq.symm.trans hr'⟩, ?_⟩
    cases error with
    | beforeReplay _ => exact (FlushInv.arrive hwr round.late).restore
    | replayOwned _ => exact (FlushInv.arrive hwr round.late).release.restore

theorem FlushInv.conserved (h : FlushInv write start [] 0 r) : Conserved start r := by
  have hpkts := h.packets
  have hbs := h.bytes
  rw [append_nil] at hpkts
  rw [heldBytes_nil, Nat.zero_add] at hbs
  exact ⟨hpkts, by omega⟩

theorem FlushInv.not_conserved {batch : List HeldPacket} (hbatch : batch ≠ [])
    (h : FlushInv write start batch 0 r) : ¬ Conserved start r := by
  rintro ⟨hpkts, -⟩
  have hlengths := congrArg List.length (h.packets.symm.trans hpkts)
  have hpos := length_pos_iff.mpr hbatch
  simp only [length_append] at hlengths
  omega

/-- **No held packet is lost** when a flush returns, and the counter is that of the hold, exactly when both locks were
got in every round that took a batch. A packet that left the hold is in the replay writer. -/
theorem hold_kept_iff {S : Sodium} {write : HeldWriter} (hwrite : ∀ answers (c : SendingConnection) header payload,
      c.Verdict S header payload (write answers c header payload))
    {s : RecoverHold} (hcounted : s.Counted) {rounds : List FlushRound} {point : FlushReturn} {r : FlushRun}
    (h : flushRecoverHoldWith write rounds ⟨s, [], []⟩ = some (point, r)) :
    (∀ w ∈ r.log, WriteOwnership S w.packet.1 w.packet.2 w.before.writer w.after.writer w.result) ∧
      (Conserved s.hold r ↔ LocksGot write rounds ⟨s, [], []⟩) := by
  have hstart : FlushInv write s.hold [] 0 ⟨s, [], []⟩ := by
    refine ⟨append_nil _, ?_, hcounted.range, fun w hw => (nomatch hw)⟩
    show s.bytes = 0 + heldBytes [] + heldBytes s.hold
    rw [hcounted.bytes_eq, heldBytes_nil, Nat.zero_add]
  have hgenuine : ∀ {batch : List HeldPacket}, FlushInv write s.hold batch 0 r →
      ∀ w ∈ r.log, WriteOwnership S w.packet.1 w.packet.2 w.before.writer w.after.writer w.result := by
    intro batch hinv w hw
    obtain ⟨answers, hanswers⟩ := hinv.genuine w hw
    have hverdict := hwrite answers w.before w.packet.1 w.packet.2
    rw [hanswers] at hverdict
    exact hverdict
  rcases flushInv_of_flush hstart h with ⟨hgot, hinv⟩ | ⟨hnot, batch, hbatch, hinv⟩
  · exact ⟨hgenuine hinv, iff_of_true hinv.conserved hgot⟩
  · exact ⟨hgenuine hinv, iff_of_false (hinv.not_conserved hbatch) hnot⟩

section Runs

/-- A connection with nothing on its way. -/
def idleConnection : SendingConnection where
  stream := ⟨0, false⟩
  writer := .new (.new zeroKey dirServerToClient) true
  reader := .new (.new zeroKey dirClientToServer) true
  liveWriteTimeout := 1000
  peerSilence := none
  pendingLive := none
  outputWindow := none

def queueWhileRecovering (packet : HeldPacket) : QueueAttempt := ⟨true, true, idleConnection, packet⟩

/-- The send takes all it is given, or fails. -/
def sendAnswers (answer : SendAnswer) : WriteAnswers := ⟨[], .empty, 0, [⟨⟨0, answer⟩, false⟩]⟩

/-- The second write fails, while another packet is queued. -/
def failingRound : FlushRound :=
  ⟨[queueWhileRecovering (1, [4])], true, some idleConnection, [sendAnswers (.taken 1000), sendAnswers .failed], []⟩

def threeHeld : RecoverHold := ⟨[(1, [1]), (1, [2]), (1, [3])], 3⟩

theorem hold_kept_iff_failed_write :
    ∃ out, flushRecoverHoldWith (writePacketOwned Aead.plainSodium .unix) [failingRound] ⟨threeHeld, [], []⟩ =
        some out ∧
      ((ownedPackets out.2.log = [(1, [1]), (1, [2])] ∧ out.2.state = ⟨[(1, [3]), (1, [4])], 2⟩) ∧
        Conserved threeHeld.hold out.2) := by
  obtain ⟨out, hout, hfacts⟩ := (Option.any_eq_true
    (fun out : FlushReturn × FlushRun => decide (ownedPackets out.2.log = [(1, [1]), (1, [2])] ∧
      out.2.state = ⟨[(1, [3]), (1, [4])], 2⟩))
    (flushRecoverHoldWith (writePacketOwned Aead.plainSodium .unix) [failingRound] ⟨threeHeld, [], []⟩)).mp
    (by decide +kernel)
  have hkept := hold_kept_iff
    (fun answers c header payload => SendingConnection.ownership_writePacketOwnedUntil .unix c header payload none
      answers.probe answers.now answers.rounds)
    (s := threeHeld) ⟨by decide, by decide⟩ hout
  exact ⟨out, hout, of_decide_eq_true hfacts, hkept.2.mpr (.inr ⟨rfl, _, rfl, fun _ _ => trivial⟩)⟩

/-- **A lock that is not got in time** loses the batch, and its bytes stay counted. -/
theorem hold_lost_on_timeout :
    ∃ out, flushRecoverHoldWith (writePacketOwned Aead.plainSodium .unix) [⟨[], false, none, [], []⟩]
        ⟨threeHeld, [], []⟩ = some (.serialTimeout, out) ∧
      out.log = [] ∧ out.state = ⟨[], 3⟩ ∧ ¬ Conserved threeHeld.hold out := by
  refine ⟨⟨⟨[], 3⟩, [], []⟩, rfl, rfl, rfl, ?_⟩
  rintro ⟨-, hbytes⟩
  cases hbytes

end Runs

end EternalTerminal
