import EternalTerminal.Net.ConnectionWrites

/-!
# Client — acknowledgements that are written again

The keep-alives of a client.  An acknowledgement is computed before `write_owned_with_policy`, whose loop writes the
same payload again after every recovery that follows a `BeforeReplay`; and a recovery may begin a new epoch, in which
the reader has read only the packet that ended the recovery (`authenticate_peer`). What the writer answers is an
argument: whether it has the packet is what its error says (`write_ownership`).

Main results: `keepalive_acks_read`, `stale_ack_written`.
-/

namespace EternalTerminal
open Machine

/-! ### The client -/

/-- Where the client is in `write_owned_with_policy`: at the head of its loop, or in `recover`, after which a payload
is written again. -/
inductive OwnedWritePhase where
  | idle
  | writing (payload : Bytes)
  | recovering (payload : Option Bytes)
  | failed

def OwnedWritePhase.payload : OwnedWritePhase → Option Bytes
  | .writing payload => some payload
  | .recovering payload => payload
  | .idle | .failed => none

/-- How many packets the reader has at least read when the payload is written: a recovery reads one. -/
def OwnedWritePhase.read (sequence : Int) : OwnedWritePhase → Int
  | .recovering _ => max 1 sequence
  | .idle | .writing _ | .failed => sequence

/-- An acknowledgement, and how many packets of the epoch the reader had read when the replay writer took it. -/
structure WrittenAck where
  sequence : Int
  read : Int
  deriving DecidableEq

/-- What the acknowledgements of a client use of its connection, and those the replay writer took. -/
structure AckClient where
  reader : BackedReader
  acks : AckSchedule
  phase : OwnedWritePhase
  written : List WrittenAck

/-- What a client does, with the answers it gets. -/
inductive AckEvent where
  | feed (bytes : Bytes)
  | socketRead (capacity : Nat) (bytes : Bytes)
  | pop
  | keepalive (peerAcknowledges volume : Bool)
  | attempt (answer : Except WritePacketError Unit)
  /-- `recover_connection`, with the peer's catchup, the answer to the proof, and what the socket holds and reads then. -/
  | recover (salt : Option Salt) (catchup : List Bytes) (peerAcknowledges : Bool) (answer : Except WritePacketError Unit)
      (counts : List Nat) (queue : Bytes)

/-- The errors `connection_ended` recovers from. -/
def connectionEnded : WriteError → Bool
  | .io => true
  | .backpressure | .encrypt => false

/-- The reader's part of a recovery: it catches up, or begins a new epoch. -/
def BackedReader.recovered (S : Sodium) (r : BackedReader) : Option Salt → List Bytes → Option BackedReader
  | none, catchup => (r.invalidate.revive S catchup).toOption
  | some salt, _ => (r.invalidate.reset S salt).toOption.bind fun r => (r.revive S []).toOption

namespace AckClient

def nextKeepaliveAck (s : AckClient) (peerAcknowledges volume : Bool) : Bytes × AckClient :=
  let (ack, acks) := s.acks.next .initiator s.reader.sequence s.reader.dataSequence peerAcknowledges volume
  (ackBytes ack, { s with acks })

/-- A keep-alive was written; the replay writer has it unless the error is `BeforeReplay`. -/
def wrote (s : AckClient) (payload : Bytes) : Except WritePacketError Unit → AckClient
  | .error (.beforeReplay _) => s
  | _ => { s with written := s.written ++ (decodeAck payload).toList.map (⟨·, s.reader.sequence⟩) }

/-- One round of `write_owned_with_policy`. -/
def attempt (s : AckClient) (payload : Bytes) (answer : Except WritePacketError Unit) : AckClient :=
  let s := s.wrote payload answer
  match answer with
  | .ok _ => { s with phase := .idle }
  | .error (.beforeReplay error) =>
    if connectionEnded error then { s with reader := s.reader.invalidate, phase := .recovering (some payload) }
    else { s with phase := .failed }
  | .error (.replayOwned error) => { s with phase := if connectionEnded error then .recovering none else .failed }

/-- `authenticate_peer` reads one packet of the new transport, past the queue, and puts it there; the loop goes on with
its payload. A recovery that fails is tried again. -/
def authenticatePeer (S : Sodium) (s : AckClient) (counts : List Nat) (queue : Bytes) : AckClient :=
  match readLivePacket S counts s.reader queue with
  | (.error _, reader, _) => { s with reader }
  | (.ok packet, reader, _) =>
    let s := { s with reader := reader.unread packet }
    match s.phase with
    | .recovering payload => { s with phase := payload.elim .idle .writing }
    | _ => s

def apply (S : Sodium) (s : AckClient) : AckEvent → Option AckClient
  | .feed bytes => some { s with reader := s.reader.feed bytes }
  | .socketRead capacity bytes => some { s with reader := s.reader.socketRead capacity bytes }
  | .pop => some { s with reader := (s.reader.pop S).2 }
  | .keepalive peerAcknowledges volume =>
    match s.phase with
    | .idle =>
      let (payload, s) := s.nextKeepaliveAck peerAcknowledges volume
      some { s with phase := .writing payload }
    | _ => none
  | .attempt answer =>
    match s.phase with
    | .writing payload => some (s.attempt payload answer)
    | _ => none
  | .recover salt catchup peerAcknowledges answer counts queue => do
    let reader ← s.reader.recovered S salt catchup
    -- the schedule starts over with the transport, and the proof carries an acknowledgement of its own
    let (payload, s) := { s with reader, acks := {} }.nextKeepaliveAck peerAcknowledges false
    let s := s.wrote payload answer
    match s.phase with
    | .idle | .recovering _ => some (if answer.isOk then s.authenticatePeer S counts queue else s)
    | _ => none

/-- The acknowledgement that is still to be written. -/
def pendingAck (s : AckClient) : Option Int := s.phase.payload.bind decodeAck

/-- No epoch begins while an acknowledgement of two packets or more waits to be written again. -/
def KeepsEpoch (s : AckClient) : AckEvent → Prop
  | .recover salt .. => salt.isSome → ∀ ack ∈ s.pendingAck, ack ≤ 1
  | _ => True

instance (s : AckClient) : ∀ e, Decidable (s.KeepsEpoch e)
  | .recover salt .. => inferInstanceAs (Decidable (salt.isSome → ∀ ack ∈ s.pendingAck, ack ≤ 1))
  | .feed _ | .socketRead .. | .pop | .keepalive .. | .attempt _ => .isTrue trivial

def start (down : CryptoHandler) : AckClient := ⟨.new down true, {}, .idle, []⟩

end AckClient

/-- One allowed event. -/
inductive AckStep (S : Sodium) (allowed : AckClient → AckEvent → Prop) : AckClient → AckClient → Prop where
  | step (s : AckClient) (e : AckEvent) (s' : AckClient) (hallowed : allowed s e) (h : s.apply S e = some s') :
      AckStep S allowed s s'

variable {S : Sodium} {s s' : AckClient} {r r' : BackedReader} {payload : Bytes}

/-! ### What the reader has read -/

namespace BackedReader

theorem sequence_socketRead (capacity : Nat) (bytes : Bytes) :
    (r.socketRead capacity bytes).sequence = r.sequence := by
  have hreleased : (r.releaseDrained capacity).sequence = r.sequence := by
    unfold releaseDrained
    split <;> rfl
  unfold socketRead commitSocketRead prepareSocketRead
  dsimp only [commitRead, fillSlice]
  repeat' split
  all_goals exact (prepareReadSlice_sequences _ _).1.trans hreleased

/-- A live pop reads at most the next packet, and counts one it answers. -/
theorem sequence_popLive {result : PopResult} (h : r.popLive S = (result, r')) :
    r.sequence ≤ r'.sequence ∧ ∀ packet, result = .ok (.packet packet) → r.sequence < r'.sequence := by
  have hstep : r.sequence ≤ (r.popLive S).2.sequence ∧
      ∀ packet, (r.popLive S).1 = .ok (.packet packet) → r.sequence < (r.popLive S).2.sequence := by
    unfold popLive takeFrame noteData restartDrained
    dsimp only
    repeat' split
    all_goals simp
  rwa [h] at hstep

theorem sequence_pop : r.sequence ≤ (r.pop S).2.sequence := by
  unfold pop
  repeat' split
  · exact le_rfl
  · exact le_rfl
  · exact (sequence_popLive rfl).1

theorem sequence_readLivePacket (counts : List Nat) (queue : Bytes) :
    r.sequence ≤ (readLivePacket S counts r queue).2.1.sequence ∧ ∀ packet,
      (readLivePacket S counts r queue).1 = .ok packet → r.sequence < (readLivePacket S counts r queue).2.1.sequence := by
  fun_induction readLivePacket S counts r queue with
  | case1 _ r _ packet _ hp =>
    have hpop := sequence_popLive hp
    exact ⟨hpop.1, fun _ _ => hpop.2 _ rfl⟩
  | case2 _ r _ _ _ hp | case3 r _ _ hp | case4 r _ _ hp => exact ⟨(sequence_popLive hp).1, nofun⟩
  | case5 r queue reader hp count counts bytes _ ih =>
    have hfeed := (sequence_popLive hp).1.trans (feed_sequences reader bytes).1.ge
    exact ⟨hfeed.trans ih.1, fun packet hok => hfeed.trans_lt (ih.2 packet hok)⟩

theorem sequence_revive {catchup : List Bytes} (h : (r.revive S catchup).toOption = some r') :
    r'.sequence = r.sequence + catchup.length := by
  cases hok : r.revive S catchup with
  | error _ => simp [hok, Except.toOption] at h
  | ok revived =>
    obtain ⟨_, _, _, rfl⟩ := revive_ok hok
    rw [hok] at h
    cases h
    rfl

/-- A recovery continues the count of the epoch, or begins a new one. -/
theorem sequence_recovered {salt : Option Salt} {catchup : List Bytes} (h : r.recovered S salt catchup = some r')
    (hnonneg : 0 ≤ r.sequence) : 0 ≤ r'.sequence ∧ (salt = none → r.sequence ≤ r'.sequence) := by
  cases salt with
  | none =>
    have : r'.sequence = r.sequence + _ := sequence_revive h
    omega
  | some salt =>
    obtain ⟨fresh, hreset, hrevived⟩ := Option.bind_eq_some_iff.mp h
    rw [sequence_revive hrevived]
    unfold reset at hreset
    cases hrekey : r.invalidate.crypto.rekey S salt with
    | error _ =>
      rw [hrekey] at hreset
      cases hreset
    | ok crypto =>
      rw [hrekey] at hreset
      cases hreset
      exact ⟨le_rfl, nofun⟩

end BackedReader

/-! ### Acknowledgements over a run -/

namespace AckClient

theorem nextKeepaliveAck_le (hnonneg : 0 ≤ s.reader.sequence) (peerAcknowledges volume : Bool) :
    ∀ ack ∈ decodeAck (s.nextKeepaliveAck peerAcknowledges volume).1, ack ≤ s.reader.sequence := by
  intro ack hack
  unfold nextKeepaliveAck AckSchedule.next at hack
  dsimp only at hack
  split at hack
  · obtain ⟨-, heq⟩ := Option.ite_none_right_eq_some.mp hack
    have hle := Nat.mod_le (max s.reader.sequence 0).toNat (256 ^ ackPayloadLen)
    rw [ackBytes, Option.getD_some, encodeAck, Bytes.beValue_beBytes, Option.some.injEq] at heq
    omega
  · cases hack

/-- The acknowledgements that were written, and the one that is still to be written, are of packets that were read. -/
structure Covered (s : AckClient) : Prop where
  nonneg : 0 ≤ s.reader.sequence
  written : ∀ ack ∈ s.written, ack.sequence ≤ ack.read
  pending : ∀ ack ∈ s.pendingAck, ack ≤ s.phase.read s.reader.sequence

theorem read_mono {phase : OwnedWritePhase} {m n : Int} (h : m ≤ n) : phase.read m ≤ phase.read n := by
  cases phase with
  | recovering => exact max_le_max_left 1 h
  | idle | writing | failed => exact h

theorem Covered.read (h : s.Covered) (hread : s.reader.sequence ≤ r.sequence) : Covered { s with reader := r } :=
  ⟨h.nonneg.trans hread, h.written, fun ack hack => (h.pending ack hack).trans (read_mono hread)⟩

theorem phase_wrote (answer : Except WritePacketError Unit) : (s.wrote payload answer).phase = s.phase := by
  unfold wrote
  split <;> rfl

theorem Covered.wrote (h : s.Covered) (hack : ∀ ack ∈ decodeAck payload, ack ≤ s.reader.sequence)
    (answer : Except WritePacketError Unit) : (s.wrote payload answer).Covered := by
  unfold AckClient.wrote
  split
  · exact h
  · refine { h with written := List.forall_mem_append.mpr ⟨h.written, fun ack hmem => ?_⟩ }
    obtain ⟨value, hvalue, rfl⟩ := List.mem_map.mp hmem
    exact hack value (Option.mem_toList.mp hvalue)

theorem Covered.attempt (h : s.Covered) (hphase : s.phase = .writing payload) (answer : Except WritePacketError Unit) :
    (s.attempt payload answer).Covered := by
  have hack : ∀ ack ∈ decodeAck payload, ack ≤ s.reader.sequence := by
    have := h.pending
    rwa [pendingAck, hphase] at this
  have hwrote := h.wrote hack answer
  unfold AckClient.attempt
  dsimp only
  repeat' split
  · exact { hwrote with pending := nofun }
  · exact { hwrote with pending := fun ack hmem => (hack ack hmem).trans (le_max_right _ _) }
  · exact { hwrote with pending := nofun }
  · exact { hwrote with pending := nofun }
  · exact { hwrote with pending := nofun }

/-- A recovery continues the epoch, or begins one under an acknowledgement of one packet. -/
theorem Covered.recovered (h : s.Covered) (hphase : ∀ payload, s.phase ≠ .writing payload) {salt : Option Salt}
    {catchup : List Bytes} (hreader : s.reader.recovered S salt catchup = some r)
    (hkeeps : salt.isSome → ∀ ack ∈ s.pendingAck, ack ≤ 1) : Covered { s with reader := r, acks := {} } := by
  obtain ⟨hnonneg, hsame⟩ := BackedReader.sequence_recovered hreader h.nonneg
  refine ⟨hnonneg, h.written, fun ack hack => ?_⟩
  cases salt with
  | none => exact (h.pending ack hack).trans (read_mono (hsame rfl))
  | some salt =>
    have hone := hkeeps rfl ack hack
    cases hp : s.phase with
    | recovering payload =>
      simp only [OwnedWritePhase.read]
      exact hone.trans (le_max_left _ _)
    | writing payload => exact absurd hp (hphase payload)
    | idle | failed => simp [pendingAck, hp, OwnedWritePhase.payload] at hack

/-- The packet that ends a recovery is read before the payload is written again. -/
theorem Covered.authenticatePeer (h : s.Covered) (counts : List Nat) (queue : Bytes) :
    (s.authenticatePeer S counts queue).Covered := by
  obtain ⟨hle, hlt⟩ := BackedReader.sequence_readLivePacket (S := S) (r := s.reader) counts queue
  unfold AckClient.authenticatePeer
  split
  next hread =>
    rw [hread] at hle
    exact h.read hle
  next packet reader _ hread =>
    rw [hread] at hle hlt
    have hread : Covered { s with reader := reader.unread packet } := h.read hle
    have hone : max 1 s.reader.sequence ≤ reader.sequence :=
      max_le (h.nonneg.trans_lt (hlt packet rfl)) hle
    dsimp only
    split
    next payload hphase =>
      have hpending := h.pending
      rw [pendingAck, hphase] at hpending
      cases payload with
      | none => exact { hread with pending := nofun }
      | some payload => exact { hread with pending := fun ack hack => (hpending ack hack).trans hone }
    · exact hread

theorem Covered.step (h : s.Covered) {e : AckEvent} (hkeeps : s.KeepsEpoch e) (he : s.apply S e = some s') :
    s'.Covered := by
  cases e with
  | feed bytes =>
    cases he
    exact h.read (BackedReader.feed_sequences _ bytes).1.ge
  | socketRead capacity bytes =>
    cases he
    exact h.read (BackedReader.sequence_socketRead capacity bytes).ge
  | pop =>
    cases he
    exact h.read BackedReader.sequence_pop
  | keepalive peerAcknowledges volume =>
    rw [apply] at he
    split at he <;> cases he
    exact { h with pending := nextKeepaliveAck_le h.nonneg peerAcknowledges volume }
  | attempt answer =>
    rw [apply] at he
    split at he <;> cases he
    next payload hphase => exact h.attempt hphase answer
  | recover salt catchup peerAcknowledges answer counts queue =>
    obtain ⟨reader, hreader, he⟩ := Option.bind_eq_some_iff.mp he
    dsimp only at he
    have hphase : ∀ payload, s.phase ≠ .writing payload := by
      intro payload hp
      simp [phase_wrote, nextKeepaliveAck, hp] at he
    have hnew := h.recovered hphase hreader hkeeps
    have hnext : (nextKeepaliveAck { s with reader, acks := {} } peerAcknowledges false).2.Covered := { hnew with }
    have hproved := hnext.wrote (nextKeepaliveAck_le hnew.nonneg peerAcknowledges false) answer
    split at he <;> cases he
    all_goals
      split
      · exact hproved.authenticatePeer counts queue
      · exact hproved

end AckClient

/-- **Acknowledgements are of packets that were read**, in every run in which no epoch begins while one of two packets or
more waits to be written again. -/
theorem keepalive_acks_read {down : CryptoHandler}
    (hrun : Relation.ReflTransGen (AckStep S AckClient.KeepsEpoch) (.start down) s) :
    ∀ ack ∈ s.written, ack.sequence ≤ ack.read := by
  have hcovered : s.Covered := by
    refine reach_invariant hrun ⟨le_rfl, nofun, nofun⟩ fun _ _ h hstep => ?_
    obtain ⟨e, _, hkeeps, he⟩ := hstep
    exact h.step hkeeps he
  exact hcovered.written

def ackedSodium : Sodium := Aead.plain.sodium (sealedLog (.new zeroKey dirServerToClient) (.replicate 3 (keepAlive, [])))

def ackedStart : AckClient := .start (.new zeroKey dirServerToClient)

/-- A frame of the server at the place of its epoch. -/
def ackedFrame (n : Nat) : Bytes :=
  Aead.plain.frame ((CryptoHandler.new zeroKey dirServerToClient).advance n) (keepAlive, [])

/-- Two packets are read; the keep-alive that acknowledges them fails before replay, and is written after a recovery
that reads one more. -/
def retriedAck (salt : Option Salt) : List AckEvent :=
  [.feed (ackedFrame 0 ++ ackedFrame 1), .pop, .pop, .keepalive true true, .attempt (.error (.beforeReplay .io)),
    .recover salt [] true (.ok ()) [8192] (ackedFrame (if salt.isSome then 0 else 2)), .attempt (.ok ())]

theorem keepalive_acks_read_retried :
    ∃ s, Relation.ReflTransGen (AckStep ackedSodium AckClient.KeepsEpoch) ackedStart s ∧
      s.written = [⟨2, 2⟩, ⟨2, 3⟩] ∧ ∀ ack ∈ s.written, ack.sequence ≤ ack.read := by
  have hrun : Relation.ReflTransGen (AckStep ackedSodium AckClient.KeepsEpoch) ackedStart _ :=
    reach_guarded AckStep.step (retriedAck none) (by decide +kernel)
  exact ⟨_, hrun, by decide +kernel, keepalive_acks_read hrun⟩

/-- **A stale acknowledgement enters a new epoch**, of which the reader has read one packet. -/
theorem stale_ack_written :
    ∃ s, Relation.ReflTransGen (AckStep ackedSodium fun _ _ => True) ackedStart s ∧
      ∃ ack ∈ s.written, ack.read = 1 ∧ ack.sequence = 2 := by
  have hrun : Relation.ReflTransGen (AckStep ackedSodium fun _ _ => True) ackedStart _ :=
    reach_guarded AckStep.step (retriedAck (some ⟨List.replicate epochSaltBytes 0, by decide⟩)) (by decide +kernel)
  exact ⟨_, hrun, ⟨2, 1⟩, by decide +kernel, rfl, rfl⟩

end EternalTerminal
