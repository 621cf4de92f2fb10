import EternalTerminal.Core.SealedStream
import EternalTerminal.Net.FramingIo

/-!
# Net — recovery of a connection

Two peers that meet on a new transport tell each other the sequence their reader stands at, serve
each other the frames since then, and revive on copies of their state.  The server writes its
catchup before it reads the peer's, the client reads first.

Main results: `recovery_catches_up`, `recovery_of_foreign_keys`.
-/

namespace EternalTerminal
open Bytes BackedWriter Protobuf Process Job List CryptoHandler BackedReader

def maxHandshakeProtoLen : Nat := 4 * 1024

/-- A salt of a reset recovery. -/
abbrev Salt := { bs : Bytes // bs.length = epochSaltBytes }

/-- What a peer says of its reader, as it decodes. -/
structure SequenceHeader where
  sequenceNumber : Option Int
  reset : Option Bool
  resetSalt : Option Bytes

namespace SequenceHeader

def encode (m : SequenceHeader) : Bytes :=
  (m.sequenceNumber.elim [] fun n => varintField 1 (varintOfInt32 n)) ++
    ((m.reset.elim [] fun b => varintField 2 b.toNat) ++ m.resetSalt.elim [] (bytesField 3))

def decode (bytes : Bytes) : Option SequenceHeader := do
  let fields ← decodeFields bytes
  let sequenceNumber ← optionalVarint 1 fields
  let reset ← optionalVarint 2 fields
  let resetSalt ← optionalBytes 3 fields
  return ⟨sequenceNumber.map int32OfVarint, reset.map fun n => n != 0, resetSalt⟩

/-- A sequence number that fits its `int32`, and a salt that fits a message. -/
def Encodable (m : SequenceHeader) : Prop :=
  (∀ n ∈ m.sequenceNumber, -2 ^ 31 ≤ n ∧ n < 2 ^ 31) ∧ ∀ salt ∈ m.resetSalt, salt.length < 2 ^ 64

theorem decode_encode {m : SequenceHeader} (h : m.Encodable) : decode m.encode = some m := by
  obtain ⟨sequenceNumber, reset, resetSalt⟩ := m
  obtain ⟨hseq, hsalt⟩ := h
  have h₃ : decodeFields (resetSalt.elim [] (bytesField 3)) =
      some (resetSalt.elim [] fun salt => [⟨3, .bytes salt⟩]) := by
    cases resetSalt with
    | none => rfl
    | some salt =>
      have := @decodeFields_bytesField_append 3 _ (by decide) (by decide) (hsalt salt rfl) []
      rwa [append_nil, decodeFields_nil] at this
  have h₂ : ∀ rest fields, decodeFields rest = some fields →
      decodeFields ((reset.elim [] fun b => varintField 2 b.toNat) ++ rest) =
        some ((reset.elim [] fun b => [⟨2, .varint b.toNat⟩]) ++ fields) := by
    intro rest fields hrest
    cases reset with
    | none => exact hrest
    | some b =>
      rw [Option.elim_some, decodeFields_varintField_append (by decide) (by decide)
        (by cases b <;> decide), hrest]
      rfl
  have h₁ : ∀ rest fields, decodeFields rest = some fields →
      decodeFields ((sequenceNumber.elim [] fun n => varintField 1 (varintOfInt32 n)) ++ rest) =
        some ((sequenceNumber.elim [] fun n => [⟨1, .varint (varintOfInt32 n)⟩]) ++ fields) := by
    intro rest fields hrest
    cases sequenceNumber with
    | none => exact hrest
    | some n =>
      rw [Option.elim_some, decodeFields_varintField_append (by decide) (by decide)
        (varintOfInt32_lt n), hrest]
      rfl
  rw [decode, encode, h₁ _ _ (h₂ _ _ h₃)]
  cases sequenceNumber with
  | none =>
    rcases reset with _ | _ | _ <;> cases resetSalt <;>
      simp [optionalVarint, optionalBytes, repeatedVarint, repeatedBytes]
  | some n =>
    have hn := int32OfVarint_varintOfInt32 (hseq n rfl)
    rcases reset with _ | _ | _ <;> cases resetSalt <;>
      simp [optionalVarint, optionalBytes, repeatedVarint, repeatedBytes, hn]

end SequenceHeader

/-- The part one side takes in a recovery. -/
structure RecoveryExchange where
  readPeerCatchupFirst : Bool
  resetSalt : Option Salt

namespace RecoveryExchange

/-- The historical order, which servers keep. -/
def default : RecoveryExchange := ⟨false, none⟩

def client (resetSalt : Option Salt) : RecoveryExchange := ⟨true, resetSalt⟩

end RecoveryExchange

/-- A socket, and whether this process has shut it down. -/
structure TcpStream where
  id : Nat
  isShutdown : Bool

def TcpStream.shutdown (s : TcpStream) : TcpStream := { s with isShutdown := true }

/-- `connection.rs`: a transport with its writer and reader. -/
structure Connection where
  stream : TcpStream
  writer : BackedWriter
  reader : BackedReader

/-- The error of a message that is no protobuf message of its type. -/
def decodeFailed : ConnError := .io .invalidData "failed to decode Protobuf message"

def invalidReset : ConnError := .io .invalidData "reset recovery salt is invalid"

/-- `i32::try_from` of the reader's sequence. -/
def wireSequence (sequence : Int) : Except ConnError Int :=
  if -2 ^ 31 ≤ sequence ∧ sequence < 2 ^ 31 then .ok sequence
  else .error (.sequenceOutOfRange sequence)

def remoteSequence : Option Int → Except ConnError Int
  | some value => if 0 ≤ value then .ok value else .error (.invalidRecoverySequence (some value))
  | none => .error (.invalidRecoverySequence none)

def receiveHeader (encoded : Bytes) : Except ConnError SequenceHeader :=
  (SequenceHeader.decode encoded).elim (.error decodeFailed) .ok

def receiveCatchup (encoded : Bytes) : Except ConnError CatchupBuffer := do
  validateCatchupEncoding encoded
  (CatchupBuffer.decode encoded).elim (.error decodeFailed) .ok

/-- Both catchups, in the order this side keeps. -/
def exchangeCatchups (readFirst : Bool) (catchup : CatchupBuffer) : Job ConnError Bytes :=
  if readFirst then do
    let encoded ← readFrameLimited maxRecoveryProtoLen
    writeProtoLimited catchup.encode maxRecoveryProtoLen
    return encoded
  else do
    writeProtoLimited catchup.encode maxRecoveryProtoLen
    readFrameLimited maxRecoveryProtoLen

namespace Connection

def disconnect (conn : Connection) : Connection :=
  { conn with writer := conn.writer.invalidate, reader := conn.reader.invalidate }

/-- A copy of the state on a new transport, without network I/O. -/
def prepareRecoveryCandidate (conn : Connection) (newStream : TcpStream) : Connection :=
  { conn with stream := newStream }.disconnect

/-- The exchange of a reset: nothing is owed. -/
def exchangeReset (salt : Salt) (readFirst : Bool) (remote : SequenceHeader) :
    Job ConnError CatchupBuffer :=
  if remote.reset ≠ some true ∨ remote.resetSalt ≠ some salt.1 then
    throw (.io .invalidData "reset request does not match the negotiated salt")
  else do
    let remoteCatchup ← exchangeCatchups readFirst ⟨[]⟩
    if remoteCatchup.isEmpty then return ⟨[]⟩ else liftM (receiveCatchup remoteCatchup)

/-- The exchange of what each side lacks. -/
def exchangeHistory (conn : Connection) (readFirst : Bool) (remote : SequenceHeader) :
    Job ConnError CatchupBuffer :=
  if remote.reset = some true ∨ remote.resetSalt.any (fun salt => !salt.isEmpty) then
    throw (.io .invalidData "unexpected reset request")
  else do
    let remoteSequence ← liftM (remoteSequence remote.sequenceNumber)
    -- an unservable sequence fails before any catchup is sent
    let buffer ← liftM ((conn.writer.recover remoteSequence).mapError ConnError.recover)
    let encoded ← exchangeCatchups readFirst ⟨buffer⟩
    liftM (receiveCatchup encoded)

def exchangeRecovery (conn : Connection) (exchange : RecoveryExchange) :
    Job ConnError CatchupBuffer := do
  let localSequence := if exchange.resetSalt.isSome then 0 else conn.reader.sequence
  let wireSequence ← liftM (wireSequence localSequence)
  -- the socket is cloned
  call
  let localHeader : SequenceHeader :=
    { sequenceNumber := some wireSequence
      reset := exchange.resetSalt.map fun _ => true
      resetSalt := exchange.resetSalt.map Subtype.val }
  writeProtoLimited localHeader.encode maxHandshakeProtoLen
  let encoded ← readFrameLimited maxHandshakeProtoLen
  let remote ← liftM (receiveHeader encoded)
  match exchange.resetSalt with
  | some salt => exchangeReset salt exchange.readPeerCatchupFirst remote
  | none => conn.exchangeHistory exchange.readPeerCatchupFirst remote

/-- Revive both ends; the reader keeps its state when a catchup packet does not decode. -/
def revive (S : Sodium) (conn : Connection) (catchup : List Bytes) : Except ConnError Nat × Connection :=
  match conn.reader.revive S catchup with
  | .error e => (.error (.read e), conn)
  | .ok reader => (.ok catchup.length, { conn with reader := reader, writer := conn.writer.revive })

/-- The state changes after a completed exchange. -/
def finishExchange (S : Sodium) (conn : Connection) (exchange : RecoveryExchange)
    (remoteCatchup : CatchupBuffer) : Except ConnError Nat × Connection :=
  match exchange.resetSalt with
  | none => conn.revive S remoteCatchup.buffer
  | some salt =>
    match conn.reader.reset S salt with
    | .error _ => (.error invalidReset, conn)
    | .ok reader =>
      let conn := { conn with reader := reader }
      match conn.writer.reset S salt with
      | .error _ => (.error invalidReset, conn)
      | .ok writer => { conn with writer := writer }.revive S []

/-- The exchange and the revival on a prepared candidate: how many catchup packets were revived, and the candidate
then, also after an error. -/
def runRecoveryHandshakeWith (S : Sodium) (conn : Connection) (exchange : RecoveryExchange) :
    Process ConnError (Except ConnError Nat × Connection) := do
  -- the deadline of the handshake
  match ← (call : Job ConnError Unit).run with
  | .error e => return (.error e, conn)
  | .ok () =>
    match ← (conn.exchangeRecovery exchange).run with
    | .error e => return (.error e, { conn with stream := conn.stream.shutdown })
    | .ok remoteCatchup =>
      match conn.finishExchange S exchange remoteCatchup with
      | (.error e, conn) => return (.error e, conn)
      | (.ok revived, conn) =>
        -- the deadline is taken off the socket
        match ← (call : Job ConnError Unit).run with
        | .error e => return (.error e, conn)
        | .ok () => return (.ok revived, conn)

/-- Recover `conn` on a new transport.  Answers the result, and the connection afterwards. -/
def recoverWithExchange (S : Sodium) (conn : Connection) (newStream : TcpStream)
    (exchange : RecoveryExchange) : Process ConnError (Except ConnError Unit × Connection) := do
  match ← (conn.prepareRecoveryCandidate newStream).runRecoveryHandshakeWith S exchange with
  | (.error e, _) => return (.error e, conn)
  | (.ok _, candidate) => return (.ok (), candidate)

end Connection

/-- The loop of `read_live_packet_until`, one count for each blocking read before the deadline. -/
def readLivePacket (S : Sodium) :
    List Nat → BackedReader → Bytes → Except ConnError Packet × BackedReader × Bytes
  | counts, reader, queue =>
    match reader.popLive S with
    | (.ok (.packet packet), reader) => (.ok packet, reader, queue)
    | (.error e, reader) => (.error (.read e), reader.invalidate, queue)
    | (.ok .needMore, reader) =>
      match counts with
      | [] => (.error (.io .timedOut "recovery deadline elapsed"), reader, queue)
      | count :: counts =>
        let bytes := queue.take (min count 8192)
        if bytes.isEmpty then (.error (.io .unexpectedEof ""), reader.invalidate, queue)
        else readLivePacket S counts (reader.feed bytes) (queue.drop bytes.length)

variable {S : Sodium} {readFirst : Bool} {exchange : RecoveryExchange} {conn conn' : Connection}
variable {newStream : TcpStream} {catchup : CatchupBuffer} {encoded i o : Bytes}

/-! ### What a completed recovery did -/

theorem receiveHeader_ok {m : SequenceHeader} (h : receiveHeader encoded = .ok m) :
    SequenceHeader.decode encoded = some m := by
  unfold receiveHeader at h
  cases hd : SequenceHeader.decode encoded with
  | none => rw [hd] at h; cases h
  | some m' => rw [hd] at h; cases h; rfl

theorem receiveCatchup_ok {m : CatchupBuffer} (h : receiveCatchup encoded = .ok m) :
    CatchupBuffer.decode encoded = some m := by
  unfold receiveCatchup at h
  cases hv : validateCatchupEncoding encoded with
  | error e => rw [hv] at h; cases h
  | ok u =>
    rw [hv] at h
    cases hd : CatchupBuffer.decode encoded with
    | none => rw [hd] at h; cases h
    | some m' => rw [hd] at h; cases h; rfl

variable {n : Int} {c c' : CryptoHandler} {w : BackedWriter}

theorem wireSequence_ok {sequence : Int} (h : wireSequence sequence = .ok n) :
    n = sequence ∧ -2 ^ 31 ≤ sequence ∧ sequence < 2 ^ 31 := by
  unfold wireSequence at h
  split at h
  next hrng =>
    cases h
    exact ⟨rfl, hrng⟩
  · cases h

theorem remoteSequence_ok {value : Option Int} (h : remoteSequence value = .ok n) :
    value = some n := by
  unfold remoteSequence at h
  split at h
  · split at h
    · cases h; rfl
    · cases h
  · cases h

/-- The order does not show in what is read and written. -/
theorem ends_exchangeCatchups (h : Ends (exchangeCatchups readFirst catchup) i o encoded) :
    i = lengthFramed encoded ∧ encoded.length ≤ maxRecoveryProtoLen ∧
      o = lengthFramed catchup.encode ∧ catchup.encode.length ≤ maxRecoveryProtoLen := by
  unfold exchangeCatchups at h
  split at h
  · obtain ⟨read, i₁, i₂, o₁, o₂, rfl, rfl, hread, hrest⟩ := ends_bind_iff.mp h
    obtain ⟨rfl, rfl, hlen⟩ := ends_readFrameLimited hread
    obtain ⟨_, i₁, i₂, o₁, o₂, rfl, rfl, hwr, hret⟩ := ends_bind_iff.mp hrest
    obtain ⟨rfl, rfl, hlen'⟩ := ends_writeProtoLimited hwr
    obtain ⟨rfl, rfl, rfl⟩ := ends_pure_iff.mp hret
    exact ⟨append_nil _, hlen, append_nil _, hlen'⟩
  · obtain ⟨_, i₁, i₂, o₁, o₂, rfl, rfl, hwr, hread⟩ := ends_bind_iff.mp h
    obtain ⟨rfl, rfl, hlen'⟩ := ends_writeProtoLimited hwr
    obtain ⟨rfl, rfl, hlen⟩ := ends_readFrameLimited hread
    exact ⟨rfl, hlen, append_nil _, hlen'⟩

/-- **A completed exchange without reset** read the peer's header and catchup, wrote its own, and
answers the peer's frames. -/
structure Exchanged (conn : Connection) (i o : Bytes) (catchup : CatchupBuffer) : Prop where
  sequence_range : -2 ^ 31 ≤ conn.reader.sequence ∧ conn.reader.sequence < 2 ^ 31
  transfer : ∃ header encoded buffer remote sequence,
    i = lengthFramed header ++ lengthFramed encoded ∧
      header.length ≤ maxHandshakeProtoLen ∧ encoded.length ≤ maxRecoveryProtoLen ∧
      o = lengthFramed (SequenceHeader.encode ⟨some conn.reader.sequence, none, none⟩) ++
        lengthFramed (CatchupBuffer.encode ⟨buffer⟩) ∧
      (SequenceHeader.encode ⟨some conn.reader.sequence, none, none⟩).length ≤ maxHandshakeProtoLen ∧
      (CatchupBuffer.encode ⟨buffer⟩).length ≤ maxRecoveryProtoLen ∧
      SequenceHeader.decode header = some remote ∧ remote.sequenceNumber = some sequence ∧
      conn.writer.recover sequence = .ok buffer ∧ CatchupBuffer.decode encoded = some catchup

theorem ends_exchangeHistory {remote : SequenceHeader}
    (h : Ends (conn.exchangeHistory readFirst remote) i o catchup) :
    ∃ sequence buffer encoded, remote.sequenceNumber = some sequence ∧
      conn.writer.recover sequence = .ok buffer ∧
      i = lengthFramed encoded ∧ encoded.length ≤ maxRecoveryProtoLen ∧
      o = lengthFramed (CatchupBuffer.encode ⟨buffer⟩) ∧
      (CatchupBuffer.encode ⟨buffer⟩).length ≤ maxRecoveryProtoLen ∧
      CatchupBuffer.decode encoded = some catchup := by
  unfold Connection.exchangeHistory at h
  split at h
  · exact nomatch h
  obtain ⟨sequence, hseq, h₁⟩ := ends_liftExcept_bind_iff.mp h
  obtain ⟨buffer, hbuf, h₂⟩ := ends_liftExcept_bind_iff.mp h₁
  obtain ⟨encoded, i₁, i₂, o₁, o₂, rfl, rfl, hcatchups, hlast⟩ := ends_bind_iff.mp h₂
  obtain ⟨rfl, hlen, rfl, hlen'⟩ := ends_exchangeCatchups hcatchups
  obtain ⟨rfl, rfl, hcat⟩ := ends_liftExcept_iff.mp hlast
  refine ⟨sequence, buffer, encoded, remoteSequence_ok hseq, ?_, append_nil _, hlen,
    append_nil _, hlen', receiveCatchup_ok hcat⟩
  cases hrec : conn.writer.recover sequence with
  | error e => rw [hrec] at hbuf; cases hbuf
  | ok b => rw [hrec] at hbuf; cases hbuf; rfl

theorem ends_exchangeRecovery (h : Ends (conn.exchangeRecovery ⟨readFirst, none⟩) i o catchup) :
    Exchanged conn i o catchup := by
  obtain ⟨wire, hwire, h₁⟩ := ends_liftExcept_bind_iff.mp h
  obtain ⟨rfl, hrng⟩ := wireSequence_ok hwire
  obtain ⟨_, i₁, i₂, o₁, o₂, rfl, rfl, hwr, h₂⟩ := ends_bind_iff.mp (ends_call_bind_iff.mp h₁)
  obtain ⟨rfl, rfl, hlen⟩ := ends_writeProtoLimited hwr
  obtain ⟨header, i₁, i₃, o₁, o₃, rfl, rfl, hread, h₃⟩ := ends_bind_iff.mp h₂
  obtain ⟨rfl, rfl, hlen'⟩ := ends_readFrameLimited hread
  obtain ⟨remote, hremote, h₄⟩ := ends_liftExcept_bind_iff.mp h₃
  obtain ⟨sequence, buffer, encoded, hseq, hbuf, rfl, henc, rfl, hown, hcat⟩ :=
    ends_exchangeHistory h₄
  exact ⟨hrng, header, encoded, buffer, remote, sequence, rfl, hlen', henc, rfl, hlen, hown,
    receiveHeader_ok hremote, hseq, hbuf, hcat⟩

/-- **Two exchanges that met** served this end what its reader lacked, and left nothing unread. -/
theorem Exchanged.served {me peer : Connection} {i' o' rest rest' : Bytes}
    {catchup' : CatchupBuffer} (hme : Exchanged me i o catchup)
    (hpeer : Exchanged peer i' o' catchup') (hin : o' = i ++ rest) (hout : o = i' ++ rest') :
    peer.writer.recover me.reader.sequence = .ok catchup.buffer ∧ rest = [] := by
  obtain ⟨hrng, header, encoded, _, -, -, rfl, hlen, hlen', rfl, hown, -, -, -, -, hcat⟩ := hme
  obtain ⟨-, header', encoded', buffer, remote, sequence, rfl, hread, -, rfl, hsent, hbuf, hdec, hseq, hrec, -⟩ := hpeer
  have hsm : maxHandshakeProtoLen < 2 ^ 64 := by decide
  have hsm' : maxRecoveryProtoLen < 2 ^ 64 := by decide
  rw [append_assoc] at hin hout
  -- the header the peer read is this end's
  obtain ⟨rfl, -⟩ := lengthFramed_append_inj (by omega) (by omega) hout
  have henc : SequenceHeader.Encodable ⟨some me.reader.sequence, none, none⟩ :=
    ⟨fun n hn => by cases hn; exact hrng, fun _ h => by cases h⟩
  obtain rfl := Option.some.inj ((SequenceHeader.decode_encode henc).symm.trans hdec)
  cases hseq
  -- the catchup this end read is the peer's
  obtain ⟨-, hin⟩ := lengthFramed_append_inj (by omega) (by omega) hin
  rw [← append_nil (lengthFramed (CatchupBuffer.encode ⟨buffer⟩))] at hin
  obtain ⟨rfl, hrest⟩ := lengthFramed_append_inj (by omega) (by omega) hin
  obtain rfl := Option.some.inj ((CatchupBuffer.decode_encode (by omega)).symm.trans hcat)
  exact ⟨hrec, hrest.symm⟩

/-- A handshake that returns `Ok` completed its exchange and the state changes after it. -/
theorem runs_runRecoveryHandshakeWith_ok {n : Nat}
    (h : Runs (conn.runRecoveryHandshakeWith S exchange) i o (.ok n, conn')) :
    ∃ catchup, Ends (conn.exchangeRecovery exchange) i o catchup ∧
      conn.finishExchange S exchange catchup = (.ok n, conn') := by
  obtain ⟨deadline, i₁, i₂, o₁, o₂, rfl, rfl, hdeadline, h₁⟩ := runs_bind_iff.mp h
  cases deadline with
  | error e => cases h₁
  | ok u =>
    obtain ⟨rfl, rfl⟩ := ends_call_iff.mp hdeadline
    obtain ⟨catchup, i₃, i₄, o₃, o₄, rfl, rfl, hexchange, h₂⟩ := runs_bind_iff.mp h₁
    cases catchup with
    | error e => cases h₂
    | ok catchup =>
      dsimp only at h₂
      split at h₂
      · cases h₂
      rename_i revived conn₁ hfin
      obtain ⟨timeout, i₅, i₆, o₅, o₆, rfl, rfl, htimeout, h₃⟩ := runs_bind_iff.mp h₂
      cases timeout with
      | error e => cases h₃
      | ok u =>
        obtain ⟨rfl, rfl⟩ := ends_call_iff.mp htimeout
        obtain ⟨rfl, rfl, hc⟩ := runs_pure_iff.mp h₃
        cases hc
        have hends : Ends (conn.exchangeRecovery exchange) i₃ o₃ catchup := hexchange
        exact ⟨catchup, by simpa using hends, hfin⟩

/-- A recovery that returns `Ok` adopted the candidate of a completed handshake. -/
theorem runs_recoverWithExchange_ok (h : Runs (conn.recoverWithExchange S newStream exchange) i o (.ok (), conn')) :
    ∃ catchup n,
      Ends ((conn.prepareRecoveryCandidate newStream).exchangeRecovery exchange) i o catchup ∧
        (conn.prepareRecoveryCandidate newStream).finishExchange S exchange catchup = (.ok n, conn') := by
  obtain ⟨⟨result, candidate⟩, i₁, i₂, o₁, o₂, rfl, rfl, hshake, hlast⟩ := runs_bind_iff.mp h
  cases result with
  | error e => cases hlast
  | ok n =>
    obtain ⟨rfl, rfl, hc⟩ := runs_pure_iff.mp hlast
    obtain rfl : candidate = conn' := congrArg Prod.snd hc
    obtain ⟨catchup, hexchange, hfin⟩ := runs_runRecoveryHandshakeWith_ok hshake
    exact ⟨catchup, n, by rwa [append_nil, append_nil], hfin⟩

/-- **A recovery that returns an error** leaves the connection as it was, whichever call failed. -/
theorem runs_recoverWithExchange_error {e : ConnError}
    (h : Runs (conn.recoverWithExchange S newStream exchange) i o (.error e, conn')) :
    conn' = conn := by
  obtain ⟨⟨result, candidate⟩, i₁, i₂, o₁, o₂, rfl, rfl, -, hlast⟩ := runs_bind_iff.mp h
  cases result with
  | error e => exact (congrArg Prod.snd (runs_pure_iff.mp hlast).2.2).symm
  | ok n => cases hlast

/-! ### Catching up -/

/-- What `r` lacks of the packets `w` has written, oldest first, as a catchup carries them. -/
def lackedFrames (w : BackedWriter) (r : BackedReader) : List Bytes :=
  ((w.backup.take (w.sequence - r.sequence).toNat).map (List.drop 4)).reverse

/-- `r'` is `r` after it was given exactly what it lacked of `w`. -/
structure CaughtUp (S : Sodium) (w : BackedWriter) (r r' : BackedReader) : Prop where
  sequence_eq : r'.sequence = w.sequence
  lacked_length : ((lackedFrames w r).length : Int) = w.sequence - r.sequence
  replay_eq : ∃ packets,
    decodeCatchup S r.crypto (lackedFrames w r) = .ok (packets, r'.crypto) ∧
      r'.replay = r.replay ++ packets

/-- The reader's handler, moved past the packets it lacks, has the writer's key and nonce. -/
def InStep (w : BackedWriter) (r : BackedReader) : Prop :=
  (r.crypto.advance (w.sequence - r.sequence).toNat).baseKey = w.crypto.baseKey ∧
    (r.crypto.advance (w.sequence - r.sequence).toNat).nonce = w.crypto.nonce

/-- The next packet of `w` goes out, and `r` opens it: its body decodes, and a reader with a sound
buffer that gets the frame answers the packet when it is not too long for one. -/
def OpensNext (S : Sodium) (w : BackedWriter) (r : BackedReader) : Prop :=
  ∀ header payload, ∃ frame w', w.writePacket S header payload = (.send frame, w') ∧
    decodePacket S r.crypto (frame.drop 4) =
      (.ok (Packet.raw false header payload), r.crypto.bump) ∧
    (r.WellFormed → Message.Fits (header, payload) → r.available = [] →
      ((r.feed frame).popLive S).1 = .ok (.packet (Packet.raw false header payload)))

theorem decodePacket_ok_crypto {body : Bytes} {packet : Packet}
    (h : decodePacket S c body = (.ok packet, c')) : c' = c.bump := by
  unfold decodePacket at h
  split at h
  · split at h
    · cases h
    · unfold decrypt at h
      split at h <;> cases h
      rename_i hdec
      split at hdec
      · cases hdec
      · dsimp only at hdec
        split at hdec <;> cases hdec
        rfl
  · cases h

theorem decodeCatchup_ok_crypto {catchup : List Bytes}
    {packets : List Packet} (h : decodeCatchup S c catchup = .ok (packets, c')) :
    c' = c.advance catchup.length := by
  induction catchup generalizing c packets with
  | nil => cases h; rfl
  | cons body catchup ih =>
    rw [decodeCatchup] at h
    split at h
    · cases h
    rename_i packet c₁ hdec
    obtain rfl := decodePacket_ok_crypto hdec
    cases hrest : decodeCatchup S c.bump catchup with
    | error e => rw [hrest] at h; cases h
    | ok d =>
      rw [hrest] at h
      cases h
      rw [ih hrest, length_cons, advance_bump]

/-- The candidate's revival with what the peer served. -/
theorem caughtUp_of_revive {catchup : List Bytes} {n : Nat} (hserved : w.recover conn.reader.sequence = .ok catchup)
    (h : (conn.prepareRecoveryCandidate newStream).revive S catchup = (.ok n, conn')) :
    CaughtUp S w conn.reader conn'.reader ∧ conn'.writer = conn.writer.invalidate.revive ∧
      conn'.reader.connected = true ∧
      conn'.reader.crypto = conn.reader.crypto.advance (w.sequence - conn.reader.sequence).toNat := by
  unfold Connection.revive at h
  cases hrev : (conn.prepareRecoveryCandidate newStream).reader.revive S catchup with
  | error e => rw [hrev] at h; cases h
  | ok reader =>
    rw [hrev] at h
    cases h
    obtain ⟨packets, crypto, hdec, rfl⟩ := revive_ok hrev
    obtain ⟨hframes, hlen⟩ := recover_frames hserved
    have hlacked : catchup = lackedFrames w conn.reader := hframes
    have hcry := decodeCatchup_ok_crypto hdec
    refine ⟨⟨?_, by rw [← hlacked, hlen], packets, by rw [← hlacked]; exact hdec, rfl⟩, rfl, rfl, ?_⟩
    · show conn.reader.sequence + _ = _
      rw [hlen]
      ring
    · show crypto = _
      rw [hcry, ← hlen]
      rfl

/-- **A reader in step opens the next packet.** -/
theorem opensNext_of_crypto_eq (hS : S.Correct) {r : BackedReader}
    (hw : w.connected = true) (hr : r.connected = true) (hkey : r.crypto.baseKey = w.crypto.baseKey)
    (hnonce : r.crypto.nonce = w.crypto.nonce) : OpensNext S w r := by
  intro header payload
  have hdec : decodePacket S r.crypto ((packetFrame S w.crypto header payload).drop 4) =
      (.ok (Packet.raw false header payload), r.crypto.bump) := by
    have hlen : ¬ (S.secretbox payload w.crypto.bump.nonce w.crypto.baseKey).length < macLen := by
      rw [S.length_secretbox]; omega
    rw [packetFrame_drop, decodePacket, if_neg (by decide), decrypt, if_neg hlen]
    simp only [bump_baseKey, bump_nonce, hkey, hnonce, hS _ _ _]
  refine ⟨_, _, writePacket_connected header payload hw, hdec, fun hwf hfit hnil => ?_⟩
  obtain ⟨hwf', hview⟩ := feed_spec hwf (packetFrame S w.crypto header payload)
  have hbs : r.view.bytes = [] := hnil
  have hwh : packetFrame S w.crypto header payload <+: packetFrame S w.crypto header payload ++ [] :=
    prefix_append _ _
  rcases nextFrame_packetFrame hfit hwh with
    ⟨-, hlt⟩ | ⟨more, hmore, -, hfr⟩
  · exact absurd hlt (lt_irrefl _)
  · rw [(popLive_refines hwf').2.1, hview, StreamReader.popLive_frame (v := r.view.receive _) hr
        (by rw [StreamReader.receive, hbs, nil_append]; exact hfr),
      StreamReader.takeFrame]
    have hcry : (r.view.receive (packetFrame S w.crypto header payload)).crypto = r.crypto := rfl
    rw [hcry, hdec]

/-! ### Two peers -/

/-- The two peers at the start of a recovery. -/
def recoveryStart (S : Sodium) (server client : Connection) (toClient toServer : TcpStream) :
    Duplex ConnError (Except ConnError Unit × Connection) (Except ConnError Unit × Connection) where
  left := server.recoverWithExchange S toClient RecoveryExchange.default
  right := client.recoverWithExchange S toServer (RecoveryExchange.client none)
  toLeft := []
  toRight := []

/-- **A recovery catches both readers up.**  When both peers return `Ok`, each reader has been given
exactly what it lacked of the other's packets, nothing is left unread, and a reader that was in step
opens the next packet.  A peer that returns an error is as it was before. -/
theorem recovery_catches_up (S : Sodium) (hS : S.Correct) (server client : Connection) (toClient toServer : TcpStream)
    (s : Duplex ConnError (Except ConnError Unit × Connection) (Except ConnError Unit × Connection))
    (hrun : Relation.ReflTransGen Duplex.Step (recoveryStart S server client toClient toServer) s) :
    (∀ server' client', s.left = .ret (.ok (), server') → s.right = .ret (.ok (), client') →
        CaughtUp S server.writer client.reader client'.reader ∧
        CaughtUp S client.writer server.reader server'.reader ∧
        s.toLeft = [] ∧ s.toRight = [] ∧
        (InStep server.writer client.reader → OpensNext S server'.writer client'.reader) ∧
        (InStep client.writer server.reader → OpensNext S client'.writer server'.reader)) ∧
      (∀ e server', s.left = .ret (.error e, server') → server' = server) ∧
      (∀ e client', s.right = .ret (.error e, client') → client' = client) := by
  refine ⟨fun server' client' hl hr => ?_, fun e server' hl => ?_, fun e client' hr => ?_⟩
  · obtain ⟨iL, oL, iR, oR, hleft, hright, htoL, htoR⟩ := Duplex.run_runs hrun hl hr
    obtain ⟨catchupS, n, hS₁, hS₂⟩ := runs_recoverWithExchange_ok hleft
    obtain ⟨catchupC, m, hC₁, hC₂⟩ := runs_recoverWithExchange_ok hright
    have hexS := ends_exchangeRecovery hS₁
    have hexC := ends_exchangeRecovery hC₁
    obtain ⟨hservedS, hnilL⟩ := hexS.served hexC htoL htoR
    obtain ⟨hservedC, hnilR⟩ := hexC.served hexS htoR htoL
    -- a copy serves what its original would
    have hservedS : client.writer.recover server.reader.sequence = .ok catchupS.buffer := hservedS
    have hservedC : server.writer.recover client.reader.sequence = .ok catchupC.buffer := hservedC
    obtain ⟨hupS, hwS, hconnS, hcryptoS⟩ := caughtUp_of_revive hservedS hS₂
    obtain ⟨hupC, hwC, hconnC, hcryptoC⟩ := caughtUp_of_revive hservedC hC₂
    refine ⟨hupC, hupS, hnilL, hnilR, fun hstep => ?_, fun hstep => ?_⟩
    · rw [hwS]
      exact opensNext_of_crypto_eq hS rfl hconnC (by rw [hcryptoC]; exact hstep.1)
        (by rw [hcryptoC]; exact hstep.2)
    · rw [hwC]
      exact opensNext_of_crypto_eq hS rfl hconnS (by rw [hcryptoS]; exact hstep.1)
        (by rw [hcryptoS]; exact hstep.2)
  · obtain ⟨i, o, h⟩ := Duplex.run_left hrun hl
    exact runs_recoverWithExchange_error h
  · obtain ⟨i, o, h⟩ := Duplex.run_right hrun hr
    exact runs_recoverWithExchange_error h

/-- A connection of a new session. -/
def Connection.start (key : Key) (writes reads : UInt8) : Connection where
  stream := ⟨0, false⟩
  writer := BackedWriter.new (CryptoHandler.new key writes) true
  reader := BackedReader.new (CryptoHandler.new key reads) true

/-- A server that wrote a packet while its client was away. -/
def owingServer : Connection :=
  let conn := Connection.start zeroKey dirServerToClient dirClientToServer
  { conn with writer := (conn.writer.invalidate.writePacket Sodium.keyTagged 7 [1, 2]).2 }

/-- The two peers recover, and the client has the packet it lacked. -/
theorem recovery_catches_up_owed :
    let start := recoveryStart Sodium.keyTagged owingServer
      (Connection.start zeroKey dirClientToServer dirServerToClient) ⟨1, false⟩ ⟨2, false⟩
    ∃ s server client, Relation.ReflTransGen Duplex.Step start s ∧
      s.left = .ret (.ok (), server) ∧ s.right = .ret (.ok (), client) ∧
      client.reader.replay = [Packet.raw false 7 [1, 2]] ∧
      OpensNext Sodium.keyTagged server.writer client.reader := by
  intro start
  have hrun := Duplex.exec_reaches 40 start
  obtain ⟨server, client, hl, hr, hreplay⟩ := Duplex.exec_both_ok start 40
    (p := fun _ client => client.reader.replay = [Packet.raw false 7 [1, 2]]) (by decide +kernel)
  have h := (recovery_catches_up Sodium.keyTagged Sodium.keyTagged_correct _ _ _ _ _ hrun).1
    server client hl hr
  exact ⟨_, server, client, hrun, hl, hr, hreplay, h.2.2.2.2.1 ⟨by decide +kernel, by decide +kernel⟩⟩

/-- Another key to run the model with. -/
def oneKey : Key := ⟨List.replicate keyLen 1, length_replicate⟩

/-- **The exchange proves no key.**  Two peers with different keys that owe each other nothing both
return `Ok`, and the first packet of the server does not open at the client. -/
theorem recovery_of_foreign_keys :
    let server := Connection.start zeroKey dirServerToClient dirClientToServer
    let client := Connection.start oneKey dirClientToServer dirServerToClient
    server.reader.sequence ≤ client.writer.sequence ∧
      client.reader.sequence ≤ server.writer.sequence ∧
      ∃ s server' client', Relation.ReflTransGen Duplex.Step
          (recoveryStart Sodium.keyTagged server client ⟨1, false⟩ ⟨2, false⟩) s ∧
        s.left = .ret (.ok (), server') ∧ s.right = .ret (.ok (), client') ∧
        (server'.writer.writePacket Sodium.keyTagged 7 [1]).1 =
          .send (packetFrame Sodium.keyTagged server'.writer.crypto 7 [1]) ∧
        (decodePacket Sodium.keyTagged client'.reader.crypto
          ((packetFrame Sodium.keyTagged server'.writer.crypto 7 [1]).drop 4)).1 =
            .error (.crypto .badMac) := by
  intro server client
  refine ⟨le_rfl, le_rfl, ?_⟩
  obtain ⟨server', client', hl, hr, hsend, hdec⟩ := Duplex.exec_both_ok
    (recoveryStart Sodium.keyTagged server client ⟨1, false⟩ ⟨2, false⟩) 40
    (p := fun server' client' => (server'.writer.writePacket Sodium.keyTagged 7 [1]).1 =
          .send (packetFrame Sodium.keyTagged server'.writer.crypto 7 [1]) ∧
        (decodePacket Sodium.keyTagged client'.reader.crypto
          ((packetFrame Sodium.keyTagged server'.writer.crypto 7 [1]).drop 4)).1 =
            .error (.crypto .badMac)) (by decide +kernel)
  exact ⟨_, server', client', Duplex.exec_reaches 40 _, hl, hr, hsend, hdec⟩

end EternalTerminal
