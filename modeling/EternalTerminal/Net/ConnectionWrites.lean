import EternalTerminal.Core.Keepalive
import EternalTerminal.Net.Recovery

/-!
# Net — packets written on a connection

The four ways in which a packet gets from a caller to the replay writer of a `Connection`, and its frame to the
transport: a write that blocks (`write_packet_owned_until`), one that is prepared and sent by the caller, one whose
frame is kept and advanced (`start_write_packet_owned`, `advance_write`), and one that is reserved, sealed and
committed.  An error says who has the packet: `BeforeReplay` the caller, `ReplayOwned` the writer.

What the transport and the clock answer is an argument: the probe, every send, every wait for room.  A blocking send
ends at the latest when its answers do, as the deadline then has passed.

* `Appended`: the writer took exactly one packet; `OnlyConnected`: it took nothing.

Main result: `write_ownership`.
-/

namespace EternalTerminal
open Machine History BackedWriter

/-! ### Errors and answers -/

/-- The connection errors that the output tells apart. -/
inductive WriteError where
  | io
  | backpressure
  | encrypt
  deriving DecidableEq

/-- A failed write, by who has the packet. -/
inductive WritePacketError where
  | beforeReplay (error : WriteError)
  | replayOwned (error : WriteError)
  deriving DecidableEq

/-- The targets whose code differs. -/
inductive Platform where
  | unix
  | windows
  deriving DecidableEq

/-- What a peek at the transport finds. -/
inductive ProbeAnswer where
  /-- The socket cannot be put into nonblocking mode (Windows). -/
  | modeFailed
  | closed
  | data
  /-- Nothing to read, or interrupted. -/
  | empty
  /-- Reset, aborted, broken or not connected. -/
  | gone
  | failed

/-- What one send answers. -/
inductive SendAnswer where
  | taken (count : Nat)
  /-- No room, or interrupted. -/
  | again
  | failed

/-- A send, and the time before it. -/
structure SendTry where
  now : Nat
  answer : SendAnswer

/-- A round of a blocking send: a send, and whether the wait for room after it fails. -/
structure FinishRound where
  send : SendTry
  waitFailed : Bool

def writeQuantum : Nat := 256 * 1024

/-! ### A frame on its way -/

/-- A frame that replay owns and that is not all on the wire.  Instants are in nanoseconds. -/
structure PendingWrite where
  stream : TcpStream
  frame : Bytes
  offset : Nat
  deadline : Nat
  /-- What the peer had sent when the deadline last elapsed, and when it was last heard. -/
  heard : Option ((Int × Nat) × Nat)

/-- A packet that replay owns, with its frame where the transport is live. -/
structure PreparedWrite where
  live : Option (TcpStream × Bytes × Nat)

def PreparedWrite.intoPending (w : PreparedWrite) (now : Nat) : Option PendingWrite :=
  w.live.map fun (stream, frame, timeout) => ⟨stream, frame, 0, now + timeout, none⟩

namespace PendingWrite

/-- An elapsed deadline moves while the peer is still sending. -/
def deferWhilePeerTalks (p : PendingWrite) (inbound : Int × Nat) (now silence timeout : Nat) : PendingWrite :=
  let heardAt := match p.heard with
    | some (seen, at_) => if seen = inbound then at_ else now
    | none => if timeout ≤ p.deadline then p.deadline - timeout else now
  let limit := heardAt + silence
  { p with
    heard := some (inbound, heardAt)
    deadline := if now < limit then min limit (now + timeout) else p.deadline }

/-- One bounded send: whether the frame is all on the wire. -/
def advance (p : PendingWrite) (send : SendTry) : Except Unit Bool × PendingWrite :=
  if p.deadline ≤ send.now then (.error (), p)
  else match send.answer with
    | .taken count =>
      let count := min count (min p.frame.length (p.offset + writeQuantum) - p.offset)
      if count = 0 then (.error (), p)
      else
        let p := { p with offset := p.offset + count }
        (.ok (p.offset == p.frame.length), p)
    | .again => (.ok false, p)
    | .failed => (.error (), p)

/-- The blocking send.  Past its rounds the deadline has elapsed. -/
def finish : PendingWrite → List FinishRound → Except WritePacketError Unit × PendingWrite
  | p, [] => (.error (.replayOwned .io), p)
  | p, round :: rounds =>
    match p.advance round.send with
    | (.error _, p) => (.error (.replayOwned .io), p)
    | (.ok true, p) => (.ok (), p)
    | (.ok false, p) => if round.waitFailed then (.error (.replayOwned .io), p) else p.finish rounds

/-- A frame that is given up partly sent gives up its transport too. -/
def dropOn (p : PendingWrite) (stream : TcpStream) : TcpStream :=
  if p.offset ≠ p.frame.length ∧ p.stream.id = stream.id then stream.shutdown else stream

end PendingWrite

def ReservedWrite.header (r : ReservedWrite) : UInt8 := r.framePrefix.getD 5 0

def ReservedWrite.payloadLen (r : ReservedWrite) : Nat := r.packetWireLen - 2 - macLen

/-! ### The connection -/

/-- A connection with the state of its live writes. -/
structure SendingConnection extends Connection where
  liveWriteTimeout : Nat
  peerSilence : Option Nat
  pendingLive : Option PendingWrite
  outputWindow : Option OutputWindow

namespace SendingConnection

def dropPending (c : SendingConnection) (p : Option PendingWrite) : SendingConnection :=
  { c with stream := p.elim c.stream fun p => p.dropOn c.stream }

def disconnect (c : SendingConnection) : SendingConnection :=
  { c.dropPending c.pendingLive with
    pendingLive := none
    writer := c.writer.invalidate
    reader := c.reader.invalidate }

def invalidateWriter (c : SendingConnection) : SendingConnection := { c with writer := c.writer.invalidate }

/-- A peer that is gone ends live writes; its last packets can still be read. -/
def refreshConnectivity (c : SendingConnection) (probe : ProbeAnswer) : Except Unit Unit × SendingConnection :=
  if !c.writer.connected then (.ok (), c)
  else match probe with
    | .modeFailed => (.error (), c)
    | .closed | .gone => (.ok (), c.invalidateWriter)
    | .data | .empty => (.ok (), c)
    | .failed => (.error (), c.disconnect)

/-- A packet that the writer committed counts for the output bound. -/
def noteOutput (c : SendingConnection) (outcome : WriterOutcome) (header : UInt8) (payloadLen now : Nat) :
    SendingConnection :=
  if outcome = .skipped then c
  else
    let carriesAck := header == keepAlive && payloadLen == ackPayloadLen
    { c with outputWindow := c.outputWindow.map fun window =>
        window.onWrite c.writer.sequence payloadLen (header == terminalBuffer) carriesAck now }

/-- Where the outcome goes: a frame to send is kept with the transport and its time. -/
def prepared (c : SendingConnection) (liveStream : Option TcpStream) : WriterOutcome → PreparedWrite
  | .send frame => ⟨liveStream.map fun stream => (stream, frame, c.liveWriteTimeout)⟩
  | .bufferedOnly | .skipped => ⟨none⟩

def liveStream (c : SendingConnection) : Option TcpStream := if c.writer.connected then some c.stream else none

/-- `prepare_write_packet_unprobed`, and the rest of `prepare_write_packet` after its probe. -/
def prepareWritePacketUnprobed (S : Sodium) (c : SendingConnection) (header : UInt8) (payload : Bytes) (now : Nat) :
    Except WritePacketError PreparedWrite × SendingConnection :=
  if c.pendingLive.isSome then (.error (.beforeReplay .backpressure), c)
  else
    let liveStream := c.liveStream
    let (outcome, writer) := c.writer.writePacket S header payload
    let c := { c with writer := writer }.noteOutput outcome header payload.length now
    if outcome = .skipped then (.error (.beforeReplay .backpressure), c)
    else (.ok (c.prepared liveStream outcome), c)

def prepareWritePacket (S : Sodium) (platform : Platform) (c : SendingConnection) (header : UInt8) (payload : Bytes)
    (probe : ProbeAnswer) (now : Nat) : Except WritePacketError PreparedWrite × SendingConnection :=
  if c.pendingLive.isSome then (.error (.beforeReplay .backpressure), c)
  else match c.refreshConnectivity probe with
    | (.ok _, c) => c.prepareWritePacketUnprobed S header payload now
    | (.error _, c) =>
      match platform with
      -- the packet is still buffered for a reconnect
      | .unix => c.disconnect.prepareWritePacketUnprobed S header payload now
      | .windows => (.error (.beforeReplay .io), c.disconnect)

end SendingConnection

/-- `send`, or `send_until` where a deadline is given. -/
def PreparedWrite.send (w : PreparedWrite) (now : Nat) (deadline : Option Nat) (rounds : List FinishRound) :
    Except WritePacketError Unit × Option PendingWrite :=
  match w.intoPending now with
  | none => (.ok (), none)
  | some pending =>
    let (result, pending) := { pending with deadline := deadline.getD pending.deadline }.finish rounds
    (result, some pending)

namespace SendingConnection

/-- A prepared packet, sent by the caller. -/
def prepareAndSend (S : Sodium) (platform : Platform) (c : SendingConnection) (header : UInt8) (payload : Bytes)
    (probe : ProbeAnswer) (now : Nat) (rounds : List FinishRound) :
    Except WritePacketError Unit × SendingConnection :=
  match c.prepareWritePacket S platform header payload probe now with
  | (.error error, c) => (.error error, c)
  | (.ok w, c) =>
    let (result, pending) := w.send now none rounds
    (result, c.dropPending pending)

def writePacketOwnedUntil (S : Sodium) (platform : Platform) (c : SendingConnection) (header : UInt8) (payload : Bytes)
    (deadline : Option Nat) (probe : ProbeAnswer) (now : Nat) (rounds : List FinishRound) :
    Except WritePacketError Unit × SendingConnection :=
  match c.prepareWritePacket S platform header payload probe now with
  | (.error error, c) => (.error error, c)
  | (.ok w, c) =>
    match w.send now deadline rounds with
    | (.ok _, pending) => (.ok (), c.dropPending pending)
    | (.error error, pending) => (.error error, (c.dropPending pending).disconnect)

/-- What `advance_write` is called with: the time, the bytes that wait to be read, and its send. -/
structure AdvanceTry where
  now : Nat
  unread : Nat
  send : SendTry

/-- The deadline of the kept frame, where the peer is given time while it talks. -/
def deferPending (c : SendingConnection) (t : AdvanceTry) : SendingConnection :=
  match c.peerSilence, c.pendingLive with
  | some silence, some pending =>
    if pending.deadline ≤ t.now then
      let inbound := (c.reader.sequence, t.unread)
      { c with pendingLive := some (pending.deferWhilePeerTalks inbound t.now silence c.liveWriteTimeout) }
    else c
  | _, _ => c

def advanceWrite (c : SendingConnection) (t : AdvanceTry) : Except WritePacketError Bool × SendingConnection :=
  let c := c.deferPending t
  match c.pendingLive with
  | none => (.ok true, c)
  | some pending =>
    match pending.advance t.send with
    | (.ok true, _) => (.ok true, { c with pendingLive := none })
    | (.ok false, pending) => (.ok false, { c with pendingLive := some pending })
    | (.error _, pending) => (.error (.replayOwned .io), { c with pendingLive := some pending }.disconnect)

/-- A prepared packet becomes the kept frame. -/
def keepPrepared (prepared : Except WritePacketError PreparedWrite × SendingConnection) (now : Nat) (t : AdvanceTry) :
    Except WritePacketError Bool × SendingConnection :=
  match prepared with
  | (.error error, c) => (.error error, c)
  | (.ok w, c) => { c with pendingLive := w.intoPending now }.advanceWrite t

/-- Its result is whether nothing of the frame is left, which the source asks of `write_pending` after it. -/
def startWritePacketOwned (S : Sodium) (platform : Platform) (c : SendingConnection) (header : UInt8) (payload : Bytes)
    (probe : ProbeAnswer) (now : Nat) (t : AdvanceTry) : Except WritePacketError Bool × SendingConnection :=
  keepPrepared (c.prepareWritePacket S platform header payload probe now) now t

def startWritePacketOwnedUnprobed (S : Sodium) (c : SendingConnection) (header : UInt8) (payload : Bytes) (now : Nat)
    (t : AdvanceTry) : Except WritePacketError Bool × SendingConnection :=
  keepPrepared (c.prepareWritePacketUnprobed S header payload now) now t

/-- The kept frame is advanced until it is sent or fails, or for as long as there are tries. -/
def advanceAll : Except WritePacketError Bool × SendingConnection → List AdvanceTry →
    Except WritePacketError Bool × SendingConnection
  | (.ok false, c), t :: tries => advanceAll (c.advanceWrite t) tries
  | (result, c), _ => (result, c)

/-- A packet is started, and its frame advanced. -/
def startAndAdvance (S : Sodium) (platform : Platform) (c : SendingConnection) (header : UInt8) (payload : Bytes)
    (probe : ProbeAnswer) (now : Nat) (t : AdvanceTry) (tries : List AdvanceTry) :
    Except WritePacketError Bool × SendingConnection :=
  advanceAll (c.startWritePacketOwned S platform header payload probe now t) tries

def startAndAdvanceUnprobed (S : Sodium) (c : SendingConnection) (header : UInt8) (payload : Bytes) (now : Nat)
    (t : AdvanceTry) (tries : List AdvanceTry) : Except WritePacketError Bool × SendingConnection :=
  advanceAll (c.startWritePacketOwnedUnprobed S header payload now t) tries

def reserveWritePacket (platform : Platform) (c : SendingConnection) (header : UInt8) (payloadLen : Nat)
    (probe : ProbeAnswer) : Except WritePacketError ReservedWrite × SendingConnection :=
  if c.pendingLive.isSome then (.error (.beforeReplay .backpressure), c)
  else
    -- only Windows probes here: on Unix the session's reader sees a close
    match (if platform = .windows then c.refreshConnectivity probe else (.ok (), c)) with
    | (.error _, c) => (.error (.beforeReplay .io), c.disconnect)
    | (.ok _, c) =>
      match c.writer.reserveWrite header payloadLen with
      | none => (.error (.beforeReplay .backpressure), c)
      | some (reserved, writer) => (.ok reserved, { c with writer := writer })

def commitWritePacket (c : SendingConnection) (reserved : ReservedWrite) (frame : Bytes) (now : Nat) :
    PreparedWrite × SendingConnection :=
  let liveStream := c.liveStream
  let (outcome, writer) := c.writer.commitWrite reserved frame
  let c := { c with writer := writer }.noteOutput outcome reserved.header reserved.payloadLen now
  (c.prepared liveStream outcome, c)

/-- A reserved packet is sealed, committed and sent.  The connection lock is free while it is sealed, and the
transport may be given up then. -/
def reserveAndCommit (S : Sodium) (platform : Platform) (c : SendingConnection) (header : UInt8) (payload : Bytes)
    (probe : ProbeAnswer) (lost : Bool) (now : Nat) (rounds : List FinishRound) :
    Except WritePacketError Unit × SendingConnection :=
  match c.reserveWritePacket platform header payload.length probe with
  | (.error error, c) => (.error error, c)
  | (.ok reserved, c) =>
    let c := if lost then c.disconnect else c
    let (w, c) := c.commitWritePacket reserved (reserved.encrypt S payload) now
    let (result, pending) := w.send now none rounds
    (result, c.dropPending pending)

end SendingConnection

/-! ### What happened to the writer -/

/-- The writer took no packet: at most its transport is gone. -/
def OnlyConnected (w w' : BackedWriter) : Prop := w' = { w with connected := w'.connected }

/-- The counters of a writer are those of its backup. -/
structure BackedWriter.Accounted (w : BackedWriter) : Prop where
  size_eq : w.backupSize = total wireLen w.backup
  acknowledged_le : ∀ acked ∈ w.acknowledged, acked ≤ w.sequence

/-- The writer took exactly this packet: one frame in front of the backup, one sequence number and one nonce.  The caps
then cut the backup at its old end, and reach the frame itself only when it is larger than all they allow. -/
structure WriterAppended (S : Sodium) (header : UInt8) (payload : Bytes) (w w' : BackedWriter) : Prop where
  sequence : w'.sequence = w.sequence + 1
  crypto : w'.crypto = w.crypto.bump
  backup : ∃ n, w'.backup = (packetFrame S w.crypto header payload :: w.backup).take n
  newest : w.Accounted → ((2 + payload.length + macLen : Nat) : Int) ≤ maxBackupBytes →
    w'.backup.head? = some (packetFrame S w.crypto header payload)

/-- The verdict of a write is what happened to the writer. -/
def WriteOwnership {α : Type} (S : Sodium) (header : UInt8) (payload : Bytes) (w w' : BackedWriter) :
    Except WritePacketError α → Prop
  | .error (.beforeReplay _) => OnlyConnected w w'
  | .error (.replayOwned _) | .ok _ => WriterAppended S header payload w w'

namespace OnlyConnected
variable {w w₁ w₂ : BackedWriter}

theorem refl (w : BackedWriter) : OnlyConnected w w := rfl

theorem trans (h₁ : OnlyConnected w w₁) (h₂ : OnlyConnected w₁ w₂) : OnlyConnected w w₂ := by
  unfold OnlyConnected at *
  rw [h₂, h₁]

theorem invalidate (w : BackedWriter) : OnlyConnected w w.invalidate := rfl

end OnlyConnected

namespace WriterAppended
variable {S : Sodium} {header : UInt8} {payload : Bytes} {w w₁ w₂ : BackedWriter}

theorem before (h : OnlyConnected w w₁) (happ : WriterAppended S header payload w₁ w₂) :
    WriterAppended S header payload w w₂ := by
  obtain ⟨connected, rfl⟩ : ∃ connected, w₁ = { w with connected := connected } := ⟨_, h⟩
  refine { happ with newest := fun hacc hsize => ?_ }
  exact happ.newest ⟨hacc.size_eq, hacc.acknowledged_le⟩ hsize

theorem after (happ : WriterAppended S header payload w w₁) (h : OnlyConnected w₁ w₂) :
    WriterAppended S header payload w w₂ := by
  obtain ⟨connected, rfl⟩ : ∃ connected, w₂ = { w₁ with connected := connected } := ⟨_, h⟩
  exact { happ with }

end WriterAppended

variable {payload : Bytes} {header : UInt8} {S : Sodium} {reserved : ReservedWrite} {α : Type}
variable {w w' : BackedWriter} {result : Except WritePacketError α}

/-- What a reservation leaves, and what it seals. -/
theorem reserveWrite_some {w₁ : BackedWriter} (h : w.reserveWrite header payload.length = some (reserved, w₁)) :
    w₁ = { w with crypto := w.crypto.bump } ∧ reserved.packetWireLen = 2 + payload.length + macLen ∧
      reserved.encrypt S payload = packetFrame S w.crypto header payload := by
  unfold reserveWrite at h
  split at h
  · cases h
  · cases h
    exact ⟨rfl, rfl, rfl⟩

/-- A frame that the hard caps allow alone survives the commit that pushes it. -/
theorem head_commitWrite (hconn : w.connected = true) (hacc : w.Accounted) {crypto : CryptoHandler}
    (hwire : reserved.packetWireLen = 2 + payload.length + macLen)
    (hsize : ((2 + payload.length + macLen : Nat) : Int) ≤ maxBackupBytes) :
    (w.commitWrite reserved (packetFrame S crypto header payload)).2.backup.head? =
      some (packetFrame S crypto header payload) := by
  have hlen : wireLen (packetFrame S crypto header payload) = reserved.packetWireLen := by
    rw [wireLen_packetFrame, hwire]
  obtain ⟨n, -, hcommit, -, hspare⟩ := commitWrite_connected_cut hconn hlen hacc.size_eq
  have hone : overHardCaps 1 (total wireLen ((packetFrame S crypto header payload :: w.backup).take 1)) = false := by
    have htot : total wireLen ((packetFrame S crypto header payload :: w.backup).take 1) =
        (2 + payload.length + macLen : Nat) := by
      simp [total, wireLen_packetFrame]
    rw [htot, overHardCaps, Bool.or_eq_false_iff]
    exact ⟨decide_eq_false (Int.not_lt.mpr hsize), by decide⟩
  have hpos : 1 ≤ n := by
    refine hspare 1 (Nat.le_add_left _ _) hone fun acked hack => ?_
    have hle := hacc.acknowledged_le acked hack
    omega
  obtain ⟨m, rfl⟩ := Nat.exists_eq_add_of_le' hpos
  rw [hcommit]
  rfl

/-- **A reservation and its commit** are one packet for the writer, also when the transport goes in between. -/
theorem appended_commitWrite {w₁ w₂ : BackedWriter}
    (hres : w.reserveWrite header payload.length = some (reserved, w₁))
    (hkept : OnlyConnected w₁ w₂) :
    WriterAppended S header payload w (w₂.commitWrite reserved (reserved.encrypt S payload)).2 := by
  obtain ⟨rfl, hwire, hfr⟩ := reserveWrite_some hres
  obtain ⟨connected, rfl⟩ : ∃ connected, w₂ = { w with crypto := w.crypto.bump, connected := connected } := ⟨_, hkept⟩
  rw [hfr]
  generalize hpushed : packetFrame S w.crypto header payload :: w.backup = pushed
  cases connected with
  | false =>
    refine ⟨rfl, rfl, ⟨pushed.length, ?_⟩, fun _ _ => rfl⟩
    rw [hpushed, List.take_length, ← hpushed]
    rfl
  | true =>
    refine ⟨rfl, rfl, ?_, fun hacc hsize => ?_⟩
    · obtain ⟨k, hk⟩ := trimBack_take wireLen
        (overConnectedCaps (unacknowledged w.acknowledged (w.sequence + 1))) pushed
        (w.backupSize + reserved.packetWireLen)
      obtain ⟨n, hn⟩ := trimBack_take wireLen overHardCaps (pushed.take k)
        (trimAcknowledged w.acknowledged (w.sequence + 1) pushed (w.backupSize + reserved.packetWireLen)).2
      refine ⟨min n k, ?_⟩
      rw [hpushed, ← List.take_take, ← hn, ← hk, ← hpushed]
      rfl
    · have hnow : BackedWriter.Accounted { w with crypto := w.crypto.bump, connected := true } :=
        ⟨hacc.size_eq, hacc.acknowledged_le⟩
      exact head_commitWrite rfl hnow hwire hsize

theorem ownership_writePacket (w : BackedWriter) (header : UInt8) (payload : Bytes) :
    ((w.writePacket S header payload).1 = .skipped ∧ (w.writePacket S header payload).2 = w) ∨
      ((w.writePacket S header payload).1 ≠ .skipped ∧
        WriterAppended S header payload w (w.writePacket S header payload).2) := by
  cases hres : w.reserveWrite header payload.length with
  | none =>
    rw [writePacket, hres]
    exact .inl ⟨rfl, rfl⟩
  | some r =>
    obtain ⟨reserved, w₁⟩ := r
    have happ : WriterAppended S header payload w (w₁.commitWrite reserved (reserved.encrypt S payload)).2 :=
      appended_commitWrite hres (.refl w₁)
    rw [writePacket, hres]
    refine .inr ⟨?_, happ⟩
    unfold commitWrite
    dsimp only
    split <;> simp

/-- A verdict after steps that took no packet. -/
theorem WriteOwnership.before {w₁ w₂ : BackedWriter} (h : OnlyConnected w w₁)
    (howns : WriteOwnership S header payload w₁ w₂ result) : WriteOwnership S header payload w w₂ result := by
  match result, howns with
  | .error (.beforeReplay _), howns => exact h.trans howns
  | .error (.replayOwned _), howns => exact WriterAppended.before h howns
  | .ok _, howns => exact WriterAppended.before h howns

theorem WriteOwnership.after {w₁ w₂ : BackedWriter} (howns : WriteOwnership S header payload w w₁ result)
    (h : OnlyConnected w₁ w₂) : WriteOwnership S header payload w w₂ result := by
  match result, howns with
  | .error (.beforeReplay _), howns => exact OnlyConnected.trans howns h
  | .error (.replayOwned _), howns => exact WriterAppended.after howns h
  | .ok _, howns => exact WriterAppended.after howns h

/-- An error is handed on. -/
theorem WriteOwnership.error {α β : Type}
    {error : WritePacketError} (howns : WriteOwnership S header payload w w' (.error error : Except WritePacketError α)) :
    WriteOwnership S header payload w w' (.error error : Except WritePacketError β) := by
  cases error with
  | beforeReplay _ => exact howns
  | replayOwned _ => exact howns

/-- Once the writer has the packet, a verdict is no `BeforeReplay`. -/
theorem WriteOwnership.of_appended (happ : WriterAppended S header payload w w')
    (h : ∀ error, result ≠ .error (.beforeReplay error)) : WriteOwnership S header payload w w' result := by
  match result, h with
  | .error (.beforeReplay error), h => exact absurd rfl (h error)
  | .error (.replayOwned _), _ => exact happ
  | .ok _, _ => exact happ

/-! ### The parts of the paths -/

theorem PendingWrite.finish_owned (p : PendingWrite) (rounds : List FinishRound) :
    (p.finish rounds).1 = .ok () ∨ (p.finish rounds).1 = .error (.replayOwned .io) := by
  induction rounds generalizing p with
  | nil => exact .inr rfl
  | cons round rounds ih =>
    rw [finish]
    split
    · exact .inr rfl
    · exact .inl rfl
    · split
      · exact .inr rfl
      · exact ih _

namespace SendingConnection
variable {S : Sodium} {header : UInt8} {payload : Bytes}
variable (platform : Platform) (c : SendingConnection)

/-- The verdict of a call on the connection. -/
def Verdict {α : Type} (c : SendingConnection) (S : Sodium) (header : UInt8) (payload : Bytes)
    (r : Except WritePacketError α × SendingConnection) : Prop :=
  WriteOwnership S header payload c.writer r.2.writer r.1

theorem onlyConnected_disconnect : OnlyConnected c.writer c.disconnect.writer := .invalidate _

theorem onlyConnected_refreshConnectivity (probe : ProbeAnswer) :
    OnlyConnected c.writer (c.refreshConnectivity probe).2.writer := by
  unfold refreshConnectivity
  split
  · exact .refl _
  cases probe with
  | modeFailed => exact .refl _
  | closed => exact .invalidate _
  | data => exact .refl _
  | empty => exact .refl _
  | gone => exact .invalidate _
  | failed => exact c.onlyConnected_disconnect

@[simp] theorem writer_noteOutput (outcome : WriterOutcome) (header : UInt8)
    (payloadLen now : Nat) : (c.noteOutput outcome header payloadLen now).writer = c.writer := by
  unfold noteOutput
  split <;> rfl

theorem ownership_prepareWritePacketUnprobed (header : UInt8) (payload : Bytes) (now : Nat) :
    c.Verdict S header payload (c.prepareWritePacketUnprobed S header payload now) := by
  unfold prepareWritePacketUnprobed
  split
  · exact .refl _
  dsimp only
  rcases ownership_writePacket (S := S) c.writer header payload with ⟨hskipped, hsame⟩ | ⟨htak, happ⟩
  · rw [if_pos hskipped, Verdict, writer_noteOutput]
    have hkept : OnlyConnected c.writer (c.writer.writePacket S header payload).2 := by
      rw [hsame]
      exact .refl _
    exact hkept
  · rw [if_neg htak, Verdict, writer_noteOutput]
    exact happ

theorem ownership_prepareWritePacket (header : UInt8) (payload : Bytes) (probe : ProbeAnswer) (now : Nat) :
    c.Verdict S header payload (c.prepareWritePacket S platform header payload probe now) := by
  have hprobed := c.onlyConnected_refreshConnectivity probe
  unfold prepareWritePacket
  split
  · exact .refl _
  rcases hrefresh : c.refreshConnectivity probe with ⟨refreshed, c₁⟩
  rw [hrefresh] at hprobed
  have hlost : OnlyConnected c.writer c₁.disconnect.writer := hprobed.trans c₁.onlyConnected_disconnect
  cases refreshed with
  | ok _ => exact .before hprobed (c₁.ownership_prepareWritePacketUnprobed header payload now)
  | error _ =>
    cases platform with
    | unix => exact .before hlost (c₁.disconnect.ownership_prepareWritePacketUnprobed header payload now)
    | windows => exact hlost

/-- The rest of a path after the writer took its packet: sending it ends well or leaves it with the writer. -/
theorem ownership_send {w : BackedWriter} {c : SendingConnection} (happ : WriterAppended S header payload w c.writer)
    (prepared : PreparedWrite) (now : Nat) (deadline : Option Nat) (rounds : List FinishRound) :
    WriteOwnership S header payload w c.writer (prepared.send now deadline rounds).1 := by
  unfold PreparedWrite.send
  split
  · exact happ
  next pending _ =>
    rcases PendingWrite.finish_owned _ rounds with hsent | hsent
    · rw [hsent]
      exact happ
    · rw [hsent]
      exact happ

theorem ownership_prepareAndSend (header : UInt8) (payload : Bytes)
    (probe : ProbeAnswer) (now : Nat) (rounds : List FinishRound) :
    c.Verdict S header payload (c.prepareAndSend S platform header payload probe now rounds) := by
  have howns : c.Verdict S header payload _ := c.ownership_prepareWritePacket platform header payload probe now
  unfold prepareAndSend
  rcases hprepare : c.prepareWritePacket S platform header payload probe now with ⟨result, c₁⟩
  rw [hprepare] at howns
  cases result with
  | error error => exact howns.error
  | ok prepared => exact ownership_send howns prepared now none rounds

theorem ownership_writePacketOwnedUntil (header : UInt8) (payload : Bytes)
    (deadline : Option Nat) (probe : ProbeAnswer) (now : Nat) (rounds : List FinishRound) :
    c.Verdict S header payload (c.writePacketOwnedUntil S platform header payload deadline probe now rounds) := by
  have howns : c.Verdict S header payload _ := c.ownership_prepareWritePacket platform header payload probe now
  unfold writePacketOwnedUntil
  rcases hprepare : c.prepareWritePacket S platform header payload probe now with ⟨result, c₁⟩
  rw [hprepare] at howns
  cases result with
  | error error => exact howns.error
  | ok prepared =>
    have hsend := ownership_send howns prepared now deadline rounds
    dsimp only
    rcases hsent : prepared.send now deadline rounds with ⟨result, pending⟩
    rw [hsent] at hsend
    cases result with
    | ok _ => exact hsend
    | error error => exact hsend.after (c₁.dropPending pending).onlyConnected_disconnect

/-! ### Kept frames -/

@[simp] theorem writer_deferPending (t : AdvanceTry) : (c.deferPending t).writer = c.writer := by
  unfold deferPending
  split
  · split <;> rfl
  · rfl

/-- The kept frame belongs to the writer already. -/
theorem onlyConnected_advanceWrite (t : AdvanceTry) :
    OnlyConnected c.writer (c.advanceWrite t).2.writer ∧
      ∀ error, (c.advanceWrite t).1 ≠ .error (.beforeReplay error) := by
  have hdefer := c.writer_deferPending t
  unfold advanceWrite
  dsimp only
  rw [← hdefer]
  split
  · exact ⟨.refl _, nofun⟩
  split
  · exact ⟨.refl _, nofun⟩
  · exact ⟨.refl _, nofun⟩
  · exact ⟨.invalidate _, nofun⟩

theorem ownership_keepPrepared {w : BackedWriter} {prepared : Except WritePacketError PreparedWrite × SendingConnection}
    (howns : WriteOwnership S header payload w prepared.2.writer prepared.1) (now : Nat) (t : AdvanceTry) :
    WriteOwnership S header payload w (keepPrepared prepared now t).2.writer (keepPrepared prepared now t).1 := by
  obtain ⟨result, c⟩ := prepared
  cases result with
  | error error => exact howns.error
  | ok kept =>
    obtain ⟨hkept, hver⟩ :=
      onlyConnected_advanceWrite { c with pendingLive := kept.intoPending now } t
    exact .of_appended (WriterAppended.after howns hkept) hver

theorem ownership_advanceAll {w : BackedWriter} {started : Except WritePacketError Bool × SendingConnection}
    (howns : WriteOwnership S header payload w started.2.writer started.1) (tries : List AdvanceTry) :
    WriteOwnership S header payload w (advanceAll started tries).2.writer (advanceAll started tries).1 := by
  induction tries generalizing started with
  | nil =>
    obtain ⟨_ | _ | _, c⟩ := started <;> exact howns
  | cons t tries ih =>
    obtain ⟨result, c⟩ := started
    match result, howns with
    | .error _, howns => exact howns
    | .ok true, howns => exact howns
    | .ok false, howns =>
      obtain ⟨hkept, hver⟩ := c.onlyConnected_advanceWrite t
      exact ih (.of_appended (WriterAppended.after howns hkept) hver)

/-! ### Reservations -/

theorem reserveWritePacket_cases (header : UInt8) (payloadLen : Nat) (probe : ProbeAnswer) :
    (∃ error, ∃ c' : SendingConnection,
        c.reserveWritePacket platform header payloadLen probe = (.error (.beforeReplay error), c') ∧
        OnlyConnected c.writer c'.writer) ∨
      ∃ (c₁ : SendingConnection) (reserved : ReservedWrite) (writer : BackedWriter), OnlyConnected c.writer c₁.writer ∧
        c₁.writer.reserveWrite header payloadLen = some (reserved, writer) ∧
        c.reserveWritePacket platform header payloadLen probe = (.ok reserved, { c₁ with writer := writer }) := by
  unfold reserveWritePacket
  split
  · exact .inl ⟨_, _, rfl, .refl _⟩
  have hprobed : OnlyConnected c.writer
      (if platform = .windows then c.refreshConnectivity probe else (.ok (), c)).2.writer := by
    split
    · exact c.onlyConnected_refreshConnectivity probe
    · exact .refl _
  generalize (if platform = .windows then c.refreshConnectivity probe else (.ok (), c)) = refreshed at hprobed ⊢
  obtain ⟨result, c₁⟩ := refreshed
  cases result with
  | error _ => exact .inl ⟨_, _, rfl, hprobed.trans c₁.onlyConnected_disconnect⟩
  | ok _ =>
    dsimp only
    cases hres : c₁.writer.reserveWrite header payloadLen with
    | none => exact .inl ⟨_, _, rfl, hprobed⟩
    | some r => exact .inr ⟨c₁, r.1, r.2, hprobed, hres, rfl⟩

theorem ownership_reserveAndCommit (header : UInt8) (payload : Bytes)
    (probe : ProbeAnswer) (lost : Bool) (now : Nat) (rounds : List FinishRound) :
    c.Verdict S header payload (c.reserveAndCommit S platform header payload probe lost now rounds) := by
  unfold reserveAndCommit
  rcases c.reserveWritePacket_cases platform header payload.length probe with
    ⟨error, c', heq, hkept⟩ | ⟨c₁, reserved, writer, hprobed, hres, heq⟩
  · rw [heq]
    exact hkept
  · rw [heq]
    dsimp only
    generalize hbtw : (if lost then SendingConnection.disconnect { c₁ with writer := writer }
      else { c₁ with writer := writer }) = c₂
    have hlost : OnlyConnected writer c₂.writer := by
      rw [← hbtw]
      cases lost with
      | true => exact .invalidate _
      | false => exact .refl _
    have happ : WriterAppended S header payload c.writer
        (c₂.commitWritePacket reserved (reserved.encrypt S payload) now).2.writer := by
      unfold commitWritePacket
      rw [writer_noteOutput]
      exact .before hprobed (appended_commitWrite hres hlost)
    exact ownership_send happ _ now none rounds

end SendingConnection

/-- **On every path the verdict says who has the packet**: after `BeforeReplay` the writer's sequence, nonce and backup
are what they were, after `Ok` and `ReplayOwned` the writer took exactly this packet. -/
theorem write_ownership (S : Sodium) (platform : Platform) (c : SendingConnection) (header : UInt8) (payload : Bytes)
    (probe : ProbeAnswer) (now : Nat) (rounds : List FinishRound) :
    (∀ deadline, c.Verdict S header payload
      (c.writePacketOwnedUntil S platform header payload deadline probe now rounds)) ∧
    c.Verdict S header payload (c.prepareAndSend S platform header payload probe now rounds) ∧
    (∀ t tries, c.Verdict S header payload (c.startAndAdvance S platform header payload probe now t tries)) ∧
    (∀ t tries, c.Verdict S header payload (c.startAndAdvanceUnprobed S header payload now t tries)) ∧
    ∀ lost, c.Verdict S header payload (c.reserveAndCommit S platform header payload probe lost now rounds) := by
  refine ⟨fun deadline => ?_, ?_, fun t tries => ?_, fun t tries => ?_, fun lost => ?_⟩
  · exact c.ownership_writePacketOwnedUntil platform header payload deadline probe now rounds
  · exact c.ownership_prepareAndSend platform header payload probe now rounds
  · have hprepared : c.Verdict S header payload _ := c.ownership_prepareWritePacket platform header payload probe now
    exact SendingConnection.ownership_advanceAll (SendingConnection.ownership_keepPrepared hprepared now t) tries
  · have hprepared : c.Verdict S header payload _ := c.ownership_prepareWritePacketUnprobed header payload now
    exact SendingConnection.ownership_advanceAll (SendingConnection.ownership_keepPrepared hprepared now t) tries
  · exact c.ownership_reserveAndCommit platform header payload probe lost now rounds

end EternalTerminal
