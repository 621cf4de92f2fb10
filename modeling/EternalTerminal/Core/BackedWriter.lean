import EternalTerminal.Core.Crypto
import EternalTerminal.Lib.History
import EternalTerminal.Lib.Machine

/-!
# Core — the backed writer

`BackedWriter`: every packet is sealed and kept, newest first, before it is sent or held for a
reconnect.  Three loops trim the backup at its old end: a connected write to the caps on
acknowledged history and then to the hard caps, an acknowledgement to the unacknowledged tail
and a slack, a revive to the hard byte cap.  A write while disconnected does not trim; it is
refused when it would not fit the recovery buffers.

`VecDeque::shrink_to` (`release_slack_capacity`) changes no content and is left out.
-/

namespace EternalTerminal
open Machine History List

def maxBackupBytes : Int := 64 * 1024 * 1024
def disconnectBufferBytes : Int := 64 * 1024 * 1024
def maxRecoveryBackupBytes : Int := 76 * 1024 * 1024
def maxBackupPackets : Nat := 262144
def maxDisconnectPackets : Nat := 262144
def connectedBackupBytes : Int := 8 * 1024 * 1024
def connectedBackupPackets : Nat := 32768
def ackRetainSlackPackets : Nat := 1024
def ackRetainSlackBytes : Nat := 256 * 1024
def ackRetainFloorPackets : Nat := 16

/-- What becomes of a written packet. -/
inductive WriterOutcome where
  | skipped
  | bufferedOnly
  | send (frame : Bytes)
  deriving DecidableEq

/-- A sequence number and a nonce that a frame is sealed under later. -/
structure ReservedWrite where
  framePrefix : Bytes
  nonce : Nonce
  key : Key
  packetWireLen : Nat

/-- Why `recover` has no answer. -/
inductive RecoverError where
  | aheadOfServer
  | tooFarBehind
  deriving DecidableEq

/-- `backed_writer.rs`: the kept frames, their counters and what the peer acknowledged. -/
structure BackedWriter where
  crypto : CryptoHandler
  /-- Newest first. -/
  backup : List Bytes
  backupSize : Int
  disconnectedBytes : Int
  disconnectedPackets : Nat
  sequence : Int
  connected : Bool
  /-- `none` until the peer acknowledges at all. -/
  acknowledged : Option Int
  unacknowledgedBytes : Int
  deriving DecidableEq

/-- `(frame.len() - 4) as i64`: what a frame counts for in the byte caps. -/
def wireLen (frame : Bytes) : Int := (frame.length - 4 : Nat)

def ReservedWrite.encrypt (S : Sodium) (r : ReservedWrite) (payload : Bytes) : Bytes :=
  CryptoHandler.encryptDetached S r.framePrefix payload r.nonce r.key

namespace BackedWriter
variable {S : Sodium} {payload : Bytes} {w : BackedWriter}

def new (crypto : CryptoHandler) (connected : Bool) : BackedWriter where
  crypto := crypto
  backup := []
  backupSize := 0
  disconnectedBytes := 0
  disconnectedPackets := 0
  sequence := 0
  connected := connected
  acknowledged := none
  unacknowledgedBytes := 0

/-- The recovery buffers have room for a packet of `payloadLen` bytes. -/
def reserveFits (w : BackedWriter) (payloadLen : Nat) : Bool :=
  let packetLen := 2 + payloadLen
  let wireLen := (i64OfUsize (packetLen + macLen)).getD i64Max
  let disconnectedFits :=
    ((i64OfUsize packetLen).bind (checkedAdd w.disconnectedBytes)).any (· ≤ disconnectBufferBytes)
  let recoveryFits := (checkedAdd w.backupSize wireLen).any (· ≤ maxRecoveryBackupBytes)
  disconnectedFits && !decide (maxDisconnectPackets ≤ w.disconnectedPackets) && recoveryFits

/-- Take a sequence number and a nonce, if the packet has room. -/
def reserveWrite (w : BackedWriter) (header : UInt8) (payloadLen : Nat) :
    Option (ReservedWrite × BackedWriter) :=
  if !w.connected && !w.reserveFits payloadLen then none
  else
    let packetWireLen := 2 + payloadLen + macLen
    let ((nonce, key), crypto) := w.crypto.nextNonceAndKey
    some ({ framePrefix := Bytes.beBytes 4 packetWireLen ++ [1, header]
            nonce := nonce
            key := key
            packetWireLen := packetWireLen }, { w with crypto := crypto })

def overConnectedCaps (unacknowledged len : Nat) (size : Int) : Bool :=
  (decide (connectedBackupBytes < size) || decide (connectedBackupPackets < len)) &&
    decide (unacknowledged < len)

def overHardCaps (len : Nat) (size : Int) : Bool :=
  decide (maxBackupBytes < size) || decide (maxBackupPackets < len)

/-- The packets written after the latest acknowledgement: all of them for a peer that never
acknowledges. -/
def unacknowledged (acknowledged : Option Int) (sequence : Int) : Nat :=
  acknowledged.elim usizeMax fun acked => (usizeOfI64 (sequence - acked)).getD usizeMax

/-- The first loop of a connected write: acknowledged history yields to the connected caps,
unacknowledged packets may still be requested and do not. -/
def trimAcknowledged (acknowledged : Option Int) (sequence : Int) (backup : List Bytes)
    (backupSize : Int) : List Bytes × Int :=
  trimBack wireLen (overConnectedCaps (unacknowledged acknowledged sequence)) backup backupSize

/-- Keep a sealed frame, and trim the backup. -/
def commitWrite (w : BackedWriter) (reserved : ReservedWrite) (frame : Bytes) :
    WriterOutcome × BackedWriter :=
  let packetWireLen : Int := reserved.packetWireLen
  let w := { w with unacknowledgedBytes := w.unacknowledgedBytes + packetWireLen }
  if !w.connected then
    (.bufferedOnly, { w with
        backup := frame :: w.backup
        backupSize := w.backupSize + packetWireLen
        sequence := w.sequence + 1
        disconnectedBytes := w.disconnectedBytes + packetWireLen
        disconnectedPackets := w.disconnectedPackets + 1 })
  else
    let sequence := w.sequence + 1
    let kept := trimAcknowledged w.acknowledged sequence (frame :: w.backup)
      (w.backupSize + packetWireLen)
    let kept := trimBack wireLen overHardCaps kept.1 kept.2
    (.send frame, { w with backup := kept.1, backupSize := kept.2, sequence := sequence })

/-- Reserve, seal and commit. -/
def writePacket (S : Sodium) (w : BackedWriter) (header : UInt8) (payload : Bytes) :
    WriterOutcome × BackedWriter :=
  match w.reserveWrite header payload.length with
  | none => (.skipped, w)
  | some (reserved, w) => w.commitWrite reserved (reserved.encrypt S payload)

/-- The frames after a sequence, oldest first. -/
def recover (w : BackedWriter) (lastValidSequence : Int) : Except RecoverError (List Bytes) :=
  let messagesToRecover := w.sequence - lastValidSequence
  if messagesToRecover < 0 then .error .aheadOfServer
  else if messagesToRecover = 0 then .ok []
  else match usizeOfI64 messagesToRecover with
    | none => .error .tooFarBehind
    | some count =>
      if w.backup.length < count then .error .tooFarBehind
      else .ok ((w.backup.take count).map (List.drop 4)).reverse

/-- How many of the acknowledged frames `rest` stay, counted on from `keep`: at least the floor,
then as long as they fit the byte slack, at most the packet slack. -/
def slackKeep : List Bytes → Nat → Nat → Nat → Nat
  | [], _, _, keep => keep
  | frame :: rest, slackPackets, slackBytes, keep =>
    if slackPackets < ackRetainSlackPackets then
      let wireLen := frame.length - 4
      if ackRetainFloorPackets ≤ slackPackets ∧ ackRetainSlackBytes < slackBytes + wireLen then keep
      else slackKeep rest (slackPackets + 1) (slackBytes + wireLen) (keep + 1)
    else keep

/-- Keep what is unacknowledged, and a slack. -/
def acknowledge (w : BackedWriter) (acknowledged : Int) : BackedWriter :=
  if !w.connected ∨ acknowledged < 0 ∨ w.sequence < acknowledged then w
  else
    let unacknowledged := (usizeOfI64 (w.sequence - acknowledged)).getD usizeMax
    let keep := min unacknowledged w.backup.length
    let keep := slackKeep (w.backup.drop keep) 0 0 keep
    let kept := trimBack wireLen (fun len _ => decide (keep < len)) w.backup w.backupSize
    { w with
      acknowledged := some acknowledged
      unacknowledgedBytes := total wireLen (w.backup.take unacknowledged)
      backup := kept.1
      backupSize := kept.2 }

/-- A new transport: trim to the byte cap. -/
def revive (w : BackedWriter) : BackedWriter :=
  let kept := trimBack wireLen (fun _ size => decide (maxBackupBytes < size)) w.backup w.backupSize
  { w with
    connected := true
    disconnectedBytes := 0
    disconnectedPackets := 0
    backup := kept.1
    backupSize := kept.2 }

/-- Zero the sequence history and rekey from the original passkey; unchanged when the rekey
fails. -/
def reset (S : Sodium) (w : BackedWriter) (salt : Bytes) : Except ProofError BackedWriter := do
  let crypto ← w.crypto.rekey S salt
  return new crypto false

def invalidate (w : BackedWriter) : BackedWriter := { w with connected := false }

def hasCapacity (w : BackedWriter) (bytes : Int) : Bool :=
  w.connected ||
    ((checkedAdd w.disconnectedBytes bytes).any (· ≤ disconnectBufferBytes) &&
      decide (w.disconnectedPackets < maxDisconnectPackets) &&
      (checkedAdd w.backupSize bytes).any (· ≤ maxRecoveryBackupBytes))

/-! ### What the operations do -/

/-- The frame of a packet under a handler's next nonce. -/
def packetFrame (S : Sodium) (crypto : CryptoHandler) (header : UInt8) (payload : Bytes) : Bytes :=
  CryptoHandler.encryptDetached S
    (Bytes.beBytes 4 (2 + payload.length + macLen) ++ [1, header]) payload
    crypto.bump.nonce crypto.baseKey

/-- The writer takes a packet of `payloadLen` bytes. -/
def accepts (w : BackedWriter) (payloadLen : Nat) : Bool := w.connected || w.reserveFits payloadLen

/-- The frame that `writePacket` hands to `commitWrite`, when it takes the packet. -/
def acceptedFrame (S : Sodium) (w : BackedWriter) (header : UInt8) (payload : Bytes) : Option Bytes :=
  (w.reserveWrite header payload.length).map fun r => r.1.encrypt S payload

@[simp] theorem length_packetFrame (S : Sodium) (crypto : CryptoHandler) (header : UInt8) (payload : Bytes) :
    (packetFrame S crypto header payload).length = 4 + (2 + payload.length + macLen) := by
  simp only [packetFrame, CryptoHandler.encryptDetached, length_append, Bytes.length_beBytes,
    Sodium.length_secretbox, length_cons, length_nil]
  omega

theorem wireLen_packetFrame (S : Sodium) (crypto : CryptoHandler) (header : UInt8) (payload : Bytes) :
    wireLen (packetFrame S crypto header payload) = (2 + payload.length + macLen : Nat) := by
  rw [wireLen, length_packetFrame, Nat.add_sub_cancel_left]

theorem wireLen_nonneg (frame : Bytes) : 0 ≤ wireLen frame := Int.natCast_nonneg _

theorem acceptedFrame_eq (S : Sodium) (w : BackedWriter) (header : UInt8) (payload : Bytes) :
    w.acceptedFrame S header payload =
      if w.accepts payload.length then some (packetFrame S w.crypto header payload) else none := by
  unfold acceptedFrame reserveWrite accepts
  cases w.connected <;> cases w.reserveFits payload.length <;> rfl

/-- What `reserveWrite` asks of a disconnected writer, in plain arithmetic. -/
theorem reserveFits_iff {payloadLen : Nat} (hd : 0 ≤ w.disconnectedBytes) (hb : 0 ≤ w.backupSize) :
    w.reserveFits payloadLen = true ↔
      w.disconnectedBytes + (2 + payloadLen : Nat) ≤ disconnectBufferBytes ∧
      w.disconnectedPackets < maxDisconnectPackets ∧
      w.backupSize + (2 + payloadLen + macLen : Nat) ≤ maxRecoveryBackupBytes := by
  have hdc : disconnectBufferBytes ≤ i64Max := by decide
  have hrc : maxRecoveryBackupBytes ≤ i64Max := by decide
  simp only [reserveFits, i64OfUsize]
  by_cases hlen : ((2 + payloadLen : Nat) : Int) ≤ i64Max
  · rw [if_pos hlen, Option.bind_some, checkedAdd_any_le hd (Int.natCast_nonneg _) hdc]
    by_cases hwire : ((2 + payloadLen + macLen : Nat) : Int) ≤ i64Max
    · rw [if_pos hwire, Option.getD_some, checkedAdd_any_le hb (Int.natCast_nonneg _) hrc]
      simp [and_assoc]
    rw [if_neg hwire, Option.getD_none, checkedAdd_any_le hb (by decide) hrc]
    unfold i64Max maxRecoveryBackupBytes at *
    simp only [Bool.and_eq_true, decide_eq_true_eq]
    omega
  · rw [if_neg hlen]
    unfold i64Max disconnectBufferBytes at *
    simp only [Option.bind_none, Option.any_none, Bool.false_and, Bool.false_eq_true, false_iff]
    omega

theorem writePacket_refused {header : UInt8}
    (h : w.accepts payload.length = false) : w.writePacket S header payload = (.skipped, w) := by
  simp only [accepts, Bool.or_eq_false_iff] at h
  simp [writePacket, reserveWrite, h.1, h.2]

/-- A packet taken while disconnected is pushed, and nothing is trimmed. -/
theorem writePacket_disconnected {header : UInt8}
    (hc : w.connected = false) (h : w.reserveFits payload.length = true) :
    w.writePacket S header payload = (.bufferedOnly, { w with
        crypto := w.crypto.bump
        unacknowledgedBytes := w.unacknowledgedBytes + (2 + payload.length + macLen : Nat)
        backup := packetFrame S w.crypto header payload :: w.backup
        backupSize := w.backupSize + (2 + payload.length + macLen : Nat)
        sequence := w.sequence + 1
        disconnectedBytes := w.disconnectedBytes + (2 + payload.length + macLen : Nat)
        disconnectedPackets := w.disconnectedPackets + 1 }) := by
  simp only [writePacket, reserveWrite, hc, h, commitWrite]
  rfl

/-- A packet written while connected is pushed, then the two loops trim. -/
theorem writePacket_connected (header : UInt8) (payload : Bytes) (hc : w.connected = true) :
    let frame := packetFrame S w.crypto header payload
    let acked := trimAcknowledged w.acknowledged (w.sequence + 1) (frame :: w.backup)
      (w.backupSize + (2 + payload.length + macLen : Nat))
    let kept := trimBack wireLen overHardCaps acked.1 acked.2
    w.writePacket S header payload = (.send frame, { w with
        crypto := w.crypto.bump
        unacknowledgedBytes := w.unacknowledgedBytes + (2 + payload.length + macLen : Nat)
        backup := kept.1
        backupSize := kept.2
        sequence := w.sequence + 1 }) := by
  simp only [writePacket, reserveWrite, hc, commitWrite]
  rfl

/-- What an accepted packet changes besides the backup, and what it answers. -/
theorem writePacket_accepted (header : UInt8) (h : w.accepts payload.length = true) :
    (w.writePacket S header payload).1 =
        (if w.connected then .send (packetFrame S w.crypto header payload) else .bufferedOnly) ∧
      (w.writePacket S header payload).2.crypto = w.crypto.bump ∧
      (w.writePacket S header payload).2.sequence = w.sequence + 1 ∧
      (w.writePacket S header payload).2.connected = w.connected ∧
      (w.writePacket S header payload).2.acknowledged = w.acknowledged := by
  cases hc : w.connected with
  | true =>
    rw [writePacket_connected header payload hc]
    exact ⟨rfl, rfl, rfl, hc, rfl⟩
  | false =>
    rw [writePacket_disconnected hc (by simpa [accepts, hc] using h)]
    exact ⟨rfl, rfl, rfl, hc, rfl⟩

/-- What `recover` serves: the newest frames of the backup, oldest first, without their length. -/
theorem recover_frames {s : Int} {frames : List Bytes} (h : w.recover s = .ok frames) :
    frames = ((w.backup.take (w.sequence - s).toNat).map (List.drop 4)).reverse ∧
      (frames.length : Int) = w.sequence - s := by
  unfold recover at h
  dsimp only at h
  split at h
  · cases h
  split at h
  next hnone =>
    cases h
    rw [hnone]
    exact ⟨rfl, rfl⟩
  rename_i hneg hpos
  rw [usizeOfI64, if_pos (by omega)] at h
  dsimp only at h
  split at h
  · cases h
  cases h
  refine ⟨rfl, ?_⟩
  rw [length_reverse, length_map, length_take]
  omega

end BackedWriter

end EternalTerminal
