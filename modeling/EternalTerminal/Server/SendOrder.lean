import EternalTerminal.Core.Packet
import EternalTerminal.Core.WriterHistory

/-!
# Server — packets sent across recoveries

`ActiveSession::send_packet` on its direct path, any number of senders at once, with the recoveries of
the session: `try_begin_recover`, the phases of `recover_body_with` and `RecoverPermit::drop`.  A step
is a section that holds a lock, or one load or store of the `recovering` flag.  A permit that has
cleared the flag still flushes, so a next recovery may begin beside it.

Main results: `sends_numbered_in_order`, `sends_lost_and_reordered`.
-/

namespace EternalTerminal
open Machine BackedWriter List Function

/-! ### Connections -/

/-- A packet, and who sends it. -/
structure SendItem where
  sender : Nat
  header : UInt8
  payload : Bytes
  deriving DecidableEq

/-- A connection's writer, and the sequence number each packet got. -/
structure NumberedConn where
  writer : BackedWriter
  assigned : List (Int × SendItem)
  deriving DecidableEq

namespace NumberedConn

/-- `write_packet_owned`; `none` when it fails. -/
def write (S : Sodium) (c : NumberedConn) (item : SendItem) : Option NumberedConn :=
  match c.writer.writePacket S item.header item.payload with
  | (.skipped, _) => none
  | (_, writer) => some ⟨writer, c.assigned ++ [(writer.sequence, item)]⟩

/-- The inner loop of `flush_recover_hold_with`. -/
def writeAll (S : Sodium) : NumberedConn → List SendItem → Option NumberedConn
  | c, [] => some c
  | c, item :: remaining => (c.write S item).bind fun c => writeAll S c remaining

def disconnect (c : NumberedConn) : NumberedConn := { c with writer := c.writer.invalidate }

/-- The handshake of a recovery, and its keep-alive; `none` when it fails. -/
def recover (S : Sodium) (c : NumberedConn) (remoteSequence : Int) (ack : Bytes) : Option NumberedConn :=
  match c.writer.recover remoteSequence with
  | .error _ => none
  | .ok _ =>
    match c.writer.revive.writePacket S keepAlive ack with
    | (.send _, writer) => some { c with writer := writer }
    | _ => none

end NumberedConn

/-! ### The system -/

/-- Where a sender is in `send_packet_owned_with`. -/
inductive SenderPc where
  | idle
  | queueing (item : SendItem)
  | locking (item : SendItem)
  | checking (item : SendItem)
  | reloading (item : SendItem)
  | requeueing (item : SendItem)
  | late (item : SendItem)

/-- Which flush of the hold: the last phase of the recovery, and the two of the permit's drop. -/
inductive FlushStage where
  | installed
  | dropping
  | cleared
  deriving DecidableEq

/-- Where a permit is. -/
inductive RecoverPc where
  | begun
  | snapshotted (candidate : NumberedConn)
  | announced (candidate : NumberedConn)
  | flushing (stage : FlushStage)
  | writing (stage : FlushStage)
  | clearing
  | done
  deriving DecidableEq

/-- A session's flag, hold, lock and connection, and where each sender and permit is. -/
structure SessionSends where
  recovering : Bool
  recoverHold : List SendItem
  recoverHoldBytes : Nat
  /-- The sender that has `write_serial`; a recovery only has it within one step. -/
  writeSerial : Option Nat
  connection : NumberedConn
  senders : Nat → SenderPc
  /-- Every permit so far. -/
  permits : List RecoverPc
  /-- The batches taken from the hold and not written, in the order they were taken. -/
  batches : List (Nat × List SendItem)
  /-- What `send_packet` returned `Ok` for, in order. -/
  returned : List SendItem

/-- A step of a sender or of a recovery. -/
inductive SendEvent where
  /-- A call of `send_packet`, up to its first load of the flag. -/
  | send (sender : Nat) (header : UInt8) (payload : Bytes)
  | queue (sender : Nat)
  | lockSerial (sender : Nat)
  | check (sender : Nat)
  | reload (sender : Nat)
  | requeue (sender : Nat)
  | writeLate (sender : Nat)
  | disconnect
  | tryBeginRecover
  | snapshot (permit : Nat)
  | handshake (permit : Nat) (remoteSequence : Int) (ack : Bytes)
  | install (permit : Nat)
  | takeBatch (permit : Nat)
  | writeBatch (permit : Nat)
  /-- A flush of the permit's drop does not get its locks in time. -/
  | flushTimeout (permit : Nat)
  | clear (permit : Nat)

/-- After the flush found the hold empty. -/
def FlushStage.next : FlushStage → RecoverPc
  | .installed => .flushing .dropping
  | .dropping => .clearing
  | .cleared => .done

namespace SessionSends

def new (crypto : CryptoHandler) : SessionSends where
  recovering := false
  recoverHold := []
  recoverHoldBytes := 0
  writeSerial := none
  connection := ⟨BackedWriter.new crypto true, []⟩
  senders _ := .idle
  permits := []
  batches := []
  returned := []

def setSender (s : SessionSends) (t : Nat) (pc : SenderPc) : SessionSends :=
  { s with senders := update s.senders t pc }

def permit (s : SessionSends) (r : Nat) : RecoverPc := s.permits.getD r .done

def setPermit (s : SessionSends) (r : Nat) (pc : RecoverPc) : SessionSends :=
  { s with permits := s.permits.set r pc }

def batchOf (s : SessionSends) (r : Nat) : List SendItem :=
  ((s.batches.find? fun b => b.1 == r).map Prod.snd).getD []

/-- The capacity checks of `queue_if_recovering`. -/
def canQueue (s : SessionSends) (item : SendItem) : Bool :=
  let requested : Int := (s.recoverHoldBytes + item.payload.length : Nat)
  decide (s.recoverHold.length < maxBackupPackets + maxDisconnectPackets) &&
    decide (requested ≤ maxRecoveryBackupBytes) && s.connection.writer.hasCapacity requested

/-- What `queue_if_recovering` does while the flag is set: `Ok` with the packet in the hold, or an
error. -/
def queueHold (s : SessionSends) (t : Nat) (item : SendItem) : SessionSends :=
  if s.canQueue item then
    { s.setSender t .idle with
      recoverHold := s.recoverHold ++ [item]
      recoverHoldBytes := s.recoverHoldBytes + item.payload.length
      returned := s.returned ++ [item] }
  else s.setSender t .idle

/-- `queue_if_recovering`. -/
def queue (s : SessionSends) (t : Nat) : SessionSends :=
  match s.senders t with
  | .queueing item => if s.recovering then s.queueHold t item else s.setSender t (.locking item)
  | _ => s

def lockSerial (s : SessionSends) (t : Nat) : SessionSends :=
  match s.senders t with
  | .locking item =>
    if s.writeSerial = none then { s.setSender t (.checking item) with writeSerial := some t } else s
  | _ => s

/-- The write of a sender, which returns `Ok`.  A write that fails is no step. -/
def writeDirect (S : Sodium) (s : SessionSends) (t : Nat) (item : SendItem) : SessionSends :=
  match s.connection.write S item with
  | none => s
  | some connection =>
    { s.setSender t .idle with
      writeSerial := none
      connection := connection
      returned := s.returned ++ [item] }

/-- Under both locks: the flag again, and the write. -/
def check (S : Sodium) (s : SessionSends) (t : Nat) : SessionSends :=
  match s.senders t with
  -- a snapshot needs the connection lock too, so none comes between the load and the write
  | .checking item => if s.recovering then s.setSender t (.reloading item) else s.writeDirect S t item
  | _ => s

/-- The flag once more, without the connection lock. -/
def reload (s : SessionSends) (t : Nat) : SessionSends :=
  match s.senders t with
  | .reloading item => s.setSender t (if s.recovering then .requeueing item else .late item)
  | _ => s

def requeue (s : SessionSends) (t : Nat) : SessionSends :=
  match s.senders t with
  | .requeueing item =>
    if s.recovering then { s.queueHold t item with writeSerial := none }
    else s.setSender t (.late item)
  | _ => s

def writeLate (S : Sodium) (s : SessionSends) (t : Nat) : SessionSends :=
  match s.senders t with
  -- the flag is not read again
  | .late item => s.writeDirect S t item
  | _ => s

/-- Single flight: busy while the flag is set. -/
def tryBeginRecover (s : SessionSends) : SessionSends :=
  if s.recovering then s else { s with recovering := true, permits := s.permits ++ [.begun] }

/-- The recovery works on a copy. -/
def snapshot (s : SessionSends) (r : Nat) : SessionSends :=
  match s.permit r with
  | .begun => s.setPermit r (.snapshotted s.connection.disconnect)
  | _ => s

def handshake (S : Sodium) (s : SessionSends) (r : Nat) (remoteSequence : Int) (ack : Bytes) :
    SessionSends :=
  match s.permit r with
  | .snapshotted candidate =>
    match candidate.recover S remoteSequence ack with
    | none => s
    | some candidate => s.setPermit r (.announced candidate)
  | _ => s

/-- The copy becomes the connection. -/
def install (s : SessionSends) (r : Nat) : SessionSends :=
  match s.permit r with
  | .announced candidate =>
    if s.writeSerial = none then { s.setPermit r (.flushing .installed) with connection := candidate }
    else s
  | _ => s

/-- A flush takes all that is held. -/
def takeBatch (s : SessionSends) (r : Nat) : SessionSends :=
  match s.permit r with
  | .flushing stage =>
    if s.recoverHold = [] then s.setPermit r stage.next
    else
      { s.setPermit r (.writing stage) with
        recoverHold := []
        batches := s.batches ++ [(r, s.recoverHold)] }
  | _ => s

/-- It writes them. -/
def writeBatch (S : Sodium) (s : SessionSends) (r : Nat) : SessionSends :=
  match s.permit r with
  | .writing stage =>
    if s.writeSerial = none then
      match s.connection.writeAll S (s.batchOf r) with
      | none => s
      | some connection =>
        { s.setPermit r (.flushing stage) with
          connection := connection
          batches := s.batches.eraseP fun b => b.1 == r
          recoverHoldBytes :=
            s.recoverHoldBytes - ((s.batchOf r).map fun item => item.payload.length).sum }
    else s
  | _ => s

/-- The batch goes with the flush. -/
def flushTimeout (s : SessionSends) (r : Nat) : SessionSends :=
  match s.permit r with
  | .writing .dropping =>
    { s.setPermit r .clearing with batches := s.batches.eraseP fun b => b.1 == r }
  | .writing .cleared => { s.setPermit r .done with batches := s.batches.eraseP fun b => b.1 == r }
  | _ => s

/-- The flag is cleared. -/
def clear (s : SessionSends) (r : Nat) : SessionSends :=
  match s.permit r with
  | .clearing => { s.setPermit r (.flushing .cleared) with recovering := false }
  | _ => s

def send (s : SessionSends) (t : Nat) (header : UInt8) (payload : Bytes) : SessionSends :=
  match s.senders t with
  | .idle =>
    s.setSender t (if s.recovering then .queueing ⟨t, header, payload⟩ else .locking ⟨t, header, payload⟩)
  | _ => s

def apply (S : Sodium) (s : SessionSends) : SendEvent → SessionSends
  | .send t header payload => s.send t header payload
  | .queue t => s.queue t
  | .lockSerial t => s.lockSerial t
  | .check t => s.check S t
  | .reload t => s.reload t
  | .requeue t => s.requeue t
  | .writeLate t => s.writeLate S t
  | .disconnect => { s with connection := s.connection.disconnect }
  | .tryBeginRecover => s.tryBeginRecover
  | .snapshot r => s.snapshot r
  | .handshake r remoteSequence ack => s.handshake S r remoteSequence ack
  | .install r => s.install r
  | .takeBatch r => s.takeBatch r
  | .writeBatch r => s.writeBatch S r
  | .flushTimeout r => s.flushTimeout r
  | .clear r => s.clear r

end SessionSends

/-- The copy of the connection between its snapshot and its install. -/
def RecoverPc.candidate : RecoverPc → Option NumberedConn
  | .snapshotted candidate | .announced candidate => some candidate
  | _ => none

namespace SessionSends

/-- Accepted, and not in the connection yet. -/
def waiting (s : SessionSends) : List SendItem := s.batches.flatMap Prod.snd ++ s.recoverHold

/-- No packet of the sender waits. -/
def NoneWaits (s : SessionSends) (t : Nat) : Prop := ∀ item ∈ s.waiting, item.sender ≠ t

/-- No recovery is between its snapshot and its install. -/
def NoSnapshot (s : SessionSends) : Prop := ∀ pc ∈ s.permits, pc.candidate = none

/-- The batches taken before that of the permit. -/
def earlierBatches (s : SessionSends) (r : Nat) : List SendItem :=
  (s.batches.takeWhile fun b => !(b.1 == r)).flatMap Prod.snd

end SessionSends

/-- A sender writes only when none of its packets waits, and a sender that saw the flag cleared, or a flush, only when
no snapshot is out; no batch is written past an earlier one that shares a sender; no flush times out. -/
def SendsInTurn (s : SessionSends) : SendEvent → Prop
  | .check t => s.recovering = false → s.NoneWaits t
  | .writeLate t => s.NoSnapshot ∧ s.NoneWaits t
  | .writeBatch r =>
    s.NoSnapshot ∧ ∀ item ∈ s.batchOf r, ∀ earlier ∈ s.earlierBatches r, earlier.sender ≠ item.sender
  | .flushTimeout _ => False
  | _ => True

instance (s : SessionSends) (t : Nat) : Decidable (s.NoneWaits t) :=
  inferInstanceAs (Decidable (∀ item ∈ s.waiting, item.sender ≠ t))

instance (s : SessionSends) : Decidable s.NoSnapshot :=
  inferInstanceAs (Decidable (∀ pc ∈ s.permits, pc.candidate = none))

instance (s : SessionSends) : ∀ e, Decidable (SendsInTurn s e)
  | .check t => inferInstanceAs (Decidable (s.recovering = false → s.NoneWaits t))
  | .writeLate t => inferInstanceAs (Decidable (s.NoSnapshot ∧ s.NoneWaits t))
  | .writeBatch r =>
    inferInstanceAs (Decidable (s.NoSnapshot ∧
      ∀ item ∈ s.batchOf r, ∀ earlier ∈ s.earlierBatches r, earlier.sender ≠ item.sender))
  | .flushTimeout _ => inferInstanceAs (Decidable False)
  | .send _ _ _ | .queue _ | .lockSerial _ | .reload _ | .requeue _ | .disconnect | .tryBeginRecover
  | .snapshot _ | .handshake _ _ _ | .install _ | .takeBatch _ | .clear _ => inferInstanceAs (Decidable True)

/-- One allowed step. -/
inductive SendStep (S : Sodium) (allowed : SessionSends → SendEvent → Prop) :
    SessionSends → SessionSends → Prop where
  | step (s : SessionSends) (e : SendEvent) (h : allowed s e) : SendStep S allowed s (s.apply S e)

/-! ### Numbers -/

/-- The packets of one sender. -/
def ofSender (t : Nat) (items : List SendItem) : List SendItem := items.filter fun item => item.sender == t

@[simp] theorem ofSender_append (t : Nat) (l₁ l₂ : List SendItem) :
    ofSender t (l₁ ++ l₂) = ofSender t l₁ ++ ofSender t l₂ := filter_append _ _

theorem ofSender_eq_nil {t : Nat} {items : List SendItem} (h : ∀ item ∈ items, item.sender ≠ t) :
    ofSender t items = [] := by
  refine filter_eq_nil_iff.mpr fun item hitem => ?_
  simpa using h item hitem

/-- Two lists without a common sender may be read in either order. -/
theorem ofSender_comm (t : Nat) {l₁ l₂ : List SendItem} (h : ∀ b ∈ l₂, ∀ a ∈ l₁, a.sender ≠ b.sender) :
    ofSender t l₁ ++ ofSender t l₂ = ofSender t l₂ ++ ofSender t l₁ := by
  by_cases ht : ∃ b ∈ l₂, b.sender = t
  · obtain ⟨b, hb, rfl⟩ := ht
    rw [ofSender_eq_nil (h b hb), nil_append, append_nil]
  · have hnone : ofSender t l₂ = [] := ofSender_eq_nil fun b hb hbt => ht ⟨b, hb, hbt⟩
    rw [hnone, nil_append, append_nil]

namespace NumberedConn
variable {S : Sodium} {c c' : NumberedConn}

/-- The packets, in the order of their numbers. -/
def items (c : NumberedConn) : List SendItem := c.assigned.map Prod.snd

/-- Numbers increase, up to the writer's sequence. -/
def Sound (c : NumberedConn) : Prop :=
  c.assigned.Pairwise (fun a b => a.1 < b.1) ∧ ∀ a ∈ c.assigned, a.1 ≤ c.writer.sequence

theorem write_some {item : SendItem} (h : c.write S item = some c') :
    c'.assigned = c.assigned ++ [(c.writer.sequence + 1, item)] ∧
      c'.writer.sequence = c.writer.sequence + 1 := by
  unfold write at h
  cases hacc : c.writer.accepts item.payload.length with
  | false =>
    rw [writePacket_refused hacc] at h
    cases h
  | true =>
    obtain ⟨hout, -, hseq, -, -⟩ := writePacket_accepted (S := S) item.header hacc
    rcases hw : c.writer.writePacket S item.header item.payload with ⟨outcome, writer⟩
    rw [hw] at h hout hseq
    cases hconn : c.writer.connected <;> rw [hconn] at hout <;> subst hout <;> cases h <;>
      exact ⟨by rw [hseq], hseq⟩

theorem Sound.write (hc : c.Sound) {item : SendItem} (h : c.write S item = some c') :
    c'.Sound ∧ c'.items = c.items ++ [item] := by
  obtain ⟨hassigned, hseq⟩ := write_some h
  refine ⟨⟨?_, ?_⟩, ?_⟩
  · rw [hassigned, pairwise_append]
    refine ⟨hc.1, pairwise_singleton _ _, fun a ha b hb => ?_⟩
    obtain rfl := mem_singleton.mp hb
    exact Int.lt_add_one_of_le (hc.2 a ha)
  · rw [hassigned, hseq]
    exact forall_mem_append.mpr ⟨fun a ha => (hc.2 a ha).trans (Int.le_add_one le_rfl), forall_mem_singleton.mpr le_rfl⟩
  · rw [items, hassigned, map_append]
    rfl

theorem Sound.writeAll (hc : c.Sound) {batch : List SendItem} (h : c.writeAll S batch = some c') :
    c'.Sound ∧ c'.items = c.items ++ batch := by
  induction batch generalizing c with
  | nil =>
    cases h
    exact ⟨hc, (append_nil _).symm⟩
  | cons item batch ih =>
    obtain ⟨c₁, h₁, h₂⟩ := Option.bind_eq_some_iff.mp h
    obtain ⟨hc₁, hit₁⟩ := hc.write h₁
    obtain ⟨hc₂, hit₂⟩ := ih hc₁ h₂
    exact ⟨hc₂, by rw [hit₂, hit₁, append_assoc]; rfl⟩

theorem Sound.disconnect (hc : c.Sound) : c.disconnect.Sound := hc

/-- The handshake gives a number to the keep-alive only. -/
theorem Sound.recover (hc : c.Sound) {remoteSequence : Int} {ack : Bytes}
    (h : c.recover S remoteSequence ack = some c') : c'.Sound ∧ c'.assigned = c.assigned := by
  unfold NumberedConn.recover at h
  split at h
  · cases h
  have hacc : c.writer.revive.accepts ack.length = true := rfl
  obtain ⟨-, -, hseq, -, -⟩ := writePacket_accepted (S := S) keepAlive hacc
  split at h
  next hw =>
    cases h
    rw [hw] at hseq
    refine ⟨⟨hc.1, fun a ha => ?_⟩, rfl⟩
    have hle := hc.2 a ha
    rw [hseq]
    exact hle.trans (Int.le_add_one le_rfl)
  · cases h

end NumberedConn

/-! ### Permits -/

namespace RecoverPc

/-- The permit has set the flag and not cleared it. -/
def flagged : RecoverPc → Bool
  | .begun | .snapshotted _ | .announced _ | .clearing => true
  | .flushing stage | .writing stage => !decide (stage = .cleared)
  | .done => false

/-- The permit still flushes after it cleared the flag. -/
def draining : RecoverPc → Bool
  | .flushing stage | .writing stage => decide (stage = .cleared)
  | _ => false

def isWriting : RecoverPc → Bool
  | .writing _ => true
  | _ => false

theorem candidate_eq_none {pc : RecoverPc} (h : pc.flagged = false) : pc.candidate = none := by
  cases pc with
  | snapshotted | announced => cases h
  | begun | flushing | writing | clearing | done => rfl

end RecoverPc

/-- The flag, the permits, the taken batches and the hold fit: one permit has the flag while it is set, who takes a
batch is about to write it, and a held packet has a flush to come. -/
structure FlagInv (recovering : Bool) (permit : Nat → RecoverPc) (batches : List (Nat × List SendItem))
    (hold : List SendItem) : Prop where
  owned : recovering = true → ∃ r, ∀ r', (permit r').flagged = true ↔ r' = r
  free : recovering = false → ∀ r, (permit r).flagged = false
  covered : hold ≠ [] → recovering = true ∨ ∃ r, (permit r).draining = true
  writing : ∀ b ∈ batches, (permit b.1).isWriting = true
  nodup : (batches.map Prod.fst).Nodup

/-- No second batch of a permit is left when its batch is taken off the list. -/
theorem eraseP_fst_ne {batches : List (Nat × List SendItem)} (h : (batches.map Prod.fst).Nodup) (r : Nat) :
    ∀ b ∈ batches.eraseP fun b => b.1 == r, b.1 ≠ r := by
  induction batches with
  | nil => exact fun _ hb => by cases hb
  | cons a batches ih =>
    rw [map_cons, nodup_cons] at h
    intro b hb
    rw [eraseP_cons] at hb
    by_cases ha : a.1 = r
    · rw [beq_iff_eq.mpr ha] at hb
      rintro rfl
      exact h.1 (ha ▸ mem_map_of_mem hb)
    rw [beq_eq_false_iff_ne.mpr ha] at hb
    rcases mem_cons.mp hb with rfl | hb
    · exact ha
    · exact ih h.2 b hb

namespace FlagInv
variable {recovering : Bool} {permit : Nat → RecoverPc} {batches : List (Nat × List SendItem)}
  {hold : List SendItem} {r : Nat} {pc : RecoverPc}

section
variable (h : FlagInv recovering permit batches hold) (hr : (permit r).isWriting = false)
include h hr

/-- A batch belongs to a permit that is about to write. -/
theorem ne_of_mem {b : Nat × List SendItem} (hb : b ∈ batches) : b.1 ≠ r := by
  rintro rfl
  rw [h.writing b hb] at hr
  cases hr

theorem writing_update (b : Nat × List SendItem) (hb : b ∈ batches) : (update permit r pc b.1).isWriting = true := by
  rw [update_of_ne (h.ne_of_mem hr hb)]
  exact h.writing b hb

end

/-- A permit moves on and keeps its part of the flag. -/
theorem flagged_update (hflag : pc.flagged = (permit r).flagged) :
    ∀ r', (update permit r pc r').flagged = (permit r').flagged :=
  (forall_update_iff permit fun r' pc => pc.flagged = (permit r').flagged).mpr ⟨hflag, fun _ _ => rfl⟩

theorem covered_update (h : FlagInv recovering permit batches hold)
    (hdrain : pc.draining = (permit r).draining) (hhold : hold ≠ []) :
    recovering = true ∨ ∃ r', (update permit r pc r').draining = true := by
  refine (h.covered hhold).imp_right fun ⟨r', hr'⟩ => ⟨r', ?_⟩
  by_cases heq : r' = r
  · subst heq
    rw [update_self, hdrain, hr']
  · rw [update_of_ne heq, hr']

theorem move (h : FlagInv recovering permit batches hold) (hflag : pc.flagged = (permit r).flagged)
    (hdrain : pc.draining = (permit r).draining ∨ hold = []) (hr : (permit r).isWriting = false) :
    FlagInv recovering (update permit r pc) batches hold where
  owned hrec := by simpa only [flagged_update hflag] using h.owned hrec
  free hrec := by simpa only [flagged_update hflag] using h.free hrec
  covered hhold := h.covered_update (hdrain.resolve_right hhold) hhold
  writing := h.writing_update hr
  nodup := h.nodup

theorem begin (h : FlagInv false permit batches hold) (hr : permit r = .done) :
    FlagInv true (update permit r .begun) batches hold where
  owned _ := by
    refine ⟨r, (forall_update_iff permit fun r' pc => pc.flagged = true ↔ r' = r).mpr ⟨by simp [RecoverPc.flagged], ?_⟩⟩
    intro r' heq
    simp [h.free rfl r', heq]
  free hrec := by cases hrec
  covered _ := .inl rfl
  writing := h.writing_update (by rw [hr]; rfl)
  nodup := h.nodup

section
variable (h : FlagInv recovering permit batches hold)
include h

/-- The whole hold becomes a batch. -/
theorem take {stage : FlushStage} (hr : permit r = .flushing stage) :
    FlagInv recovering (update permit r (.writing stage)) (batches ++ [(r, hold)]) [] := by
  have hwriting : (permit r).isWriting = false := by rw [hr]; rfl
  have hflag : RecoverPc.flagged (.writing stage) = (permit r).flagged := by rw [hr]; rfl
  refine ⟨?_, ?_, fun hhold => absurd rfl hhold, ?_, ?_⟩
  · simpa only [flagged_update hflag] using h.owned
  · simpa only [flagged_update hflag] using h.free
  · refine forall_mem_append.mpr ⟨h.writing_update hwriting, forall_mem_singleton.mpr ?_⟩
    rw [update_self]
    rfl
  · rw [map_append, nodup_append]
    refine ⟨h.nodup, nodup_singleton _, ?_⟩
    rintro a ha b hb
    obtain ⟨x, hx, rfl⟩ := mem_map.mp ha
    rw [mem_singleton.mp hb]
    exact h.ne_of_mem hwriting hx

/-- The batch is written. -/
theorem wrote {stage : FlushStage} (hr : permit r = .writing stage) :
    FlagInv recovering (update permit r (.flushing stage)) (batches.eraseP fun b => b.1 == r)
      hold := by
  have hflag : RecoverPc.flagged (.flushing stage) = (permit r).flagged := by rw [hr]; rfl
  have hdrain : RecoverPc.draining (.flushing stage) = (permit r).draining := by rw [hr]; rfl
  have herase := eraseP_fst_ne h.nodup r
  refine ⟨?_, ?_, h.covered_update hdrain, ?_, ?_⟩
  · simpa only [flagged_update hflag] using h.owned
  · simpa only [flagged_update hflag] using h.free
  · intro b hb
    rw [update_of_ne (herase b hb)]
    exact h.writing b (mem_of_mem_eraseP hb)
  · exact h.nodup.sublist (eraseP_sublist.map _)

/-- The flag is cleared; whoever is in the hold has the second flush of the drop to come. -/
theorem clear (hr : permit r = .clearing) :
    FlagInv false (update permit r (.flushing .cleared)) batches hold where
  owned hrec := by cases hrec
  free _ := by
    refine (forall_update_iff permit fun _ pc => pc.flagged = false).mpr ⟨rfl, fun r' heq => ?_⟩
    cases hrec : recovering with
    | false => exact h.free hrec r'
    | true =>
      obtain ⟨owner, howner⟩ := h.owned hrec
      have hown : r = owner := (howner r).mp (by rw [hr]; rfl)
      refine Bool.eq_false_iff.mpr fun hf => heq ?_
      rw [(howner r').mp hf, hown]
  covered _ := .inr ⟨r, by rw [update_self]; rfl⟩
  writing := h.writing_update (by rw [hr]; rfl)
  nodup := h.nodup

end

theorem queue (h : FlagInv true permit batches hold) (item : SendItem) :
    FlagInv true permit batches (hold ++ [item]) :=
  { h with covered := fun _ => .inl rfl }

/-- Nothing waits once every permit is dropped. -/
theorem empty (h : FlagInv recovering permit batches hold) (hdone : ∀ r, permit r = .done) :
    batches = [] ∧ hold = [] := by
  constructor
  · refine eq_nil_iff_forall_not_mem.mpr fun b hb => ?_
    have := h.writing b hb
    rw [hdone] at this
    cases this
  · -- whoever would flush the hold is a permit that is not done
    by_contra hhold
    rcases h.covered hhold with hrec | ⟨r, hr⟩
    · obtain ⟨r, hr⟩ := h.owned hrec
      have := (hr r).mpr rfl
      rw [hdone] at this
      cases this
    · rw [hdone] at hr
      cases hr

end FlagInv

/-! ### The invariant -/

/-- The packet under way. -/
def SenderPc.item : SenderPc → Option SendItem
  | .idle => none
  | .queueing item | .locking item | .checking item | .reloading item | .requeueing item
  | .late item => some item

/-- Where the packets of each sender are. -/
structure SendInv (s : SessionSends) : Prop where
  sound : s.connection.Sound
  /-- Each sender's packets are in the connection, then in the batches, then in the hold. -/
  order : ∀ t, ofSender t s.connection.items ++ ofSender t s.waiting = ofSender t s.returned
  candidate : ∀ r c, (s.permit r).candidate = some c → c.Sound ∧ c.items = s.connection.items
  flag : FlagInv s.recovering s.permit s.batches s.recoverHold
  /-- A sender sends its own packets. -/
  sender : ∀ t item, (s.senders t).item = some item → item.sender = t

namespace SessionSends
variable {s : SessionSends} {r : Nat}

theorem permit_of_le (hr : s.permits.length ≤ r) : s.permit r = .done := by
  rw [permit, List.getD_eq_getElem?_getD, List.getElem?_eq_none hr]
  rfl

theorem permit_setPermit (hr : s.permit r ≠ .done) (pc : RecoverPc) :
    (s.setPermit r pc).permit = update s.permit r pc := by
  have hlt : r < s.permits.length := by
    by_contra hge
    exact hr (permit_of_le (Nat.le_of_not_lt hge))
  funext r'
  show (s.permits.set r pc).getD r' .done = _
  rw [List.getD_eq_getElem?_getD, List.getElem?_set]
  by_cases heq : r = r'
  · rw [if_pos heq, if_pos hlt, heq, update_self]
    rfl
  · rw [if_neg heq, update_of_ne (Ne.symm heq), permit, List.getD_eq_getElem?_getD]

theorem permit_tryBeginRecover (hrec : s.recovering = false) :
    s.tryBeginRecover.permit = update s.permit s.permits.length .begun := by
  rw [tryBeginRecover, hrec]
  funext r'
  show (s.permits ++ [RecoverPc.begun]).getD r' .done = _
  by_cases heq : r' = s.permits.length
  · subst heq
    simp
  rw [update_of_ne heq, permit, List.getD_eq_getElem?_getD, List.getD_eq_getElem?_getD, List.getElem?_append]
  split
  · rfl
  next hge =>
    rw [List.getElem?_eq_none (by simp; omega), List.getElem?_eq_none (by omega)]

theorem NoSnapshot.permit (h : s.NoSnapshot) (r : Nat) : (s.permit r).candidate = none := by
  rw [SessionSends.permit, List.getD_eq_getElem?_getD]
  cases hr : s.permits[r]? with
  | none => rfl
  | some pc => exact h pc (mem_of_getElem? hr)

end SessionSends

/-- What the permit's batch is of the waiting packets. -/
theorem batch_split (batches : List (Nat × List SendItem)) (r : Nat) :
    ∃ later, batches.flatMap Prod.snd =
        (batches.takeWhile fun b => !(b.1 == r)).flatMap Prod.snd ++
          (((batches.find? fun b => b.1 == r).map Prod.snd).getD [] ++ later) ∧
      (batches.eraseP fun b => b.1 == r).flatMap Prod.snd =
        (batches.takeWhile fun b => !(b.1 == r)).flatMap Prod.snd ++ later := by
  induction batches with
  | nil => exact ⟨[], rfl, rfl⟩
  | cons a batches ih =>
    by_cases ha : a.1 = r
    · refine ⟨batches.flatMap Prod.snd, ?_, ?_⟩ <;> simp [ha]
    obtain ⟨later, h₁, h₂⟩ := ih
    refine ⟨later, ?_, ?_⟩
    · simp only [flatMap_cons, takeWhile_cons, List.find?_cons,
        beq_eq_false_iff_ne.mpr ha, Bool.not_false, if_true, append_assoc, h₁]
    · simp only [flatMap_cons, takeWhile_cons, eraseP_cons,
        beq_eq_false_iff_ne.mpr ha, Bool.not_false, if_true, append_assoc, cond_false, h₂]

namespace SendInv
variable {S : Sodium} {s : SessionSends} {t r : Nat}

theorem new (crypto : CryptoHandler) : SendInv (.new crypto) where
  sound := ⟨.nil, fun _ ha => by cases ha⟩
  order _ := rfl
  candidate _ _ hc := by cases hc
  flag := ⟨nofun, fun _ _ => rfl, fun hhold => absurd rfl hhold, nofun, .nil⟩
  sender _ _ hi := by cases hi

theorem sender_update (h : SendInv s) {pc : SenderPc} (hpc : ∀ item ∈ pc.item, item.sender = t) :
    ∀ t' item, (update s.senders t pc t').item = some item → item.sender = t' :=
  (forall_update_iff s.senders fun t' pc => ∀ item, pc.item = some item → item.sender = t').mpr
    ⟨hpc, fun t' _ => h.sender t'⟩

theorem candidate_update (h : SendInv s) {pc : RecoverPc}
    (hpc : ∀ c, pc.candidate = some c → c.Sound ∧ c.items = s.connection.items) :
    ∀ r' c, (update s.permit r pc r').candidate = some c → c.Sound ∧ c.items = s.connection.items :=
  (forall_update_iff s.permit fun _ pc => ∀ c, pc.candidate = some c → c.Sound ∧ c.items = s.connection.items).mpr
    ⟨hpc, fun r' _ => h.candidate r'⟩

/-! ### Senders -/

section
variable (h : SendInv s)
include h

/-- A sender moves on with its packet, or gives it up. -/
theorem setSender {pc : SenderPc} (hpc : ∀ item ∈ pc.item, item.sender = t) (writeSerial : Option Nat) :
    SendInv { s.setSender t pc with writeSerial := writeSerial } :=
  { h with sender := h.sender_update hpc }

theorem moveSender {pc₀ pc : SenderPc} (hpc : s.senders t = pc₀) (hitem : pc.item = pc₀.item)
    (writeSerial : Option Nat) : SendInv { s.setSender t pc with writeSerial := writeSerial } :=
  h.setSender (fun item hi => h.sender t item (by rw [hpc, ← hitem]; exact hi)) writeSerial

/-- A packet that is queued goes behind all that waits. -/
theorem queueHold (hrec : s.recovering = true) (item : SendItem) (writeSerial : Option Nat) :
    SendInv { s.queueHold t item with writeSerial := writeSerial } := by
  unfold SessionSends.queueHold
  split
  · refine ⟨h.sound, fun t' => ?_, h.candidate, ?_, h.sender_update nofun⟩
    · show ofSender t' s.connection.items ++
        ofSender t' (s.batches.flatMap Prod.snd ++ (s.recoverHold ++ [item])) =
          ofSender t' (s.returned ++ [item])
      rw [← append_assoc, ofSender_append t' _ [item], ofSender_append t' s.returned, ← h.order t', append_assoc]
      rfl
    · have hflag := h.flag
      rw [hrec] at hflag
      show FlagInv s.recovering s.permit s.batches (s.recoverHold ++ [item])
      rw [hrec]
      exact hflag.queue item
  · refine h.setSender (fun _ hitem => ?_) writeSerial
    cases hitem

/-- A packet that is written while none of its sender waits, and no copy of the connection is out. -/
theorem writeDirect {item : SendItem} (hsend : item.sender = t) (hwt : s.NoneWaits t)
    (hnone : ∀ r, (s.permit r).candidate = none) : SendInv (s.writeDirect S t item) := by
  unfold SessionSends.writeDirect
  split
  · exact h
  rename_i connection hwr
  obtain ⟨hsd, hit⟩ := h.sound.write hwr
  refine ⟨hsd, fun t' => ?_, fun r c hc => ?_, h.flag, h.sender_update nofun⟩
  · have hcomm : ofSender t' s.waiting ++ ofSender t' [item] = ofSender t' [item] ++ ofSender t' s.waiting :=
      ofSender_comm t' fun b hb a ha => by
        rw [mem_singleton.mp hb, hsend]
        exact hwt a ha
    show ofSender t' connection.items ++ ofSender t' s.waiting = ofSender t' (s.returned ++ [item])
    rw [hit, ofSender_append, ofSender_append, ← h.order t', append_assoc, append_assoc, hcomm]
  · exact absurd (hc.symm.trans (hnone r)) nofun

theorem send (header : UInt8) (payload : Bytes) : SendInv (s.send t header payload) := by
  unfold SessionSends.send
  split
  · refine h.setSender (fun item hitem => ?_) s.writeSerial
    split at hitem <;> rw [← Option.some.inj hitem]
  · exact h

theorem queue : SendInv (s.queue t) := by
  unfold SessionSends.queue
  split
  next item hpc =>
    split
    next hrec =>
      exact h.queueHold hrec item (s.queueHold t item).writeSerial
    · exact h.moveSender hpc (by rfl) s.writeSerial
  · exact h

theorem lockSerial : SendInv (s.lockSerial t) := by
  unfold SessionSends.lockSerial
  split
  next item hpc =>
    split
    · exact h.moveSender hpc (by rfl) (some t)
    · exact h
  · exact h

theorem check (hok : s.recovering = false → s.NoneWaits t) : SendInv (s.check S t) := by
  unfold SessionSends.check
  split
  next item hpc =>
    have hsend := h.sender t item (by rw [hpc]; rfl)
    split
    · exact h.moveSender hpc (by rfl) s.writeSerial
    rename_i hrec
    have hfree := Bool.eq_false_iff.mpr hrec
    -- With the flag clear no permit is between its snapshot and its install.
    exact h.writeDirect hsend (hok hfree) fun r => RecoverPc.candidate_eq_none (h.flag.free hfree r)
  · exact h

theorem reload : SendInv (s.reload t) := by
  unfold SessionSends.reload
  split
  next item hpc =>
    refine h.moveSender hpc ?_ s.writeSerial
    split <;> rfl
  · exact h

theorem requeue : SendInv (s.requeue t) := by
  unfold SessionSends.requeue
  split
  next item hpc =>
    split
    next hrec =>
      exact h.queueHold hrec item none
    · exact h.moveSender hpc (by rfl) s.writeSerial
  · exact h

theorem writeLate (hsnapshot : s.NoSnapshot) (hwt : s.NoneWaits t) : SendInv (s.writeLate S t) := by
  unfold SessionSends.writeLate
  split
  next item hpc =>
    exact h.writeDirect (h.sender t item (by rw [hpc]; rfl)) hwt hsnapshot.permit
  · exact h

end

/-! ### Recoveries -/

section
variable (h : SendInv s)
include h

/-- A permit moves on, with or without a copy of the connection. -/
theorem setPermit {pc₀ pc : RecoverPc} (hr : s.permit r = pc₀) (hne : pc₀ ≠ .done) (hwriting : pc₀.isWriting = false)
    (hflag : pc.flagged = pc₀.flagged) (hdrain : pc.draining = pc₀.draining ∨ s.recoverHold = [])
    (hpc : ∀ c, pc.candidate = some c → c.Sound ∧ c.items = s.connection.items) : SendInv (s.setPermit r pc) := by
  subst hr
  have hperm := SessionSends.permit_setPermit hne pc
  refine ⟨h.sound, h.order, ?_, ?_, h.sender⟩
  · rw [hperm]
    exact h.candidate_update hpc
  · rw [hperm]
    exact h.flag.move hflag hdrain hwriting

theorem tryBeginRecover : SendInv s.tryBeginRecover := by
  cases hrec : s.recovering with
  | true =>
    rw [SessionSends.tryBeginRecover, hrec]
    exact h
  | false =>
    have hperm := SessionSends.permit_tryBeginRecover hrec
    rw [SessionSends.tryBeginRecover, hrec] at hperm ⊢
    have hflag := h.flag
    rw [hrec] at hflag
    refine ⟨h.sound, h.order, ?_, ?_, h.sender⟩
    · rw [hperm]
      exact h.candidate_update fun _ hc => by cases hc
    · rw [hperm]
      exact hflag.begin (SessionSends.permit_of_le le_rfl)

theorem snapshot : SendInv (s.snapshot r) := by
  unfold SessionSends.snapshot
  split
  next hr =>
    refine h.setPermit hr nofun rfl rfl (.inl rfl) fun c hc => ?_
    cases hc
    exact ⟨h.sound.disconnect, rfl⟩
  · exact h

theorem handshake (remoteSequence : Int) (ack : Bytes) : SendInv (s.handshake S r remoteSequence ack) := by
  unfold SessionSends.handshake
  split
  next candidate hr =>
    split
    · exact h
    rename_i candidate' hrecover
    obtain ⟨hsd, hit⟩ := h.candidate r candidate (by rw [hr]; rfl)
    refine h.setPermit hr nofun rfl rfl (.inl rfl) fun c hc => ?_
    cases hc
    obtain ⟨hsd', hassigned⟩ := hsd.recover hrecover
    exact ⟨hsd', by rw [← hit, NumberedConn.items, NumberedConn.items, hassigned]⟩
  · exact h

/-- The copy has the packets of the connection it replaces. -/
theorem install : SendInv (s.install r) := by
  unfold SessionSends.install
  split
  next candidate hr =>
    split
    · obtain ⟨hsd, hit⟩ := h.candidate r candidate (by rw [hr]; rfl)
      have hset : SendInv (s.setPermit r (.flushing .installed)) :=
        h.setPermit hr nofun rfl rfl (.inl rfl) nofun
      refine ⟨hsd, fun t => ?_, fun r' c hc => ?_, hset.flag, hset.sender⟩
      · have := hset.order t
        rw [hit]
        exact this
      · rw [hit]
        exact hset.candidate r' c hc
    · exact h
  · exact h

theorem takeBatch : SendInv (s.takeBatch r) := by
  unfold SessionSends.takeBatch
  split
  next stage hr =>
    have hne : s.permit r ≠ .done := by rw [hr]; nofun
    split
    next hhold =>
      refine h.setPermit hr nofun rfl ?_ (.inr hhold) ?_
      · cases stage <;> rfl
      · intro c hc
        cases stage <;> cases hc
    have hperm := SessionSends.permit_setPermit hne (.writing stage)
    refine ⟨h.sound, fun t => ?_, ?_, ?_, h.sender⟩
    · have hwaiting : (s.batches ++ [(r, s.recoverHold)]).flatMap Prod.snd ++ [] = s.waiting := by
        simp [SessionSends.waiting]
      show _ ++ ofSender t ((s.batches ++ [(r, s.recoverHold)]).flatMap Prod.snd ++ []) = _
      rw [hwaiting]
      exact h.order t
    · show ∀ r' c, ((s.setPermit r (.writing stage)).permit r').candidate = some c → _
      rw [hperm]
      exact h.candidate_update fun _ hc => by cases hc
    · show FlagInv s.recovering (s.setPermit r (.writing stage)).permit _ _
      rw [hperm]
      exact h.flag.take hr
  · exact h

/-- A batch is written while no copy is out and nothing of its senders was taken before it. -/
theorem writeBatch (hsnapshot : s.NoSnapshot)
    (hturn : ∀ item ∈ s.batchOf r, ∀ earlier ∈ s.earlierBatches r, earlier.sender ≠ item.sender) :
    SendInv (s.writeBatch S r) := by
  unfold SessionSends.writeBatch
  split
  next stage hr =>
    split
    · split
      · exact h
      next connection hwr =>
        have hne : s.permit r ≠ .done := by rw [hr]; nofun
        have hperm := SessionSends.permit_setPermit hne (.flushing stage)
        obtain ⟨hsd, hit⟩ := h.sound.writeAll hwr
        obtain ⟨later, hall, hrest⟩ : ∃ later,
            s.batches.flatMap Prod.snd = s.earlierBatches r ++ (s.batchOf r ++ later) ∧
            (s.batches.eraseP fun b => b.1 == r).flatMap Prod.snd = s.earlierBatches r ++ later :=
          batch_split s.batches r
        refine ⟨hsd, fun t => ?_, ?_, ?_, h.sender⟩
        · -- nobody in the batch waits in an earlier one, so the batch may go first
          have hcomm := ofSender_comm t hturn
          have horder := h.order t
          rw [SessionSends.waiting, hall] at horder
          show ofSender t connection.items ++
            ofSender t ((s.batches.eraseP fun b => b.1 == r).flatMap Prod.snd ++ s.recoverHold) =
              ofSender t s.returned
          rw [hit, hrest, ← horder]
          simp only [ofSender_append, append_assoc]
          rw [← append_assoc (ofSender t (s.batchOf r)), ← hcomm, append_assoc]
        · show ∀ r' c, ((s.setPermit r (.flushing stage)).permit r').candidate = some c → _
          rw [hperm]
          intro r' c hc
          by_cases heq : r' = r
          · rw [heq, update_self] at hc
            cases hc
          · rw [update_of_ne heq, hsnapshot.permit r'] at hc
            cases hc
        · show FlagInv s.recovering (s.setPermit r (.flushing stage)).permit _ _
          rw [hperm]
          exact h.flag.wrote hr
    · exact h
  · exact h

theorem clear : SendInv (s.clear r) := by
  unfold SessionSends.clear
  split
  next hr =>
    have hperm := SessionSends.permit_setPermit (s := s) (r := r) (by rw [hr]; nofun) (.flushing .cleared)
    refine ⟨h.sound, h.order, ?_, ?_, h.sender⟩
    · show ∀ r' c, ((s.setPermit r (.flushing .cleared)).permit r').candidate = some c → _
      rw [hperm]
      exact h.candidate_update fun _ hc => by cases hc
    · show FlagInv false (s.setPermit r (.flushing .cleared)).permit _ _
      rw [hperm]
      exact h.flag.clear hr
  · exact h

/-- **What every allowed step keeps.** -/
theorem step {s' : SessionSends} (hstep : SendStep S SendsInTurn s s') : SendInv s' := by
  obtain ⟨e, hok⟩ := hstep
  cases e with
  | send t header payload => exact h.send header payload
  | queue t => exact h.queue
  | lockSerial t => exact h.lockSerial
  | check t => exact h.check hok
  | reload t => exact h.reload
  | requeue t => exact h.requeue
  | writeLate t => exact h.writeLate hok.1 hok.2
  | disconnect => exact { h with sound := h.sound.disconnect }
  | tryBeginRecover => exact h.tryBeginRecover
  | snapshot r => exact h.snapshot
  | handshake r remoteSequence ack => exact h.handshake remoteSequence ack
  | install r => exact h.install
  | takeBatch r => exact h.takeBatch
  | writeBatch r => exact h.writeBatch hok.1 hok.2
  | flushTimeout r => exact hok.elim
  | clear r => exact h.clear

end

end SendInv

/-! ### Runs -/

/-- **In a run that meets the condition, once every permit is dropped, each sender's packets are in the installed
connection, in its order, under increasing sequence numbers: one for each packet whose `send_packet` returned `Ok`.**
-/
theorem sends_numbered_in_order {S : Sodium} {crypto : CryptoHandler} {s : SessionSends}
    (hrun : Relation.ReflTransGen (SendStep S SendsInTurn) (.new crypto) s)
    (hdone : ∀ pc ∈ s.permits, pc = .done) (t : Nat) :
    let own := s.connection.assigned.filter fun a => a.2.sender == t
    own.map Prod.snd = ofSender t s.returned ∧ own.Pairwise fun a b => a.1 < b.1 := by
  have h : SendInv s := reach_invariant (P := SendInv) hrun (.new crypto) fun _ _ h => h.step
  have hpermit : ∀ r, s.permit r = .done := by
    intro r
    by_cases hr : r < s.permits.length
    · rw [SessionSends.permit, List.getD_eq_getElem?_getD, List.getElem?_eq_getElem hr]
      exact hdone _ (getElem_mem hr)
    · exact SessionSends.permit_of_le (Nat.le_of_not_lt hr)
  obtain ⟨hbatches, hhold⟩ := h.flag.empty hpermit
  have horder := h.order t
  rw [SessionSends.waiting, hbatches, hhold] at horder
  refine ⟨?_, h.sound.1.filter _⟩
  rw [← horder, NumberedConn.items, ofSender, filter_map]
  exact (append_nil _).symm

theorem sends_reach {S : Sodium} {allowed : SessionSends → SendEvent → Prop} {s : SessionSends}
    (es : List SendEvent) (h : AllowedRun (SessionSends.apply S) allowed s es) :
    Relation.ReflTransGen (SendStep S allowed) s (es.foldl (SessionSends.apply S) s) :=
  reach_of_events (fun s e h => .step s e h) es h

/-- A session to run the model with. -/
def freshSends : SessionSends := .new (.new zeroKey dirServerToClient)

/-- One sender writes before a recovery and after it, two queue during it, one of them after it had
already passed the first check. -/
def sendsAcrossRecovery : List SendEvent :=
  [.send 0 7 [1], .lockSerial 0, .check 0, .send 1 7 [2], .tryBeginRecover, .snapshot 0, .lockSerial 1,
    .check 1, .reload 1, .requeue 1, .send 0 7 [3], .queue 0, .handshake 0 0 [], .install 0, .takeBatch 0,
    .writeBatch 0, .takeBatch 0, .takeBatch 0, .clear 0, .takeBatch 0, .send 0 7 [4], .lockSerial 0,
    .check 0]

theorem sends_numbered_in_order_recovered :
    let s := sendsAcrossRecovery.foldl (SessionSends.apply Aead.plainSodium) freshSends
    s.connection.assigned = [(1, ⟨0, 7, [1]⟩), (3, ⟨1, 7, [2]⟩), (4, ⟨0, 7, [3]⟩), (5, ⟨0, 7, [4]⟩)] ∧
      let own := s.connection.assigned.filter fun a => a.2.sender == 0
      own.map Prod.snd = ofSender 0 s.returned ∧ own.Pairwise fun a b => a.1 < b.1 :=
  ⟨by decide +kernel,
    sends_numbered_in_order (sends_reach (S := Aead.plainSodium) sendsAcrossRecovery (by decide +kernel))
      (by decide +kernel) 0⟩

/-- The sender reads the cleared flag, and writes when the next recovery has its snapshot. -/
def sendPastSnapshot : List SendEvent :=
  [.send 0 7 [1], .tryBeginRecover, .snapshot 0, .handshake 0 0 [], .install 0, .lockSerial 0, .check 0,
    .takeBatch 0, .takeBatch 0, .clear 0, .reload 0, .takeBatch 0, .tryBeginRecover, .snapshot 1,
    .writeLate 0, .handshake 1 0 [], .install 1, .takeBatch 1, .takeBatch 1, .clear 1, .takeBatch 1]

/-- The sender queues a packet behind the flush, and writes the next one before the second flush. -/
def sendPastHold : List SendEvent :=
  [.tryBeginRecover, .snapshot 0, .handshake 0 0 [], .install 0, .takeBatch 0, .takeBatch 0,
    .send 0 7 [1], .queue 0, .clear 0, .send 0 7 [2], .lockSerial 0, .check 0, .takeBatch 0, .writeBatch 0,
    .takeBatch 0]

/-- **A packet is lost, and two are reordered**: in one run a packet that was sent has no number in the
connection installed at the end, in the other the second packet of a sender has the lower number. -/
theorem sends_lost_and_reordered :
    (∃ s, Relation.ReflTransGen (SendStep Aead.plainSodium fun _ _ => True) freshSends s ∧
      (∀ pc ∈ s.permits, pc = .done) ∧ s.returned = [⟨0, 7, [1]⟩] ∧ s.connection.assigned = []) ∧
    ∃ s, Relation.ReflTransGen (SendStep Aead.plainSodium fun _ _ => True) freshSends s ∧
      (∀ pc ∈ s.permits, pc = .done) ∧ s.returned = [⟨0, 7, [1]⟩, ⟨0, 7, [2]⟩] ∧
      s.connection.assigned = [(2, ⟨0, 7, [2]⟩), (3, ⟨0, 7, [1]⟩)] :=
  ⟨⟨_, sends_reach sendPastSnapshot (by decide +kernel), by decide +kernel⟩,
    ⟨_, sends_reach sendPastHold (by decide +kernel), by decide +kernel⟩⟩

end EternalTerminal
