import EternalTerminal.Core.DeliveryBacklog
import EternalTerminal.Core.Link

/-!
# Core — keep-alives and acknowledgements

`keepalive.rs`: the acknowledgement a keep-alive may carry, and `AckSchedule`, which says which of them carry one.  An
idle session (`IdleRun`) is an initiator that sends keep-alives and a responder that echoes them, each with its
writer, its reader and its schedule, and nothing else on the wire.  Either end may be one that never acknowledges.

Keep-alives are sequenced, so they move the sequences they acknowledge.  With both ends acknowledging, the exchanges
that carry acknowledgements are the first, the 17th, the 33rd and so on (`IdleRun.InStep`), which bounds both backups
and the number of acknowledgements.
-/

namespace EternalTerminal
open Machine Bytes List

def ackPayloadLen : Nat := 8

def encodeAck (sequence : Int) : Bytes := beBytes ackPayloadLen (max sequence 0).toNat

/-- A payload of another length is no acknowledgement, and neither is one with the sign bit set. -/
def decodeAck (payload : Bytes) : Option Int :=
  if payload.length = ackPayloadLen ∧ beValue payload < 2 ^ 63 then some (beValue payload) else none

def ackBytes (ack : Option Bytes) : Bytes := ack.getD []

theorem decodeAck_encodeAck {sequence : Int} (hpos : 0 ≤ sequence) (hle : sequence ≤ i64Max) :
    decodeAck (encodeAck sequence) = some sequence := by
  obtain ⟨n, rfl⟩ := Int.eq_ofNat_of_zero_le hpos
  unfold i64Max at hle
  have hval : beValue (encodeAck n) = n := by
    rw [encodeAck, max_eq_left hpos, Int.toNat_natCast, beValue_beBytes, Nat.mod_eq_of_lt (by unfold ackPayloadLen; omega)]
  rw [decodeAck, hval, if_pos ⟨length_beBytes _ _, by omega⟩]

/-- The two ends of a session. -/
inductive AckSide where
  | initiator
  | responder
  deriving DecidableEq

/-- The sequence of the latest acknowledgement attached on this connection. -/
structure AckSchedule where
  attached : Option Int := none
  deriving DecidableEq

namespace AckSchedule

def attaches (schedule : AckSchedule) (side : AckSide) (sequence dataSequence : Int)
    (peerAcknowledges volume : Bool) : Bool :=
  match schedule.attached with
  | none => peerAcknowledges || side = .initiator
  | some attached =>
    peerAcknowledges &&
      (volume || attached < dataSequence || (ackRetainFloorPackets : Int) ≤ sequence - attached)

/-- The acknowledgement for the next keep-alive. -/
def next (schedule : AckSchedule) (side : AckSide) (sequence dataSequence : Int) (peerAcknowledges volume : Bool) :
    Option Bytes × AckSchedule :=
  if schedule.attaches side sequence dataSequence peerAcknowledges volume then
    (some (encodeAck sequence), ⟨some sequence⟩)
  else (none, schedule)

end AckSchedule

/-! ### An idle session -/

namespace Link

/-- Everything under way reaches the reader. -/
def delivered (s : Link) : Link := { s with reader := s.reader.feed s.net, net := [] }

/-- The packet the next pop answers, if any. -/
def received (A : Aead) (s : Link) : Option Packet :=
  match (s.reader.pop (A.sodium s.log)).1 with
  | .ok (.packet packet) => some packet
  | _ => none

end Link

/-- One end: the link its writer writes into, whose reader is the peer's, and its schedule. -/
structure KeepaliveEnd where
  link : Link
  acks : AckSchedule
  /-- How many of its keep-alives carried an acknowledgement. -/
  attached : Nat

namespace KeepaliveEnd

def new (crypto : CryptoHandler) : KeepaliveEnd := ⟨.new crypto true true, {}, 0⟩

/-- A keep-alive, with the acknowledgement of what this end read from `peer` when the schedule attaches it. -/
def send (A : Aead) (side : AckSide) (own peer : KeepaliveEnd) : KeepaliveEnd :=
  let (ack, acks) := own.acks.next side peer.link.reader.sequence peer.link.reader.dataSequence
    own.link.writer.deliveryBacklog.isSome false
  { link := own.link.write A keepAlive (ackBytes ack)
    acks
    attached := own.attached + if ack.isSome then 1 else 0 }

/-- A keep-alive of an end that never acknowledges. -/
def sendLegacy (A : Aead) (own : KeepaliveEnd) (payload : Bytes) : KeepaliveEnd :=
  { own with link := own.link.write A keepAlive payload }

/-- `own` reads a keep-alive of `peer`; its writer gets the acknowledgement in it. -/
def hear (A : Aead) (own peer : KeepaliveEnd) : KeepaliveEnd :=
  match (peer.link.delivered.received A).bind fun packet => decodeAck packet.payload with
  | none => own
  | some sequence => { own with link := { own.link with writer := own.link.writer.acknowledge sequence } }

/-- The link of `peer` after that. -/
def heard (A : Aead) (peer : KeepaliveEnd) : KeepaliveEnd := { peer with link := peer.link.delivered.pop A }

end KeepaliveEnd

/-- Where an exchange of keep-alives is. -/
inductive IdlePhase where
  | idle
  | probed
  | heard
  | echoed
  deriving DecidableEq

/-- An idle session. -/
structure IdleRun where
  initiator : KeepaliveEnd
  responder : KeepaliveEnd
  /-- The exchanges begun. -/
  exchanges : Nat
  phase : IdlePhase

/-- Which ends acknowledge. -/
structure IdlePeers where
  initiator : Bool
  responder : Bool
  deriving DecidableEq

/-- A keep-alive is sent or heard. -/
inductive IdleEvent where
  | probe (legacy : Bytes)
  | hearProbe
  | echo (legacy : Bytes)
  | hearEcho
  deriving DecidableEq

namespace IdleRun

def start (up down : CryptoHandler) : IdleRun := ⟨.new up, .new down, 0, .idle⟩

/-- A keep-alive payload that is not an acknowledgement, short enough to be read. -/
def Legacy (payload : Bytes) : Prop := Message.Fits (keepAlive, payload) ∧ decodeAck payload = none

instance (payload : Bytes) : Decidable (Legacy payload) := inferInstanceAs (Decidable (_ ∧ _))

/-- One part of an exchange; `none` when it is not the next one.  The sequences are `i64`. -/
def apply (A : Aead) (peers : IdlePeers) (s : IdleRun) : IdleEvent → Option IdleRun
  | .probe legacy =>
    if s.phase = .idle ∧ s.initiator.link.writer.sequence < i64Max then
      if peers.initiator then
        some { s with
          initiator := s.initiator.send A .initiator s.responder
          exchanges := s.exchanges + 1
          phase := .probed }
      else if Legacy legacy then
        some { s with
          initiator := s.initiator.sendLegacy A legacy
          exchanges := s.exchanges + 1
          phase := .probed }
      else none
    else none
  | .hearProbe =>
    if s.phase = .probed then
      some { s with
        initiator := s.initiator.heard A
        responder := if peers.responder then s.responder.hear A s.initiator else s.responder
        phase := .heard }
    else none
  | .echo legacy =>
    if s.phase = .heard ∧ s.responder.link.writer.sequence < i64Max then
      if peers.responder then
        some { s with responder := s.responder.send A .responder s.initiator, phase := .echoed }
      else if Legacy legacy then
        some { s with responder := s.responder.sendLegacy A legacy, phase := .echoed }
      else none
    else none
  | .hearEcho =>
    if s.phase = .echoed then
      some { s with
        responder := s.responder.heard A
        initiator := if peers.initiator then s.initiator.hear A s.responder else s.initiator
        phase := .idle }
    else none

end IdleRun

/-- One event that is possible. -/
inductive IdleStep (A : Aead) (peers : IdlePeers) : IdleRun → IdleRun → Prop where
  | step (s : IdleRun) (e : IdleEvent) (s' : IdleRun) (h : s.apply A peers e = some s') : IdleStep A peers s s'

/-! ### Keep-alives on a link -/

namespace BackedWriter
variable {w : BackedWriter}

theorem slackKeep_le (rest : List Bytes) (slackPackets slackBytes keep : Nat) :
    slackKeep rest slackPackets slackBytes keep ≤ keep + (ackRetainSlackPackets - slackPackets) := by
  induction rest generalizing slackPackets slackBytes keep with
  | nil => exact Nat.le_add_right _ _
  | cons frame rest ih =>
    unfold slackKeep
    split
    · dsimp only
      split
      · exact Nat.le_add_right _ _
      · have := ih (slackPackets + 1) (slackBytes + (frame.length - 4)) (keep + 1)
        omega
    · exact Nat.le_add_right _ _

/-- What an acknowledgement leaves in the backup: what is after it, and the slack. -/
theorem length_acknowledge_le {acknowledged : Int} (hsize : w.backupSize = History.total wireLen w.backup)
    (hconn : w.connected = true) (hpos : 0 ≤ acknowledged) (hle : acknowledged ≤ w.sequence) :
    (w.acknowledge acknowledged).backup.length ≤ (w.sequence - acknowledged).toNat + ackRetainSlackPackets := by
  rw [acknowledge, if_neg (by simp [hconn]; omega), usizeOfI64_getD (by omega)]
  dsimp only
  have hkeep := slackKeep_le (w.backup.drop (min (w.sequence - acknowledged).toNat w.backup.length)) 0 0
    (min (w.sequence - acknowledged).toNat w.backup.length)
  generalize slackKeep _ 0 0 _ = keep at hkeep
  obtain ⟨n, hn, hkept, hstop, -⟩ := History.trimBack_spec wireLen (fun len _ => decide (keep < len)) w.backup
  rw [hsize, hkept]
  simp only [decide_eq_false_iff_not] at hstop
  rw [length_take]
  omega

end BackedWriter

namespace Linked
variable {A : Aead} {c : CryptoHandler} {s : Link} {n : Nat}

theorem acknowledge_same (h : Linked A c s n) (acknowledged : Int) :
    (s.writer.acknowledge acknowledged).crypto = s.writer.crypto ∧
      (s.writer.acknowledge acknowledged).connected = s.writer.connected := by
  rcases BackedWriter.acknowledge_cut acknowledged h.sealedWriter.window.size_eq with heq | ⟨-, k, -, -, u, heq⟩
  · rw [heq]
    exact ⟨rfl, rfl⟩
  · rw [heq]
    exact ⟨rfl, rfl⟩

/-- An acknowledgement cuts the backup and leaves the link alone. -/
theorem acknowledge (h : Linked A c s n) (acknowledged : Int) :
    Linked A c { s with writer := s.writer.acknowledge acknowledged } n := by
  obtain ⟨hcrypto, hconn⟩ := h.acknowledge_same acknowledged
  refine { h with
    sealedWriter := ⟨h.sealedWriter.window.acknowledge acknowledged, hcrypto.trans h.sealedWriter.crypto_eq⟩
    stream := ?_ }
  dsimp only
  rw [hconn]
  exact h.stream

theorem deliverAll (h : Linked A c s n) : Linked A c s.delivered n := by
  obtain ⟨hreader, hview⟩ := h.sealedReader.feed s.net
  have := h.deliver (k := s.net.length) hreader (by rw [take_length]; exact hview)
  rwa [drop_length] at this

end Linked

namespace BackedReader
variable {S : Sodium} {r : BackedReader}

theorem prepareReadSlice_sequences (r : BackedReader) (minSpace : Nat) :
    (r.prepareReadSlice minSpace).sequence = r.sequence ∧
      (r.prepareReadSlice minSpace).dataSequence = r.dataSequence := by
  unfold prepareReadSlice
  dsimp only
  repeat' split
  all_goals exact ⟨rfl, rfl⟩

theorem feed_sequences (r : BackedReader) (bytes : Bytes) :
    (r.feed bytes).sequence = r.sequence ∧ (r.feed bytes).dataSequence = r.dataSequence := by
  unfold feed
  split
  · exact ⟨rfl, rfl⟩
  · exact r.prepareReadSlice_sequences _

theorem restartDrained_dataSequence : r.restartDrained.dataSequence = r.dataSequence := by
  unfold restartDrained
  split <;> rfl

/-- A frame that is a keep-alive, or none, does not count as data. -/
theorem takeFrame_dataSequence {len : Nat}
    (hhd : ∀ packet, (r.takeFrame S len).1 = .ok (.packet packet) → packet.header = keepAlive) :
    (r.takeFrame S len).2.dataSequence = r.dataSequence := by
  unfold takeFrame at hhd ⊢
  dsimp only at hhd ⊢
  split
  · exact restartDrained_dataSequence
  rename_i packet crypto hdec
  rw [hdec] at hhd
  have hkeep : ¬ packet.header ≠ keepAlive := not_not_intro (hhd packet rfl)
  rw [noteData, if_neg hkeep]
  exact restartDrained_dataSequence

theorem pop_dataSequence (hhd : ∀ packet, (r.pop S).1 = .ok (.packet packet) → packet.header = keepAlive) :
    (r.pop S).2.dataSequence = r.dataSequence := by
  revert hhd
  unfold pop popLive
  dsimp only
  repeat' split
  all_goals first
    | exact fun _ => rfl
    | exact takeFrame_dataSequence

end BackedReader

/-- A link whose ends are connected and on which `n` packets were written, all keep-alives, and all read. -/
structure Settled (A : Aead) (c : CryptoHandler) (s : Link) (n : Nat) : Prop where
  linked : Linked A c s n
  length_eq : s.accepted.length = n
  writer : s.writer.connected = true
  reader : s.reader.connected = true
  replay : s.reader.replay = []
  data : s.reader.dataSequence = 0

/-- The same with one more keep-alive under way. -/
structure Sent (A : Aead) (c : CryptoHandler) (s : Link) (n : Nat) (payload : Bytes) : Prop where
  linked : Linked A c s n
  accepted : s.accepted[n]? = some (keepAlive, payload)
  length_eq : s.accepted.length = n + 1
  fits : Message.Fits (keepAlive, payload)
  writer : s.writer.connected = true
  reader : s.reader.connected = true
  replay : s.reader.replay = []
  data : s.reader.dataSequence = 0

namespace Settled
variable {A : Aead} {c : CryptoHandler} {s : Link} {n : Nat}

theorem new (c : CryptoHandler) : Settled A c (.new c true true) 0 := ⟨.new c true true, rfl, rfl, rfl, rfl, rfl⟩

theorem sequence_eq (h : Settled A c s n) : s.writer.sequence = n := by
  rw [h.linked.sealedWriter.sequence_eq, h.length_eq]

theorem write (h : Settled A c s n) {payload : Bytes} (hfits : Message.Fits (keepAlive, payload))
    (hroom : s.writer.sequence < i64Max) :
    Sent A c (s.write A keepAlive payload) n payload ∧
      (s.write A keepAlive payload).writer.acknowledged = s.writer.acknowledged ∧
      (s.write A keepAlive payload).writer.backup.length ≤ s.writer.backup.length + 1 := by
  obtain ⟨k, -, hwr, -, -⟩ := BackedWriter.writePacket_connected_cut (S := A.sodium s.log) keepAlive payload h.writer
    h.linked.sealedWriter.window.size_eq
  have hlink := h.linked.write keepAlive payload hroom
  have hlen := h.length_eq
  unfold Link.write at hlink ⊢
  rw [hwr] at hlink ⊢
  refine ⟨⟨hlink, ?_, ?_, hfits, h.writer, h.reader, h.replay, h.data⟩, rfl, ?_⟩
  · simp [← hlen]
  · simp [hlen]
  · simp only [length_take, length_cons]
    omega

theorem acknowledge (h : Settled A c s n) (acknowledged : Int) :
    Settled A c { s with writer := s.writer.acknowledge acknowledged } n := by
  exact { h with
    linked := h.linked.acknowledge acknowledged
    writer := (h.linked.acknowledge_same acknowledged).2.trans h.writer }

end Settled

/-- **A keep-alive that was sent is read**: as it was written, and nothing is left under way. -/
theorem Sent.hear {A : Aead} {c : CryptoHandler} {s : Link} {n : Nat} {payload : Bytes} (h : Sent A c s n payload) :
    s.delivered.received A = some (Message.packet (keepAlive, payload)) ∧ Settled A c (s.delivered.pop A) (n + 1) ∧
      (s.delivered.pop A).writer = s.writer := by
  obtain ⟨hreader, hview⟩ := h.linked.sealedReader.feed s.net
  have hlink := h.linked.deliverAll
  -- the whole frame has arrived, and nothing behind it
  have hbs : (s.reader.feed s.net).available = A.frame (c.advance n) (keepAlive, payload) := by
    have hstr := hlink.stream
    rw [Link.delivered] at hstr
    dsimp only at hstr
    rw [h.writer, if_pos rfl, append_nil, unreadStream_cons h.accepted, unreadStream,
      drop_eq_nil_of_le h.length_eq.le] at hstr
    rcases hstr with hstr | ⟨m, hm, hbig⟩
    · rw [hstr, Aead.frames, flatten_nil, append_nil]
    · cases h.accepted.symm.trans hm
      exact absurd h.fits hbig
  have hconn : (s.reader.feed s.net).connected = true :=
    (congrArg StreamReader.connected hview).trans h.reader
  have hrep : (s.reader.feed s.net).replay = [] := (congrArg StreamReader.replay hview).trans h.replay
  obtain ⟨-, hres, hpopped⟩ := BackedReader.pop_refines (S := A.sodium s.log) hreader.wellFormed
  have hmem : (payload, (c.advance n).bump.nonce, (c.advance n).baseKey) ∈ s.log := by
    rw [h.linked.log_eq, ← CryptoHandler.advance_succ, CryptoHandler.advance_baseKey]
    exact mem_sealedLog.mpr ⟨n, (keepAlive, payload), h.accepted, rfl, rfl, rfl⟩
  have hfr : nextFrame (s.reader.feed s.net).available =
      .frame ((A.frame (c.advance n) (keepAlive, payload)).drop 4) [] := by
    have hfro : (s.reader.feed s.net).available <+: A.frame (c.advance n) (keepAlive, payload) ++ [] := by
      rw [append_nil, hbs]
    rcases nextFrame_sealed h.fits hfro with ⟨-, hsh⟩ | ⟨more, hspl, -, hfr⟩
    · rw [hbs] at hsh
      exact absurd hsh (Nat.lt_irrefl _)
    · rw [hbs] at hspl
      rw [hfr, self_eq_append_right.mp hspl]
  have hview' : (s.reader.feed s.net).view.pop (A.sodium s.log) =
      (.ok (.packet (Message.packet (keepAlive, payload))), { (s.reader.feed s.net).view with
          crypto := (c.advance n).bump, bytes := [], sequence := (s.reader.feed s.net).view.sequence + 1 }) := by
    rw [StreamReader.pop_live hconn hrep, StreamReader.popLive_frame hconn hfr, StreamReader.takeFrame]
    have hcry : (s.reader.feed s.net).view.crypto = c.advance n := hreader.crypto_eq
    rw [hcry, decodePacket_sealed hmem]
  rw [hview'] at hres hpopped
  have hdata := BackedReader.pop_dataSequence (S := A.sodium s.log) (r := s.reader.feed s.net) fun packet hpkt => by
    rw [hres] at hpkt
    cases hpkt
    rfl
  obtain ⟨n', hnext⟩ := hlink.pop
  have hpop : s.delivered.pop A = { s with
      reader := ((s.reader.feed s.net).pop (A.sodium s.log)).2
      net := []
      popped := s.popped ++ [Message.packet (keepAlive, payload)] } := by
    unfold Link.pop Link.delivered
    dsimp only
    rcases hp : (s.reader.feed s.net).pop (A.sodium s.log) with ⟨result, reader⟩
    rw [hp] at hres
    cases hres
    rfl
  rw [hpop] at hnext ⊢
  have hn' : n' = n + 1 := by
    have h₁ := hnext.sealedReader.sequence_eq
    have h₂ : ((s.reader.feed s.net).pop (A.sodium s.log)).2.sequence = (s.reader.feed s.net).sequence + 1 :=
      congrArg StreamReader.sequence hpopped
    have h₃ := hreader.sequence_eq
    dsimp only at h₁
    omega
  refine ⟨?_, ⟨hn' ▸ hnext, h.length_eq, h.writer, ?_, ?_, ?_⟩, rfl⟩
  · unfold Link.received Link.delivered
    dsimp only
    rw [hres]
  · exact (congrArg StreamReader.connected hpopped).trans hconn
  · exact (congrArg StreamReader.replay hpopped).trans hrep
  · exact hdata.trans ((s.reader.feed_sequences s.net).2.trans h.data)

/-! ### One end of the exchange -/

namespace KeepaliveEnd
variable {A : Aead} {c : CryptoHandler} {own peer : KeepaliveEnd} {n m count held : Nat} {schedule acked : Option Int}

/-- What an end counts: the latest acknowledgement it attached and how many it did, the latest one it got, and a bound
on its backup. -/
structure Counts (e : KeepaliveEnd) (schedule : Option Int) (count : Nat) (acked : Option Int) (held : Nat) : Prop where
  schedule : e.acks.attached = schedule
  count : e.attached = count
  acked : e.link.writer.acknowledged = acked
  held : e.link.writer.backup.length ≤ held

theorem attaches_fits (attach : Bool) (a : Int) :
    Message.Fits (keepAlive, if attach then encodeAck a else []) := by
  cases attach
  · exact show 2 + 0 + macLen ≤ maxProtoLen by decide
  · have hlen : (encodeAck a).length = 8 := length_beBytes _ _
    show 2 + (encodeAck a).length + macLen ≤ maxProtoLen
    rw [hlen]
    decide

section
variable (h : own.Counts schedule count acked held) (hlink : Settled A c own.link n)
include h hlink

/-- **A keep-alive is sent**, with an acknowledgement of what was read when the schedule attaches one. -/
theorem Counts.send (side : AckSide) {c' : CryptoHandler} (hpeer : Settled A c' peer.link m)
    (hroom : own.link.writer.sequence < i64Max) :
    let attach := AckSchedule.attaches ⟨schedule⟩ side m 0 acked.isSome false
    Sent A c (own.send A side peer).link n (if attach then encodeAck m else []) ∧
      (own.send A side peer).Counts (if attach then some (m : Int) else schedule)
        (count + if attach then 1 else 0) acked (held + 1) := by
  intro attach
  obtain ⟨rfl, rfl, rfl, hheld⟩ := h
  have hnext : own.acks.next side peer.link.reader.sequence peer.link.reader.dataSequence
      own.link.writer.deliveryBacklog.isSome false =
      (if attach then some (encodeAck m) else none, ⟨if attach then some (m : Int) else own.acks.attached⟩) := by
    have hback : own.link.writer.deliveryBacklog.isSome = own.link.writer.acknowledged.isSome := by
      rw [BackedWriter.deliveryBacklog, Option.isSome_map]
    rw [hpeer.linked.sealedReader.sequence_eq, hpeer.data, hback, AckSchedule.next]
    show (if attach = true then _ else _) = _
    split
    · rfl
    · rfl
  unfold send
  rw [hnext]
  dsimp only
  have hpl : ackBytes (if attach then some (encodeAck m) else none) = if attach then encodeAck m else [] := by
    cases attach <;> rfl
  rw [hpl]
  obtain ⟨hsent, hack, hlen⟩ := hlink.write (attaches_fits attach m) hroom
  refine ⟨hsent, rfl, ?_, hack, hlen.trans (Nat.succ_le_succ hheld)⟩
  cases attach <;> rfl

/-- **A keep-alive is read**: its acknowledgement cuts the backup to what is after it and the slack. -/
theorem Counts.hear {c' : CryptoHandler} {attach : Bool} {a : Int}
    (hpeer : Sent A c' peer.link m (if attach then encodeAck a else [])) (hpos : 0 ≤ a) (hle : a ≤ n) :
    Settled A c (own.hear A peer).link n ∧
      (own.hear A peer).Counts schedule count (if attach then some a else acked)
        (if attach then (n - a).toNat + ackRetainSlackPackets else held) := by
  obtain ⟨hpkt, -, -⟩ := hpeer.hear
  have hseq := hlink.sequence_eq
  have hbd := hlink.linked.bound
  rw [hlink.length_eq] at hbd
  unfold KeepaliveEnd.hear
  rw [hpkt, Option.bind_some]
  cases attach with
  | false => exact ⟨hlink, h⟩
  | true =>
    have hdec : decodeAck (Message.packet (keepAlive, if true then encodeAck a else [])).payload = some a :=
      decodeAck_encodeAck hpos (hle.trans hbd)
    rw [hdec]
    refine ⟨hlink.acknowledge a, h.schedule, h.count, ?_, ?_⟩
    · exact (BackedWriter.acknowledge_bytes hlink.writer hpos (by omega)).1
    · have := BackedWriter.length_acknowledge_le hlink.linked.sealedWriter.window.size_eq hlink.writer hpos
        (by omega : a ≤ own.link.writer.sequence)
      rw [hseq] at this
      exact this

end

theorem Counts.heard (h : peer.Counts schedule count acked held) {payload : Bytes} (hsent : Sent A c peer.link n payload) :
    Settled A c (peer.heard A).link (n + 1) ∧ (peer.heard A).Counts schedule count acked held := by
  obtain ⟨-, hset, hwriter⟩ := hsent.hear
  refine ⟨hset, h.schedule, h.count, ?_, ?_⟩
  · rw [KeepaliveEnd.heard, hwriter]
    exact h.acked
  · rw [KeepaliveEnd.heard, hwriter]
    exact h.held

end KeepaliveEnd

/-! ### The schedules in step -/

/-- The acknowledgement that the latest of `k` keep-alives to carry one carried: the first does, and every 16th after
it. -/
def lastProbeAck (k : Nat) : Option Int := if k = 0 then none else some ((k - 1) / 16 * 16 : Nat)

def lastEchoAck (k : Nat) : Option Int := if k = 0 then none else some ((k - 1) / 16 * 16 + 1 : Nat)

/-- How many of `k` keep-alives carried one. -/
def attachedOf (k : Nat) : Nat := (k + 15) / 16

/-- Bounds on the backups after `k` exchanges. -/
def heldProbes (k : Nat) : Nat := if k = 0 then 0 else ackRetainSlackPackets + (k - 1) % 16

def heldEchoes (k : Nat) : Nat := if k = 0 then 0 else ackRetainSlackPackets + (k - 1) % 16 + 1

/-- With a peer that acknowledges, an end that has acknowledged does so again 16 packets later. -/
theorem attaches_again (side : AckSide) (attached : Nat) (sequence : Int) :
    AckSchedule.attaches ⟨some attached⟩ side sequence 0 true false = decide (16 ≤ sequence - attached) := by
  have hfloor : (ackRetainFloorPackets : Int) = 16 := rfl
  have hdata : ¬(attached : Int) < 0 := by omega
  simp [AckSchedule.attaches, hfloor, hdata]

section
variable (k : Nat)

theorem probe_attaches :
    AckSchedule.attaches ⟨lastProbeAck k⟩ .initiator k 0 (lastEchoAck k).isSome false = decide (k % 16 = 0) := by
  unfold lastProbeAck lastEchoAck
  by_cases hk : k = 0
  · subst hk
    rfl
  rw [if_neg hk, if_neg hk, Option.isSome_some, attaches_again, decide_eq_decide]
  omega

theorem echo_attaches :
    AckSchedule.attaches ⟨lastEchoAck k⟩ .responder (k + 1 : Nat) 0 (lastProbeAck (k + 1)).isSome false =
      decide (k % 16 = 0) := by
  unfold lastProbeAck lastEchoAck
  by_cases hk : k = 0
  · subst hk
    rfl
  rw [if_neg hk, if_neg (Nat.succ_ne_zero k), Option.isSome_some, attaches_again, decide_eq_decide]
  omega

theorem lastProbeAck_succ :
    (if decide (k % 16 = 0) = true then some (k : Int) else lastProbeAck k) = lastProbeAck (k + 1) := by
  unfold lastProbeAck
  rw [if_neg (Nat.succ_ne_zero k)]
  split <;> rename_i hturn <;> rw [decide_eq_true_eq] at hturn
  · congr 1
    omega
  · rw [if_neg (by omega)]
    congr 2
    omega

theorem lastEchoAck_succ :
    (if decide (k % 16 = 0) = true then some ((k + 1 : Nat) : Int) else lastEchoAck k) = lastEchoAck (k + 1) := by
  unfold lastEchoAck
  rw [if_neg (Nat.succ_ne_zero k)]
  split <;> rename_i hturn <;> rw [decide_eq_true_eq] at hturn
  · congr 2
    omega
  · rw [if_neg (by omega)]
    congr 2
    omega

theorem attachedOf_succ : (attachedOf k + if decide (k % 16 = 0) = true then 1 else 0) = attachedOf (k + 1) := by
  unfold attachedOf
  split <;> rename_i hturn <;> rw [decide_eq_true_eq] at hturn <;> omega

theorem heldProbes_succ :
    (if decide (k % 16 = 0) = true then ackRetainSlackPackets else heldProbes k + 1) = heldProbes (k + 1) := by
  unfold heldProbes
  rw [if_neg (Nat.succ_ne_zero k)]
  split <;> rename_i hturn <;> rw [decide_eq_true_eq] at hturn
  · omega
  · rw [if_neg (by omega)]
    omega

theorem heldEchoes_succ :
    (if decide (k % 16 = 0) = true then ackRetainSlackPackets else heldEchoes k) + 1 = heldEchoes (k + 1) := by
  unfold heldEchoes
  rw [if_neg (Nat.succ_ne_zero k)]
  split <;> rename_i hturn <;> rw [decide_eq_true_eq] at hturn
  · omega
  · rw [if_neg (by omega)]
    omega

end

/-- Where an idle session between two ends that acknowledge stands, `k` exchanges after its start. -/
def IdleRun.InStep (A : Aead) (up down : CryptoHandler) (s : IdleRun) : Prop :=
  ∃ k, match s.phase with
    | .idle => s.exchanges = k ∧
        Settled A up s.initiator.link k ∧ Settled A down s.responder.link k ∧
        s.initiator.Counts (lastProbeAck k) (attachedOf k) (lastEchoAck k) (heldProbes k) ∧
        s.responder.Counts (lastEchoAck k) (attachedOf k) (lastProbeAck k) (heldEchoes k)
    | .probed => s.exchanges = k + 1 ∧
        Sent A up s.initiator.link k (if decide (k % 16 = 0) then encodeAck k else []) ∧
        Settled A down s.responder.link k ∧
        s.initiator.Counts (lastProbeAck (k + 1)) (attachedOf (k + 1)) (lastEchoAck k) (heldProbes k + 1) ∧
        s.responder.Counts (lastEchoAck k) (attachedOf k) (lastProbeAck k) (heldEchoes k)
    | .heard => s.exchanges = k + 1 ∧
        Settled A up s.initiator.link (k + 1) ∧ Settled A down s.responder.link k ∧
        s.initiator.Counts (lastProbeAck (k + 1)) (attachedOf (k + 1)) (lastEchoAck k) (heldProbes k + 1) ∧
        s.responder.Counts (lastEchoAck k) (attachedOf k) (lastProbeAck (k + 1))
          (if decide (k % 16 = 0) then ackRetainSlackPackets else heldEchoes k)
    | .echoed => s.exchanges = k + 1 ∧
        Settled A up s.initiator.link (k + 1) ∧
        Sent A down s.responder.link k (if decide (k % 16 = 0) then encodeAck (k + 1 : Nat) else []) ∧
        s.initiator.Counts (lastProbeAck (k + 1)) (attachedOf (k + 1)) (lastEchoAck k) (heldProbes k + 1) ∧
        s.responder.Counts (lastEchoAck (k + 1)) (attachedOf (k + 1)) (lastProbeAck (k + 1)) (heldEchoes (k + 1))

namespace IdleRun
variable {A : Aead} {up down : CryptoHandler} {s s' : IdleRun}

theorem InStep.start (A : Aead) (up down : CryptoHandler) : (IdleRun.start up down).InStep A up down :=
  ⟨0, rfl, .new up, .new down, ⟨rfl, rfl, rfl, Nat.le_refl 0⟩, ⟨rfl, rfl, rfl, Nat.le_refl 0⟩⟩

theorem InStep.apply (h : s.InStep A up down) {e : IdleEvent} (he : s.apply A ⟨true, true⟩ e = some s') :
    s'.InStep A up down := by
  obtain ⟨k, h⟩ := h
  cases e with
  | probe legacy =>
    obtain ⟨hph, rfl⟩ := Option.ite_some_none_eq_some.mp he
    rw [hph.1] at h
    obtain ⟨hk, hup, hdown, hprobes, hechoes⟩ := h
    obtain ⟨hsent, hcnt⟩ := hprobes.send hup .initiator hdown hph.2
    rw [probe_attaches] at hsent hcnt
    rw [lastProbeAck_succ, attachedOf_succ] at hcnt
    exact ⟨k, by rw [hk], hsent, hdown, hcnt, hechoes⟩
  | hearProbe =>
    obtain ⟨hph, rfl⟩ := Option.ite_some_none_eq_some.mp he
    rw [hph] at h
    obtain ⟨hk, hup, hdown, hprobes, hechoes⟩ := h
    obtain ⟨hset, hcnt⟩ := hprobes.heard hup
    obtain ⟨hset', hcnt'⟩ := hechoes.hear hdown hup (by omega) (by omega)
    rw [lastProbeAck_succ, Int.sub_self] at hcnt'
    exact ⟨k, hk, hset, hset', hcnt, by simpa using hcnt'⟩
  | echo legacy =>
    obtain ⟨hph, rfl⟩ := Option.ite_some_none_eq_some.mp he
    rw [hph.1] at h
    obtain ⟨hk, hup, hdown, hprobes, hechoes⟩ := h
    obtain ⟨hsent, hcnt⟩ := hechoes.send hdown .responder hup hph.2
    rw [echo_attaches] at hsent hcnt
    rw [lastEchoAck_succ, attachedOf_succ, heldEchoes_succ] at hcnt
    exact ⟨k, hk, hup, hsent, hprobes, hcnt⟩
  | hearEcho =>
    obtain ⟨hph, rfl⟩ := Option.ite_some_none_eq_some.mp he
    rw [hph] at h
    obtain ⟨hk, hup, hdown, hprobes, hechoes⟩ := h
    obtain ⟨hset, hcnt⟩ := hechoes.heard hdown
    obtain ⟨hset', hcnt'⟩ := hprobes.hear hup hdown (by omega) (by omega)
    rw [lastEchoAck_succ, Int.sub_self] at hcnt'
    refine ⟨k + 1, hk, hset', hset, ?_, hcnt⟩
    rw [← heldProbes_succ]
    simpa using hcnt'

/-- What the counts bound. -/
theorem InStep.bounds (h : s.InStep A up down) :
    s.initiator.link.writer.backup.length ≤ ackRetainSlackPackets + ackRetainFloorPackets + 1 ∧
      s.responder.link.writer.backup.length ≤ ackRetainSlackPackets + ackRetainFloorPackets + 1 ∧
      s.initiator.attached ≤ s.exchanges / ackRetainFloorPackets + 1 ∧
      s.responder.attached ≤ s.exchanges / ackRetainFloorPackets + 1 := by
  have hfloor : ackRetainFloorPackets = 16 := rfl
  have hprobes : ∀ k, heldProbes k ≤ ackRetainSlackPackets + 15 := by
    intro k
    unfold heldProbes
    split <;> omega
  have hechoes : ∀ k, heldEchoes k ≤ ackRetainSlackPackets + 16 := by
    intro k
    unfold heldEchoes
    split <;> omega
  obtain ⟨k, h⟩ := h
  have hk := hprobes k
  have hk' := hechoes k
  have hk'' := hechoes (k + 1)
  rw [hfloor]
  unfold attachedOf at h
  split at h <;> obtain ⟨hk, -, -, ⟨-, hcnt, -, hheld⟩, -, hcnt', -, hheld'⟩ := h
  · omega
  · omega
  · split at hheld' <;> omega
  · omega

end IdleRun

/-! ### A peer that never acknowledges -/

namespace Link
variable {A : Aead} {s : Link}

theorem write_cases (header : UInt8) (payload : Bytes) :
    (s.write A header payload).writer.acknowledged = s.writer.acknowledged ∧
      ((s.write A header payload).accepted = s.accepted ∨
        (s.write A header payload).accepted = s.accepted ++ [(header, payload)]) := by
  unfold write
  cases hacc : s.writer.accepts payload.length with
  | false =>
    rw [BackedWriter.writePacket_refused hacc]
    exact ⟨rfl, .inl rfl⟩
  | true =>
    obtain ⟨-, -, -, -, hack⟩ :=
      BackedWriter.writePacket_accepted (S := A.sodium s.log) header hacc
    rcases hwr : s.writer.writePacket (A.sodium s.log) header payload with ⟨outcome, writer⟩
    rw [hwr] at hack
    cases outcome with
    | skipped => exact ⟨hack, .inl rfl⟩
    | bufferedOnly => exact ⟨hack, .inr rfl⟩
    | send frame => exact ⟨hack, .inr rfl⟩

theorem pop_writer : (s.pop A).writer = s.writer ∧ (s.pop A).accepted = s.accepted := by
  unfold pop
  split <;> exact ⟨rfl, rfl⟩

theorem pop_popped {packet : Packet} (h : s.received A = some packet) : (s.pop A).popped = s.popped ++ [packet] := by
  unfold received at h
  unfold pop
  rcases hpop : s.reader.pop (A.sodium s.log) with ⟨result, reader⟩
  rw [hpop] at h
  dsimp only at h
  split at h
  · cases h
    rfl
  · cases h

end Link

namespace KeepaliveEnd
variable {A : Aead} {c : CryptoHandler} {own peer : KeepaliveEnd} {side : AckSide}

/-- None of the keep-alives of the end is an acknowledgement. -/
structure Silent (A : Aead) (c : CryptoHandler) (e : KeepaliveEnd) : Prop where
  linked : ∃ n, Linked A c e.link n
  silent : ∀ message ∈ e.link.accepted, decodeAck message.2 = none

theorem Silent.heard (h : peer.Silent A c) : (peer.heard A).Silent A c := by
  obtain ⟨n, hlink⟩ := h.linked
  refine ⟨hlink.deliverAll.pop, ?_⟩
  rw [KeepaliveEnd.heard, Link.pop_writer.2]
  exact h.silent

theorem Silent.sendLegacy (h : peer.Silent A c) {payload : Bytes} (hlegacy : decodeAck payload = none)
    (hroom : peer.link.writer.sequence < i64Max) : (peer.sendLegacy A payload).Silent A c := by
  obtain ⟨n, hlink⟩ := h.linked
  refine ⟨⟨n, hlink.write keepAlive payload hroom⟩, fun message hmsg => ?_⟩
  rw [KeepaliveEnd.sendLegacy] at hmsg
  rcases (Link.write_cases keepAlive payload).2 with hsame | hmore
  · rw [hsame] at hmsg
    exact h.silent message hmsg
  · rw [hmore] at hmsg
    exact forall_mem_append.mpr ⟨h.silent, forall_mem_singleton.mpr hlegacy⟩ message hmsg

/-- What is read from such an end changes nothing. -/
theorem Silent.hear (h : peer.Silent A c) : own.hear A peer = own := by
  obtain ⟨n, hlink⟩ := h.linked
  obtain ⟨n', hnext⟩ := hlink.deliverAll.pop
  unfold KeepaliveEnd.hear
  cases hreceived : peer.link.delivered.received A with
  | none => rfl
  | some packet =>
    -- a packet that is read is one that was written
    have hmem : packet ∈ peer.link.accepted.map Message.packet := by
      have hdel := hnext.delivered
      rw [Link.pop_popped hreceived, Link.pop_writer.2, append_assoc] at hdel
      have htak : packet ∈ (peer.link.delivered.accepted.take n').map Message.packet := by
        rw [← hdel]
        simp
      exact map_subset _ (take_subset _ _) htak
    obtain ⟨message, hmsg, rfl⟩ := mem_map.mp hmem
    rw [Option.bind_some]
    have hnone : decodeAck message.packet.payload = none := h.silent message hmsg
    rw [hnone]

/-- An end that was never acknowledged: the initiator attached at most one acknowledgement, the responder none. -/
structure Unacked (side : AckSide) (e : KeepaliveEnd) : Prop where
  acked : e.link.writer.acknowledged = none
  responder : side = .responder → e.acks.attached = none ∧ e.attached = 0
  initiator : e.attached ≤ if e.acks.attached = none then 0 else 1

theorem Unacked.send (h : own.Unacked side) : (own.send A side peer).Unacked side := by
  have hback : own.link.writer.deliveryBacklog.isSome = false := by
    rw [BackedWriter.deliveryBacklog, h.acked]
    rfl
  unfold KeepaliveEnd.send AckSchedule.next
  rw [hback]
  have hnone : own.acks.attaches side peer.link.reader.sequence peer.link.reader.dataSequence false false =
      (own.acks.attached.isNone && decide (side = .initiator)) := by
    unfold AckSchedule.attaches
    cases own.acks.attached <;> simp
  rw [hnone]
  have hinitiator := h.initiator
  cases hatt : own.acks.attached with
  | some attached =>
    refine ⟨?_, fun hside => ?_, ?_⟩
    · exact (Link.write_cases _ _).1.trans h.acked
    · rw [(h.responder hside).1] at hatt
      cases hatt
    · simpa [hatt] using hinitiator
  | none =>
    rw [hatt, if_pos rfl] at hinitiator
    cases side with
    | initiator =>
      refine ⟨(Link.write_cases _ _).1.trans h.acked, by simp, ?_⟩
      simpa using hinitiator
    | responder =>
      refine ⟨(Link.write_cases _ _).1.trans h.acked, fun _ => ?_, ?_⟩
      · simpa using h.responder rfl
      · simpa [hatt] using hinitiator

theorem Unacked.heard (h : own.Unacked side) : (own.heard A).Unacked side := by
  refine { h with acked := ?_ }
  rw [KeepaliveEnd.heard, Link.pop_writer.1]
  exact h.acked

end KeepaliveEnd

namespace IdleRun
variable {A : Aead} {up down : CryptoHandler} {s s' : IdleRun}

/-- A responder that never acknowledges. -/
theorem unacked_initiator_apply {e : IdleEvent} (h : s.initiator.Unacked .initiator ∧ s.responder.Silent A down)
    (he : s.apply A ⟨true, false⟩ e = some s') :
    s'.initiator.Unacked .initiator ∧ s'.responder.Silent A down := by
  obtain ⟨hown, hpeer⟩ := h
  cases e with
  | probe legacy =>
    obtain ⟨-, rfl⟩ := Option.ite_some_none_eq_some.mp he
    exact ⟨hown.send, hpeer⟩
  | hearProbe =>
    obtain ⟨-, rfl⟩ := Option.ite_some_none_eq_some.mp he
    exact ⟨hown.heard, hpeer⟩
  | echo legacy =>
    rw [IdleRun.apply] at he
    split at he
    next hph =>
      dsimp only at he
      rw [if_neg Bool.false_ne_true] at he
      obtain ⟨hlegacy, rfl⟩ := Option.ite_some_none_eq_some.mp he
      exact ⟨hown, hpeer.sendLegacy hlegacy.2 hph.2⟩
    · cases he
  | hearEcho =>
    obtain ⟨-, rfl⟩ := Option.ite_some_none_eq_some.mp he
    dsimp only
    rw [if_pos rfl, hpeer.hear]
    exact ⟨hown, hpeer.heard⟩

/-- An initiator that never acknowledges. -/
theorem unacked_responder_apply {e : IdleEvent} (h : s.responder.Unacked .responder ∧ s.initiator.Silent A up)
    (he : s.apply A ⟨false, true⟩ e = some s') :
    s'.responder.Unacked .responder ∧ s'.initiator.Silent A up := by
  obtain ⟨hown, hpeer⟩ := h
  cases e with
  | probe legacy =>
    rw [IdleRun.apply] at he
    split at he
    next hph =>
      dsimp only at he
      rw [if_neg Bool.false_ne_true] at he
      obtain ⟨hlegacy, rfl⟩ := Option.ite_some_none_eq_some.mp he
      exact ⟨hown, hpeer.sendLegacy hlegacy.2 hph.2⟩
    · cases he
  | hearProbe =>
    obtain ⟨-, rfl⟩ := Option.ite_some_none_eq_some.mp he
    dsimp only
    rw [if_pos rfl, hpeer.hear]
    exact ⟨hown, hpeer.heard⟩
  | echo legacy =>
    obtain ⟨-, rfl⟩ := Option.ite_some_none_eq_some.mp he
    exact ⟨hown.send, hpeer⟩
  | hearEcho =>
    obtain ⟨-, rfl⟩ := Option.ite_some_none_eq_some.mp he
    exact ⟨hown.heard, hpeer⟩

end IdleRun

/-- **An idle session stays small.**  In every run of keep-alive exchanges between two ends that acknowledge, neither
backup ever holds more than the slack, the floor and one packet, and neither end attaches more than one
acknowledgement and one for every 16 exchanges.  An initiator whose peer never acknowledges attaches at most one, such
a responder none. -/
theorem idle_keepalives_bounded (A : Aead) (up down : CryptoHandler) (peers : IdlePeers) {s : IdleRun}
    (hrun : Relation.ReflTransGen (IdleStep A peers) (.start up down) s) :
    (peers.initiator = true → peers.responder = true →
      s.initiator.link.writer.backup.length ≤ ackRetainSlackPackets + ackRetainFloorPackets + 1 ∧
      s.responder.link.writer.backup.length ≤ ackRetainSlackPackets + ackRetainFloorPackets + 1 ∧
      s.initiator.attached ≤ s.exchanges / ackRetainFloorPackets + 1 ∧
      s.responder.attached ≤ s.exchanges / ackRetainFloorPackets + 1) ∧
    (peers.initiator = true → peers.responder = false → s.initiator.attached ≤ 1) ∧
    (peers.initiator = false → peers.responder = true → s.responder.attached = 0) := by
  obtain ⟨initiator, responder⟩ := peers
  refine ⟨?_, ?_, ?_⟩
  · rintro rfl rfl
    have h := reach_invariant (P := IdleRun.InStep A up down) hrun (.start A up down) fun _ _ h hstep => by
      obtain ⟨e, _, he⟩ := hstep
      exact h.apply he
    exact h.bounds
  · rintro rfl rfl
    have h := reach_invariant (P := fun s => s.initiator.Unacked .initiator ∧ s.responder.Silent A down) hrun
      ⟨⟨rfl, nofun, Nat.le_refl 0⟩, ⟨0, .new down true true⟩, nofun⟩ fun _ _ h hstep => by
        obtain ⟨e, _, he⟩ := hstep
        exact IdleRun.unacked_initiator_apply h he
    have hle := h.1.initiator
    split at hle <;> omega
  · rintro rfl rfl
    have h := reach_invariant (P := fun s => s.responder.Unacked .responder ∧ s.initiator.Silent A up) hrun
      ⟨⟨rfl, fun _ => ⟨rfl, rfl⟩, Nat.le_refl 0⟩, ⟨0, .new up true true⟩, nofun⟩ fun _ _ h hstep => by
        obtain ⟨e, _, he⟩ := hstep
        exact IdleRun.unacked_responder_apply h he
    exact (h.1.responder rfl).2

/-- `n` exchanges. -/
def idleEvents (n : Nat) : List IdleEvent :=
  (List.replicate n [.probe [], .hearProbe, .echo [], .hearEcho]).flatten

def idleAfter (peers : IdlePeers) (n : Nat) : IdleRun :=
  (execEvents (IdleRun.apply Aead.plain peers) (.start (.new zeroKey 0) (.new zeroKey 1)) (idleEvents n)).getD
    (.start (.new zeroKey 0) (.new zeroKey 1))

/-- The second acknowledgement of each side is in the 17th exchange. -/
theorem idle_keepalives_bounded_seventeen :
    let s := idleAfter ⟨true, true⟩ 17
    (s.exchanges = 17 ∧ s.initiator.attached = 2 ∧ s.responder.attached = 2) ∧
      s.initiator.attached ≤ s.exchanges / ackRetainFloorPackets + 1 :=
  ⟨by decide +kernel,
    ((idle_keepalives_bounded Aead.plain _ _ ⟨true, true⟩
      (reach_getD .step (idleEvents 17) (by decide +kernel))).1 rfl rfl).2.2.1⟩

end EternalTerminal
